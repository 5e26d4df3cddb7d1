import SdWan.Application
import SdWan.Library.Transition

/-!
# The traffic of the sampled applications

Two parts of the program consume the samples of a `SinApplication`: the walk of
`enqueuePacketsForCurrentSample`, for all strategies but the linear one, and `getTotalData`, from
which `RunSimulation` builds the static application of the linear strategy. The walk takes the
samples of the seconds before `simulationDurationInSeconds`, the total also counts the sample of
that last second.
-/

namespace SdWan

namespace SinApplication

/-- The shape of the vector that `generateValues` builds: the loop over the seconds includes the
last one. -/
def Sampled (app : SinApplication) : Prop :=
  app.sinValues.map (·.1.toNat) = List.range (Utils.simulationDurationInSeconds + 1)

/-- What `RunSimulation` hands to the linear strategy instead. The constructor does not initialise
`allPacketsGenerated`. -/
def staticApplication (app : SinApplication) (allPacketsGenerated : Bool) :
    SDWanStaticApplication where
  applicationId := app.applicationId
  requiredDelay := app.requiredDelay
  errorRate := app.errorRate
  amountOfPacketsToSend := app.getTotalData
  requiredDataRate := app.getRequiredDataRate
  allPacketsGenerated := allPacketsGenerated

/-- The packets of the first `n` samples. -/
def packetsBefore (app : SinApplication) (n : ℕ) : ℕ :=
  ((app.sinValues.take n).map (·.2.toNat)).sum

theorem packetsBefore_succ {app : SinApplication} {n : ℕ} (h : n < app.sinValues.length) :
    app.packetsBefore (n + 1) = app.packetsBefore n + app.sinValues[n].2.toNat := by
  rw [packetsBefore, List.take_add_one, List.getElem?_eq_getElem h, List.map_append,
    List.sum_append]
  simp [packetsBefore]

theorem getTotalData_eq (app : SinApplication) :
    app.getTotalData = uint32 (app.packetsBefore app.sinValues.length) := by
  rw [packetsBefore, List.take_length]
  exact foldl_uint32 _ app.sinValues

theorem generatedPackets_staticApplication (app : SinApplication) (b : Bool) :
    (app.staticApplication b).onApplicationStart.generatedPackets = app.getTotalData := by
  have hgenerated := SDWanApplication.generatedPackets_pushPackets
    (app.staticApplication b).toSDWanApplication 0 app.getTotalData rfl
  have htotal : uint32 app.getTotalData = app.getTotalData := by
    rw [getTotalData_eq, uint32_uint32]
  rw [Nat.zero_add, htotal] at hgenerated
  exact hgenerated

/-! ## The walk -/

/-- Where the walk over the samples of `app` stands. -/
structure Walked (app b : SinApplication) : Prop where
  sinValues : b.sinValues = app.sinValues
  currentSample_le : b.currentSample ≤ Utils.simulationDurationInSeconds
  finished : b.allPacketsGenerated = decide (b.currentSample = Utils.simulationDurationInSeconds)
  generated : b.generatedPackets = uint32 (app.packetsBefore b.currentSample)

theorem walked_of_fresh {app : SinApplication} (h : (Application.sin app).Fresh) :
    Walked app app := by
  obtain ⟨-, hgenerated, hsample, hfinished⟩ := h
  refine ⟨rfl, ?_, ?_, ?_⟩
  · rw [hsample]
    exact Nat.zero_le _
  · rw [hsample, hfinished]
    rfl
  · rw [hsample]
    exact hgenerated

theorem Walked.enqueue {app b b' : SinApplication} (h : Walked app b)
    (hb : b.enqueuePacketsForCurrentSample = .ok b') : Walked app b' := by
  obtain ⟨-, rfl⟩ | ⟨hlt, hleft, rfl⟩ := enqueuePacketsForCurrentSample_cases hb
  · exact h
  have hne : b.currentSample ≠ Utils.simulationDurationInSeconds := by
    rw [h.finished, decide_eq_false_iff_not] at hleft
    exact hleft
  refine ⟨h.sinValues, ?_, rfl, ?_⟩
  · exact Nat.lt_of_le_of_ne h.currentSample_le hne
  · have hlt' : b.currentSample < app.sinValues.length := h.sinValues ▸ hlt
    rw [packetsBefore_succ hlt']
    simp only [h.sinValues]
    exact b.generatedPackets_pushPackets _ _ h.generated

end SinApplication

namespace Application

/-! ## The calls that an application receives -/

inductive Access
  | onApplicationStart
  | update
  | pop

/-- The sender starts and updates an application, a strategy takes packets out of its queue. -/
inductive Accessed : Application → Access → Application → Prop
  | onApplicationStart {app app' : Application} :
      app.onApplicationStart = .ok app' → Accessed app .onApplicationStart app'
  | update {app app' : Application} : app.update = .ok app' → Accessed app .update app'
  | pop {app : Application} {p : ℕ} {rest : List ℕ} :
      app.pendingpackets = p :: rest → Accessed app .pop (app.setPending rest)

/-- After some calls `app` has become `app'`, and only now reports that it has stopped. -/
def FirstStops (app app' : Application) : Prop :=
  ∃ b a, Transition.Steps Accessed app b ∧ b.getHasStoppedGeneratingData = false ∧
    Accessed b a app' ∧ app'.getHasStoppedGeneratingData = true

theorem sin_of_accessed {app : SinApplication} {b b' : Application} {a : Access}
    (hb : ∃ s, b = .sin s ∧ SinApplication.Walked app s) (h : Accessed b a b') :
    ∃ s, b' = .sin s ∧ SinApplication.Walked app s := by
  obtain ⟨s, rfl, hs⟩ := hb
  cases h with
  | onApplicationStart h =>
    obtain ⟨s', hs', h⟩ := Result.bind_eq_ok.mp h
    exact ⟨s', (Except.ok.inj h).symm, hs.enqueue hs'⟩
  | update h =>
    unfold update at h
    split_ifs at h
    · exact ⟨s, (Except.ok.inj h).symm, hs⟩
    · obtain ⟨s', hs', h⟩ := Result.bind_eq_ok.mp h
      exact ⟨s', (Except.ok.inj h).symm, hs.enqueue hs'⟩
  | pop h => exact ⟨_, rfl, hs.sinValues, hs.currentSample_le, hs.finished, hs.generated⟩

/-- When a sampled application stops, it has generated the packets of all samples but the last. -/
theorem generatedPackets_of_firstStops {app : SinApplication} {app' : Application}
    (hfresh : (sin app).Fresh) (h : FirstStops (.sin app) app') :
    app'.generatedPackets = uint32 (app.packetsBefore Utils.simulationDurationInSeconds) := by
  obtain ⟨b, a, hsteps, -, hlast, hstopped⟩ := h
  have hb : ∃ s, b = .sin s ∧ SinApplication.Walked app s :=
    hsteps.keeps (fun _ _ _ hx hxy => sin_of_accessed hx hxy)
      ⟨app, rfl, SinApplication.walked_of_fresh hfresh⟩
  obtain ⟨s, rfl, hs⟩ := sin_of_accessed hb hlast
  have hfinished := ((getHasStoppedGeneratingData_iff _).mp hstopped).2
  have hsample : s.currentSample = Utils.simulationDurationInSeconds :=
    of_decide_eq_true (hs.finished.symm.trans hfinished)
  rw [← hsample]
  exact hs.generated

/-! ## Some calls lead to the end of the walk -/

theorem exists_walked {app : SinApplication} (hfresh : (sin app).Fresh)
    (hlength : Utils.simulationDurationInSeconds ≤ app.sinValues.length) {n : ℕ}
    (hn : n ≤ Utils.simulationDurationInSeconds) :
    ∃ b, Transition.Steps Accessed (.sin app) (.sin b) ∧ SinApplication.Walked app b ∧
      b.currentSample = n := by
  induction n with
  | zero => exact ⟨app, .refl, SinApplication.walked_of_fresh hfresh, hfresh.2.2.1⟩
  | succ n ih =>
    obtain ⟨b, hsteps, hb, hsample⟩ := ih (by omega)
    have hleft : b.allPacketsGenerated = false := by
      rw [hb.finished, hsample, decide_eq_false_iff_not]
      omega
    have hrunning : (sin b).getHasStoppedGeneratingData = false := by
      rw [getHasStoppedGeneratingData, SinApplication.getHasStoppedGeneratingData, hleft,
        Bool.and_false]
    have hlt : b.currentSample < b.sinValues.length := by
      rw [hb.sinValues]
      omega
    obtain ⟨b', henqueue, hnext⟩ : ∃ b', b.enqueuePacketsForCurrentSample = .ok b' ∧
        b'.currentSample = b.currentSample + 1 := by
      rw [SinApplication.enqueuePacketsForCurrentSample, hleft, if_neg Bool.false_ne_true,
        vectorAt_of_lt hlt]
      exact ⟨_, rfl, rfl⟩
    have hupdate : (sin b).update = .ok (.sin b') := by
      rw [update, hrunning, if_neg Bool.false_ne_true, onUpdate, SinApplication.onUpdate, henqueue]
      rfl
    exact ⟨b', hsteps.tail ⟨_, .update hupdate⟩, hb.enqueue henqueue, by rw [hnext, hsample]⟩

theorem steps_pop (app : Application) :
    Transition.Steps Accessed app (app.setPending []) := by
  cases hpending : app.pendingpackets with
  | nil => rw [← hpending, setPending_self]; exact .refl
  | cons p rest =>
    induction rest generalizing app p with
    | nil => exact .single ⟨_, .pop hpending⟩
    | cons q rest ih =>
      have hrest := ih (app.setPending (q :: rest)) q (pendingpackets_setPending _ _)
      rw [setPending_setPending] at hrest
      exact .head ⟨_, .pop hpending⟩ hrest

theorem exists_firstStops {app : SinApplication} (hfresh : (sin app).Fresh)
    (hlength : Utils.simulationDurationInSeconds ≤ app.sinValues.length) :
    ∃ app', FirstStops (.sin app) app' := by
  obtain ⟨b, hsteps, hb, hsample⟩ := exists_walked hfresh hlength le_rfl
  have hdone : b.allPacketsGenerated = true := by
    rw [hb.finished, hsample, decide_eq_true_iff]
  have hstart : ¬ (sin app).getHasStoppedGeneratingData = true := by
    rw [getHasStoppedGeneratingData_iff]
    exact fun h => Bool.false_ne_true (hfresh.2.2.2.symm.trans h.2)
  have hend : ((sin b).setPending []).getHasStoppedGeneratingData = true :=
    (getHasStoppedGeneratingData_iff _).mpr ⟨pendingpackets_setPending _ _, hdone⟩
  obtain ⟨u, a, v, hu, hleft, hv, hstopped⟩ := Transition.Steps.exists_enters
    (P := fun app => app.getHasStoppedGeneratingData = true) (hsteps.trans (steps_pop _)) hstart
    hend
  exact ⟨v, u, a, hu, by simpa using hleft, hv, hstopped⟩

end Application

namespace SinApplication

theorem Sampled.length_eq {app : SinApplication} (h : app.Sampled) :
    app.sinValues.length = Utils.simulationDurationInSeconds + 1 := by
  simpa using congrArg List.length h

/-- The total exceeds the walk by the sample of the last second. -/
theorem Sampled.getTotalData_eq {app : SinApplication} (h : app.Sampled) :
    ∃ value, app.sinValues[Utils.simulationDurationInSeconds]? = some value ∧
      app.getTotalData =
        uint32 (app.packetsBefore Utils.simulationDurationInSeconds + value.2.toNat) := by
  have hlt : Utils.simulationDurationInSeconds < app.sinValues.length := by
    rw [h.length_eq]
    exact Nat.lt_succ_self _
  refine ⟨_, List.getElem?_eq_getElem hlt, ?_⟩
  rw [app.getTotalData_eq, h.length_eq, packetsBefore_succ hlt]

theorem uint32_add_eq_iff (n : ℕ) (value : UInt32) :
    uint32 n = uint32 (n + value.toNat) ↔ value = 0 := by
  have hlt := value.toNat_lt
  have hzero : value = 0 ↔ value.toNat = 0 := by
    rw [← UInt32.toNat_inj]
    rfl
  rw [hzero]
  unfold uint32
  omega

/-- The comparison with the linear strategy is fair exactly when the sample of the last second is
zero. -/
theorem generates_total_iff {app : SinApplication} (hfresh : (Application.sin app).Fresh)
    (hsampled : app.Sampled) :
    (∀ app', Application.FirstStops (.sin app) app' →
        app'.generatedPackets = app.getTotalData ∧
          ∀ b, app'.generatedPackets =
            (app.staticApplication b).onApplicationStart.generatedPackets) ↔
      (app.sinValues[Utils.simulationDurationInSeconds]?).map (·.2) = some 0 := by
  obtain ⟨value, hvalue, htotal⟩ := hsampled.getTotalData_eq
  rw [hvalue, Option.map_some, Option.some.injEq]
  constructor
  · intro h
    obtain ⟨app', happ'⟩ := Application.exists_firstStops hfresh
      (hsampled.length_eq ▸ Nat.le_succ _)
    have hgenerated := (h app' happ').1
    rw [Application.generatedPackets_of_firstStops hfresh happ', htotal] at hgenerated
    exact (uint32_add_eq_iff _ _).mp hgenerated
  · intro hzero app' happ'
    have hgenerated : app'.generatedPackets = app.getTotalData := by
      rw [Application.generatedPackets_of_firstStops hfresh happ', htotal]
      exact (uint32_add_eq_iff _ _).mpr hzero
    exact ⟨hgenerated, fun b => hgenerated.trans (app.generatedPackets_staticApplication b).symm⟩

/-- One packet in every second, and a sample of its own for the last one. -/
def sampleSin (lastSample : UInt32) : SinApplication where
  applicationId := 1
  requiredDelay := 200
  errorRate := 20
  sinValues := (List.range (Utils.simulationDurationInSeconds + 1)).map fun x =>
    (UInt32.ofNat x, if x < Utils.simulationDurationInSeconds then 1 else lastSample)

theorem generates_total_iff_sample :
    ∃ app', Application.FirstStops (.sin (sampleSin 0)) app' ∧
      app'.generatedPackets = (sampleSin 0).getTotalData := by
  have hfresh : (Application.sin (sampleSin 0)).Fresh := ⟨rfl, rfl, rfl, rfl⟩
  have hsampled : (sampleSin 0).Sampled := by unfold Sampled; decide +kernel
  obtain ⟨app', happ'⟩ := Application.exists_firstStops hfresh
    (hsampled.length_eq ▸ Nat.le_succ _)
  exact ⟨app', happ',
    ((generates_total_iff hfresh hsampled).mpr (by decide +kernel) app' happ').1⟩

/-- One packet in every second: the walk generates 1200 packets, the total counts 1201. -/
theorem generates_total_counterexample :
    (Application.sin (sampleSin 1)).Fresh ∧ (sampleSin 1).Sampled ∧
      ∃ app', Application.FirstStops (.sin (sampleSin 1)) app' ∧ app'.generatedPackets = 1200 ∧
        ((sampleSin 1).staticApplication false).onApplicationStart.generatedPackets = 1201 := by
  have hfresh : (Application.sin (sampleSin 1)).Fresh := ⟨rfl, rfl, rfl, rfl⟩
  have hsampled : (sampleSin 1).Sampled := by unfold Sampled; decide +kernel
  obtain ⟨app', happ'⟩ := Application.exists_firstStops hfresh
    (hsampled.length_eq ▸ Nat.le_succ _)
  refine ⟨hfresh, hsampled, app', happ', ?_, ?_⟩
  · rw [Application.generatedPackets_of_firstStops hfresh happ']
    decide +kernel
  · rw [generatedPackets_staticApplication]
    decide +kernel

end SinApplication

end SdWan
