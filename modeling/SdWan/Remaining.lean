import SdWan.Traffic

/-!
# What the applications still owe

The packets due of an application are those in its queue and those of the samples its walk has not
taken yet. An update moves the packets of one sample into the queue: what is due stays the same
until a strategy takes it, and the walk is never outside its vector.
-/

namespace SdWan

namespace Application

/-- The samples of a walk from its start to its end. -/
def samples : Application → List (UInt32 × UInt32)
  | sin app => app.sinValues.take Utils.simulationDurationInSeconds
  | static _ => []

def samplesTaken : Application → ℕ
  | sin app => app.currentSample
  | static _ => 0

/-- The packets of the samples that the walk has not taken. -/
def remaining (app : Application) : ℕ :=
  ((app.samples.drop app.samplesTaken).map (·.2.toNat)).sum

/-- The packets that no strategy has taken yet. -/
def due (app : Application) : ℕ := app.pendingpackets.length + app.remaining

/-- The samples behind those of the start and of the first computation. -/
def laterSamples (app : Application) : List (UInt32 × UInt32) := app.samples.drop 2

/-- A started application. The walk of a sampled one is inside its vector. -/
def Underway : Application → Prop
  | sin app => Utils.simulationDurationInSeconds ≤ app.sinValues.length ∧
      app.currentSample ≤ Utils.simulationDurationInSeconds ∧
      app.allPacketsGenerated = decide (app.currentSample = Utils.simulationDurationInSeconds)
  | static app => app.allPacketsGenerated = true

/-- What a call does that generates the packets of the next sample, or none after the last. -/
structure Advances (app app' : Application) : Prop where
  underway : app'.Underway
  samples : app'.samples = app.samples
  due : app'.due = app.due
  finished : app.allPacketsGenerated = true → app'.allPacketsGenerated = true
  next : app.allPacketsGenerated = false → app'.samplesTaken = app.samplesTaken + 1

theorem Advances.refl {app : Application} (h : app.Underway)
    (hfinished : app.allPacketsGenerated = true) : Advances app app where
  underway := h
  samples := rfl
  due := rfl
  finished := id
  next hleft := absurd hfinished (by rw [hleft]; exact Bool.false_ne_true)

end Application

/-! ## One call -/

namespace SinApplication

variable {app app' : SinApplication}

theorem currentSample_lt_of_underway (h : (Application.sin app).Underway)
    (hleft : app.allPacketsGenerated = false) :
    app.currentSample < Utils.simulationDurationInSeconds := by
  obtain ⟨-, hle, hfinished⟩ := h
  rw [hfinished, decide_eq_false_iff_not] at hleft
  omega

theorem exists_enqueue (h : (Application.sin app).Underway) :
    ∃ app', app.enqueuePacketsForCurrentSample = .ok app' := by
  unfold enqueuePacketsForCurrentSample
  by_cases hfinished : app.allPacketsGenerated = true
  · rw [if_pos hfinished]
    exact ⟨_, rfl⟩
  · have hlt := currentSample_lt_of_underway h (by simpa using hfinished)
    rw [if_neg hfinished, vectorAt_of_lt (hlt.trans_le h.1)]
    exact ⟨_, rfl⟩

/-- The next sample is the first of those that remain. -/
theorem remaining_eq (h : (Application.sin app).Underway)
    (hleft : app.allPacketsGenerated = false) (hlt : app.currentSample < app.sinValues.length) :
    (Application.sin app).remaining = app.sinValues[app.currentSample].2.toNat +
      ((((Application.sin app).samples).drop (app.currentSample + 1)).map (·.2.toNat)).sum := by
  have hlt' : app.currentSample <
      (app.sinValues.take Utils.simulationDurationInSeconds).length := by
    rw [List.length_take]
    exact lt_min (currentSample_lt_of_underway h hleft) hlt
  simp only [Application.remaining, Application.samples, Application.samplesTaken]
  rw [List.drop_eq_getElem_cons hlt', List.map_cons, List.sum_cons, List.getElem_take]

theorem enqueue_advances (h : (Application.sin app).Underway)
    (henqueue : app.enqueuePacketsForCurrentSample = .ok app') :
    Application.Advances (.sin app) (.sin app') := by
  obtain ⟨hfinished, rfl⟩ | ⟨hlt, hleft, rfl⟩ := enqueuePacketsForCurrentSample_cases henqueue
  · exact .refl h hfinished
  · have hlength := app.length_pushPackets (app.sinValues[app.currentSample].2.toNat)
    refine ⟨⟨h.1, currentSample_lt_of_underway h hleft, rfl⟩, rfl, ?_, ?_, fun _ => rfl⟩
    · rw [Application.due, Application.due, remaining_eq h hleft hlt]
      simp only [Application.pendingpackets, Application.base, Application.remaining,
        Application.samples, Application.samplesTaken]
      omega
    · intro hfinished
      exact absurd hfinished (by simp [Application.allPacketsGenerated, hleft])

end SinApplication

namespace Application

variable {app app' : Application}

theorem underway_of_fresh {s : SinApplication} (hfresh : (sin s).Fresh)
    (hlength : Utils.simulationDurationInSeconds ≤ s.sinValues.length) : (sin s).Underway := by
  obtain ⟨-, -, hsample, hfinished⟩ := hfresh
  refine ⟨hlength, ?_, ?_⟩
  · rw [hsample]
    exact Nat.zero_le _
  · rw [hsample, hfinished]
    rfl

theorem exists_update (h : app.Underway) : ∃ app', app.update = .ok app' := by
  unfold update
  split_ifs
  · exact ⟨_, rfl⟩
  cases app with
  | sin app =>
    obtain ⟨app', henqueue⟩ := SinApplication.exists_enqueue h
    refine ⟨sin app', ?_⟩
    rw [onUpdate, SinApplication.onUpdate, henqueue]
    rfl
  | static app => exact ⟨_, rfl⟩

theorem update_advances (h : app.Underway) (hupdate : app.update = .ok app') :
    app.Advances app' := by
  unfold update at hupdate
  split_ifs at hupdate with hstopped
  · cases hupdate
    exact .refl h ((getHasStoppedGeneratingData_iff app).mp hstopped).2
  cases app with
  | sin app =>
    obtain ⟨b, henqueue, hupdate⟩ := Result.bind_eq_ok.mp hupdate
    cases hupdate
    exact SinApplication.enqueue_advances h henqueue
  | static app =>
    cases hupdate
    exact .refl h h

/-! ## The start -/

/-- The vector of a sampled application is long enough for the walk. -/
def LongEnough : Application → Prop
  | sin app => Utils.simulationDurationInSeconds < app.sinValues.length
  | static _ => True

theorem exists_onApplicationStart (hfresh : app.Fresh) (hlength : app.LongEnough) :
    ∃ app', app.onApplicationStart = .ok app' := by
  cases app with
  | sin app =>
    obtain ⟨app', henqueue⟩ :=
      SinApplication.exists_enqueue (underway_of_fresh hfresh (le_of_lt hlength))
    refine ⟨sin app', ?_⟩
    rw [onApplicationStart, SinApplication.onApplicationStart, henqueue]
    rfl
  | static app => exact ⟨_, rfl⟩

/-- The start takes the first sample. -/
theorem onApplicationStart_underway (hfresh : app.Fresh) (hlength : app.LongEnough)
    (h : app.onApplicationStart = .ok app') :
    app'.Underway ∧ app'.samples = app.samples ∧
      (app'.allPacketsGenerated = false ∧ app'.samplesTaken = 1 ∨
        app'.allPacketsGenerated = true ∧ app'.samples = []) := by
  cases app with
  | sin app =>
    obtain ⟨b, henqueue, h⟩ := Result.bind_eq_ok.mp h
    cases h
    have hadvances := SinApplication.enqueue_advances
      (underway_of_fresh hfresh (le_of_lt hlength)) henqueue
    have hsample : b.currentSample = 1 := by
      have hnext := hadvances.next hfresh.2.2.2
      rw [samplesTaken, samplesTaken, hfresh.2.2.1] at hnext
      exact hnext
    refine ⟨hadvances.underway, hadvances.samples, .inl ⟨?_, hsample⟩⟩
    rw [allPacketsGenerated, hadvances.underway.2.2, hsample]
    rfl
  | static app =>
    cases h
    exact ⟨rfl, rfl, .inr ⟨rfl, rfl⟩⟩

/-- After the first update the samples left are the later ones. -/
theorem remaining_of_started {app₁ app₂ : Application} (hfresh : app.Fresh)
    (hlength : app.LongEnough) (hstart : app.onApplicationStart = .ok app₁)
    (hupdate : app₁.update = .ok app₂) :
    app₂.remaining = (app.laterSamples.map (·.2.toNat)).sum := by
  obtain ⟨hunderway, hsamples, hcases⟩ := onApplicationStart_underway hfresh hlength hstart
  have hadvances := update_advances hunderway hupdate
  rw [remaining, laterSamples, hadvances.samples, hsamples]
  rcases hcases with ⟨hleft, htaken⟩ | ⟨-, hnil⟩
  · rw [hadvances.next hleft, htaken]
  · rw [← hsamples, hnil, List.drop_nil, List.drop_nil]

theorem Underway.samplesTaken_le (h : app.Underway) :
    app.samplesTaken ≤ Utils.simulationDurationInSeconds := by
  cases app with
  | sin app => exact h.2.1
  | static app => exact Nat.zero_le _

/-! ## What is due -/

/-- An application has stopped for good when it owes nothing and takes no further sample. -/
theorem due_eq_zero_of_stopped (h : app.Underway) (hpending : app.pendingpackets = [])
    (hfinished : app.allPacketsGenerated = true) : app.due = 0 := by
  rw [due, hpending, List.length_nil, Nat.zero_add]
  cases app with
  | sin app =>
    have hsample : app.currentSample = Utils.simulationDurationInSeconds :=
      of_decide_eq_true (h.2.2.symm.trans hfinished)
    rw [remaining, samples, samplesTaken, hsample,
      List.drop_eq_nil_of_le (List.length_take_le _ _)]
    rfl
  | static app => rfl

theorem underway_setPending (h : app.Underway) (pending : List ℕ) :
    (app.setPending pending).Underway := by
  cases app with
  | sin app => exact h
  | static app => exact h

theorem due_setPending (app : Application) : (app.setPending []).due = app.remaining := by
  cases app with
  | sin app => exact Nat.zero_add _
  | static app => rfl

@[simp] theorem allPacketsGenerated_setPending (app : Application) (pending : List ℕ) :
    (app.setPending pending).allPacketsGenerated = app.allPacketsGenerated := by
  cases app <;> rfl

@[simp] theorem samplesTaken_setPending (app : Application) (pending : List ℕ) :
    (app.setPending pending).samplesTaken = app.samplesTaken := by
  cases app <;> rfl

end Application

/-! ## All applications -/

/-- The packets that all applications together still owe. -/
def undelivered (apps : List Application) : ℕ := (apps.map Application.due).sum

variable {apps apps' : List Application}

theorem advances_of_updated (hunderway : ∀ app ∈ apps, app.Underway)
    (h : List.Forall₂ (fun app app' => app.update = .ok app') apps apps') :
    List.Forall₂ Application.Advances apps apps' := by
  induction h with
  | nil => exact .nil
  | cons happ _ ih =>
    rw [List.forall_mem_cons] at hunderway
    exact .cons (Application.update_advances hunderway.1 happ) (ih hunderway.2)

theorem undelivered_of_advances (h : List.Forall₂ Application.Advances apps apps') :
    undelivered apps' = undelivered apps := by
  induction h with
  | nil => rfl
  | cons happ _ ih =>
    simp only [undelivered, List.map_cons, List.sum_cons] at ih ⊢
    rw [happ.due, ih]

/-- A strategy that takes all pending packets lowers what is due by their number. -/
theorem undelivered_setPending (apps : List Application) :
    undelivered (apps.map (·.setPending [])) + pendingTotal apps = undelivered apps := by
  induction apps with
  | nil => rfl
  | cons app apps ih =>
    simp only [undelivered, pendingTotal, List.map_cons, List.sum_cons] at ih ⊢
    rw [Application.due_setPending, Application.due]
    omega

/-- What is due once the first computation has taken the pending packets. -/
theorem undelivered_of_started {started updated : List Application}
    (hfresh : ∀ app ∈ apps, app.Fresh) (hlength : ∀ app ∈ apps, app.LongEnough)
    (hstart : List.Forall₂ (fun app app' => app.onApplicationStart = .ok app') apps started)
    (hupdate : List.Forall₂ (fun app app' => app.update = .ok app') started updated) :
    undelivered (updated.map (·.setPending [])) =
      (apps.map fun app => (app.laterSamples.map (·.2.toNat)).sum).sum := by
  induction hstart generalizing updated with
  | nil =>
    cases hupdate
    rfl
  | cons happ _ ih =>
    cases hupdate with
    | cons happ' hrest =>
      rw [List.forall_mem_cons] at hfresh hlength
      have htail := ih hfresh.2 hlength.2 hrest
      simp only [undelivered, List.map_cons, List.sum_cons] at htail ⊢
      rw [Application.due_setPending, htail,
        Application.remaining_of_started hfresh.1 hlength.1 happ happ']

theorem due_le_undelivered {app : Application} (happ : app ∈ apps) :
    app.due ≤ undelivered apps :=
  List.single_le_sum (fun _ _ => Nat.zero_le _) _ (List.mem_map_of_mem happ)

/-- Applications that have all stopped owe nothing. -/
theorem undelivered_eq_zero (hunderway : ∀ app ∈ apps, app.Underway)
    (hstopped : ∀ app ∈ apps, app.pendingpackets = [] ∧ app.allPacketsGenerated = true) :
    undelivered apps = 0 := by
  apply List.sum_eq_zero
  intro n hn
  obtain ⟨app, happ, rfl⟩ := List.mem_map.mp hn
  obtain ⟨hpending, hfinished⟩ := hstopped app happ
  exact Application.due_eq_zero_of_stopped (hunderway app happ) hpending hfinished

end SdWan
