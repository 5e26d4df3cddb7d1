import SdWan.SenderRuns
import SdWan.Traffic
import SdWan.Library.Transportation

/-!
# The offered load of the reactive strategy

When the peaks of the applications add up to no more than the links carry in a second, one sample
of every application always fits. The first computation does not find one sample of every
application in the queues but two, that of the start and that of the first update; every later
computation finds at most one.
-/

open Finset IntegerProgram

namespace SdWan

def totalPackageRate (ifaces : List ISPInterface) : ℕ := (ifaces.map (·.getPackageRate)).sum

/-- The pending packets are no more than the links carry in a second, and some point meets the
capacity rows together with the rows that send all packets. -/
structure WithinLinks (s : Strategy) : Prop where
  total_le : pendingTotal s.applications ≤ totalPackageRate s.availableInterfaces
  rows : ∃ x : ℕ → ℚ,
    (∀ v < s.applications.length * s.availableInterfaces.length, x v = (⌊x v⌋₊ : ℚ)) ∧
      (∀ l : Fin s.availableInterfaces.length,
        (capacityRow s.applications.length s.availableInterfaces[l] l).Holds
          (s.applications.length * s.availableInterfaces.length) x) ∧
      ∀ a : Fin s.applications.length,
        (packetsRow s.applications.length s.availableInterfaces
          (getElem s.applications a a.isLt) a).Holds
            (s.applications.length * s.availableInterfaces.length) x

theorem withinLinks_iff (s : Strategy) :
    WithinLinks s ↔ pendingTotal s.applications ≤ totalPackageRate s.availableInterfaces := by
  refine ⟨fun h => h.total_le, fun h => ⟨h, ?_⟩⟩
  have hfits : ∑ a : Fin s.applications.length, s.applications[a].pendingpackets.length ≤
      ∑ l : Fin s.availableInterfaces.length, s.availableInterfaces[l].getPackageRate := by
    have hsupply := Fin.sum_univ_fun_getElem s.applications fun app => app.pendingpackets.length
    have hcapacity := Fin.sum_univ_fun_getElem s.availableInterfaces (·.getPackageRate)
    exact hsupply.trans_le (h.trans hcapacity.ge)
  obtain ⟨x, hsent, hcapacity⟩ := (Transportation.exists_table_iff _ _).mpr hfits
  have hnatural : ∀ v < s.applications.length * s.availableInterfaces.length,
      pointOf x v = (⌊pointOf x v⌋₊ : ℚ) := fun v _ => natural_pointOf x v
  refine ⟨pointOf x, hnatural, fun l => ?_, fun a => ?_⟩
  · rw [holds_capacityRow_iff hnatural, tableOf_pointOf]
    exact hcapacity l
  · rw [holds_packetsRow_iff hnatural, tableOf_pointOf]
    exact hsent a

namespace Application

/-! ## What one sample adds -/

/-- The sampled application `s` at a later time. -/
def Continues (s : SinApplication) (app : Application) : Prop :=
  ∃ b, app = .sin b ∧ b.sinValues = s.sinValues

theorem update_le_maxValue {s : SinApplication} {app app' : Application} (hs : Continues s app)
    (hidle : app.pendingpackets = []) (h : app.update = .ok app') :
    Continues s app' ∧ app'.pendingpackets.length ≤ s.maxValue := by
  obtain ⟨b, rfl, hvalues⟩ := hs
  unfold update at h
  split_ifs at h
  · cases h
    rw [hidle]
    exact ⟨⟨b, rfl, hvalues⟩, Nat.zero_le _⟩
  obtain ⟨b', hb', h⟩ := Result.bind_eq_ok.mp h
  cases h
  obtain ⟨-, rfl⟩ | ⟨hlt, -, rfl⟩ := SinApplication.enqueuePacketsForCurrentSample_cases hb'
  · rw [hidle]
    exact ⟨⟨_, rfl, hvalues⟩, Nat.zero_le _⟩
  · refine ⟨⟨_, rfl, hvalues⟩, ?_⟩
    have hlength := SDWanApplication.length_pushPackets b.toSDWanApplication
      b.sinValues[b.currentSample].2.toNat
    have hnone : b.pendingpackets.length = 0 := congrArg List.length hidle
    have hmem : b.sinValues[b.currentSample] ∈ s.sinValues := hvalues ▸ List.getElem_mem hlt
    change (b.pushPackets b.sinValues[b.currentSample].2.toNat).pendingpackets.length ≤ _
    rw [hlength, hnone, Nat.zero_add]
    exact SinApplication.le_maxValue hmem

/-- The start takes the first sample and leaves the application running. -/
theorem onApplicationStart_eq_ok_iff {s : SinApplication} (hfresh : (sin s).Fresh)
    {app : Application} :
    (sin s).onApplicationStart = .ok app ↔
      ∃ h : 0 < s.sinValues.length, app = .sin { s with
        toSDWanApplication := s.pushPackets s.sinValues[0].2.toNat
        currentSample := 1 } := by
  obtain ⟨base, values, currentSample, allPacketsGenerated⟩ := s
  obtain ⟨-, -, rfl, rfl⟩ := hfresh
  rw [onApplicationStart, SinApplication.onApplicationStart, Result.bind_eq_ok]
  cases values with
  | nil =>
    constructor
    · rintro ⟨b, hb, -⟩
      cases hb
    · rintro ⟨h, -⟩
      cases h
  | cons value values =>
    constructor
    · rintro ⟨b, hb, happ⟩
      cases hb
      exact ⟨Nat.succ_pos _, (Except.ok.inj happ).symm⟩
    · rintro ⟨-, rfl⟩
      exact ⟨_, rfl, rfl⟩

/-- The first update takes the second sample. -/
theorem update_second_eq_ok_iff {s : SinApplication} (hsample : s.currentSample = 1)
    (hleft : s.allPacketsGenerated = false) {app : Application} :
    (sin s).update = .ok app ↔
      ∃ h : 1 < s.sinValues.length, app = .sin { s with
        toSDWanApplication := s.pushPackets s.sinValues[1].2.toNat
        currentSample := 2 } := by
  obtain ⟨base, values, currentSample, allPacketsGenerated⟩ := s
  subst hsample hleft
  have hrunning : (sin ⟨base, values, 1, false⟩).getHasStoppedGeneratingData = false :=
    Bool.and_false _
  rw [update, hrunning, if_neg Bool.false_ne_true, onUpdate, SinApplication.onUpdate,
    Result.bind_eq_ok]
  rcases values with - | ⟨value, - | ⟨value', values⟩⟩
  · constructor
    · rintro ⟨b, hb, -⟩
      cases hb
    · rintro ⟨h, -⟩
      cases h
  · constructor
    · rintro ⟨b, hb, -⟩
      cases hb
    · rintro ⟨h, -⟩
      exact absurd h (lt_irrefl _)
  · constructor
    · rintro ⟨b, hb, happ⟩
      cases hb
      exact ⟨by simp, (Except.ok.inj happ).symm⟩
    · rintro ⟨-, rfl⟩
      exact ⟨_, rfl, rfl⟩

/-- Before the first computation the packets of two samples are pending. -/
theorem start_update_eq_ok {s : SinApplication} (hfresh : (sin s).Fresh) {app' : Application}
    (h : ∃ app, (sin s).onApplicationStart = .ok app ∧ app.update = .ok app') :
    2 ≤ s.sinValues.length ∧ Continues s app' ∧
      app'.pendingpackets.length = s.packetsBefore 2 := by
  obtain ⟨app, hstart, hupdate⟩ := h
  obtain ⟨hfirst, rfl⟩ := (onApplicationStart_eq_ok_iff hfresh).mp hstart
  obtain ⟨hsecond, rfl⟩ := (update_second_eq_ok_iff (by rfl) (by exact hfresh.2.2.2)).mp hupdate
  refine ⟨hsecond, ⟨_, rfl, rfl⟩, ?_⟩
  have hpackets : s.packetsBefore 2 = s.sinValues[0].2.toNat + s.sinValues[1].2.toNat := by
    have hlt : 1 < s.sinValues.length := hsecond
    rw [SinApplication.packetsBefore_succ hlt, SinApplication.packetsBefore_succ hfirst]
    exact congrArg (· + _) (Nat.zero_add _)
  have hnone : s.pendingpackets.length = 0 := congrArg List.length hfresh.1
  change (SDWanApplication.pushPackets _ _).pendingpackets.length = _
  rw [SDWanApplication.length_pushPackets, SDWanApplication.length_pushPackets, hnone,
    Nat.zero_add, hpackets]

theorem exists_start_update {s : SinApplication} (hfresh : (sin s).Fresh)
    (h : 2 ≤ s.sinValues.length) :
    ∃ app app', (sin s).onApplicationStart = .ok app ∧ app.update = .ok app' :=
  ⟨_, _, (onApplicationStart_eq_ok_iff hfresh).mpr ⟨by omega, rfl⟩,
    (update_second_eq_ok_iff (by rfl) (by exact hfresh.2.2.2)).mpr ⟨h, rfl⟩⟩

end Application

namespace SenderApplication

/-! ## The calls of `Compute` -/

/-- `Compute` is called on this strategy: by the start, or by a pending event of a run. The call
itself may fail. -/
inductive ComputeCalled (env : Environment) (setup : Setup) : Strategy → Prop
  | start {ifaces : List ISPInterface} {lastId : ℕ} {started updated : List Application} :
      initSockets setup = .ok (ifaces, lastId) →
      forEach Application.onApplicationStart setup.application = .ok started →
      forEach Application.update started = .ok updated →
      ComputeCalled env setup { applications := updated, availableInterfaces := ifaces }
  | event {as : List Action} {x : SenderApplication} {e : EventQueue.Event Time Handler}
      {updated : List Application} :
      Runs env setup as x → e ∈ x.simulator.events → e.handler = .computeStrategyAndContinue →
      forEach Application.update x.strategy.applications = .ok updated →
      ComputeCalled env setup { x.strategy with applications := updated }

variable {env : Environment} {setup : Setup}

/-- The computations of a run are such calls. -/
theorem computeCalled_of_runs {as : List Action} {x : SenderApplication}
    (h : Runs env setup as x) {now : Time} {before after : Strategy}
    (ha : .computed now before after ∈ as) : ComputeCalled env setup before := by
  revert ha
  apply h.invariant (I := fun as _ => .computed now before after ∈ as →
    ComputeCalled env setup before)
  · rintro a x ⟨now', hstart⟩ ha
    rw [← List.mem_singleton.mp ha] at hstart
    obtain ⟨⟨ifaces, lastId⟩, hifaces, hstart⟩ := Result.bind_eq_ok.mp hstart
    obtain ⟨started, hstarted, hstart⟩ := Result.bind_eq_ok.mp hstart
    obtain ⟨before', after', ha', hcomputes⟩ := computeStrategyAndContinue_eq_ok hstart
    cases ha'
    rw [hcomputes.before_eq]
    exact .start hifaces hstarted (forEach_eq_ok.mpr hcomputes.updated)
  · intro as a x y hreach hx hstep ha
    rcases List.mem_append.mp ha with ha | ha
    · exact hx ha
    rw [← List.mem_singleton.mp ha] at hstep
    obtain ⟨now', poll, e, he, hrun⟩ := hstep
    rcases run_cases hrun with
      ⟨hhandler, before', after', ha', hcomputes⟩ | ⟨l, -, ⟨-, ha', -⟩ | ⟨-, hsend⟩⟩
    · cases ha'
      have hbefore : before = { x.strategy with applications := before.applications } :=
        hcomputes.before_eq
      rw [hbefore]
      exact .event hreach he hhandler (forEach_eq_ok.mpr hcomputes.updated)
    · cases ha'
    · obtain ⟨interface, -, -, -, ⟨ha', -⟩ | ⟨packetInfo, rest, -, ha', -⟩⟩ := sendData_eq_ok hsend
      · cases ha'
      · cases ha'

/-! ## Between two computations nothing is pending -/

/-- The applications `apps` at a later time, with nothing pending, and the links of the start. -/
structure Idle (apps : List SinApplication) (ifaces : List ISPInterface) (x : SenderApplication) :
    Prop where
  applications : List.Forall₂ (fun s app => Application.Continues s app ∧ app.pendingpackets = [])
    apps x.strategy.applications
  rate : totalPackageRate x.strategy.availableInterfaces = totalPackageRate ifaces

theorem totalPackageRate_of_attributes {ifaces ifaces' : List ISPInterface}
    (h : ifaces'.map (·.attributes) = ifaces.map (·.attributes)) :
    totalPackageRate ifaces' = totalPackageRate ifaces := by
  have hrates := congrArg (List.map fun a : ISPInterface.Attributes =>
    a.netDevice.dataRate / Utils.packetSizeBit) h
  rw [List.map_map, List.map_map] at hrates
  exact congrArg List.sum hrates

/-- A computation of the reactive strategy leaves nothing pending. -/
theorem Computes.idle (hsolve : Sound env.solve) {now : Time} {x y : SenderApplication}
    {before after : Strategy} (h : Computes env now x y before after)
    (htype : x.strategyType = .reactive) {apps : List SinApplication} {ifaces : List ISPInterface}
    (happs : List.Forall₂ Application.Continues apps before.applications)
    (hrate : totalPackageRate x.strategy.availableInterfaces = totalPackageRate ifaces) :
    Idle apps ifaces y := by
  have hcompute := h.computed
  rw [htype] at hcompute
  obtain ⟨f, hdrains⟩ := ReactiveStrategy.compute_drains hsolve.answersFeasibly hcompute
  constructor
  · rw [h.strategy, hdrains.applications, List.forall₂_map_right_iff]
    apply happs.imp
    rintro s app ⟨b, rfl, hvalues⟩
    exact ⟨⟨_, rfl, hvalues⟩, rfl⟩
  · rw [totalPackageRate_of_attributes h.attributes, hrate]

section

variable {apps : List SinApplication} {ifaces : List ISPInterface} {lastId : ℕ}

/-- What the start and the first update put in the queues. -/
theorem first_samples (happs : setup.application = apps.map .sin)
    {started updated : List Application}
    (hstarted : forEach Application.onApplicationStart setup.application = .ok started)
    (hupdated : List.Forall₂ (fun app app' => app.update = .ok app') started updated) :
    List.Forall₂ (fun s app => 2 ≤ s.sinValues.length ∧ Application.Continues s app ∧
      app.pendingpackets.length = s.packetsBefore 2) apps updated := by
  have hfresh : ∀ s ∈ apps, (Application.sin s).Fresh := fun s hs =>
    setup.fresh _ (happs ▸ List.mem_map_of_mem hs)
  rw [forEach_eq_ok, happs, List.forall₂_map_left_iff] at hstarted
  have hboth := (List.forall₂_and_left _ _).mpr ⟨hfresh, forall₂_comp hstarted hupdated⟩
  exact hboth.imp fun s app' hs => Application.start_update_eq_ok hs.1 hs.2

theorem exists_first_samples (hfresh : ∀ s ∈ apps, (Application.sin s).Fresh)
    (hlength : ∀ s ∈ apps, 2 ≤ s.sinValues.length) :
    ∃ started updated, forEach Application.onApplicationStart (apps.map .sin) = .ok started ∧
      forEach Application.update started = .ok updated := by
  simp only [forEach_eq_ok]
  induction apps with
  | nil => exact ⟨[], [], .nil, .nil⟩
  | cons s apps ih =>
    obtain ⟨started, updated, hstarted, hupdated⟩ :=
      ih (fun s' hs' => hfresh s' (List.mem_cons_of_mem _ hs'))
        fun s' hs' => hlength s' (List.mem_cons_of_mem _ hs')
    obtain ⟨app, app', happ, happ'⟩ := Application.exists_start_update
      (hfresh s List.mem_cons_self) (hlength s List.mem_cons_self)
    exact ⟨app :: started, app' :: updated, .cons happ hstarted, .cons happ' hupdated⟩

theorem pendingTotal_eq {g : SinApplication → ℕ} {updated : List Application}
    (h : List.Forall₂ (fun s app => app.pendingpackets.length = g s) apps updated) :
    pendingTotal updated = (apps.map g).sum := by
  induction h with
  | nil => rfl
  | cons happ _ ih =>
    rw [List.map_cons, List.sum_cons, ← ih, ← happ]
    rfl

theorem pendingTotal_le {g : SinApplication → ℕ} {updated : List Application}
    (h : List.Forall₂ (fun s app => app.pendingpackets.length ≤ g s) apps updated) :
    pendingTotal updated ≤ (apps.map g).sum := by
  induction h with
  | nil => exact le_rfl
  | cons happ _ ih =>
    rw [List.map_cons, List.sum_cons]
    exact Nat.add_le_add happ ih

theorem idle_of_runs (hsolve : Sound env.solve) (htype : setup.strategyType = .reactive)
    (happs : setup.application = apps.map .sin) (hifaces : initSockets setup = .ok (ifaces, lastId))
    {as : List Action} {x : SenderApplication} (h : Runs env setup as x) :
    Idle apps ifaces x ∧ ∀ s ∈ apps, 2 ≤ s.sinValues.length := by
  apply h.invariant (I := fun _ x => Idle apps ifaces x ∧ ∀ s ∈ apps, 2 ≤ s.sinValues.length)
  · rintro a x ⟨now, hstart⟩
    obtain ⟨⟨ifaces', lastId'⟩, hifaces', hstart⟩ := Result.bind_eq_ok.mp hstart
    obtain ⟨started, hstarted, hstart⟩ := Result.bind_eq_ok.mp hstart
    obtain ⟨before, after, -, hcomputes⟩ := computeStrategyAndContinue_eq_ok hstart
    rw [hifaces] at hifaces'
    cases hifaces'
    have hsamples := first_samples happs hstarted hcomputes.updated
    refine ⟨hcomputes.idle hsolve htype (hsamples.imp fun _ _ hs => hs.2.1) rfl, ?_⟩
    exact ((List.forall₂_and_left _ _).mp hsamples).1
  · rintro as a x y hreach ⟨hx, hlength⟩ hstep
    refine ⟨?_, hlength⟩
    have hrate := (totalPackageRate_of_attributes (step_attributes hstep)).trans hx.rate
    have hxtype := (strategyType_of_runs hreach).trans htype
    rcases step_computes_or_keeps hstep with ⟨now, e, before, after, hcomputes⟩ | hkeeps
    · apply hcomputes.idle hsolve hxtype _ hx.rate
      apply (forall₂_comp hx.applications hcomputes.updated).imp
      rintro s app' ⟨app, ⟨hs, hidle⟩, hupdate⟩
      exact (Application.update_le_maxValue hs hidle hupdate).1
    · exact ⟨by rw [hkeeps]; exact hx.applications, hrate⟩

/-- The load stays within the links at every call of `Compute` exactly when the first two samples
together do, or when some application has no second sample and the start throws. -/
theorem load_within_links_iff (hsolve : Sound env.solve) (htype : setup.strategyType = .reactive)
    (happs : setup.application = apps.map .sin) (hifaces : initSockets setup = .ok (ifaces, lastId))
    (hpeak : (apps.map (·.maxValue)).sum ≤ totalPackageRate ifaces) :
    (∀ before, ComputeCalled env setup before → WithinLinks before) ↔
      (∃ s ∈ apps, s.sinValues.length < 2) ∨
        (apps.map (·.packetsBefore 2)).sum ≤ totalPackageRate ifaces := by
  constructor
  · intro h
    by_contra! hcontra
    obtain ⟨hlength, hload⟩ := hcontra
    have hfresh : ∀ s ∈ apps, (Application.sin s).Fresh := fun s hs =>
      setup.fresh _ (happs ▸ List.mem_map_of_mem hs)
    obtain ⟨started, updated, hstarted, hupdated⟩ := exists_first_samples hfresh hlength
    rw [← happs] at hstarted
    have hsamples := first_samples happs hstarted (forEach_eq_ok.mp hupdated)
    have htotal := pendingTotal_eq (hsamples.imp fun _ _ hs => hs.2.2)
    have hle := (h _ (.start hifaces hstarted hupdated)).total_le
    exact absurd hle (htotal ▸ hload.not_ge)
  · intro hcondition before hcalled
    rw [withinLinks_iff]
    cases hcalled with
    | start hifaces' hstarted hupdated =>
      rw [hifaces] at hifaces'
      cases hifaces'
      have hsamples := first_samples happs hstarted (forEach_eq_ok.mp hupdated)
      rcases hcondition with ⟨s, hs, hshort⟩ | hload
      · exact absurd (((List.forall₂_and_left _ _).mp hsamples).1 s hs) (by omega)
      · exact (pendingTotal_eq (hsamples.imp fun _ _ hs => hs.2.2)).trans_le hload
    | event hruns _ _ hupdated =>
      obtain ⟨hidle, -⟩ := idle_of_runs hsolve htype happs hifaces hruns
      have hsamples := forall₂_comp hidle.applications (forEach_eq_ok.mp hupdated)
      have hle : List.Forall₂ (fun s (app : Application) =>
          app.pendingpackets.length ≤ s.maxValue) apps _ :=
        hsamples.imp fun s app' ⟨app, ⟨hs, hnone⟩, hupdate⟩ =>
          (Application.update_le_maxValue hs hnone hupdate).2
      exact (pendingTotal_le hle).trans (hpeak.trans hidle.rate.ge)

/-- One application with one packet in every second, and one link. -/
def sinSetup (dataRate : ℕ) : Setup where
  devices := [(⟨dataRate, 10, 0⟩, [1])]
  addresses := [⟨11, Utils.connectionPort⟩]
  costs := [1]
  application := [.sin (SinApplication.sampleSin 1)]
  strategyType := .reactive
  fresh := by simp [SinApplication.sampleSin, Application.Fresh]

theorem maxValue_sampleSin : (SinApplication.sampleSin 1).maxValue ≤ 1 := by
  apply SinApplication.maxValue_le
  intro value hvalue
  simp only [SinApplication.sampleSin, List.mem_map] at hvalue
  obtain ⟨x, -, rfl⟩ := hvalue
  rw [ite_self]
  rfl

/-- The first call of `Compute` finds two packets. -/
theorem exists_computeCalled_sinSetup (dataRate : ℕ) :
    ∃ ifaces lastId before, initSockets (sinSetup dataRate) = .ok (ifaces, lastId) ∧
      totalPackageRate ifaces = dataRate / Utils.packetSizeBit ∧
      ComputeCalled sampleEnvironment (sinSetup dataRate) before ∧
      before.availableInterfaces = ifaces ∧ pendingTotal before.applications = 2 := by
  have happs : (sinSetup dataRate).application = [SinApplication.sampleSin 1].map .sin := rfl
  have hfresh : ∀ s ∈ [SinApplication.sampleSin 1], (Application.sin s).Fresh := fun s hs =>
    (sinSetup dataRate).fresh _ (happs ▸ List.mem_map_of_mem hs)
  obtain ⟨i, hi, hrate⟩ : ∃ i : ISPInterface, initSockets (sinSetup dataRate) = .ok ([i], 101) ∧
      i.netDevice.dataRate = dataRate := ⟨_, rfl, rfl⟩
  obtain ⟨started, updated, hstarted, hupdated⟩ := exists_first_samples hfresh (by decide +kernel)
  have hsamples := first_samples happs hstarted (forEach_eq_ok.mp hupdated)
  refine ⟨_, _, _, hi, ?_, .start hi hstarted hupdated, rfl, ?_⟩
  · rw [totalPackageRate, List.map_singleton, List.sum_singleton, ISPInterface.getPackageRate,
      ISPInterface.getDataBitRate, hrate]
  · rw [pendingTotal_eq (hsamples.imp fun _ _ hs => hs.2.2)]
    decide +kernel

/-- A link of two packets per second is enough. -/
theorem load_within_links_iff_sample :
    ∃ before, ComputeCalled sampleEnvironment (sinSetup 2048) before ∧
      pendingTotal before.applications = 2 ∧ WithinLinks before := by
  obtain ⟨ifaces, lastId, before, hifaces, hrate, hcalled, -, hpending⟩ :=
    exists_computeCalled_sinSetup 2048
  have happs : (sinSetup 2048).application = [SinApplication.sampleSin 1].map .sin := rfl
  have hpeak : ([SinApplication.sampleSin 1].map (·.maxValue)).sum ≤ totalPackageRate ifaces := by
    rw [hrate, List.map_singleton, List.sum_singleton]
    exact maxValue_sampleSin.trans (by decide)
  have hload : ([SinApplication.sampleSin 1].map (·.packetsBefore 2)).sum ≤
      totalPackageRate ifaces := by
    rw [hrate]
    decide +kernel
  exact ⟨before, hcalled, hpending,
    (load_within_links_iff (sound_offer _) rfl happs hifaces hpeak).mpr (.inr hload) before hcalled⟩

/-- A link of one packet per second suffices for the peak, and two packets are pending at the
first call of `Compute`. -/
theorem load_within_links_counterexample :
    ∃ ifaces lastId before, initSockets (sinSetup 1024) = .ok (ifaces, lastId) ∧
      ([SinApplication.sampleSin 1].map (·.maxValue)).sum ≤ totalPackageRate ifaces ∧
      ComputeCalled sampleEnvironment (sinSetup 1024) before ∧
      totalPackageRate before.availableInterfaces = 1 ∧ pendingTotal before.applications = 2 ∧
      ¬ WithinLinks before := by
  obtain ⟨ifaces, lastId, before, hifaces, hrate, hcalled, rfl, hpending⟩ :=
    exists_computeCalled_sinSetup 1024
  have hone : totalPackageRate before.availableInterfaces = 1 := hrate
  refine ⟨_, lastId, before, hifaces, ?_, hcalled, hone, hpending, fun h => ?_⟩
  · rw [hone, List.map_singleton, List.sum_singleton]
    exact maxValue_sampleSin
  · have hle := h.total_le
    omega

end

end SenderApplication

end SdWan
