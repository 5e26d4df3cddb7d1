import SdWan.EndToEnd
import SdWan.Pacing
import SdWan.Workload

/-!
# What a run assigns to the links

`assigned` counts the packets of an application that a computation put on the queue of an interface.
Over all computations these counts are an assignment of everything that was dispatched. Under the
reactive strategy every computation assigns admissibly, so over a whole run the averages over all
packets of an application stay within its requirements too.
-/

open Finset IntegerProgram

namespace SdWan

/-! ## The table of a computation -/

/-- The packets of the application at position `a` that a computation put on the queue of the
interface at position `l`. -/
def assigned (c : Strategy × Strategy) (a l : ℕ) : ℕ :=
  (c.1.applications[a]?).elim 0 fun app => amountFrom app.applicationId
    (enqueued c.1.availableInterfaces c.2.availableInterfaces l)

theorem assigned_fin (c : Strategy × Strategy) (a : Fin c.1.applications.length) (l : ℕ) :
    assigned c a l = amountFrom (getElem c.1.applications a a.isLt).applicationId
      (enqueued c.1.availableInterfaces c.2.availableInterfaces l) := by
  rw [assigned, List.getElem?_eq_getElem a.isLt]
  rfl

theorem applicationId_injective {apps : List Application}
    (hids : (apps.map (·.applicationId)).Nodup) :
    Function.Injective fun a : Fin apps.length => (getElem apps a a.isLt).applicationId := by
  intro a b heq
  have ha : a.val < (apps.map (·.applicationId)).length := by
    rw [List.length_map]
    exact a.isLt
  refine Fin.ext ((List.getElem?_inj ha hids).mp ?_)
  rw [List.getElem?_map, List.getElem?_map, List.getElem?_eq_getElem a.isLt,
    List.getElem?_eq_getElem b.isLt]
  exact congrArg some heq

/-- Packets that come from some applications with different identifiers, counted for each. -/
theorem sum_amountFrom {apps : List Application} (hids : (apps.map (·.applicationId)).Nodup)
    {packets : List SendPacketInfo}
    (hknown : ∀ p ∈ packets, p.originatedFrom ∈ apps.map (·.applicationId)) :
    (apps.map fun app => amountFrom app.applicationId packets).sum = packets.length := by
  have hperm := Grouping.flatMap_filter_perm SendPacketInfo.originatedFrom packets hids
  rw [List.filter_eq_self.mpr fun p hp => decide_eq_true (hknown p hp)] at hperm
  rw [← hperm.length_eq, List.length_flatMap, List.map_map]
  simp only [Function.comp_def, amountFrom, List.countP_eq_length_filter]

theorem totalOver_eq_sum (w : ISPInterface.Attributes → SendPacketInfo → ℕ)
    (ifaces : List ISPInterface) (f : ℕ → List SendPacketInfo) :
    totalOver w ifaces f =
      ∑ l : Fin ifaces.length, ((f l).map (w (getElem ifaces l l.isLt).attributes)).sum := by
  rw [totalOver, List.mapIdx_eq_ofFn, List.sum_ofFn]
  rfl

namespace Drains

variable {now : Time} {s s' : Strategy} {f : ℕ → List SendPacketInfo}

theorem assigned_eq (h : Drains now s s' f) (a : Fin s.applications.length)
    (l : Fin s.availableInterfaces.length) :
    assigned (s, s') a l =
      amountFrom (getElem s.applications a a.isLt).applicationId (f l) := by
  rw [assigned_fin]
  dsimp only
  rw [h.availableInterfaces, enqueued_appendAt _ _ l.isLt]

/-- A computation enqueues packets of its own applications only. -/
theorem origin (h : Drains now s s' f) (l : Fin s.availableInterfaces.length) :
    ∀ p ∈ f l, p.originatedFrom ∈ s.applications.map (·.applicationId) := by
  have hmoved := h.moved fun p =>
    if p.originatedFrom ∈ s.applications.map (·.applicationId) then 0 else 1
  have hnone : (s.applications.map fun app => app.pendingpackets.length *
      if app.applicationId ∈ s.applications.map (·.applicationId) then 0 else 1).sum = 0 := by
    apply List.sum_eq_zero
    intro n hn
    obtain ⟨app, happ, rfl⟩ := List.mem_map.mp hn
    rw [if_pos (List.mem_map_of_mem happ), Nat.mul_zero]
  rw [hnone, totalOver_eq_sum, sum_eq_zero_iff] at hmoved
  intro p hp
  by_contra hother
  have hzero := List.sum_eq_zero_iff.mp (hmoved l (mem_univ l)) _ (List.mem_map_of_mem hp)
  rw [if_neg hother] at hzero
  cases hzero

/-- A computation assigns every pending packet. -/
theorem sum_assigned (h : Drains now s s' f) (hids : (s.applications.map (·.applicationId)).Nodup)
    (a : Fin s.applications.length) :
    ∑ l : Fin s.availableInterfaces.length, assigned (s, s') a l =
      (getElem s.applications a a.isLt).pendingpackets.length := by
  have hmoved := h.moved fun p =>
    if p.originatedFrom = (getElem s.applications a a.isLt).applicationId then 1 else 0
  rw [totalOver_eq_sum] at hmoved
  simp only [← amountFrom_eq_sum, ← h.assigned_eq] at hmoved
  rw [hmoved, ← Fin.sum_univ_fun_getElem, sum_eq_single a]
  · exact (congrArg _ (if_pos rfl)).trans (Nat.mul_one _)
  · intro b _ hb
    have hne : (getElem s.applications b b.isLt).applicationId ≠
        (getElem s.applications a a.isLt).applicationId :=
      fun heq => hb (applicationId_injective hids heq)
    exact (congrArg _ (if_neg hne)).trans (Nat.mul_zero _)
  · exact fun hnone => absurd (mem_univ a) hnone

/-- The cost of a computation, as the cost of what it assigns. -/
theorem totalCost_assigned (h : Drains now s s' f)
    (hids : (s.applications.map (·.applicationId)).Nodup) :
    ∑ a : Fin s.applications.length, ∑ l : Fin s.availableInterfaces.length,
        assigned (s, s') a l * (getElem s.availableInterfaces l l.isLt).cost =
      enqueuedCost (s, s') := by
  have hlink : ∀ l : Fin s.availableInterfaces.length,
      ∑ a : Fin s.applications.length, assigned (s, s') a l = (f l).length := by
    intro l
    rw [← sum_amountFrom hids (h.origin l), ← Fin.sum_univ_fun_getElem]
    exact sum_congr rfl fun a _ => h.assigned_eq a l
  rw [(enqueued_of_drains h).1, totalOver_eq_sum, sum_comm]
  refine sum_congr rfl fun l _ => ?_
  rw [← sum_mul, hlink, List.map_const', List.sum_replicate, smul_eq_mul]
  rfl

end Drains

/-! ## The computations of a run -/

namespace SenderApplication

variable {env : Environment} {setup : Setup} {as : List Action} {x : SenderApplication}

theorem mem_computations {c : Strategy × Strategy} :
    c ∈ computations as ↔ ∃ now, Action.computed now c.1 c.2 ∈ as := by
  rw [computations, List.mem_filterMap]
  constructor
  · rintro ⟨a, ha, hc⟩
    cases a with
    | computed now before after =>
      cases hc
      exact ⟨now, ha⟩
    | ended | idle | taken => cases hc
  · rintro ⟨now, ha⟩
    exact ⟨_, ha, rfl⟩

theorem requirements_of_generates {apps apps' : List Application}
    (h : List.Forall₂ (fun app app' => ∃ n, app.Generates app' n) apps apps') :
    apps'.map (·.requirements) = apps.map (·.requirements) := by
  induction h with
  | nil => rfl
  | cons happ _ ih =>
    obtain ⟨n, hgenerates⟩ := happ
    rw [List.map_cons, List.map_cons, ih, hgenerates.requirements]

/-- A computation works on the applications of the sender, as far as they never change. -/
theorem Computes.requirements (hsolve : AnswersFeasibly env.solve) {now : Time}
    {x y : SenderApplication} {before after : Strategy} (h : Computes env now x y before after) :
    before.applications.map (·.requirements) = x.strategy.applications.map (·.requirements) ∧
      y.strategy.applications.map (·.requirements) =
        before.applications.map (·.requirements) := by
  refine ⟨requirements_of_generates (updated_generates h.updated), ?_⟩
  rw [h.strategy]
  rcases Strategy.compute_effect hsolve h.computed with ⟨-, -, hsame⟩ | ⟨f, hdrains⟩
  · rw [hsame]
  · rw [hdrains.applications, List.map_map]
    exact List.map_congr_left fun app _ => app.requirements_setPending []

/-- What every computation of a run works on. -/
structure ComputesOn (env : Environment) (setup : Setup) (now : Time) (c : Strategy × Strategy) :
    Prop where
  computed : c.1.compute env setup.strategyType now = .ok c.2
  requirements : c.1.applications.map (·.requirements) = setup.application.map (·.requirements)

theorem computesOn_of_runs (hsolve : AnswersFeasibly env.solve) (h : Runs env setup as x) :
    x.strategy.applications.map (·.requirements) = setup.application.map (·.requirements) ∧
      ∀ now before after, Action.computed now before after ∈ as →
        ComputesOn env setup now (before, after) := by
  apply h.invariant (I := fun as x =>
    x.strategy.applications.map (·.requirements) = setup.application.map (·.requirements) ∧
      ∀ now before after, Action.computed now before after ∈ as →
        ComputesOn env setup now (before, after))
  · rintro a y ⟨now, hstart⟩
    obtain ⟨x, before, after, hstarted, rfl, hcomputes⟩ := startApplication_eq_ok hstart
    obtain ⟨hbefore, hafter⟩ := hcomputes.requirements hsolve
    have hstart : x.strategy.applications.map (·.requirements) =
        setup.application.map (·.requirements) :=
      requirements_of_generates (hstarted.applications.imp fun _ _ happ =>
        Application.onApplicationStart_generates happ)
    refine ⟨hafter.trans (hbefore.trans hstart), fun now' before' after' hmem => ?_⟩
    cases List.mem_singleton.mp hmem
    exact ⟨hstarted.strategyType ▸ hcomputes.computed, hbefore.trans hstart⟩
  · intro as a x y hreach hx hstep
    rcases step_computation_or_poll hstep with
      ⟨now, e, before, after, -, -, rfl, hcomputes⟩ | ⟨hnone, hkeeps⟩
    · obtain ⟨hbefore, hafter⟩ := hcomputes.requirements hsolve
      refine ⟨hafter.trans (hbefore.trans hx.1), fun now' before' after' hmem => ?_⟩
      rcases List.mem_append.mp hmem with hmem | hmem
      · exact hx.2 now' before' after' hmem
      · cases List.mem_singleton.mp hmem
        exact ⟨strategyType_of_runs hreach ▸ hcomputes.computed, hbefore.trans hx.1⟩
    · have hunchanged : y.strategy.applications = x.strategy.applications := by rw [hkeeps]
      refine ⟨hunchanged ▸ hx.1, fun now before after hmem => ?_⟩
      rcases List.mem_append.mp hmem with hmem | hmem
      · exact hx.2 now before after hmem
      · cases List.mem_singleton.mp hmem
        cases hnone

theorem ComputesOn.ids {now : Time} {c : Strategy × Strategy} (h : ComputesOn env setup now c) :
    c.1.applications.map (·.applicationId) = setup.application.map (·.applicationId) := by
  have hids := congrArg (List.map Application.Requirements.applicationId) h.requirements
  rwa [List.map_map, List.map_map] at hids

theorem ComputesOn.demand {now : Time} {c : Strategy × Strategy}
    (h : ComputesOn env setup now c) :
    c.1.applications.map (·.demand) = setup.application.map (·.demand) := by
  have hdemand := congrArg (List.map fun r : Application.Requirements =>
    (r.requiredDataRate, r.requiredDelay, r.errorRate)) h.requirements
  rwa [List.map_map, List.map_map] at hdemand

/-- Under the reactive strategy a computation assigns admissibly. -/
theorem ComputesOn.admissible (hsolve : AnswersFeasibly env.solve)
    (htype : setup.strategyType = .reactive)
    (hids : (setup.application.map (·.applicationId)).Nodup) {now : Time}
    {c : Strategy × Strategy} (h : ComputesOn env setup now c) :
    (ReactiveStrategy.problem now c.1.applications c.1.availableInterfaces).Admissible
      fun a l => assigned c a l := by
  have hcompute := h.computed
  rw [htype] at hcompute
  obtain ⟨totalCost, t, ht, hafter⟩ := ReactiveStrategy.compute_dispatches hsolve hcompute
  have htable : (fun (a : Fin c.1.applications.length)
      (l : Fin c.1.availableInterfaces.length) => assigned c a l) = t := by
    funext a l
    rw [assigned_fin, hafter, ReactiveStrategy.dispatched,
      Strategy.availableInterfaces_printIfAllSent, enqueued_appendAt _ _ l.isLt]
    exact ReactiveStrategy.amountFrom_packetsOf (h.ids ▸ hids) t a l
  rwa [htable]

/-- What is admissible for one computation meets the requirements over any interfaces with the
same attributes. -/
theorem meets_of_assigned {apps : List Application} {ifaces : List ISPInterface} {now : Time}
    {links : List ISPInterface} {c : Strategy × Strategy}
    (hdemand : c.1.applications.map (·.demand) = apps.map (·.demand))
    (hlinks : links.map (·.attributes) = ifaces.map (·.attributes))
    (hadmissible : (ReactiveStrategy.problem now c.1.applications links).Admissible
      fun a l => assigned c a l) :
    (LinearStrategy.problem apps ifaces).Meets (fun a => pendingAt c.1.applications a)
      fun a l => assigned c a l := by
  have hA : apps.length = c.1.applications.length := by
    have hlength := congrArg List.length hdemand
    simpa using hlength.symm
  have hL : ifaces.length = links.length := by
    have hlength := congrArg List.length hlinks
    simpa using hlength.symm
  have hmeets := (relaxes_finCongr now hdemand hlinks hA hL).meets hadmissible
  have hpending : (fun a : Fin apps.length => pendingAt c.1.applications a) =
      fun a => (ReactiveStrategy.problem now c.1.applications links).pending (finCongr hA a) :=
    funext fun a => pendingAt_eq (finCongr hA a)
  rw [hpending]
  exact hmeets

/-- What all computations put on a queue for one application. -/
theorem amountFrom_enqueuedOn
    (hcomputes : ∀ c ∈ computations as, ∃ now, ComputesOn env setup now c)
    (a : Fin setup.application.length) (l : ℕ) :
    amountFrom (getElem setup.application a a.isLt).applicationId (enqueuedOn as l) =
      ((computations as).map fun c => assigned c a l).sum := by
  rw [enqueuedOn, amountFrom, List.countP_flatMap]
  congr 1
  refine List.map_congr_left fun c hc => ?_
  obtain ⟨now, hcomputesOn⟩ := hcomputes c hc
  have hid := congrArg (fun ids => ids[a.val]?) hcomputesOn.ids
  rw [List.getElem?_map, List.getElem?_map, List.getElem?_eq_getElem a.isLt, Option.map_some,
    Option.map_eq_some_iff] at hid
  obtain ⟨app, happ, heq⟩ := hid
  rw [assigned, happ, Option.elim_some, heq]
  rfl

/-- In every state of a run of the reactive strategy, all that was dispatched so far meets the
requirements of the applications: over all packets of an application, the bit rates, the delays
and the error percentages of the links that they were dispatched to are on average what it asks. -/
theorem requirements_met (hsolve : AnswersFeasibly env.solve)
    (htype : setup.strategyType = .reactive)
    (hids : (setup.application.map (·.applicationId)).Nodup) (h : Runs env setup as x) :
    (LinearStrategy.problem setup.application x.strategy.availableInterfaces).Meets
      (fun a => ((computations as).map fun c => pendingAt c.1.applications a).sum)
      fun a l => amountFrom (getElem setup.application a a.isLt).applicationId
        (enqueuedOn as l) := by
  have hcomputes : ∀ c ∈ computations as, ∃ now, ComputesOn env setup now c := by
    intro c hc
    obtain ⟨now, hmem⟩ := mem_computations.mp hc
    exact ⟨now, (computesOn_of_runs hsolve h).2 now _ _ hmem⟩
  have hround : ∀ c ∈ computations as,
      (LinearStrategy.problem setup.application x.strategy.availableInterfaces).Meets
        (fun a => pendingAt c.1.applications a) fun a l => assigned c a l := by
    intro c hc
    obtain ⟨now, hcomputesOn⟩ := hcomputes c hc
    exact meets_of_assigned hcomputesOn.demand (attributes_of_computations h c hc)
      (hcomputesOn.admissible hsolve htype hids)
  have htable : (fun (a : Fin setup.application.length)
      (l : Fin x.strategy.availableInterfaces.length) =>
        amountFrom (getElem setup.application a a.isLt).applicationId (enqueuedOn as l)) =
      fun (a : Fin setup.application.length)
        (l : Fin x.strategy.availableInterfaces.length) =>
          ((computations as).map fun c => assigned c a l).sum :=
    funext fun a => funext fun l => amountFrom_enqueuedOn hcomputes a l
  rw [htable]
  exact AssignmentProblem.Meets.sum hround

theorem requirements_met_sample :
    ∃ as x, Runs sampleEnvironment (sampleSetup .reactive) as x ∧ (computations as).length = 2 ∧
      (LinearStrategy.problem (sampleSetup .reactive).application
        x.strategy.availableInterfaces).Meets
        (fun a => ((computations as).map fun c => pendingAt c.1.applications a).sum)
        fun a l => amountFrom (getElem (sampleSetup .reactive).application a a.isLt).applicationId
          (enqueuedOn as l) := by
  obtain ⟨as, x, hruns, hlength⟩ := exists_timedRuns sampleEnvironment 0
    (sampleSetup .reactive) (List.replicate 6 false) (fun s => (computations s.1).length) 2
    (by decide +kernel)
  exact ⟨as, x, hruns.runs, hlength, requirements_met (sound_offer _).answersFeasibly rfl
    (by decide) hruns.runs⟩

end SenderApplication

end SdWan
