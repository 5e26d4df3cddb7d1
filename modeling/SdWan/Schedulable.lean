import SdWan.Comparison
import SdWan.Progress
import SdWan.Library.ExhaustiveSearch

/-!
# When the reactive strategy finds a solution

A plan gives every sampled application a link that meets its requirements alone. When the peaks of
the applications fit their links, the plan is a solution of the program of every computation but the
first, because the queues of the links are empty then; the first computation has the packets of two
samples to place.
-/

open Finset IntegerProgram

namespace SdWan

/-! ## Plans -/

/-- A link for every application, by its number. -/
structure Plan (apps : List SinApplication) (ifaces : List ISPInterface) where
  choice : ℕ → Fin ifaces.length
  bitRate : ∀ s ∈ apps,
    s.getRequiredDataRate ≤ (ifaces.get (choice s.applicationId)).getDataBitRate
  delay : ∀ s ∈ apps,
    (ifaces.get (choice s.applicationId)).getDelayInMilliseconds ≤ s.requiredDelay
  errorRate : ∀ s ∈ apps, (ifaces.get (choice s.applicationId)).getErrorRate ≤ s.errorRate

/-- The applications `updated` are the sampled ones `apps` at a later time. They have no more packets
pending than `demand` says. -/
def Demands (demand : SinApplication → ℕ) (apps : List SinApplication)
    (updated : List Application) : Prop :=
  List.Forall₂ (fun s app => app.requirements = (Application.sin s).requirements ∧
    app.pendingpackets.length ≤ demand s) apps updated

namespace Plan

variable {apps : List SinApplication} {ifaces : List ISPInterface}

/-- The packets that the plan puts on a link. -/
def load (plan : Plan apps ifaces) (demand : SinApplication → ℕ) (l : Fin ifaces.length) : ℕ :=
  (apps.map fun s => if plan.choice s.applicationId = l then demand s else 0).sum

/-- Every link carries in a second what the plan puts on it. -/
def Fits (plan : Plan apps ifaces) (demand : SinApplication → ℕ) : Prop :=
  ∀ l, plan.load demand l ≤ (ifaces.get l).getPackageRate

variable {plan : Plan apps ifaces} {demand : SinApplication → ℕ} {updated : List Application}

theorem sum_chosen_le (choice : ℕ → Fin ifaces.length) (h : Demands demand apps updated)
    (l : Fin ifaces.length) :
    (updated.map fun app =>
        if choice app.applicationId = l then app.pendingpackets.length else 0).sum ≤
      (apps.map fun s => if choice s.applicationId = l then demand s else 0).sum := by
  induction h with
  | nil => exact le_rfl
  | @cons s app apps updated happ _ ih =>
    obtain ⟨hrequirements, hpending⟩ := happ
    have hid : app.applicationId = s.applicationId :=
      congrArg Application.Requirements.applicationId hrequirements
    rw [List.map_cons, List.map_cons, List.sum_cons, List.sum_cons, hid]
    refine Nat.add_le_add ?_ ih
    split_ifs
    · exact hpending
    · exact le_rfl

/-- The link of an application is right at any later time. -/
theorem meets (plan : Plan apps ifaces) (h : Demands demand apps updated) {app : Application}
    (happ : app ∈ updated) :
    app.getRequiredDataRate ≤ (ifaces.get (plan.choice app.applicationId)).getDataBitRate ∧
      (ifaces.get (plan.choice app.applicationId)).getDelayInMilliseconds ≤ app.requiredDelay ∧
      (ifaces.get (plan.choice app.applicationId)).getErrorRate ≤ app.errorRate := by
  obtain ⟨s, hs, hrequirements, -⟩ := forall₂_mem_right h happ
  have hid : app.applicationId = s.applicationId :=
    congrArg Application.Requirements.applicationId hrequirements
  have hrate : app.getRequiredDataRate = s.getRequiredDataRate :=
    congrArg Application.Requirements.requiredDataRate hrequirements
  have hdelay : app.requiredDelay = s.requiredDelay :=
    congrArg Application.Requirements.requiredDelay hrequirements
  have herror : app.errorRate = s.errorRate :=
    congrArg Application.Requirements.errorRate hrequirements
  rw [hid, hrate, hdelay, herror]
  exact ⟨plan.bitRate s hs, plan.delay s hs, plan.errorRate s hs⟩

theorem suits (plan : Plan apps ifaces) (h : Demands demand apps updated) :
    (LinearStrategy.problem updated ifaces).Suits fun a : Fin updated.length =>
      plan.choice (getElem updated a a.isLt).applicationId := by
  have hmeets := fun a : Fin updated.length => plan.meets h (List.getElem_mem a.isLt)
  exact ⟨fun a => Nat.cast_le.mpr (hmeets a).1, fun a => Nat.cast_le.mpr (hmeets a).2.1,
    fun a => (hmeets a).2.2⟩

/-- A plan that fits is an admissible assignment on links without a queue. -/
theorem admissible (hfits : plan.Fits demand) (h : Demands demand apps updated) :
    ∃ x, (ReactiveStrategy.idleProblem updated ifaces).Admissible x := by
  have hsuits : (ReactiveStrategy.idleProblem updated ifaces).Suits
      fun a : Fin updated.length => plan.choice (getElem updated a a.isLt).applicationId :=
    ⟨(plan.suits h).bitRate, (plan.suits h).delay, (plan.suits h).errorPercentage⟩
  refine ⟨_, hsuits.admissible fun l => Nat.cast_le.mpr ?_⟩
  calc _ = (updated.map fun app =>
        if plan.choice app.applicationId = l then app.pendingpackets.length else 0).sum :=
        Fin.sum_univ_fun_getElem updated fun app =>
          if plan.choice app.applicationId = l then app.pendingpackets.length else 0
    _ ≤ plan.load demand l := sum_chosen_le plan.choice h l
    _ ≤ _ := hfits l

/-- The linear program knows no capacities. It only needs that an application without packets
requires no rate. -/
theorem exists_feasible_linear (plan : Plan apps ifaces) (h : Demands demand apps updated)
    (hidle : ∀ app ∈ updated, app.pendingpackets = [] → app.getRequiredDataRate = 0) :
    ∃ y, (LinearStrategy.program updated ifaces).Feasible y := by
  obtain ⟨y, hy⟩ : ∃ y, (LinearStrategy.problem updated ifaces).Admissible y :=
    ⟨_, (plan.suits h).admissible fun l => le_top⟩
  exact ⟨pointOf y, (LinearStrategy.feasible_iff _ _ _).mpr ⟨fun v _ => natural_pointOf y v,
    (tableOf_pointOf y).symm ▸ hy, fun a => hidle _ (List.getElem_mem a.isLt)⟩⟩

end Plan

/-- The programs that decide whether a computation has a solution. -/
def Strategy.programs (strategyType : StrategyTypes) (now : Time) (s : Strategy) : List Program :=
  match strategyType with
  | .linear => [LinearStrategy.program s.applications s.availableInterfaces]
  | .reactive => [ReactiveStrategy.program now s.applications s.availableInterfaces]
  | .random => []
  | .roundRobin => []

namespace SenderApplication

variable {env : Environment} {setup : Setup} {apps : List SinApplication}
  {ifaces : List ISPInterface} {as : List Action} {x : SenderApplication} {now : Time}

/-- The solver answers every program of a computation of this sender that has a solution. -/
def AnswersCalls (env : Environment) (setup : Setup) : Prop :=
  ∀ before, ComputeCalled env setup before → ∀ now, ∀ P ∈ before.programs setup.strategyType now,
    Answers env.solve P

/-! ## One computation -/

/-- The applications of a later state have the requirements of the sampled ones. -/
theorem forall₂_requirements {updated : List Application}
    (h : updated.map (·.requirements) = (apps.map Application.sin).map (·.requirements)) :
    List.Forall₂ (fun s (app : Application) =>
      app.requirements = (Application.sin s).requirements) apps updated := by
  have heq : List.Forall₂ Eq (apps.map fun s => (Application.sin s).requirements)
      (updated.map (·.requirements)) := by
    rw [List.forall₂_eq_eq_eq, h, List.map_map]
    rfl
  rw [List.forall₂_map_left_iff, List.forall₂_map_right_iff] at heq
  exact heq.imp fun _ _ => Eq.symm

theorem requirements_of_update {before updated : List Application}
    (h : forEach Application.update before = .ok updated) :
    updated.map (·.requirements) = before.map (·.requirements) :=
  requirements_of_generates ((forEach_eq_ok.mp h).imp fun _ _ => Application.update_generates)

/-- The first computation finds two samples of every application. -/
theorem demands_of_start (happs : setup.application = apps.map .sin)
    {started updated : List Application}
    (hstarted : forEach Application.onApplicationStart setup.application = .ok started)
    (hupdated : forEach Application.update started = .ok updated) :
    Demands (·.packetsBefore 2) apps updated := by
  have hrequirements : updated.map (·.requirements) =
      (apps.map Application.sin).map (·.requirements) := by
    rw [requirements_of_update hupdated, ← happs]
    exact requirements_of_generates ((forEach_eq_ok.mp hstarted).imp fun _ _ =>
      Application.onApplicationStart_generates)
  exact (forall₂_requirements hrequirements).mp (fun _ _ hsame hpending => ⟨hsame, hpending⟩)
    ((first_samples happs hstarted (forEach_eq_ok.mp hupdated)).imp fun _ _ hs => hs.2.2.le)

/-- Every later computation finds one sample of an application, or none. -/
theorem demands_of_runs (hsolve : Sound env.solve) (htype : setup.strategyType = .reactive)
    (happs : setup.application = apps.map .sin) {lastId : ℕ}
    (hsockets : initSockets setup = .ok (ifaces, lastId)) (h : Runs env setup as x)
    {updated : List Application}
    (hupdated : forEach Application.update x.strategy.applications = .ok updated) :
    Demands (·.maxValue) apps updated := by
  have hrequirements : updated.map (·.requirements) =
      (apps.map Application.sin).map (·.requirements) := by
    rw [requirements_of_update hupdated, ← happs]
    exact (computesOn_of_runs hsolve.answersFeasibly h).1
  have hidle := (idle_of_runs hsolve htype happs hsockets h).1
  have hpending := (forall₂_comp hidle.applications (forEach_eq_ok.mp hupdated)).imp
    fun s app' ⟨app, ⟨hs, hnone⟩, hupdate⟩ =>
      (Application.update_le_maxValue hs hnone hupdate).2
  exact (forall₂_requirements hrequirements).mp (fun _ _ hsame hle => ⟨hsame, hle⟩) hpending

/-- A call on links without a queue has a solution if its applications have a plan that fits. -/
theorem not_infeasible {plan : Plan apps ifaces} {demand : SinApplication → ℕ} {before : Strategy}
    {f : Fault} (hanswers : AnswersCalls env setup) (htype : setup.strategyType = .reactive)
    (hcalled : ComputeCalled env setup before)
    (hempty : ∀ i ∈ before.availableInterfaces, i.pendingpackets = [])
    (hlinks : before.availableInterfaces.map (·.attributes) = ifaces.map (·.attributes))
    (hfits : plan.Fits demand) (hdemands : Demands demand apps before.applications) :
    ¬ before.Infeasible env now .reactive f := by
  intro hinfeasible
  obtain ⟨t, ht⟩ := plan.admissible hfits hdemands
  have hcosts : (ReactiveStrategy.idleProblem before.applications ifaces).totalCost t ∈
      (ReactiveStrategy.idleProblem before.applications before.availableInterfaces).costs := by
    rw [ReactiveStrategy.idle_costs_congr hlinks]
    exact ⟨t, ht, rfl⟩
  obtain ⟨t', ht', -⟩ := hcosts
  rw [← ReactiveStrategy.problem_of_empty hempty now] at ht'
  have hanswer := hanswers before hcalled now _ (htype ▸ List.mem_singleton_self _) _
    (ReactiveStrategy.feasible_pointOf ht')
  cases hinfeasible with
  | reactive hnone =>
    rw [hnone] at hanswer
    cases hanswer

/-- What is pending at a computation that succeeds fits into the links. -/
theorem pendingTotal_le_of_compute (hsolve : Sound env.solve) {s s' : Strategy}
    (h : s.compute env .reactive now = .ok s') :
    pendingTotal s.applications ≤ totalPackageRate s.availableInterfaces := by
  obtain ⟨t, ht, -⟩ := ReactiveStrategy.compute_cases hsolve h
  have hle := ht.sum_pending_le (c := fun l => (s.availableInterfaces.get l).getPackageRate)
    fun l => rfl
  have hsupply := Fin.sum_univ_fun_getElem s.applications fun app => app.pendingpackets.length
  have hcapacity := Fin.sum_univ_fun_getElem s.availableInterfaces (·.getPackageRate)
  exact hsupply.symm.trans_le (hle.trans_eq hcapacity)

/-! ## Every event -/

/-- An event fails only if it is a computation that fails. -/
theorem exists_run (hx : Steady setup ifaces x) {e : EventQueue.Event Time Handler}
    (he : e ∈ x.simulator.events) {poll : Poll} (hpoll : Willing poll)
    (hcompute : e.handler = .computeStrategyAndContinue → ∃ s,
      computeStrategyAndContinue env now { x with simulator := x.simulator.remove e } = .ok s) :
    ∃ s, run env now poll e x = .ok s := by
  unfold run
  dsimp only
  split
  · rename_i hhandler
    exact hcompute hhandler
  · rename_i l hhandler
    unfold sendPacket
    split_ifs
    · exact ⟨_, rfl⟩
    · exact exists_sendData hpoll (hx.length ▸ hx.polls e he l hhandler)

/-- The first computation has a solution if the plan fits the first two samples together. -/
theorem exists_start (hsolve : Sound env.solve) (hanswers : AnswersCalls env setup)
    (htype : setup.strategyType = .reactive) (happs : setup.application = apps.map .sin)
    (husable : Usable setup ifaces) (plan : Plan apps ifaces)
    (hfirst : plan.Fits (·.packetsBefore 2)) (now : Time) :
    ∃ s, startApplication env now setup = .ok s := by
  obtain ⟨lastId, hsockets⟩ := husable.sockets
  cases hfails : startApplication env now setup with
  | ok s => exact ⟨s, rfl⟩
  | error f =>
    obtain ⟨started, updated, hstarted, hupdated, hinfeasible⟩ :=
      infeasible_of_start hsolve.answersFeasibly husable hfails
    rw [htype] at hinfeasible
    exact absurd hinfeasible (not_infeasible hanswers htype (.start hsockets hstarted hupdated)
      (initSockets_created hsockets).pendingpackets rfl hfirst
      (demands_of_start happs hstarted hupdated))

/-- It has none if the first two samples are more than all links carry in a second. -/
theorem startApplication_ne_ok (hsolve : Sound env.solve) (htype : setup.strategyType = .reactive)
    (happs : setup.application = apps.map .sin) (husable : Usable setup ifaces)
    (hover : totalPackageRate ifaces < (apps.map (·.packetsBefore 2)).sum)
    (s : Action × SenderApplication) : startApplication env now setup ≠ .ok s := by
  intro hstart
  obtain ⟨x, before, after, hstarted, hifaces, -, hcomputes⟩ := start_cases husable hstart
  have hcompute := hcomputes.computed
  rw [hstarted.strategyType, htype] at hcompute
  have hsamples := first_samples happs (forEach_eq_ok.mpr hstarted.applications)
    hcomputes.updated
  have hle := pendingTotal_le_of_compute hsolve hcompute
  rw [pendingTotal_eq (hsamples.imp fun _ _ hs => hs.2.2), hcomputes.before_eq] at hle
  dsimp only at hle
  rw [hifaces] at hle
  omega

/-- Every later computation has a solution if the plan fits the peaks. -/
theorem exists_run_of_plan (hsolve : Sound env.solve) (hanswers : AnswersCalls env setup)
    (htype : setup.strategyType = .reactive) (happs : setup.application = apps.map .sin)
    (husable : Usable setup ifaces) (plan : Plan apps ifaces) (hpeak : plan.Fits (·.maxValue))
    (h : TimedRuns env setup as x) {e : EventQueue.Event Time Handler}
    (hnext : x.simulator.IsNext e) {poll : Poll} (hpoll : Willing poll) :
    ∃ s, run env e.ts poll e x = .ok s := by
  obtain ⟨lastId, hsockets⟩ := husable.sockets
  have hsteady := steady_of_runs hsolve.answersFeasibly husable h.runs
  refine exists_run hsteady hnext.mem hpoll fun hcompute => ?_
  cases hfails : computeStrategyAndContinue env e.ts
      { x with simulator := x.simulator.remove e } with
  | ok s => exact ⟨s, rfl⟩
  | error f =>
    obtain ⟨updated, hupdated, hinfeasible⟩ :=
      infeasible_of_error hsolve.answersFeasibly husable (hsteady.remove e) hfails
    rw [htype] at hinfeasible
    have hempty := (paced_of_timedRuns hsolve htype h).1.empty_of_isNext
      (live_of_runs hsolve.answersFeasibly h.runs) hnext hcompute
    exact absurd hinfeasible (not_infeasible hanswers htype
      (.event (x := x) h.runs hnext.mem hcompute hupdated) hempty hsteady.links hpeak
      (demands_of_runs hsolve htype happs hsockets h.runs hupdated))

/-- The values of a solution are no more than the packets to place. -/
theorem value_le_of_feasible {updated : List Application} {links : List ISPInterface}
    {bound : ℕ} (hpending : ∀ app ∈ updated, app.pendingpackets.length ≤ bound) {y : ℕ → ℚ}
    (hy : (ReactiveStrategy.program now updated links).Feasible y) :
    ∀ v < (ReactiveStrategy.program now updated links).numVariables, y v ≤ bound := by
  intro v hv
  change v < updated.length * links.length at hv
  obtain ⟨hnatural, hadmissible⟩ := (ReactiveStrategy.feasible_iff now updated links y).mp hy
  have hpos : 0 < updated.length := Nat.pos_of_ne_zero fun h => by simp [h] at hv
  have ha : v % updated.length < updated.length := Nat.mod_lt v hpos
  have hl : v / updated.length < links.length := Nat.div_lt_of_lt_mul hv
  have hsent := hadmissible.allSent ⟨_, ha⟩
  have hle := single_le_sum (fun l _ => Nat.zero_le _) (mem_univ (⟨_, hl⟩ : Fin links.length))
    (f := tableOf updated.length links.length y ⟨_, ha⟩)
  have hvalue : tableOf updated.length links.length y ⟨_, ha⟩ ⟨_, hl⟩ ≤ bound :=
    hle.trans (hsent.trans_le (hpending _ (List.getElem_mem ha)))
  rw [hnatural v hv, Nat.cast_le]
  have hposition : v % updated.length + v / updated.length * updated.length = v := by
    rw [Nat.mul_comm, Nat.mod_add_div]
  rwa [tableOf, hposition] at hvalue

/-- A search that goes up to the demands of the applications answers all computations. -/
theorem answersCalls_search {bound : ℕ} (henv : env.solve = search bound)
    (htype : setup.strategyType = .reactive) (happs : setup.application = apps.map .sin)
    {lastId : ℕ} (hsockets : initSockets setup = .ok (ifaces, lastId))
    (hfirst : ∀ s ∈ apps, s.packetsBefore 2 ≤ bound) (hpeak : ∀ s ∈ apps, s.maxValue ≤ bound) :
    AnswersCalls env setup := by
  have hsolve : Sound env.solve := henv ▸ sound_search bound
  have hwithin : ∀ {demand : SinApplication → ℕ} {updated : List Application},
      Demands demand apps updated → (∀ s ∈ apps, demand s ≤ bound) →
        ∀ app ∈ updated, app.pendingpackets.length ≤ bound := by
    intro demand updated hdemands hbound app happ
    obtain ⟨s, hs, -, hle⟩ := forall₂_mem_right hdemands happ
    exact hle.trans (hbound s hs)
  intro before hcalled now P hP
  rw [htype] at hP
  rw [henv, List.mem_singleton.mp hP]
  apply answers_search
  intro y hy
  apply value_le_of_feasible _ hy
  cases hcalled with
  | start _ hstarted hupdated =>
    exact hwithin (demands_of_start happs hstarted hupdated) hfirst
  | event hruns _ _ hupdated =>
    exact hwithin (demands_of_runs hsolve htype happs hsockets hruns hupdated) hpeak

/-- One packet in every second over one link of two packets per second. -/
theorem exists_plan_sinSetup :
    ∃ i, Usable (sinSetup 2048) [i] ∧ initSockets (sinSetup 2048) = .ok ([i], 101) ∧
      ∃ plan : Plan [SinApplication.sampleSin 1] [i], ∀ demand : SinApplication → ℕ,
        demand (SinApplication.sampleSin 1) ≤ 2 → plan.Fits demand := by
  obtain ⟨i, hsockets, hdevice, herror⟩ : ∃ i : ISPInterface,
      initSockets (sinSetup 2048) = .ok ([i], 101) ∧ i.netDevice = ⟨2048, 10, 0⟩ ∧
        i.errorModel = 0 := ⟨_, rfl, rfl, rfl⟩
  have hrate : i.getDataBitRate = 2048 := by rw [ISPInterface.getDataBitRate, hdevice]
  have hpackages : i.getPackageRate = 2 := by rw [ISPInterface.getPackageRate, hrate]; rfl
  have hrequired : (SinApplication.sampleSin 1).getRequiredDataRate ≤ 2048 :=
    (SinApplication.getRequiredDataRate_le maxValue_sampleSin).trans (by decide)
  have hdelay : i.getDelayInMilliseconds ≤ 200 := by
    rw [ISPInterface.getDelayInMilliseconds, hdevice]
    decide
  have hlossless : i.getErrorRate ≤ 20 := by
    rw [ISPInterface.getErrorRate, herror]
    norm_num
  refine ⟨i, ⟨⟨_, hsockets⟩, List.cons_ne_nil _ _, ?_, ?_, StrategyTypes.noConfusion, ?_⟩,
    hsockets, ⟨fun _ => 0, ?_, ?_, ?_⟩, fun demand hdemand l => ?_⟩
  · rw [List.forall_mem_singleton, hrate]
    norm_num
  · rw [sinSetup, List.forall_mem_singleton, Application.LongEnough, SinApplication.sampleSin,
      List.length_map, List.length_range]
    exact Nat.lt_succ_self _
  · intro _
    norm_num
  · exact List.forall_mem_singleton.mpr (hrequired.trans_eq hrate.symm)
  · exact List.forall_mem_singleton.mpr hdelay
  · exact List.forall_mem_singleton.mpr hlossless
  · have hlink : [i].get l = i := List.mem_singleton.mp (List.get_mem [i] l)
    rw [hlink, hpackages, Plan.load, List.map_singleton, List.sum_singleton]
    split_ifs
    · exact hdemand
    · exact Nat.zero_le _

end SenderApplication

end SdWan
