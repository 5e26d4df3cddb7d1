import SdWan.Assigned
import SdWan.Interfaces
import SdWan.Remaining

/-!
# Comparing runs

Under the reactive strategy every computation finds the queues empty, so its problem depends on the
workload and the links alone. With an exact solver two runs then record the same data, whatever the
losses, the order of simultaneous events and the choice between optimal solutions; and no run whose
assignments are admissible costs less.
-/

open Finset IntegerProgram

namespace SdWan

/-! ## Links without a queue -/

/-- The problem of the reactive strategy on links on which nothing waits. -/
def ReactiveStrategy.idleProblem (apps : List Application) (ifaces : List ISPInterface) :
    AssignmentProblem (Fin apps.length) (Fin ifaces.length) :=
  { LinearStrategy.problem apps ifaces with
    capacity := fun l => (ifaces.get l).getPackageRate }

section

variable {apps : List Application} {ifaces ifaces' : List ISPInterface}

theorem ReactiveStrategy.delayEstimator_eq_zero {i : ISPInterface} (h : i.pendingpackets = [])
    (now : Time) : delayEstimator now i = 0 := by
  have hnone : uint32 i.pendingpackets.length = 0 := by rw [h]; rfl
  unfold delayEstimator ISPInterface.getAverageWaitingTimeInMilliseconds
  simp [hnone]

theorem ReactiveStrategy.problem_of_empty (h : ∀ i ∈ ifaces, i.pendingpackets = [])
    (now : Time) : problem now apps ifaces = idleProblem apps ifaces := by
  have hdelay : ∀ l : Fin ifaces.length, milliSecondsInterfaceDelay now (getElem ifaces l l.isLt) =
      (getElem ifaces l l.isLt).getDelayInMilliseconds := by
    intro l
    have hwait : delayEstimator now (getElem ifaces l l.isLt) = 0 :=
      delayEstimator_eq_zero (h _ (List.getElem_mem l.isLt)) now
    rw [milliSecondsInterfaceDelay, hwait, Nat.cast_zero, add_zero]
  simp only [problem, idleProblem, LinearStrategy.problem]
  congr 1
  exact funext hdelay

theorem ReactiveStrategy.idle_costs_subset
    (hlinks : ifaces.map (·.attributes) = ifaces'.map (·.attributes)) :
    (idleProblem apps ifaces).costs ⊆ (idleProblem apps ifaces').costs := by
  have hL : ifaces'.length = ifaces.length := by
    have hlength := congrArg List.length hlinks
    simpa using hlength.symm
  have hlink : ∀ l : Fin ifaces'.length,
      (getElem ifaces' l l.isLt).attributes = (ifaces[finCongr hL l]).attributes :=
    fun l => (getElem_cast_of_map_eq hlinks hL l).symm
  have hrelaxes : (idleProblem apps ifaces).Relaxes (idleProblem apps ifaces')
      (Equiv.refl _) (finCongr hL) := by
    constructor
    · exact fun _ => rfl
    · exact fun _ => rfl
    · exact fun _ => rfl
    · exact fun l => congrArg (fun i => (i.netDevice.dataRate : ℚ)) (hlink l)
    · exact fun l => (congrArg (fun i : ISPInterface.Attributes =>
        (uint32 i.netDevice.delay : ℚ)) (hlink l)).le
    · exact fun l => congrArg (fun i => (i.errorModel * 100 : ℚ)) (hlink l)
    · exact fun l => congrArg (fun i => i.cost) (hlink l)
  refine hrelaxes.costs_subset (fun _ => rfl) fun l => ?_
  exact (congrArg (fun i : ISPInterface.Attributes =>
    ((i.netDevice.dataRate / Utils.packetSizeBit : ℕ) : ℕ∞)) (hlink l)).ge

/-- What the assignments cost depends on the links as far as they never change. -/
theorem ReactiveStrategy.idle_costs_congr
    (hlinks : ifaces.map (·.attributes) = ifaces'.map (·.attributes)) :
    (idleProblem apps ifaces).costs = (idleProblem apps ifaces').costs :=
  Set.Subset.antisymm (idle_costs_subset hlinks) (idle_costs_subset hlinks.symm)

end

theorem Strategy.nextDataPoint_congr {s s' : Strategy} (h : s'.strategyData = s.strategyData)
    (currentCost packets : ℕ) :
    s'.nextDataPoint currentCost packets = s.nextDataPoint currentCost packets := by
  rw [nextDataPoint, nextDataPoint, h]

/-! ## One computation -/

/-- With an exact solver a computation on empty queues costs as little as an admissible assignment
can, and records that. -/
theorem ReactiveStrategy.compute_least {solve : Solver} {now : Time} {s s' : Strategy}
    (hexact : ExactAt solve (program now s.applications s.availableInterfaces))
    (hempty : ∀ i ∈ s.availableInterfaces, i.pendingpackets = [])
    (h : compute solve now s = .ok s') :
    IsLeast (idleProblem s.applications s.availableInterfaces).costs (enqueuedCost (s, s')) ∧
      s'.strategyData = s.strategyData ++
        [s.nextDataPoint (enqueuedCost (s, s')) (currentPendingPackages s.applications)] := by
  obtain ⟨h0, h31⟩ := amountOfInterfaces_of_compute h
  rcases compute_exact h0 h31 hexact with ⟨hfail, -⟩ | ⟨x, hx, hok⟩
  · rw [hfail] at h
    cases h
  · rw [hok, Except.ok.injEq] at h
    subst h
    have hcost : enqueuedCost (s, dispatched now s
        ((problem now s.applications s.availableInterfaces).totalCost x) x) =
        (problem now s.applications s.availableInterfaces).totalCost x := by
      rw [enqueuedCost, dispatched, Strategy.availableInterfaces_printIfAllSent,
        totalOver_enqueued, totalOver_packetsOf]
      rfl
    rw [hcost, ← problem_of_empty hempty now]
    exact ⟨hx.isLeast, by rw [dispatched, Strategy.strategyData_printIfAllSent]⟩

/-- After a computation on empty queues all data has been sent if there was none. -/
theorem Drains.getAllDataHasBeenSent_iff {now : Time} {s s' : Strategy}
    {f : ℕ → List SendPacketInfo} (h : Drains now s s' f)
    (hempty : ∀ i ∈ s.availableInterfaces, i.pendingpackets = []) :
    s'.getAllDataHasBeenSent = true ↔
      (∀ app ∈ s.applications, app.allPacketsGenerated = true) ∧
        pendingTotal s.applications = 0 := by
  have happs : (∀ app ∈ s'.applications,
      app.pendingpackets = [] ∧ app.allPacketsGenerated = true) ↔
        ∀ app ∈ s.applications, app.allPacketsGenerated = true := by
    rw [h.applications, List.forall_mem_map]
    simp only [Application.pendingpackets_setPending, Application.allPacketsGenerated_setPending,
      true_and]
  have hone : ∀ ifaces : List ISPInterface,
      queuedTotal (fun _ _ => 1) ifaces = 0 ↔ ∀ i ∈ ifaces, i.pendingpackets = [] := by
    intro ifaces
    simp only [SenderApplication.queuedTotal_eq_zero_iff, one_ne_zero, imp_false,
      List.eq_nil_iff_forall_not_mem]
  have hqueues : (∀ i ∈ s'.availableInterfaces, i.pendingpackets = []) ↔
      pendingTotal s.applications = 0 := by
    have hmoved := h.moved fun _ => 1
    simp only [Nat.mul_one] at hmoved
    rw [← hone, h.availableInterfaces, queuedTotal_appendAt, (hone _).mpr hempty, Nat.zero_add,
      hmoved]
    rfl
  rw [Strategy.getAllDataHasBeenSent_iff, happs, hqueues]

namespace SenderApplication

variable {env env' : Environment} {setup setup' : Setup} {as as' : List Action}
  {x x' : SenderApplication}

/-! ## From one computation to the next -/

/-- Every computation goes on from the data of the one before, which has not printed them. -/
structure Continues (as : List Action) (x : SenderApplication) : Prop where
  first : ∀ c, (computations as)[0]? = some c → c.1.strategyData = []
  next : ∀ (k : ℕ) (c d : Strategy × Strategy), (computations as)[k]? = some c →
    (computations as)[k + 1]? = some d →
      d.1.strategyData = c.2.strategyData ∧ c.2.resultsFiles = []
  unwritten : ∀ c ∈ computations as, c.1.resultsFiles = []
  length : ∀ (k : ℕ) (c : Strategy × Strategy), (computations as)[k]? = some c →
    c.2.strategyData.length = k + 1
  grows : ∀ c ∈ computations as, c.2.strategyData <+: x.strategy.strategyData
  last : ∃ cs c, computations as = cs ++ [c] ∧ x.strategy.strategyData = c.2.strategyData ∧
    x.strategy.resultsFiles = c.2.resultsFiles

theorem continues_of_runs (hsolve : Sound env.solve)
    (htype : setup.strategyType = .roundRobin ∨ setup.strategyType = .reactive)
    (h : Runs env setup as x) : Continues as x := by
  apply h.invariant
  · rintro a y ⟨now, hstart⟩
    obtain ⟨x, before, after, hstarted, rfl, hcomputes⟩ := startApplication_eq_ok hstart
    have hfresh : before.strategyData = [] ∧ before.resultsFiles = [] := by
      rw [hcomputes.before_eq, hstarted.strategy]
      exact ⟨rfl, rfl⟩
    have hcompute := hcomputes.computed
    rw [hstarted.strategyType] at hcompute
    obtain ⟨⟨⟨currentCost, packets, -, hdata⟩, -⟩, -⟩ :=
      Strategy.compute_records hsolve htype hcompute
    refine ⟨fun c hc => ?_, fun k c d hc hd => ?_, fun c hc => ?_, fun k c hc => ?_,
      fun c hc => ?_, [], (before, after), rfl, ?_⟩
    · cases hc
      exact hfresh.1
    · cases hd
    · cases List.mem_singleton.mp hc
      exact hfresh.2
    · have hone : ([] ++ [(before, after)])[k]? = some c := hc
      rcases getElem?_concat_cases hone with hc | ⟨rfl, rfl⟩
      · cases hc
      · rw [hdata, hfresh.1]
        rfl
    · cases List.mem_singleton.mp hc
      rw [hcomputes.strategy]
    · rw [hcomputes.strategy]
      exact ⟨rfl, rfl⟩
  · intro as a x y hreach hx hstep
    obtain ⟨cs, c, hcs, hlast, hfiles⟩ := hx.last
    rcases step_computation_or_poll hstep with
      ⟨now, e, before, after, he, hevent, rfl, hcomputes⟩ | ⟨hnone, hkeeps⟩
    · have hsplit : computations (as ++ [.computed now before after]) =
          computations as ++ [(before, after)] := computations_append _ _
      have hempty := (accounted_of_runs hsolve htype hreach).notYet ⟨e, he, hevent⟩
      have hbefore : before.strategyData = x.strategy.strategyData ∧
          before.resultsFiles = x.strategy.resultsFiles := by
        rw [hcomputes.before_eq]
        exact ⟨rfl, rfl⟩
      have hcompute := hcomputes.computed
      rw [show x.strategyType = setup.strategyType from strategyType_of_runs hreach] at hcompute
      obtain ⟨⟨⟨currentCost, packets, -, hdata⟩, -⟩, -⟩ :=
        Strategy.compute_records hsolve htype hcompute
      have hc : (computations as)[cs.length]? = some c := by
        rw [hcs, List.getElem?_concat_length]
      have hlength : (computations as).length = cs.length + 1 := by
        rw [hcs, List.length_append, List.length_singleton]
      refine ⟨fun c' hc' => ?_, fun k c' d hc' hd => ?_, ?_, fun k c' hc' => ?_, ?_,
        computations as, (before, after), hsplit, ?_⟩
      · rw [hsplit, List.getElem?_append_left (by omega)] at hc'
        exact hx.first c' hc'
      · rw [hsplit] at hc' hd
        rcases getElem?_concat_cases hd with hd | ⟨hk, rfl⟩
        · have hlt := (List.getElem?_eq_some_iff.mp hd).1
          rw [List.getElem?_append_left (by omega)] at hc'
          exact hx.next k c' d hc' hd
        · rw [List.getElem?_append_left (by omega)] at hc'
          obtain rfl : k = cs.length := by omega
          obtain rfl : c = c' := Option.some.inj (hc.symm.trans hc')
          exact ⟨hbefore.1.trans hlast, hfiles.symm.trans hempty⟩
      · rw [hsplit, List.forall_mem_append, List.forall_mem_singleton]
        exact ⟨hx.unwritten, hbefore.2.trans hempty⟩
      · rw [hsplit] at hc'
        rcases getElem?_concat_cases hc' with hc' | ⟨rfl, rfl⟩
        · exact hx.length k c' hc'
        · rw [hdata, hbefore.1, hlast, List.length_append, hx.length _ c hc, hlength]
          rfl
      · rw [hsplit, List.forall_mem_append, List.forall_mem_singleton, hcomputes.strategy]
        refine ⟨fun c' hc' => (hx.grows c' hc').trans ?_, List.prefix_rfl⟩
        rw [← hbefore.1, hdata]
        exact List.prefix_append _ _
      · rw [hcomputes.strategy]
        exact ⟨rfl, rfl⟩
    · have hsame : computations (as ++ [a]) = computations as := by
        rw [computations_append, hnone, List.append_nil]
      have hunchanged : y.strategy.strategyData = x.strategy.strategyData ∧
          y.strategy.resultsFiles = x.strategy.resultsFiles := by
        rw [hkeeps]
        exact ⟨rfl, rfl⟩
      exact ⟨hsame ▸ hx.first, hsame ▸ hx.next, hsame ▸ hx.unwritten, hsame ▸ hx.length,
        by rw [hsame, hunchanged.1]; exact hx.grows, cs, c, hsame.trans hcs,
        hunchanged.1.trans hlast, hunchanged.2.trans hfiles⟩

theorem Continues.strategyData_eq (h : Continues as x) {k : ℕ} {c : Strategy × Strategy}
    (hc : (computations as)[k]? = some c) :
    c.2.strategyData = x.strategy.strategyData.take (k + 1) := by
  have hprefix := List.prefix_iff_eq_take.mp (h.grows c (List.mem_of_getElem? hc))
  rwa [h.length k c hc] at hprefix

/-! ## The computations of the reactive strategy -/

/-- The solver is exact at every program of a run of the reactive strategy. -/
def SolvesExactly (env : Environment) (as : List Action) : Prop :=
  ∀ now before after, Action.computed now before after ∈ as →
    ExactAt env.solve
      (ReactiveStrategy.program now before.applications before.availableInterfaces)

/-- A computation that found the queues empty and cost as little as one can. -/
structure CostsLeast (c : Strategy × Strategy) : Prop where
  least : IsLeast
    (ReactiveStrategy.idleProblem c.1.applications c.1.availableInterfaces).costs (enqueuedCost c)
  strategyData : c.2.strategyData = c.1.strategyData ++
    [c.1.nextDataPoint (enqueuedCost c)
      (ReactiveStrategy.currentPendingPackages c.1.applications)]
  allSent : c.2.getAllDataHasBeenSent = true ↔
    (∀ app ∈ c.1.applications, app.allPacketsGenerated = true) ∧
      pendingTotal c.1.applications = 0
  printed : c.1.resultsFiles = [] → (c.2.resultsFiles ≠ [] ↔ c.2.getAllDataHasBeenSent = true)

/-- A run of the reactive strategy with an exact solver. -/
structure ExactRun (env : Environment) (setup : Setup) (as : List Action)
    (x : SenderApplication) : Prop where
  sound : Sound env.solve
  reactive : setup.strategyType = .reactive
  timedRuns : TimedRuns env setup as x
  exactly : SolvesExactly env as

theorem ExactRun.costsLeast (h : ExactRun env setup as x) :
    ∀ c ∈ computations as, CostsLeast c := by
  intro c hc
  have hsolve := h.sound.answersFeasibly
  obtain ⟨now, hmem⟩ := mem_computations.mp hc
  have hempty : ∀ i ∈ c.1.availableInterfaces, i.pendingpackets = [] :=
    (paced_of_timedRuns h.sound h.reactive h.timedRuns).2 _ hmem
  have hcompute := ((computesOn_of_runs hsolve h.timedRuns.runs).2 now _ _ hmem).computed
  rw [h.reactive] at hcompute
  obtain ⟨hleast, hdata⟩ :=
    ReactiveStrategy.compute_least (h.exactly now _ _ hmem) hempty hcompute
  obtain ⟨f, hdrains⟩ := ReactiveStrategy.compute_drains hsolve hcompute
  refine ⟨hleast, hdata, hdrains.getAllDataHasBeenSent_iff hempty, fun hfiles => ?_⟩
  rw [(ReactiveStrategy.compute_records h.sound hcompute).resultsFiles, hfiles]
  split_ifs with hsent
  · exact iff_of_true (List.cons_ne_nil _ _) hsent
  · exact iff_of_false (fun hne => hne rfl) hsent

theorem CostsLeast.enqueuedCost_eq {c c' : Strategy × Strategy} (h : CostsLeast c)
    (h' : CostsLeast c') (happs : c'.1.applications = c.1.applications)
    (hlinks : c'.1.availableInterfaces.map (·.attributes) =
      c.1.availableInterfaces.map (·.attributes)) : enqueuedCost c' = enqueuedCost c := by
  have hleast := h'.least
  rw [happs, ReactiveStrategy.idle_costs_congr hlinks] at hleast
  exact hleast.unique h.least

/-- Runs of the same configuration have the same links. -/
theorem links_of_computations (h : Runs env setup as x) (h' : Runs env' setup' as' x')
    (hsockets : initSockets setup' = initSockets setup) {c c' : Strategy × Strategy}
    (hc : c ∈ computations as) (hc' : c' ∈ computations as') :
    c'.1.availableInterfaces.map (·.attributes) = c.1.availableInterfaces.map (·.attributes) := by
  obtain ⟨s, hs, hlinks⟩ := links_of_runs h
  obtain ⟨s', hs', hlinks'⟩ := links_of_runs h'
  rw [hsockets, hs] at hs'
  cases hs'
  rw [attributes_of_computations h c hc, attributes_of_computations h' c' hc', hlinks, hlinks']

/-! ## The same data in every run -/

theorem ExactRun.continues (h : ExactRun env setup as x) : Continues as x :=
  continues_of_runs h.sound (.inr h.reactive) h.timedRuns.runs

theorem ExactRun.applications_eq (h : ExactRun env setup as x) (h' : ExactRun env' setup as' x')
    {k : ℕ} {c c' : Strategy × Strategy} (hc : (computations as)[k]? = some c)
    (hc' : (computations as')[k]? = some c') : c'.1.applications = c.1.applications := by
  have hfound := (findsWorkload_of_runs h.sound.answersFeasibly (.inr h.reactive)
    h.timedRuns.runs).found k c hc
  have hfound' := (findsWorkload_of_runs h'.sound.answersFeasibly (.inr h'.reactive)
    h'.timedRuns.runs).found k c' hc'
  rw [hfound] at hfound'
  exact (Except.ok.inj hfound').symm

/-- Computations with the same number go on from the same data to the same data. -/
theorem ExactRun.strategyData_eq_of_before (h : ExactRun env setup as x)
    (h' : ExactRun env' setup as' x') {k : ℕ} {c c' : Strategy × Strategy}
    (hc : (computations as)[k]? = some c) (hc' : (computations as')[k]? = some c')
    (hbefore : c'.1.strategyData = c.1.strategyData) :
    c'.2.strategyData = c.2.strategyData := by
  have hmem := List.mem_of_getElem? hc
  have hmem' := List.mem_of_getElem? hc'
  have happs := h.applications_eq h' hc hc'
  have hcost := (h.costsLeast c hmem).enqueuedCost_eq (h'.costsLeast c' hmem') happs
    (links_of_computations h.timedRuns.runs h'.timedRuns.runs rfl hmem hmem')
  rw [(h.costsLeast c hmem).strategyData, (h'.costsLeast c' hmem').strategyData, hbefore, hcost,
    happs, Strategy.nextDataPoint_congr hbefore]

theorem ExactRun.strategyData_eq (h : ExactRun env setup as x) (h' : ExactRun env' setup as' x')
    {k : ℕ} {c c' : Strategy × Strategy} (hc : (computations as)[k]? = some c)
    (hc' : (computations as')[k]? = some c') : c'.2.strategyData = c.2.strategyData := by
  have hbefore : c'.1.strategyData = c.1.strategyData := by
    induction k generalizing c c' with
    | zero => rw [h.continues.first c hc, h'.continues.first c' hc']
    | succ k ih =>
      have hk := (List.getElem?_eq_some_iff.mp hc).1
      have hk' := (List.getElem?_eq_some_iff.mp hc').1
      have hd := List.getElem?_eq_getElem (Nat.lt_of_succ_lt hk)
      have hd' := List.getElem?_eq_getElem (Nat.lt_of_succ_lt hk')
      rw [(h.continues.next k _ c hd hc).1, (h'.continues.next k _ c' hd' hc').1]
      exact h.strategyData_eq_of_before h' hd hd' (ih hd hd')
  exact h.strategyData_eq_of_before h' hc hc' hbefore

/-- A run that has ended has as many computations as any other one of its configuration. -/
theorem ExactRun.length_le (h : ExactRun env setup as x) (h' : ExactRun env' setup as' x')
    (hended : ∀ e ∈ x.simulator.events, e.handler ≠ .computeStrategyAndContinue) :
    (computations as').length ≤ (computations as).length := by
  by_contra! hlt
  obtain ⟨cs, c, hcs, -, hfiles⟩ := h.continues.last
  have hlength : (computations as).length = cs.length + 1 := by
    rw [hcs, List.length_append, List.length_singleton]
  have hc : (computations as)[cs.length]? = some c := by rw [hcs, List.getElem?_concat_length]
  have hc' := List.getElem?_eq_getElem (show cs.length < (computations as').length by omega)
  have hd' := List.getElem?_eq_getElem (show cs.length + 1 < (computations as').length by omega)
  have hleast := h.costsLeast c (List.mem_of_getElem? hc)
  have hleast' := h'.costsLeast _ (List.mem_of_getElem? hc')
  -- The last computation of the one run has printed, that of the same number in the other has not.
  have hprinted : c.2.resultsFiles ≠ [] := by
    rw [← hfiles, ((accounted_of_runs h.sound (.inr h.reactive) h.timedRuns.runs).written
      hended).1]
    exact List.cons_ne_nil _ _
  have hsent := (hleast.printed (h.continues.unwritten c (List.mem_of_getElem? hc))).mp hprinted
  rw [hleast.allSent, ← h.applications_eq h' hc hc', ← hleast'.allSent,
    ← hleast'.printed (h'.continues.unwritten _ (List.mem_of_getElem? hc'))] at hsent
  exact hsent (h'.continues.next cs.length _ _ hc' hd').2

def samplePoints : List (ℕ → ℚ) :=
  [fun v => if v = 0 then 2 else if v = 1 then 1 else 0, fun _ => 0]

/-- What can be computed of a program of the small sender: the first feasible point and its cost. -/
def sampleChecks (now : Time) (apps : List Application) (ifaces : List ISPInterface) : Bool :=
  decide (apps.length = 1) &&
    decide (ifaces.map (fun i => (i.getPackageRate, i.cost)) = [(2, 1), (1, 3)]) &&
    (samplePoints.find? fun x =>
      decide ((ReactiveStrategy.program now apps ifaces).Feasible x)).any fun x =>
        decide ((ReactiveStrategy.program now apps ifaces).cost x ≤
          (3 * pendingTotal apps - 4 : ℕ))

theorem exactAt_of_sampleChecks {now : Time} {apps : List Application}
    {ifaces : List ISPInterface} (h : sampleChecks now apps ifaces = true) :
    ExactAt sampleEnvironment.solve (ReactiveStrategy.program now apps ifaces) := by
  rw [sampleChecks, Bool.and_eq_true, Bool.and_eq_true, decide_eq_true_iff,
    decide_eq_true_iff, Option.any_eq_true] at h
  obtain ⟨⟨happs, hifaces⟩, x, hfirst, hcost⟩ := h
  rw [decide_eq_true_iff] at hcost
  have hfeasible := List.find?_some hfirst
  refine exactAt_offer hfirst ⟨of_decide_eq_true hfeasible, fun y hy => hcost.trans ?_⟩
  obtain ⟨app, rfl⟩ := List.length_eq_one_iff.mp happs
  obtain ⟨i, rest, rfl, hi, hrest⟩ := List.map_eq_cons_iff.mp hifaces
  obtain ⟨j, rest, rfl, hj, hnone⟩ := List.map_eq_cons_iff.mp hrest
  obtain rfl := List.map_eq_nil_iff.mp hnone
  have hadmissible := ((ReactiveStrategy.feasible_iff _ _ _ _).mp hy).2
  have hsent : tableOf 1 2 y 0 0 + tableOf 1 2 y 0 1 = app.pendingpackets.length := by
    rw [← Fin.sum_univ_two]
    exact hadmissible.allSent (0 : Fin 1)
  have hcapacity : tableOf 1 2 y 0 0 ≤ 2 := by
    have hlink : ((∑ a : Fin 1, tableOf 1 2 y a 0 : ℕ) : ℕ∞) ≤ (i.getPackageRate : ℕ) :=
      hadmissible.withinCapacity (0 : Fin 2)
    rwa [Fin.sum_univ_one, (Prod.mk.inj hi).1, Nat.cast_le] at hlink
  have htotal : (ReactiveStrategy.problem now [app] [i, j]).totalCost (tableOf 1 2 y) =
      tableOf 1 2 y 0 0 * i.cost + tableOf 1 2 y 0 1 * j.cost :=
    (Fin.sum_univ_one _).trans (Fin.sum_univ_two _)
  have hpending : pendingTotal [app] = app.pendingpackets.length := rfl
  rw [(Prod.mk.inj hi).2, (Prod.mk.inj hj).2] at htotal
  rw [ReactiveStrategy.cost_eq hy, Nat.cast_le, hpending]
  refine le_trans ?_ htotal.ge
  omega

/-- A run of the small sender, with the packets corrupted that `polls` says. -/
theorem exists_exactRun (polls : List Bool) {α : Type}
    (observe : List Action × SenderApplication → α) (o : α)
    (h : (simulateFrom sampleEnvironment 0 (sampleSetup .reactive) polls).map (fun s =>
        (s.1.all fun a => match a with
          | .computed now before _ =>
            sampleChecks now before.applications before.availableInterfaces
          | _ => true, observe s)) = .ok (true, o)) :
    ∃ as x, ExactRun sampleEnvironment (sampleSetup .reactive) as x ∧ observe (as, x) = o := by
  obtain ⟨as, x, hruns, hobserved⟩ := exists_timedRuns _ _ _ _ _ _ h
  obtain ⟨hchecks, hobserved⟩ := Prod.mk.inj hobserved
  refine ⟨as, x, ⟨sound_offer _, rfl, hruns, fun now before after ha => ?_⟩, hobserved⟩
  exact exactAt_of_sampleChecks (List.all_eq_true.mp hchecks _ ha)

/-- What a computation put on the queues costs as much as its assignment. -/
theorem enqueuedCost_mem_costs {now : Time} {s s' : Strategy} {f : ℕ → List SendPacketInfo}
    (h : Drains now s s' f) (hids : (s.applications.map (·.applicationId)).Nodup)
    (hadmissible : (ReactiveStrategy.idleProblem s.applications
      s.availableInterfaces).Admissible fun a l => assigned (s, s') a l) :
    enqueuedCost (s, s') ∈
      (ReactiveStrategy.idleProblem s.applications s.availableInterfaces).costs := by
  refine ⟨_, hadmissible, ?_⟩
  rw [← h.totalCost_assigned hids]
  rfl

end SenderApplication

end SdWan
