import SdWan.Stopping
import SdWan.Conservation

/-!
# What the data points say

Under round robin and under the reactive strategy every computation records one data point. It
holds the cost and the number of the packets that the computation put on the queues, and the sums
over all computations so far. The results are printed once, by the computation after which no
other one is scheduled.
-/

open IntegerProgram

namespace SdWan

/-! ## One computation -/

/-- The cost of the packets a computation put on the queues. -/
def enqueuedCost (c : Strategy × Strategy) : ℕ :=
  totalOver (fun i _ => i.cost) c.1.availableInterfaces
    (enqueued c.1.availableInterfaces c.2.availableInterfaces)

def enqueuedAmount (c : Strategy × Strategy) : ℕ :=
  totalOver (fun _ _ => 1) c.1.availableInterfaces
    (enqueued c.1.availableInterfaces c.2.availableInterfaces)

/-- The data point of a computation, up to the width of its fields. -/
def Describes (c : Strategy × Strategy) (p : StrategyDataPoint) : Prop :=
  (enqueuedCost c < 2 ^ 32 → p.currentCost = enqueuedCost c) ∧
    (enqueuedAmount c < 2 ^ 32 → p.currentAmountOfPackets = enqueuedAmount c)

structure Records (fileName : String) (s s' : Strategy) : Prop where
  strategyData : ∃ currentCost packets, Describes (s, s') (s.nextDataPoint currentCost packets) ∧
    s'.strategyData = s.strategyData ++ [s.nextDataPoint currentCost packets]
  resultsFiles : s'.resultsFiles = if s'.getAllDataHasBeenSent then
      s.resultsFiles ++ [(fileName, Utils.printResultsToFile s'.strategyData)]
    else s.resultsFiles

theorem enqueued_of_drains {now : Time} {s s' : Strategy} {f : ℕ → List SendPacketInfo}
    (h : Drains now s s' f) :
    enqueuedCost (s, s') = totalOver (fun i _ => i.cost) s.availableInterfaces f ∧
      enqueuedAmount (s, s') = totalOver (fun _ _ => 1) s.availableInterfaces f := by
  rw [enqueuedCost, enqueuedAmount, h.availableInterfaces]
  exact ⟨totalOver_enqueued _ _ _, totalOver_enqueued _ _ _⟩

theorem RoundRobinStrategy.compute_records {now : Time} {s s' : Strategy}
    (h : RoundRobinStrategy.compute now s = .ok s') : Records "outputRoundRobin.csv" s s' := by
  obtain ⟨applications, loop, f, rfl, happs, hf, hmoved⟩ := RoundRobinStrategy.compute_cases h
  have hcost := hf.cost 0 rfl
  have hpackets := hf.packets 0 rfl
  rw [Nat.zero_add] at hcost hpackets
  have hqueues : (s.recordDrained "outputRoundRobin.csv" applications loop).availableInterfaces =
      appendAt s.availableInterfaces f := by
    rw [Strategy.recordDrained, Strategy.availableInterfaces_printIfAllSent]
    exact hf.availableInterfaces
  refine ⟨⟨loop.currentCost, loop.currentPendingPackages, ⟨fun hlt => ?_, fun hlt => ?_⟩, ?_⟩, ?_⟩
  · rw [enqueuedCost, hqueues, totalOver_enqueued] at hlt ⊢
    rw [Strategy.currentCost_nextDataPoint, hcost, uint32_of_lt hlt]
  · rw [enqueuedAmount, hqueues, totalOver_enqueued] at hlt ⊢
    rw [Strategy.currentAmountOfPackets_nextDataPoint, hpackets, uint32_of_lt hlt]
  · rw [Strategy.recordDrained, Strategy.strategyData_printIfAllSent]
  · rw [Strategy.recordDrained, Strategy.resultsFiles_printIfAllSent,
      Strategy.getAllDataHasBeenSent_printIfAllSent, Strategy.strategyData_printIfAllSent]

theorem ReactiveStrategy.compute_records {solve : Solver} (hsolve : Sound solve) {now : Time}
    {s s' : Strategy} (h : ReactiveStrategy.compute solve now s = .ok s') :
    Records "outputReactive.csv" s s' := by
  obtain ⟨x, hx, rfl⟩ := ReactiveStrategy.compute_cases hsolve h
  have hqueues : (ReactiveStrategy.dispatched now s
      ((ReactiveStrategy.problem now s.applications s.availableInterfaces).totalCost x)
      x).availableInterfaces =
      appendAt s.availableInterfaces (packetsOf now s.applications x) := by
    rw [ReactiveStrategy.dispatched, Strategy.availableInterfaces_printIfAllSent]
  refine ⟨⟨(ReactiveStrategy.problem now s.applications s.availableInterfaces).totalCost x,
    ReactiveStrategy.currentPendingPackages s.applications,
    ⟨fun _ => ?_, fun hlt => ?_⟩, ?_⟩, ?_⟩
  · rw [Strategy.currentCost_nextDataPoint, enqueuedCost, hqueues, totalOver_enqueued,
      totalOver_packetsOf]
    rfl
  · rw [enqueuedAmount, hqueues, totalOver_enqueued] at hlt ⊢
    have hsum := totalOver_packetsOf_of_allSent now s.applications s.availableInterfaces
      hx.allSent (fun _ => 1)
    simp only [Nat.mul_one] at hsum
    rw [hsum] at hlt ⊢
    rw [Strategy.currentAmountOfPackets_nextDataPoint, ReactiveStrategy.currentPendingPackages_eq,
      uint32_of_lt hlt]
  · rw [ReactiveStrategy.dispatched, Strategy.strategyData_printIfAllSent]
  · rw [ReactiveStrategy.dispatched, Strategy.resultsFiles_printIfAllSent,
      Strategy.getAllDataHasBeenSent_printIfAllSent, Strategy.strategyData_printIfAllSent]

/-- The results file of a strategy. The linear strategy has none. -/
def StrategyTypes.fileName : StrategyTypes → String
  | .linear => ""
  | .random => "outputRandom.csv"
  | .roundRobin => "outputRoundRobin.csv"
  | .reactive => "outputReactive.csv"

theorem Strategy.compute_records {env : Environment} (hsolve : Sound env.solve)
    {strategyType : StrategyTypes} (htype : strategyType = .roundRobin ∨ strategyType = .reactive)
    {now : Time} {s s' : Strategy} (h : s.compute env strategyType now = .ok s') :
    Records strategyType.fileName s s' ∧ ∃ f, Drains now s s' f := by
  rcases htype with rfl | rfl
  · exact ⟨RoundRobinStrategy.compute_records h, RoundRobinStrategy.compute_drains h⟩
  · exact ⟨ReactiveStrategy.compute_records hsolve h,
      ReactiveStrategy.compute_drains hsolve.answersFeasibly h⟩

namespace SenderApplication

/-! ## All computations of a run -/

/-- The states before and after each computation, in order. -/
def computations (as : List Action) : List (Strategy × Strategy) :=
  as.filterMap fun a => match a with
    | .computed _ before after => some (before, after)
    | _ => none

theorem computations_append (as bs : List Action) :
    computations (as ++ bs) = computations as ++ computations bs :=
  List.filterMap_append

/-- The generated packets, counted exactly, are those still pending and those `moved`. -/
def Balanced (moved : ℕ) (apps : List Application) : Prop :=
  ∃ exact : List ℕ, List.Forall₂ (fun app n => app.generatedPackets = uint32 n) apps exact ∧
    exact.sum = pendingTotal apps + moved

theorem Balanced.generates {moved : ℕ} {apps apps' : List Application} (h : Balanced moved apps)
    (happs : List.Forall₂ (fun app app' => ∃ n, app.Generates app' n) apps apps') :
    Balanced moved apps' := by
  have hgrow : ∀ exact : List ℕ,
      List.Forall₂ (fun (app : Application) n => app.generatedPackets = uint32 n) apps exact →
      ∃ exact' : List ℕ, List.Forall₂ (fun app n => app.generatedPackets = uint32 n) apps' exact' ∧
        exact'.sum + pendingTotal apps = exact.sum + pendingTotal apps' := by
    clear h
    induction happs with
    | nil =>
      intro exact hexact
      cases hexact
      exact ⟨[], .nil, rfl⟩
    | cons happ _ ih =>
      intro exact hexact
      cases hexact with
      | cons hn hrest =>
        obtain ⟨k, hk⟩ := happ
        obtain ⟨exact', hexact', hsum⟩ := ih _ hrest
        refine ⟨_ :: exact', .cons (hk.generated _ hn) hexact', ?_⟩
        have hpending := hk.pending
        simp only [pendingTotal, List.map_cons, List.sum_cons] at hsum ⊢
        omega
  obtain ⟨exact, hexact, hsum⟩ := h
  obtain ⟨exact', hexact', hsum'⟩ := hgrow exact hexact
  exact ⟨exact', hexact', by omega⟩

theorem enqueuedAmount_of_drains {now : Time} {s s' : Strategy} {f : ℕ → List SendPacketInfo}
    (h : Drains now s s' f) : enqueuedAmount (s, s') = pendingTotal s.applications := by
  rw [(enqueued_of_drains h).2, h.moved fun _ => 1]
  simp only [Nat.mul_one]
  rfl

/-- A computation moves all pending packets. -/
theorem Balanced.drains {moved : ℕ} {now : Time} {s s' : Strategy} {f : ℕ → List SendPacketInfo}
    (hs : Balanced moved s.applications) (h : Drains now s s' f) :
    Balanced (moved + enqueuedAmount (s, s')) s'.applications := by
  obtain ⟨exact, hexact, hsum⟩ := hs
  refine ⟨exact, ?_, ?_⟩
  · rw [h.applications, List.forall₂_map_left_iff]
    exact hexact.imp fun app n hn => (app.generatedPackets_setPending []).trans hn
  · have hempty : pendingTotal s'.applications = 0 := by
      rw [h.applications, pendingTotal, List.map_map]
      apply List.sum_eq_zero
      intro n hn
      obtain ⟨app, -, rfl⟩ := List.mem_map.mp hn
      simp
    rw [hempty, enqueuedAmount_of_drains h]
    omega

structure Accounted (setup : Setup) (as : List Action) (x : SenderApplication) : Prop where
  points : List.Forall₂ Describes (computations as) x.strategy.strategyData
  totals : Strategy.RunningTotals x.strategy.strategyData
  balanced : Balanced ((computations as).map enqueuedAmount).sum x.strategy.applications
  unique : ∀ e ∈ x.simulator.events, ∀ e' ∈ x.simulator.events,
    e.handler = .computeStrategyAndContinue → e'.handler = .computeStrategyAndContinue → e = e'
  notYet : (∃ e ∈ x.simulator.events, e.handler = .computeStrategyAndContinue) →
    x.strategy.resultsFiles = []
  written : (∀ e ∈ x.simulator.events, e.handler ≠ .computeStrategyAndContinue) →
    x.strategy.resultsFiles =
        [(setup.strategyType.fileName, Utils.printResultsToFile x.strategy.strategyData)] ∧
      ∃ before after, (computations as).getLast? = some (before, after) ∧
        before.resultsFiles = [] ∧ after.resultsFiles = x.strategy.resultsFiles

variable {env : Environment} {setup : Setup}

/-- The pending events other than computations do not matter to the accounts. -/
theorem Accounted.of_same {as : List Action} {a : Action} {x y : SenderApplication}
    (hx : Accounted setup as x) (ha : computations [a] = [])
    (hdata : y.strategy.strategyData = x.strategy.strategyData)
    (hfiles : y.strategy.resultsFiles = x.strategy.resultsFiles)
    (happs : y.strategy.applications = x.strategy.applications)
    (hevents : ∀ e, e.handler = .computeStrategyAndContinue →
      (e ∈ y.simulator.events ↔ e ∈ x.simulator.events)) :
    Accounted setup (as ++ [a]) y := by
  have hsame : computations (as ++ [a]) = computations as := by
    rw [computations_append, ha, List.append_nil]
  constructor
  · rw [hsame, hdata]
    exact hx.points
  · rw [hdata]
    exact hx.totals
  · rw [hsame, happs]
    exact hx.balanced
  · intro e he e' he' hc hc'
    exact hx.unique e ((hevents e hc).mp he) e' ((hevents e' hc').mp he') hc hc'
  · rintro ⟨e, he, hc⟩
    rw [hfiles]
    exact hx.notYet ⟨e, (hevents e hc).mp he, hc⟩
  · intro hnone
    rw [hsame, hfiles, hdata]
    apply hx.written
    intro e he hc
    exact hnone e ((hevents e hc).mpr he) hc

/-- A computation adds its data point and prints the results if it is the last one. The hypotheses
on `x` are those that hold while no computation is scheduled. -/
theorem Computes.accounted (hsolve : Sound env.solve)
    (htype : setup.strategyType = .roundRobin ∨ setup.strategyType = .reactive) {now : Time}
    {as : List Action} {x y : SenderApplication} {before after : Strategy}
    (h : Computes env now x y before after) (hxtype : x.strategyType = setup.strategyType)
    (hpoints : List.Forall₂ Describes (computations as) x.strategy.strategyData)
    (htotals : Strategy.RunningTotals x.strategy.strategyData)
    (hbalanced : Balanced ((computations as).map enqueuedAmount).sum x.strategy.applications)
    (hnone : ∀ e ∈ x.simulator.events, e.handler ≠ .computeStrategyAndContinue)
    (hfiles : x.strategy.resultsFiles = []) :
    Accounted setup (as ++ [.computed now before after]) y := by
  have hcomputed := h.computed
  rw [hxtype] at hcomputed
  obtain ⟨⟨⟨currentCost, packets, hdescribes, hdata⟩, hresults⟩, f, hdrains⟩ :=
    Strategy.compute_records hsolve htype hcomputed
  have hbeforeData : before.strategyData = x.strategy.strategyData := by rw [h.before_eq]
  have hbeforeFiles : before.resultsFiles = [] := by rw [h.before_eq]; exact hfiles
  have hlast : computations (as ++ [.computed now before after]) =
      computations as ++ [(before, after)] := computations_append _ _
  have hsimulator := h.simulator
  rw [hbeforeFiles, List.nil_append] at hresults
  constructor
  · rw [hlast, h.strategy, hdata, hbeforeData]
    exact List.rel_append hpoints (.cons hdescribes .nil)
  · rw [h.strategy, hdata]
    exact (hbeforeData ▸ htotals).nextDataPoint _ _
  · rw [hlast, h.strategy, List.map_append, List.sum_append, List.map_singleton, List.sum_singleton]
    exact (hbalanced.generates (updated_generates h.updated)).drains hdrains
  · intro e he e' he' hc hc'
    rw [h.eq_of_pending hnone he hc, h.eq_of_pending hnone he' hc']
  · rintro ⟨e, he, hc⟩
    rw [hsimulator] at he
    rw [h.strategy]
    split_ifs at he with hsent
    · exact absurd hc (hnone e he)
    · rw [hresults, if_neg hsent]
  · intro hended
    rw [hsimulator] at hended
    rw [h.strategy]
    split_ifs at hended with hsent
    · rw [if_pos hsent] at hresults
      refine ⟨hresults, before, after, ?_, hbeforeFiles, rfl⟩
      rw [hlast, List.getLast?_concat]
    · exact absurd rfl (hended _ (EventQueue.mem_schedule.mpr (.inr rfl)))

theorem accounted_step (hsolve : Sound env.solve)
    (htype : setup.strategyType = .roundRobin ∨ setup.strategyType = .reactive)
    {as : List Action} {a : Action} {x y : SenderApplication} (hreach : Runs env setup as x)
    (hx : Accounted setup as x) (h : Step env x a y) : Accounted setup (as ++ [a]) y := by
  have hscheduled := (live_of_runs hsolve.answersFeasibly hreach).scheduled
  obtain ⟨now, poll, e, he, hrun⟩ := h
  rcases run_cases hrun with
    ⟨hhandler, before, after, rfl, hcomputes⟩ | ⟨l, hhandler, hcases⟩
  · have hxtype := strategyType_of_runs hreach
    refine hcomputes.accounted hsolve htype hxtype hx.points hx.totals
      hx.balanced ?_ (hx.notYet ⟨e, he, hhandler⟩)
    intro e' he' hc
    obtain ⟨hmem, huid⟩ := EventQueue.mem_remove.mp he'
    exact huid (congrArg _ (hx.unique e' hmem e he hc hhandler))
  · -- The event of an interface leaves the scheduled computation alone.
    have hremove : ∀ e', e'.handler = .computeStrategyAndContinue →
        (e' ∈ (x.simulator.remove e).events ↔ e' ∈ x.simulator.events) := by
      intro e' hc
      refine ⟨fun h => (EventQueue.mem_remove.mp h).1, fun h => ?_⟩
      apply hscheduled.mem_remove_of_ne he h
      rintro rfl
      rw [hhandler] at hc
      cases hc
    have hschedule : ∀ ts e', e'.handler = .computeStrategyAndContinue →
        (e' ∈ ((x.simulator.remove e).schedule ts (.sendPacket l)).events ↔
          e' ∈ x.simulator.events) := by
      intro ts e' hc
      rw [EventQueue.mem_schedule, hremove e' hc]
      refine ⟨fun h => h.resolve_right ?_, .inl⟩
      rintro rfl
      cases hc
    rcases hcases with ⟨-, rfl, rfl⟩ | ⟨-, hsend⟩
    · exact hx.of_same rfl rfl rfl rfl hremove
    · have hkeeps := strategy_of_sendData hsend
      obtain ⟨i, -, -, hsimulator, hcases⟩ := sendData_eq_ok hsend
      have hnone : computations [a] = [] := by
        rcases hcases with ⟨rfl, -⟩ | ⟨packetInfo, rest, -, rfl, -⟩
        · rfl
        · rfl
      exact hx.of_same hnone (by rw [hkeeps]) (by rw [hkeeps]) (by rw [hkeeps])
        (hsimulator ▸ hschedule _)

theorem balanced_fresh {apps : List Application} (h : ∀ app ∈ apps, app.Fresh) :
    Balanced 0 apps := by
  induction apps with
  | nil => exact ⟨[], .nil, rfl⟩
  | cons app apps ih =>
    obtain ⟨exact, hexact, hsum⟩ := ih fun b hb => h b (List.mem_cons_of_mem _ hb)
    obtain ⟨hzero, hnil⟩ := fresh_generated (h app List.mem_cons_self)
    refine ⟨0 :: exact, .cons hzero hexact, ?_⟩
    simp only [pendingTotal, List.map_cons, List.sum_cons, hnil, List.length_nil] at hsum ⊢
    omega

theorem accounted_init (hsolve : Sound env.solve)
    (htype : setup.strategyType = .roundRobin ∨ setup.strategyType = .reactive) {a : Action}
    {y : SenderApplication} (h : Init env setup a y) : Accounted setup [a] y := by
  obtain ⟨now, hstart⟩ := h
  obtain ⟨x, before, after, hstarted, rfl, hcomputes⟩ := startApplication_eq_ok hstart
  have hdata : x.strategy.strategyData = [] := by rw [hstarted.strategy]
  have hfiles : x.strategy.resultsFiles = [] := by rw [hstarted.strategy]
  have hgenerates : List.Forall₂ (fun app app' => ∃ n, app.Generates app' n) setup.application
      x.strategy.applications :=
    hstarted.applications.imp fun _ _ happ => Application.onApplicationStart_generates happ
  have hnone := hstarted.not_compute
  change Accounted setup ([] ++ [.computed now before after]) y
  exact hcomputes.accounted hsolve htype hstarted.strategyType (by rw [hdata]; exact .nil)
    (by rw [hdata]; exact Strategy.runningTotals_nil)
    ((balanced_fresh setup.fresh).generates hgenerates) hnone hfiles

theorem accounted_of_runs (hsolve : Sound env.solve)
    (htype : setup.strategyType = .roundRobin ∨ setup.strategyType = .reactive)
    {as : List Action} {x : SenderApplication} (h : Runs env setup as x) :
    Accounted setup as x := by
  apply h.invariant
  · intro a y hinit
    exact accounted_init hsolve htype hinit
  · intro as a x y hreach hx hstep
    exact accounted_step hsolve htype hreach hx hstep

/-! ## The results file -/

/-- The generated packets, as far as their exact sum fits into a counter. -/
theorem Balanced.sum_generatedPackets {moved : ℕ} {apps : List Application}
    (h : Balanced moved apps) (hidle : ∀ app ∈ apps, app.pendingpackets = [])
    (hlt : moved < 2 ^ 32) : (apps.map (·.generatedPackets)).sum = moved := by
  have hempty : pendingTotal apps = 0 := by
    apply List.sum_eq_zero
    intro n hn
    obtain ⟨app, happ, rfl⟩ := List.mem_map.mp hn
    rw [hidle app happ, List.length_nil]
  obtain ⟨exact, hexact, hsum⟩ := h
  rw [hempty, Nat.zero_add] at hsum
  have hfits : ∀ n ∈ exact, n < 2 ^ 32 := fun n hn =>
    lt_of_le_of_lt (List.le_sum_of_mem hn) (hsum ▸ hlt)
  have hvalues : apps.map (·.generatedPackets) = exact := by
    clear hsum hidle hempty
    induction hexact with
    | nil => rfl
    | cons happ _ ih =>
      rw [List.map_cons, happ, uint32_of_lt (hfits _ List.mem_cons_self),
        ih fun n hn => hfits n (List.mem_cons_of_mem _ hn)]
  rw [hvalues, hsum]

/-- Data points that describe their computations add up to the exact sums. -/
theorem sums_of_describes {cs : List (Strategy × Strategy)} {ps : List StrategyDataPoint}
    (h : List.Forall₂ Describes cs ps) :
    ((cs.map enqueuedCost).sum < 2 ^ 32 → ps.map (·.currentCost) = cs.map enqueuedCost) ∧
      ((cs.map enqueuedAmount).sum < 2 ^ 32 →
        ps.map (·.currentAmountOfPackets) = cs.map enqueuedAmount) := by
  induction h with
  | nil => exact ⟨fun _ => rfl, fun _ => rfl⟩
  | cons hp _ ih =>
    simp only [List.map_cons, List.sum_cons]
    refine ⟨fun hlt => ?_, fun hlt => ?_⟩
    · rw [hp.1 (by omega), ih.1 (by omega)]
    · rw [hp.2 (by omega), ih.2 (by omega)]

theorem sum_take_le (xs : List ℕ) (i : ℕ) : (xs.take i).sum ≤ xs.sum :=
  (List.take_sublist i xs).sum_le_sum fun _ _ => Nat.zero_le _

/-- Every data point holds the cost and the number of the packets that its computation enqueued and
the sums up to it. The results are printed exactly once, by the last computation, one line for each
computation, and the last line holds the number of all generated packets. -/
theorem cost_accounting (hsolve : Sound env.solve)
    (htype : setup.strategyType = .roundRobin ∨ setup.strategyType = .reactive)
    {as : List Action} {x : SenderApplication} (h : Runs env setup as x)
    (hcost : ((computations as).map enqueuedCost).sum < 2 ^ 32)
    (hamount : ((computations as).map enqueuedAmount).sum < 2 ^ 32) :
    (x.strategy.strategyData.length = (computations as).length ∧
      ∀ i c p, (computations as)[i]? = some c → x.strategy.strategyData[i]? = some p →
        p.currentCost = enqueuedCost c ∧ p.currentAmountOfPackets = enqueuedAmount c ∧
          p.totalCost = (((computations as).take (i + 1)).map enqueuedCost).sum ∧
          p.totalAmountOfPackets =
            (((computations as).take (i + 1)).map enqueuedAmount).sum) ∧
      ((∃ e ∈ x.simulator.events, e.handler = .computeStrategyAndContinue) →
        x.strategy.resultsFiles = []) ∧
      ((∀ e ∈ x.simulator.events, e.handler ≠ .computeStrategyAndContinue) →
        ∃ rows before after last,
          x.strategy.resultsFiles = [(setup.strategyType.fileName, rows)] ∧
            rows = Utils.printResultsToFile x.strategy.strategyData ∧
            rows.length = (computations as).length ∧
            (computations as).getLast? = some (before, after) ∧
            before.resultsFiles = [] ∧ after.resultsFiles = x.strategy.resultsFiles ∧
            rows.getLast? = some last ∧
            last.totalPackets = (x.strategy.applications.map (·.generatedPackets)).sum) := by
  have haccounted := accounted_of_runs hsolve htype h
  have hlength := haccounted.points.length_eq
  obtain ⟨hcosts, hamounts⟩ := sums_of_describes haccounted.points
  have hcostsEq := hcosts hcost
  have hamountsEq := hamounts hamount
  refine ⟨⟨hlength.symm, fun i c p hc hp => ⟨?_, ?_, ?_, ?_⟩⟩, haccounted.notYet, fun hended => ?_⟩
  · have hget := congrArg (fun xs => xs[i]?) hcostsEq
    simpa [hc, hp] using hget
  · have hget := congrArg (fun xs => xs[i]?) hamountsEq
    simpa [hc, hp] using hget
  · have htotal := haccounted.totals.cost i p hp
    rw [List.map_take, hcostsEq] at htotal
    rw [List.map_take]
    exact htotal (lt_of_le_of_lt (sum_take_le _ _) hcost)
  · have htotal := haccounted.totals.packets i p hp
    rw [List.map_take, hamountsEq] at htotal
    rw [List.map_take]
    exact htotal (lt_of_le_of_lt (sum_take_le _ _) hamount)
  · obtain ⟨hfiles, before, after, hlast, hbefore, hafter⟩ := haccounted.written hended
    have hsent := allSent_of_someLoopEnded hsolve.answersFeasibly h (.inr (.inr hended))
    have hidle := ((Strategy.getAllDataHasBeenSent_iff _).mp hsent).1
    have hne : x.strategy.strategyData ≠ [] := by
      intro hnil
      rw [hnil, List.length_nil, List.length_eq_zero_iff] at hlength
      rw [hlength] at hlast
      cases hlast
    obtain ⟨points, p, hpoints⟩ := (List.eq_nil_or_concat' _).resolve_left hne
    refine ⟨_, before, after, Utils.strategyRow points.length p, hfiles, rfl, ?_, hlast, hbefore,
      hafter, ?_, ?_⟩
    · rw [Utils.length_printResultsToFile, hlength]
    · rw [hpoints, Utils.printResultsToFile_concat, List.getLast?_concat]
    · have hp : x.strategy.strategyData.getLast? = some p := by rw [hpoints, List.getLast?_concat]
      have htotal := haccounted.totals.packets.last hp
      rw [hamountsEq] at htotal
      rw [haccounted.balanced.sum_generatedPackets (fun app happ => (hidle app happ).1) hamount]
      exact htotal hamount

theorem cost_accounting_sample :
    ∃ as x, Runs sampleEnvironment (sampleSetup .reactive) as x ∧
      x.strategy.strategyData = [⟨5, 5, 3, 3⟩, ⟨5, 0, 3, 0⟩] ∧
      (x.strategy.applications.map (·.generatedPackets)).sum = 3 := by
  obtain ⟨as, x, hruns, hobserved⟩ := exists_timedRuns sampleEnvironment 0
    (sampleSetup .reactive) (List.replicate 6 false)
    (fun s => ((computations s.1).map fun c => (enqueuedCost c, enqueuedAmount c),
      s.2.simulator.events.length, s.2.strategy.strategyData))
    ([(5, 3), (0, 0)], 0, [⟨5, 5, 3, 3⟩, ⟨5, 0, 3, 0⟩]) (by decide +kernel)
  obtain ⟨hpairs, hobserved⟩ := Prod.mk.inj hobserved
  obtain ⟨hlength, hdata⟩ := Prod.mk.inj hobserved
  have hevents := List.length_eq_zero_iff.mp hlength
  have hcosts : (computations as).map enqueuedCost = [5, 0] := by
    simpa [Function.comp_def] using congrArg (List.map Prod.fst) hpairs
  have hamounts : (computations as).map enqueuedAmount = [3, 0] := by
    simpa [Function.comp_def] using congrArg (List.map Prod.snd) hpairs
  obtain ⟨-, -, hended⟩ := cost_accounting (sound_offer _) (.inr rfl) hruns.runs
    (by rw [hcosts]; decide) (by rw [hamounts]; decide)
  obtain ⟨rows, -, -, last, -, hrows, -, -, -, -, hlast, htotal⟩ :=
    hended (by rw [hevents]; exact fun e he => by cases he)
  refine ⟨as, x, hruns.runs, hdata, ?_⟩
  rw [hrows, hdata] at hlast
  rw [← htotal, ← Option.some.inj hlast]
  rfl

end SenderApplication

end SdWan
