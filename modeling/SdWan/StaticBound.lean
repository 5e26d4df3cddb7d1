import SdWan.LinearStrategy
import SdWan.ReactiveOptimality

/-!
# The static strategy costs no more than the reactive one

The assignments of a sequence of reactive computations add up to one assignment of all their
packets, which the linear strategy may choose as well: it has no capacities to respect, and
waiting times only make the delays of the reactive rows larger. So its optimum is at most the
total cost of the sequence.
-/

open Finset IntegerProgram

namespace SdWan

/-- What an application asks of the links. -/
def Application.demand (app : Application) : ℕ × ℕ × ℕ :=
  (app.getRequiredDataRate, app.requiredDelay, app.errorRate)

/-- The pending packets of application `a`. -/
def pendingAt (apps : List Application) (a : ℕ) : ℕ :=
  (apps[a]?.map fun app => app.pendingpackets.length).getD 0

/-- Computations of one strategy, one after the other. -/
def ReactiveStrategy.computeAll (solve : Solver) : List ComputeCall → Strategy → Call Strategy
  | [], s => .ok s
  | c :: calls, s =>
    match ReactiveStrategy.compute solve c.now { s with
        applications := c.applications, availableInterfaces := c.availableInterfaces } with
    | .error e => .error e
    | .ok s => computeAll solve calls s

/-! ## One round -/

theorem getElem_cast_of_map_eq {α β : Type} {f : α → β} {xs ys : List α}
    (h : xs.map f = ys.map f) (hlen : ys.length = xs.length) (i : Fin ys.length) :
    f xs[i.cast hlen] = f ys[i] := by
  have hi : (xs.map f)[i.val]? = (ys.map f)[i.val]? := by rw [h]
  have hx : i.val < xs.length := hlen ▸ i.isLt
  rw [List.getElem?_map, List.getElem?_map, List.getElem?_eq_getElem hx,
    List.getElem?_eq_getElem i.isLt] at hi
  exact Option.some.inj hi

section

variable {now : Time} {apps apps' : List Application} {ifaces ifaces' : List ISPInterface}

theorem pendingAt_eq (a : Fin apps.length) :
    pendingAt apps a = (getElem apps a a.isLt).pendingpackets.length := by
  rw [pendingAt, List.getElem?_eq_getElem a.isLt]
  rfl

/-- Neither demands nor attributes differ, and the linear problem does not count waiting times. -/
theorem relaxes_finCongr (now : Time) (hdemand : apps.map (·.demand) = apps'.map (·.demand))
    (hlinks : ifaces.map (·.attributes) = ifaces'.map (·.attributes))
    (hA : apps'.length = apps.length) (hL : ifaces'.length = ifaces.length) :
    (ReactiveStrategy.problem now apps ifaces).Relaxes (LinearStrategy.problem apps' ifaces')
      (finCongr hA) (finCongr hL) := by
  have happ : ∀ a : Fin apps'.length, apps'[a].demand = apps[finCongr hA a].demand := fun a =>
    (getElem_cast_of_map_eq hdemand hA a).symm
  have hlink : ∀ l : Fin ifaces'.length, ifaces'[l].attributes = ifaces[finCongr hL l].attributes :=
    fun l => (getElem_cast_of_map_eq hlinks hL l).symm
  constructor
  · exact fun a => congrArg (fun d => (d.1 : ℚ)) (happ a)
  · exact fun a => congrArg (fun d => (d.2.1 : ℚ)) (happ a)
  · exact fun a => congrArg (fun d => (d.2.2 : ℚ)) (happ a)
  · exact fun l => congrArg (fun i => (i.netDevice.dataRate : ℚ)) (hlink l)
  · intro l
    have hdelay : (ifaces'[l].getDelayInMilliseconds : ℚ) =
        ifaces[finCongr hL l].getDelayInMilliseconds :=
      congrArg (fun i : ISPInterface.Attributes => (uint32 i.netDevice.delay : ℚ)) (hlink l)
    exact hdelay.le.trans (le_add_of_nonneg_right (Nat.cast_nonneg _))
  · exact fun l => congrArg (fun i => (i.errorModel * 100 : ℚ)) (hlink l)
  · exact fun l => congrArg (fun i => i.cost) (hlink l)

theorem relaxes_of_map_eq (now : Time) (hdemand : apps.map (·.demand) = apps'.map (·.demand))
    (hlinks : ifaces.map (·.attributes) = ifaces'.map (·.attributes)) :
    ∃ (eA : Fin apps'.length ≃ Fin apps.length) (eL : Fin ifaces'.length ≃ Fin ifaces.length),
      (ReactiveStrategy.problem now apps ifaces).Relaxes (LinearStrategy.problem apps' ifaces')
          eA eL ∧
        ∀ a, (ReactiveStrategy.problem now apps ifaces).pending (eA a) = pendingAt apps a := by
  have hA : apps'.length = apps.length := by
    have h := congrArg List.length hdemand
    simpa using h.symm
  have hL : ifaces'.length = ifaces.length := by
    have h := congrArg List.length hlinks
    simpa using h.symm
  exact ⟨finCongr hA, finCongr hL, relaxes_finCongr now hdemand hlinks hA hL,
    fun a => (pendingAt_eq (finCongr hA a)).symm⟩

/-- A reactive assignment meets the requirements of the linear problem for its packets. -/
theorem meets_of_admissible (hdemand : apps.map (·.demand) = apps'.map (·.demand))
    (hlinks : ifaces.map (·.attributes) = ifaces'.map (·.attributes))
    {x : Fin apps.length → Fin ifaces.length → ℕ}
    (hx : (ReactiveStrategy.problem now apps ifaces).Admissible x) :
    ∃ y, (LinearStrategy.problem apps' ifaces').Meets (fun a => pendingAt apps a) y ∧
      (LinearStrategy.problem apps' ifaces').totalCost y =
        (ReactiveStrategy.problem now apps ifaces).totalCost x := by
  obtain ⟨eA, eL, hrelaxes, hpending⟩ := relaxes_of_map_eq now hdemand hlinks
  refine ⟨fun a l => x (eA a) (eL l), ?_, hrelaxes.totalCost_eq x⟩
  have hmeets := hrelaxes.meets hx
  rwa [funext hpending] at hmeets

end

/-! ## All rounds -/

/-- What a sequence of calls assigned, and its costs, as one assignment. -/
structure Combined (calls : List ComputeCall) (apps : List Application)
    (ifaces : List ISPInterface) (cost : ℕ)
    (y : Fin apps.length → Fin ifaces.length → ℕ) : Prop where
  meets : (LinearStrategy.problem apps ifaces).Meets
    (fun a => (calls.map fun c => pendingAt c.applications a).sum) y
  totalCost : (LinearStrategy.problem apps ifaces).totalCost y = cost

theorem computeAll_combined {solve : Solver} (hsolve : Sound solve) {apps : List Application}
    {ifaces : List ISPInterface} {calls : List ComputeCall} {s s' : Strategy}
    (hcalls : ReactiveStrategy.computeAll solve calls s = .ok s')
    (hdemand : ∀ c ∈ calls, c.applications.map (·.demand) = apps.map (·.demand))
    (hlinks : ∀ c ∈ calls, c.availableInterfaces.map (·.attributes) = ifaces.map (·.attributes))
    (htotals : Strategy.RunningTotals s.strategyData) :
    Strategy.RunningTotals s'.strategyData ∧
      ∃ cost y, Combined calls apps ifaces cost y ∧
        (s'.strategyData.map (·.currentCost)).sum =
          (s.strategyData.map (·.currentCost)).sum + cost := by
  induction calls generalizing s with
  | nil =>
    cases hcalls
    refine ⟨htotals, 0, fun _ _ => 0, ⟨AssignmentProblem.Meets.zero, ?_⟩, rfl⟩
    simp [AssignmentProblem.totalCost]
  | cons c calls ih =>
    rw [ReactiveStrategy.computeAll] at hcalls
    split at hcalls
    · cases hcalls
    rename_i s₁ hcompute
    obtain ⟨x, hx, rfl⟩ := ReactiveStrategy.compute_cases hsolve hcompute
    obtain ⟨y₁, hy₁, hcost₁⟩ := meets_of_admissible (hdemand c List.mem_cons_self)
      (hlinks c List.mem_cons_self) hx
    obtain ⟨htotals', cost, y, ⟨hy, hcost⟩, hsum⟩ := ih hcalls
      (fun c' hc' => hdemand c' (List.mem_cons_of_mem _ hc'))
      (fun c' hc' => hlinks c' (List.mem_cons_of_mem _ hc'))
      (by
        rw [ReactiveStrategy.dispatched, Strategy.strategyData_printIfAllSent]
        exact htotals.nextDataPoint _ _)
    refine ⟨htotals', _, _, ⟨?_, AssignmentProblem.totalCost_add _ y₁ y⟩, ?_⟩
    · simpa only [List.map_cons, List.sum_cons] using hy₁.add hy
    · rw [hsum, hcost₁, hcost, ReactiveStrategy.dispatched, Strategy.strategyData_printIfAllSent,
        List.map_append, List.sum_append, List.map_singleton, List.sum_singleton,
        Strategy.currentCost_nextDataPoint, Nat.add_assoc]

/-! ## The linear strategy on all packets at once -/

/-- With an exact solver the linear strategy dispatches a cheapest assignment if there is one. -/
theorem LinearStrategy.compute_exact {solve : Solver} (now : Time) {s : Strategy}
    (hfirst : s.hasBeenComputed = false)
    (hexact : ExactAt solve (LinearStrategy.program s.applications s.availableInterfaces))
    (hidle : ∀ a : Fin s.applications.length,
      (getElem s.applications a a.isLt).pendingpackets = [] →
        (getElem s.applications a a.isLt).getRequiredDataRate = 0)
    {y : Fin s.applications.length → Fin s.availableInterfaces.length → ℕ}
    (hy : (LinearStrategy.problem s.applications s.availableInterfaces).Admissible y) :
    ∃ x, LinearStrategy.compute solve now s = .ok (LinearStrategy.dispatched now s x) ∧
      (LinearStrategy.problem s.applications s.availableInterfaces).totalCost x ≤
        (LinearStrategy.problem s.applications s.availableInterfaces).totalCost y := by
  have hfeasible : (LinearStrategy.program s.applications s.availableInterfaces).Feasible
      (pointOf y) :=
    (LinearStrategy.feasible_iff _ _ _).mpr
      ⟨fun v _ => natural_pointOf y v, (tableOf_pointOf y).symm ▸ hy, hidle⟩
  obtain ⟨r, hr⟩ := Option.isSome_iff_exists.mp (hexact.complete _ hfeasible)
  obtain ⟨hoptimal, -⟩ := hexact.optimal r hr
  refine ⟨_, LinearStrategy.compute_of_some hfirst hr hoptimal.feasible, ?_⟩
  have hle := hoptimal.least _ hfeasible
  rw [LinearStrategy.cost_eq hoptimal.feasible, LinearStrategy.cost_eq hfeasible,
    tableOf_pointOf] at hle
  exact_mod_cast hle

/-- The static strategy is a lower bound for the reactive one. -/
theorem LinearStrategy.cost_le_reactive {solve : Solver} (hsolve : Sound solve)
    (calls : List ComputeCall) {reactive reactive' linear : Strategy} (now : Time)
    (hfresh : reactive.strategyData = [])
    (hcalls : ReactiveStrategy.computeAll solve calls reactive = .ok reactive')
    (hdemand : ∀ c ∈ calls, c.applications.map (·.demand) = linear.applications.map (·.demand))
    (hlinks : ∀ c ∈ calls, c.availableInterfaces.map (·.attributes) =
      linear.availableInterfaces.map (·.attributes))
    (hfirst : linear.hasBeenComputed = false)
    (hexact : ExactAt solve
      (LinearStrategy.program linear.applications linear.availableInterfaces))
    (hpending : ∀ a : Fin linear.applications.length,
      (getElem linear.applications a a.isLt).pendingpackets.length =
          (calls.map fun c => pendingAt c.applications a).sum ∧
        1 ≤ (getElem linear.applications a a.isLt).pendingpackets.length)
    (hfits : (reactive'.strategyData.map (·.currentCost)).sum < 2 ^ 32) :
    ∃ linear', LinearStrategy.compute solve now linear = .ok linear' ∧
      ∀ last, reactive'.strategyData.getLast? = some last →
        totalOver (fun iface _ => iface.cost) linear.availableInterfaces
          (enqueued linear.availableInterfaces linear'.availableInterfaces) ≤ last.totalCost := by
  obtain ⟨htotals, cost, y, ⟨hmeets, hcost⟩, hsum⟩ := computeAll_combined hsolve hcalls hdemand
    hlinks (hfresh ▸ Strategy.runningTotals_nil)
  have hsent : (fun a : Fin linear.applications.length =>
      (calls.map fun c => pendingAt c.applications a).sum) =
      (LinearStrategy.problem linear.applications linear.availableInterfaces).pending := by
    funext a
    exact (hpending a).1.symm
  rw [hsent] at hmeets
  obtain ⟨x, hok, hle⟩ := LinearStrategy.compute_exact now hfirst hexact
    (fun a ha => by have h := (hpending a).2; rw [ha] at h; cases h)
    (hmeets.admissible fun _ => rfl)
  refine ⟨_, hok, fun last hlast => ?_⟩
  rw [htotals.cost.last hlast hfits, hsum, hfresh, List.map_nil, List.sum_nil, Nat.zero_add,
    ← hcost]
  refine le_trans (le_of_eq ?_) hle
  rw [LinearStrategy.dispatched, totalOver_enqueued, totalOver_packetsOf]
  rfl

/-! The two packets of two calls, sent at once. -/

def sampleCall : ComputeCall where
  now := 0
  applications := ReactiveStrategy.sampleStrategy.applications
  availableInterfaces := ReactiveStrategy.sampleStrategy.availableInterfaces

def sampleLinear : Strategy where
  applications := [ReactiveStrategy.sampleApplication.setPending [0, 1]]
  availableInterfaces := ReactiveStrategy.sampleStrategy.availableInterfaces

def samplePoints : List (ℕ → ℚ) :=
  [ReactiveStrategy.samplePoint, fun v => if v = 0 then 2 else 0]

theorem sampleLinear_exactAt : ExactAt (offer samplePoints)
    (LinearStrategy.program sampleLinear.applications sampleLinear.availableInterfaces) := by
  have hfirst : samplePoints.find? (fun x => decide ((LinearStrategy.program
      sampleLinear.applications sampleLinear.availableInterfaces).Feasible x)) =
      some fun v => if v = 0 then 2 else 0 := by
    rw [samplePoints, List.find?_cons_of_neg (by decide +kernel),
      List.find?_cons_of_pos (by decide +kernel)]
  refine exactAt_offer hfirst ⟨by decide +kernel, fun y hy => ?_⟩
  have hsent := ((LinearStrategy.feasible_iff _ _ y).mp hy).2.1.allSent (0 : Fin 1)
  have hcost : (LinearStrategy.program sampleLinear.applications
      sampleLinear.availableInterfaces).cost (fun v => if v = 0 then 2 else 0) = 2 := by
    decide +kernel
  have hsum : tableOf 1 2 y 0 0 + tableOf 1 2 y 0 1 = 2 := by
    rw [← Fin.sum_univ_two]
    exact hsent
  have htotal : (LinearStrategy.problem sampleLinear.applications
      sampleLinear.availableInterfaces).totalCost (tableOf 1 2 y) =
      tableOf 1 2 y 0 0 * 1 + tableOf 1 2 y 0 1 * 3 := by
    exact (Fin.sum_univ_one _).trans (Fin.sum_univ_two _)
  have hle : 2 ≤ (LinearStrategy.problem sampleLinear.applications
      sampleLinear.availableInterfaces).totalCost (tableOf 1 2 y) := by
    rw [htotal]
    omega
  rw [hcost, LinearStrategy.cost_eq hy]
  exact_mod_cast hle

theorem LinearStrategy.cost_le_reactive_sample :
    ∃ linear', LinearStrategy.compute (offer samplePoints) 0 sampleLinear = .ok linear' ∧
      totalOver (fun iface _ => iface.cost) sampleLinear.availableInterfaces
        (enqueued sampleLinear.availableInterfaces linear'.availableInterfaces) ≤ 2 := by
  have hdata : (ReactiveStrategy.computeAll (offer samplePoints) [sampleCall, sampleCall]
      ReactiveStrategy.sampleStrategy).map (·.strategyData) =
        .ok [⟨1, 1, 1, 1⟩, ⟨2, 1, 2, 1⟩] := by decide +kernel
  cases hcalls : ReactiveStrategy.computeAll (offer samplePoints) [sampleCall, sampleCall]
      ReactiveStrategy.sampleStrategy with
  | error e => rw [hcalls] at hdata; cases hdata
  | ok reactive' =>
    rw [hcalls] at hdata
    have hpoints : reactive'.strategyData = [⟨1, 1, 1, 1⟩, ⟨2, 1, 2, 1⟩] := Except.ok.inj hdata
    obtain ⟨linear', hok, hle⟩ := LinearStrategy.cost_le_reactive (sound_offer samplePoints)
      [sampleCall, sampleCall] 0 rfl hcalls (by decide) (by decide) rfl sampleLinear_exactAt
      (by decide) (by rw [hpoints]; decide)
    exact ⟨linear', hok, hle ⟨2, 1, 2, 1⟩ (by rw [hpoints]; rfl)⟩

end SdWan
