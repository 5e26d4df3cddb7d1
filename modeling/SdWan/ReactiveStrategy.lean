import SdWan.Dispatch

/-!
# The reactive strategy

`compute` builds one candidate set of interfaces for every mask of `amountOfInterfaces` bits,
solves the integer program of each, selects a result with `std::max_element`, records a data point
and dispatches the packets of the selected solution.

Every candidate set holds all the interfaces, so all results are one and the same. A call succeeds
exactly when the program over all interfaces has a solution, and then moves the packets as the
table of that solution says.
-/

open IntegerProgram

namespace SdWan

structure ComputeOptimizationResult where
  isFeasible : Bool
  solutionValues : List (List ℕ)
  /-- Positions among the interfaces of the strategy. -/
  interfaces : List ℕ
  totalCost : ℕ
  deriving DecidableEq, Repr

namespace ReactiveStrategy

/-- The candidate sets, one for each mask `1, …, counter`. -/
def interfaceSet (amountOfInterfaces counter : ℕ) : List (List ℕ) :=
  (List.range' 1 counter).map fun i =>
    ((Utils.getBoolVectorFromInt i amountOfInterfaces).zipIdx.filter
      fun (currentValue, _) => currentValue || true).map fun (_, j) => j

def computeOptimization (solve : Solver) (now : Time) (currentApplications : List Application)
    (availableInterfaces : List ISPInterface) (currentInterfaces : List ℕ) :
    ComputeOptimizationResult :=
  let interfaces := currentInterfaces.filterMap fun p => availableInterfaces[p]?
  match solve (program now currentApplications interfaces) with
  | none => ⟨false, [], [], 0⟩
  | some r =>
    ⟨true, decodeSolution currentApplications.length interfaces.length r.value, currentInterfaces,
      ⌊r.objectiveValue⌋₊⟩

/-- The comparator handed to `std::max_element`. -/
def comparator (a b : ComputeOptimizationResult) : Bool :=
  if !a.isFeasible then true
  else if !b.isFeasible then false
  else decide (b.totalCost < a.totalCost)

/-! ## The selected result -/

/-- `best` is the first feasible result of least cost between the results before and after it, or
all of them are infeasible. Results are read through `get`, as through the pointers of the code. -/
structure FirstCheapest {α : Type} (get : α → ComputeOptimizationResult) (before : List α)
    (best : α) (after : List α) : Prop where
  none_feasible : (get best).isFeasible = false →
    ∀ r ∈ before ++ best :: after, (get r).isFeasible = false
  lt_before : (get best).isFeasible = true →
    ∀ r ∈ before, (get r).isFeasible = true → (get best).totalCost < (get r).totalCost
  le_after : (get best).isFeasible = true →
    ∀ r ∈ after, (get r).isFeasible = true → (get best).totalCost ≤ (get r).totalCost

section

variable {α : Type} {get : α → ComputeOptimizationResult} {before after : List α} {best r : α}

/-- A later result is put in the place of the candidate. -/
theorem FirstCheapest.replace (h : FirstCheapest get before best after)
    (hr : comparator (get best) (get r) = true) :
    FirstCheapest get (before ++ best :: after) r [] := by
  unfold comparator at hr
  cases hbest : (get best).isFeasible with
  | false =>
    have hnone := h.none_feasible hbest
    constructor
    · intro hfeasible
      rw [List.forall_mem_append, List.forall_mem_singleton]
      exact ⟨hnone, hfeasible⟩
    · intro _ a ha hfeasible
      rw [hnone a ha] at hfeasible
      cases hfeasible
    · simp
  | true =>
    obtain ⟨hfeasible, hlt⟩ : (get r).isFeasible = true ∧
        (get r).totalCost < (get best).totalCost := by simpa [hbest] using hr
    constructor
    · intro hinfeasible
      rw [hfeasible] at hinfeasible
      cases hinfeasible
    · intro _ a ha ha'
      rcases List.mem_append.mp ha with ha | ha
      · exact hlt.trans (h.lt_before hbest a ha ha')
      rcases List.mem_cons.mp ha with rfl | ha
      · exact hlt
      · exact hlt.trans_le (h.le_after hbest a ha ha')
    · simp

/-- The candidate stays. -/
theorem FirstCheapest.keep (h : FirstCheapest get before best after)
    (hr : ¬ comparator (get best) (get r) = true) :
    FirstCheapest get before best (after ++ [r]) := by
  unfold comparator at hr
  obtain ⟨hbest, hle⟩ : (get best).isFeasible = true ∧
      ((get r).isFeasible = true → (get best).totalCost ≤ (get r).totalCost) := by
    simpa using hr
  constructor
  · intro hinfeasible
    rw [hbest] at hinfeasible
    cases hinfeasible
  · exact h.lt_before
  · intro _
    rw [List.forall_mem_append, List.forall_mem_singleton]
    exact ⟨h.le_after hbest, hle⟩

theorem FirstCheapest.isFeasible_iff (h : FirstCheapest get before best after) :
    (get best).isFeasible = true ↔ ∃ r ∈ before ++ best :: after, (get r).isFeasible = true := by
  constructor
  · exact fun hbest => ⟨best, by simp, hbest⟩
  · rintro ⟨r, hr, hfeasible⟩
    by_contra hbest
    rw [h.none_feasible (Bool.eq_false_iff.mpr hbest) r hr] at hfeasible
    cases hfeasible

/-- The candidate of the scan splits the results seen so far. -/
theorem firstCheapest_of_maxElement (get : α → ComputeOptimizationResult) {results : List α}
    (h : maxElement (fun a b => comparator (get a) (get b)) results = some best) :
    ∃ before after, results = before ++ best :: after ∧ FirstCheapest get before best after := by
  refine maxElement_invariant (P := fun seen best => ∃ before after,
    seen = before ++ best :: after ∧ FirstCheapest get before best after) ?_ ?_ h
  · intro a
    exact ⟨[], [], rfl, ⟨by simp, by simp, by simp⟩⟩
  · rintro seen best r ⟨before, after, rfl, hcheapest⟩
    by_cases hr : comparator (get best) (get r) = true
    · rw [if_pos hr]
      exact ⟨before ++ best :: after, [], rfl, hcheapest.replace hr⟩
    · rw [if_neg hr]
      exact ⟨before, after ++ [r], by simp, hcheapest.keep hr⟩

theorem FirstCheapest.map_get (h : FirstCheapest get before best after) :
    FirstCheapest id (before.map get) (get best) (after.map get) where
  none_feasible hbest := by
    rw [← List.map_cons, ← List.map_append, List.forall_mem_map]
    exact h.none_feasible hbest
  lt_before hbest := List.forall_mem_map.mpr (h.lt_before hbest)
  le_after hbest := List.forall_mem_map.mpr (h.le_after hbest)

end

/-- `std::max_element` selects a feasible result whenever there is one, and then the first of
least cost. Among the results with their positions, it selects the one after `before`. -/
theorem maxElement_comparator (first : ComputeOptimizationResult)
    (rest : List ComputeOptimizationResult) :
    ∃ before best after, first :: rest = before ++ best :: after ∧
      maxElement comparator (first :: rest) = some best ∧
      maxElement (fun a b => comparator a.1 b.1) (first :: rest).zipIdx =
        some (best, before.length) ∧
      (best.isFeasible = true ↔ ∃ r ∈ first :: rest, r.isFeasible = true) ∧
      (best.isFeasible = true →
        (∀ r ∈ before, r.isFeasible = true → best.totalCost < r.totalCost) ∧
        ∀ r ∈ after, r.isFeasible = true → best.totalCost ≤ r.totalCost) := by
  obtain ⟨⟨best, i⟩, hselected⟩ : ∃ p, maxElement (fun a b => comparator a.1 b.1)
      (first :: rest).zipIdx = some p := ⟨_, rfl⟩
  obtain ⟨before, after, hsplit, hcheapest⟩ :=
    firstCheapest_of_maxElement Prod.fst hselected
  have hresults : first :: rest = before.map Prod.fst ++ best :: after.map Prod.fst := by
    have hfst := congrArg (List.map Prod.fst) hsplit
    rwa [List.zipIdx_map_fst, List.map_append, List.map_cons] at hfst
  have hposition : i = before.length := by
    have hget := congrArg (fun l => l[before.length]?) hsplit
    simp only [List.getElem?_zipIdx, List.getElem?_append_right le_rfl, Nat.sub_self,
      List.getElem?_cons_zero, Option.map_eq_some_iff, Prod.mk.injEq] at hget
    obtain ⟨-, -, -, hi⟩ := hget
    omega
  have hmap := hcheapest.map_get
  refine ⟨_, best, _, hresults, ?_, ?_, ?_, fun hbest => ?_⟩
  · rw [← List.zipIdx_map_fst 0 (first :: rest), maxElement_map, hselected]
    rfl
  · rw [hselected, hposition, List.length_map]
  · rw [hresults]
    exact hmap.isFeasible_iff
  · exact ⟨hmap.lt_before hbest, hmap.le_after hbest⟩

def currentPendingPackages (applications : List Application) : ℕ :=
  applications.foldl (fun n app => uint32 (n + app.pendingpackets.length)) 0

def compute (solve : Solver) (now : Time) (s : Strategy) : Call Strategy :=
  match Utils.maxIntWithNBits s.availableInterfaces.length with
  | .error e => .error (e, s)
  | .ok counter =>
    let results := (interfaceSet s.availableInterfaces.length counter).map
      (computeOptimization solve now s.applications s.availableInterfaces)
    match maxElement comparator results with
    | none => .error (.runtimeErrorPointer "Nessuna soluzione trovata", s)
    | some bestSolution =>
      if bestSolution.isFeasible then
        let dataPoint :=
          s.nextDataPoint bestSolution.totalCost (currentPendingPackages s.applications)
        let s := { s with strategyData := s.strategyData ++ [dataPoint] }
        match dispatch (.runtimeErrorPointer "Nessun pacchetto") now bestSolution.interfaces
            bestSolution.solutionValues (s.applications, s.availableInterfaces) with
        | .error (e, applications, availableInterfaces) =>
          .error (e, { s with
            applications := applications, availableInterfaces := availableInterfaces })
        | .ok (applications, availableInterfaces) =>
          .ok (Strategy.printIfAllSent "outputReactive.csv" { s with
            applications := applications, availableInterfaces := availableInterfaces })
      else .error (.runtimeErrorPointer "Nessuna soluzione trovata", s)

/-! ## All candidate sets are the same -/

theorem interfaceSet_eq (n counter : ℕ) :
    interfaceSet n counter = List.replicate counter (List.range n) := by
  have hset : ∀ i, ((Utils.getBoolVectorFromInt i n).zipIdx.filter
      fun (currentValue, _) => currentValue || true).map (fun (_, j) => j) = List.range n := by
    intro i
    have hall : (Utils.getBoolVectorFromInt i n).zipIdx.filter
        (fun (currentValue, _) => currentValue || true) =
        (Utils.getBoolVectorFromInt i n).zipIdx :=
      List.filter_eq_self.mpr fun _ _ => Bool.or_true _
    rw [hall]
    apply List.ext_getElem
    · simp
    · intro j h₁ h₂
      simp
  simp only [interfaceSet, hset, List.map_const', List.length_range']

/-- A candidate set of all interfaces. -/
theorem computeOptimization_range (solve : Solver) (now : Time) (apps : List Application)
    (ifaces : List ISPInterface) :
    computeOptimization solve now apps ifaces (List.range ifaces.length) =
      match solve (program now apps ifaces) with
      | none => ⟨false, [], [], 0⟩
      | some r => ⟨true, decodeSolution apps.length ifaces.length r.value,
          List.range ifaces.length, ⌊r.objectiveValue⌋₊⟩ := by
  simp only [computeOptimization, filterMap_range]

theorem maxElement_results (solve : Solver) (now : Time) (apps : List Application)
    (ifaces : List ISPInterface) {n : ℕ} (hn : 0 < n) :
    maxElement comparator ((interfaceSet ifaces.length (2 ^ n - 1)).map
        (computeOptimization solve now apps ifaces)) =
      some (computeOptimization solve now apps ifaces (List.range ifaces.length)) := by
  have hcounter : 2 ^ n - 1 = (2 ^ n - 2) + 1 := by
    have := Nat.one_lt_two_pow (n := n) (by omega)
    omega
  rw [interfaceSet_eq, List.map_replicate, hcounter, maxElement_replicate]

/-! ## What a computation does -/

theorem currentPendingPackages_eq (apps : List Application) :
    currentPendingPackages apps =
      uint32 (apps.map fun app => app.pendingpackets.length).sum :=
  foldl_uint32 _ apps

/-- The state in which a computation leaves the strategy after it dispatched a table. -/
def dispatched (now : Time) (s : Strategy) (totalCost : ℕ)
    (x : Fin s.applications.length → Fin s.availableInterfaces.length → ℕ) : Strategy :=
  Strategy.printIfAllSent "outputReactive.csv" { s with
    strategyData := s.strategyData ++
      [s.nextDataPoint totalCost (currentPendingPackages s.applications)]
    applications := s.applications.map (·.setPending [])
    availableInterfaces := appendAt s.availableInterfaces (packetsOf now s.applications x) }

theorem compute_of_none {solve : Solver} {now : Time} {s : Strategy}
    (h0 : 0 < s.availableInterfaces.length) (h31 : s.availableInterfaces.length < 32)
    (h : solve (program now s.applications s.availableInterfaces) = none) :
    compute solve now s = .error (.runtimeErrorPointer "Nessuna soluzione trovata", s) := by
  unfold compute
  simp only [Utils.maxIntWithNBits_of_lt h31, maxElement_results _ _ _ _ h0,
    computeOptimization_range, h]
  rfl

theorem compute_of_some {solve : Solver} {now : Time} {s : Strategy} {r : Outcome}
    (h0 : 0 < s.availableInterfaces.length) (h31 : s.availableInterfaces.length < 32)
    (h : solve (program now s.applications s.availableInterfaces) = some r)
    (hr : (program now s.applications s.availableInterfaces).Feasible r.value) :
    compute solve now s = .ok (dispatched now s ⌊r.objectiveValue⌋₊
      (tableOf s.applications.length s.availableInterfaces.length r.value)) := by
  have hsent := ((feasible_iff now _ _ _).mp hr).2.allSent
  have hdispatch := dispatch_decodeSolution (.runtimeErrorPointer "Nessun pacchetto") now
    s.applications s.availableInterfaces hsent
  unfold compute
  simp only [Utils.maxIntWithNBits_of_lt h31, maxElement_results _ _ _ _ h0,
    computeOptimization_range, h, hdispatch]
  rfl

/-- Without an interface there is no candidate, and with more than 31 no counter. -/
theorem amountOfInterfaces_of_compute {solve : Solver} {now : Time} {s s' : Strategy}
    (h : compute solve now s = .ok s') :
    0 < s.availableInterfaces.length ∧ s.availableInterfaces.length < 32 := by
  constructor
  · by_contra h0
    have hnil : s.availableInterfaces.length = 0 := by omega
    rw [compute, hnil] at h
    cases h
  · by_contra h32
    have hwide : Utils.maxIntWithNBits s.availableInterfaces.length = .error .shiftTooWide := by
      rw [Utils.maxIntWithNBits, if_neg (by omega), if_neg (by omega)]
    rw [compute, hwide] at h
    cases h

/-- Whatever the solver answers, only the queues of the interfaces change. -/
theorem compute_keeps {γ : Type*} {g : ISPInterface → γ}
    (hg : ∀ i p, g (i.enqueuePacket p) = g i) {solve : Solver} {now : Time} {s s' : Strategy}
    (h : compute solve now s = .ok s') :
    s'.availableInterfaces.map g = s.availableInterfaces.map g := by
  unfold compute at h
  split at h
  · cases h
  dsimp only at h
  split at h
  · cases h
  split_ifs at h
  split at h
  · cases h
  rename_i hdispatch
  cases h
  rw [Strategy.availableInterfaces_printIfAllSent]
  exact dispatch_keeps hg hdispatch

/-- A failing computation leaves the strategy as it was. -/
theorem compute_error {solve : Solver} (hsolve : AnswersFeasibly solve) {now : Time}
    {s s' : Strategy} {e : Fault} (h : compute solve now s = .error (e, s')) :
    (e = .runtimeErrorPointer "Nessuna soluzione trovata" ∨ e = .shiftTooWide) ∧ s' = s := by
  by_cases h0 : s.availableInterfaces.length = 0
  · rw [compute, h0] at h
    cases h
    exact ⟨.inl rfl, rfl⟩
  by_cases h31 : s.availableInterfaces.length < 32
  · cases hr : solve (program now s.applications s.availableInterfaces) with
    | none =>
      rw [compute_of_none (by omega) h31 hr] at h
      cases h
      exact ⟨.inl rfl, rfl⟩
    | some r =>
      rw [compute_of_some (by omega) h31 hr (hsolve _ _ hr)] at h
      cases h
  · have hwide : Utils.maxIntWithNBits s.availableInterfaces.length = .error .shiftTooWide := by
      rw [Utils.maxIntWithNBits, if_neg h0, if_neg h31]
    rw [compute, hwide] at h
    cases h
    exact ⟨.inr rfl, rfl⟩

/-- A successful computation dispatches an admissible assignment. -/
theorem compute_dispatches {solve : Solver} (hsolve : AnswersFeasibly solve) {now : Time}
    {s s' : Strategy} (h : compute solve now s = .ok s') :
    ∃ totalCost x, (problem now s.applications s.availableInterfaces).Admissible x ∧
      s' = dispatched now s totalCost x := by
  obtain ⟨h0, h31⟩ := amountOfInterfaces_of_compute h
  cases hr : solve (program now s.applications s.availableInterfaces) with
  | none => rw [compute_of_none h0 h31 hr] at h; cases h
  | some r =>
    have hfeasible := hsolve _ _ hr
    rw [compute_of_some h0 h31 hr hfeasible] at h
    exact ⟨_, _, ((feasible_iff now _ _ _).mp hfeasible).2, (Except.ok.inj h).symm⟩

/-- The cost recorded is that of the assignment. -/
theorem compute_cases {solve : Solver} (hsolve : Sound solve) {now : Time} {s s' : Strategy}
    (h : compute solve now s = .ok s') :
    ∃ x, (problem now s.applications s.availableInterfaces).Admissible x ∧
      s' = dispatched now s
        ((problem now s.applications s.availableInterfaces).totalCost x) x := by
  obtain ⟨h0, h31⟩ := amountOfInterfaces_of_compute h
  cases hr : solve (program now s.applications s.availableInterfaces) with
  | none => rw [compute_of_none h0 h31 hr] at h; cases h
  | some r =>
    obtain ⟨hfeasible, hobjective⟩ := hsolve _ _ hr
    rw [compute_of_some h0 h31 hr hfeasible] at h
    refine ⟨_, ((feasible_iff now _ _ _).mp hfeasible).2, ?_⟩
    rw [hobjective, cost_eq hfeasible, Nat.floor_natCast] at h
    exact (Except.ok.inj h).symm

theorem compute_drains {solve : Solver} (hsolve : AnswersFeasibly solve) {now : Time}
    {s s' : Strategy} (h : compute solve now s = .ok s') : ∃ f, Drains now s s' f := by
  obtain ⟨totalCost, x, hx, rfl⟩ := compute_dispatches hsolve h
  refine ⟨packetsOf now s.applications x, ?_, ?_, dateEnqueued_packetsOf _ _ _, ?_⟩
  · rw [dispatched, Strategy.applications_printIfAllSent]
  · rw [dispatched, Strategy.availableInterfaces_printIfAllSent]
  · exact totalOver_packetsOf_of_allSent now _ _ hx.allSent

end ReactiveStrategy

end SdWan
