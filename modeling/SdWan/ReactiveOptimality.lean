import SdWan.ReactiveStrategy

/-!
# The reactive strategy is optimal

With a solver that is exact on the programs it is given, a computation succeeds exactly when the
pending packets have an admissible assignment, and dispatches a cheapest one. Searching all
non-empty subsets of the interfaces would find nothing cheaper, because an assignment to some of
the interfaces is one to all of them.
-/

open Finset IntegerProgram

namespace SdWan.ReactiveStrategy

variable {solve : Solver} {now : Time}

/-- A candidate set in terms of assignments to its interfaces. -/
theorem computeOptimization_optimal {apps : List Application} {available : List ISPInterface}
    {S : List ℕ} {ifaces : List ISPInterface} (hS : S.filterMap (fun p => available[p]?) = ifaces)
    (hexact : ExactAt solve (program now apps ifaces)) :
    ((computeOptimization solve now apps available S).isFeasible = true ↔
        ∃ x, (problem now apps ifaces).Admissible x) ∧
      ((computeOptimization solve now apps available S).isFeasible = true →
        ∃ x, (problem now apps ifaces).Cheapest x ∧
          (computeOptimization solve now apps available S).totalCost =
            (problem now apps ifaces).totalCost x) := by
  unfold computeOptimization
  simp only [hS]
  cases hr : solve (program now apps ifaces) with
  | none =>
    constructor
    · constructor
      · intro h
        cases h
      · rintro ⟨x, hx⟩
        have hsome := hexact.complete _ (feasible_pointOf hx)
        rw [hr] at hsome
        cases hsome
    · intro h
      cases h
  | some r =>
    obtain ⟨hoptimal, hobjective⟩ := hexact.optimal r hr
    have hcheapest := (optimal_iff hoptimal.feasible).mp hoptimal
    refine ⟨⟨fun _ => ⟨_, hcheapest.admissible⟩, fun _ => rfl⟩, fun _ => ⟨_, hcheapest, ?_⟩⟩
    change ⌊r.objectiveValue⌋₊ = _
    rw [hobjective, cost_eq hoptimal.feasible, Nat.floor_natCast]

/-- With an exact solver a computation fails without an assignment and is cheapest with one. -/
theorem compute_exact {s : Strategy} (h0 : 0 < s.availableInterfaces.length)
    (h31 : s.availableInterfaces.length < 32)
    (hexact : ExactAt solve (program now s.applications s.availableInterfaces)) :
    (compute solve now s = .error (.runtimeErrorPointer "Nessuna soluzione trovata", s) ∧
        ∀ x, ¬(problem now s.applications s.availableInterfaces).Admissible x) ∨
      ∃ x, (problem now s.applications s.availableInterfaces).Cheapest x ∧
        compute solve now s = .ok (dispatched now s
          ((problem now s.applications s.availableInterfaces).totalCost x) x) := by
  cases hr : solve (program now s.applications s.availableInterfaces) with
  | none =>
    refine .inl ⟨compute_of_none h0 h31 hr, fun x hx => ?_⟩
    have hsome := hexact.complete _ (feasible_pointOf hx)
    rw [hr] at hsome
    cases hsome
  | some r =>
    obtain ⟨hoptimal, hobjective⟩ := hexact.optimal r hr
    refine .inr ⟨_, (optimal_iff hoptimal.feasible).mp hoptimal, ?_⟩
    rw [compute_of_some h0 h31 hr hoptimal.feasible, hobjective, cost_eq hoptimal.feasible,
      Nat.floor_natCast]

/-- The packets of one application among those an interface receives. -/
theorem amountFrom_packetsOf {apps : List Application} {nL : ℕ}
    (hids : (apps.map (·.applicationId)).Nodup) (x : Fin apps.length → Fin nL → ℕ)
    (a : Fin apps.length) (l : Fin nL) :
    amountFrom (getElem apps a a.isLt).applicationId (packetsOf now apps x l) = x a l := by
  have hofFn : apps.map (·.applicationId) =
      List.ofFn fun b : Fin apps.length => apps[b].applicationId := by
    apply List.ext_getElem
    · simp
    · intro i h₁ h₂
      simp
  have hinjective : Function.Injective fun b : Fin apps.length => apps[b].applicationId :=
    List.nodup_ofFn.mp (hofFn ▸ hids)
  rw [amountFrom_eq_sum, sum_map_packetsOf, sum_eq_single a]
  · simp
  · intro b _ hb
    rw [if_neg (fun he => hb (hinjective he)), mul_zero]
  · exact fun h => absurd (mem_univ a) h

/-! ## Two links -/

def sampleApplication : Application :=
  .static {
    applicationId := 1
    requiredDelay := 100
    errorRate := 5
    pendingpackets := [0]
    generatedPackets := 1
    amountOfPacketsToSend := 1
    requiredDataRate := 1024
    allPacketsGenerated := true }

/-- A link of two packets per second. -/
def sampleInterface (interfaceId cost : ℕ) : ISPInterface where
  interfaceId := interfaceId
  netDevice := ⟨2048, 10, 0⟩
  outgoingAddress := ⟨interfaceId, 9⟩
  destinationAddress := ⟨0, 9⟩
  errorModel := 0
  cost := cost

def sampleStrategy : Strategy where
  applications := [sampleApplication]
  availableInterfaces := [sampleInterface 101 1, sampleInterface 102 3]

/-- One packet over the first link. -/
def samplePoint (v : ℕ) : ℚ := if v = 0 then 1 else 0

/-- The packet costs at least as much as the cheapest link. -/
theorem sample_exactAt {ifaces : List ISPInterface} {cost : ℕ}
    (hfeasible : (program 0 [sampleApplication] ifaces).Feasible samplePoint)
    (hcost : (program 0 [sampleApplication] ifaces).cost samplePoint = cost)
    (hleast : ∀ l : Fin ifaces.length, cost ≤ (getElem ifaces l l.isLt).cost) :
    ExactAt (offer [samplePoint]) (program 0 [sampleApplication] ifaces) := by
  have hfirst : [samplePoint].find? (fun x =>
      decide ((program 0 [sampleApplication] ifaces).Feasible x)) = some samplePoint :=
    List.find?_cons_of_pos (decide_eq_true hfeasible)
  refine exactAt_offer hfirst ⟨hfeasible, fun y hy => ?_⟩
  have hsent := ((feasible_iff _ _ _ y).mp hy).2.allSent (0 : Fin 1)
  rw [hcost, cost_eq hy, Nat.cast_le]
  calc cost = ∑ l, tableOf 1 ifaces.length y 0 l * cost := by
        rw [← sum_mul]
        exact (hsent ▸ (one_mul cost).symm)
    _ ≤ ∑ l, tableOf 1 ifaces.length y 0 l * ifaces[l].cost :=
        sum_le_sum fun l _ => Nat.mul_le_mul_left _ (hleast l)
    _ = _ := (Fin.sum_univ_one fun a => ∑ l, tableOf 1 ifaces.length y a l * ifaces[l].cost).symm

theorem sampleStrategy_exactAt :
    ExactAt (offer [samplePoint])
      (program 0 sampleStrategy.applications sampleStrategy.availableInterfaces) :=
  sample_exactAt (by decide +kernel) (show _ = ((1 : ℕ) : ℚ) by decide +kernel) (by decide)

/-! ## Success and the assignment dispatched -/

/-- A computation succeeds exactly when the pending packets have an admissible assignment, and
then appends the packets of a cheapest one to the queues. -/
theorem compute_cheapest (s : Strategy) (h0 : 0 < s.availableInterfaces.length)
    (h31 : s.availableInterfaces.length ≤ 31)
    (hexact : ExactAt solve (program now s.applications s.availableInterfaces)) :
    ((∃ s', compute solve now s = .ok s') ↔
        ∃ x, (problem now s.applications s.availableInterfaces).Admissible x) ∧
      ∀ s', compute solve now s = .ok s' →
        ∃ x, (problem now s.applications s.availableInterfaces).Cheapest x ∧
          s'.applications = s.applications.map (·.setPending []) ∧
          s'.availableInterfaces =
            appendAt s.availableInterfaces (packetsOf now s.applications x) ∧
          ((s.applications.map (·.applicationId)).Nodup →
            ∀ (a : Fin s.applications.length) (l : Fin s.availableInterfaces.length),
              amountFrom s.applications[a].applicationId (packetsOf now s.applications x l) =
                x a l) := by
  rcases compute_exact h0 (by omega) hexact with ⟨hfail, hnone⟩ | ⟨x, hx, hok⟩
  · refine ⟨⟨fun ⟨s', h⟩ => ?_, fun ⟨x, hx⟩ => absurd hx (hnone x)⟩, fun s' h => ?_⟩
    · rw [hfail] at h
      cases h
    · rw [hfail] at h
      cases h
  · refine ⟨⟨fun _ => ⟨x, hx.admissible⟩, fun _ => ⟨_, hok⟩⟩, fun s' h => ?_⟩
    rw [hok] at h
    cases h
    refine ⟨x, hx, ?_, ?_, fun hids a l => amountFrom_packetsOf hids x a l⟩
    · rw [dispatched, Strategy.applications_printIfAllSent]
    · rw [dispatched, Strategy.availableInterfaces_printIfAllSent]

theorem compute_cheapest_sample :
    ∃ s' x, compute (offer [samplePoint]) 0 sampleStrategy = .ok s' ∧
      (problem 0 sampleStrategy.applications sampleStrategy.availableInterfaces).Cheapest x ∧
      s'.availableInterfaces = appendAt sampleStrategy.availableInterfaces
        (packetsOf 0 sampleStrategy.applications x) := by
  obtain ⟨hsuccess, hall⟩ := compute_cheapest sampleStrategy (by decide) (by decide)
    sampleStrategy_exactAt
  have hfeasible : (program 0 sampleStrategy.applications
      sampleStrategy.availableInterfaces).Feasible samplePoint := by decide +kernel
  obtain ⟨s', hs'⟩ := hsuccess.mpr ⟨_, ((feasible_iff _ _ _ _).mp hfeasible).2⟩
  obtain ⟨x, hx, -, hqueues, -⟩ := hall s' hs'
  exact ⟨s', x, hs', hx, hqueues⟩

/-! ## The search over subsets -/

/-- Some of the interfaces, in their order, are a problem on some of the links. -/
theorem problem_sublist (now : Time) (apps : List Application) {some all : List ISPInterface}
    (h : some.Sublist all) :
    ∃ e : Fin some.length ↪ Fin all.length,
      problem now apps some = (problem now apps all).onLinks e := by
  obtain ⟨e, he⟩ := List.sublist_iff_exists_fin_orderEmbedding_get_eq.mp h
  refine ⟨e.toEmbedding, ?_⟩
  have hget : ∀ l : Fin some.length, some[l] = all[e l] := he
  simp only [problem, AssignmentProblem.onLinks, hget]
  rfl

/-- The interfaces of a candidate set. -/
theorem interfaces_sublist {available : List ISPInterface} {S : List ℕ}
    (hS : S.Sublist (List.range available.length)) :
    (S.filterMap fun p => available[p]?).Sublist available := by
  have h := hS.filterMap fun p => available[p]?
  rwa [filterMap_range] at h

/-- The results of the candidate sets `S` among the interfaces. -/
def candidateCosts (solve : Solver) (now : Time) (apps : List Application)
    (available : List ISPInterface) : Set ℕ :=
  {c | ∃ S : List ℕ, S.Sublist (List.range available.length) ∧ S ≠ [] ∧
    (computeOptimization solve now apps available S).isFeasible = true ∧
    (computeOptimization solve now apps available S).totalCost = c}

section

variable {apps : List Application} {available : List ISPInterface} {S : List ℕ}

/-- Without an assignment over all links there is none over some of them. -/
theorem isFeasible_sublist_eq_false (hnone : ∀ x, ¬ (problem now apps available).Admissible x)
    (hS : S.Sublist (List.range available.length))
    (hexact : ExactAt solve (program now apps (S.filterMap fun p => available[p]?))) :
    (computeOptimization solve now apps available S).isFeasible = false := by
  have hcandidate := computeOptimization_optimal rfl hexact
  obtain ⟨e, he⟩ := problem_sublist now apps (interfaces_sublist hS)
  by_contra hfeasible
  obtain ⟨y, hy⟩ := hcandidate.1.mp (by simpa using hfeasible)
  rw [he] at hy
  exact hnone _ hy.extend

/-- A cheapest assignment over all links costs no more than one over some of them. -/
theorem totalCost_le_sublist {x : Fin apps.length → Fin available.length → ℕ}
    (hx : (problem now apps available).Cheapest x) (hS : S.Sublist (List.range available.length))
    (hexact : ExactAt solve (program now apps (S.filterMap fun p => available[p]?)))
    (hfeasible : (computeOptimization solve now apps available S).isFeasible = true) :
    (problem now apps available).totalCost x ≤
      (computeOptimization solve now apps available S).totalCost := by
  have hcandidate := computeOptimization_optimal rfl hexact
  obtain ⟨e, he⟩ := problem_sublist now apps (interfaces_sublist hS)
  obtain ⟨y, hy, hcost⟩ := hcandidate.2 hfeasible
  rw [hcost]
  rw [he] at hy ⊢
  exact hx.le_onLinks hy.admissible

end

/-- Searching every non-empty subset of the interfaces would record the same cost, and would fail
in the same cases. -/
theorem compute_subset_search (s : Strategy) (h0 : 0 < s.availableInterfaces.length)
    (h31 : s.availableInterfaces.length ≤ 31)
    (hexact : ∀ S : List ℕ, S.Sublist (List.range s.availableInterfaces.length) → S ≠ [] →
      ExactAt solve (program now s.applications
        (S.filterMap fun p => s.availableInterfaces[p]?))) :
    (∀ s', compute solve now s = .ok s' → ∃ dataPoint,
        s'.strategyData = s.strategyData ++ [dataPoint] ∧
          IsLeast (candidateCosts solve now s.applications s.availableInterfaces)
            dataPoint.currentCost) ∧
      ((∃ left, compute solve now s =
          .error (.runtimeErrorPointer "Nessuna soluzione trovata", left)) ↔
        ∀ S : List ℕ, S.Sublist (List.range s.availableInterfaces.length) → S ≠ [] →
          (computeOptimization solve now s.applications s.availableInterfaces S).isFeasible =
            false) := by
  have hne : List.range s.availableInterfaces.length ≠ [] := by
    rw [Ne, List.range_eq_nil]
    omega
  have hfull := computeOptimization_optimal (filterMap_range s.availableInterfaces)
    (by simpa only [filterMap_range] using hexact _ (List.Sublist.refl _) hne)
  have hexactFull : ExactAt solve (program now s.applications s.availableInterfaces) := by
    simpa only [filterMap_range] using hexact _ (List.Sublist.refl _) hne
  rcases compute_exact h0 (by omega) hexactFull with ⟨hfail, hnone⟩ | ⟨x, hx, hok⟩
  · refine ⟨fun s' h => ?_, ⟨fun _ S hS hSne => ?_, fun _ => ⟨s, hfail⟩⟩⟩
    · rw [hfail] at h
      cases h
    · exact isFeasible_sublist_eq_false hnone hS (hexact S hS hSne)
  · have hfeasible := hfull.1.mpr ⟨x, hx.admissible⟩
    obtain ⟨z, hz, hcost⟩ := hfull.2 hfeasible
    refine ⟨fun s' h => ?_, ⟨fun ⟨left, hleft⟩ => ?_, fun hall => ?_⟩⟩
    · rw [hok] at h
      cases h
      refine ⟨_, by rw [dispatched, Strategy.strategyData_printIfAllSent], ?_, ?_⟩
      · rw [Strategy.currentCost_nextDataPoint]
        exact ⟨_, List.Sublist.refl _, hne, hfeasible, hcost.trans (hz.totalCost_eq hx)⟩
      · rintro c ⟨S, hS, hSne, hSfeasible, rfl⟩
        rw [Strategy.currentCost_nextDataPoint]
        exact totalCost_le_sublist hx hS (hexact S hS hSne) hSfeasible
    · rw [hok] at hleft
      cases hleft
    · rw [hall _ (List.Sublist.refl _) hne] at hfeasible
      cases hfeasible

theorem compute_subset_search_sample :
    ∃ s' dataPoint, compute (offer [samplePoint]) 0 sampleStrategy = .ok s' ∧
      s'.strategyData = [dataPoint] ∧
      IsLeast (candidateCosts (offer [samplePoint]) 0 sampleStrategy.applications
        sampleStrategy.availableInterfaces) dataPoint.currentCost := by
  have hexact : ∀ S : List ℕ,
      S.Sublist (List.range sampleStrategy.availableInterfaces.length) → S ≠ [] →
      ExactAt (offer [samplePoint]) (program 0 sampleStrategy.applications
        (S.filterMap fun p => sampleStrategy.availableInterfaces[p]?)) := by
    intro S hS hne
    have hcases : S ∈ [[], [0], [1], [0, 1]] := List.mem_sublists.mpr hS
    simp only [List.mem_cons, List.not_mem_nil, or_false] at hcases
    rcases hcases with rfl | rfl | rfl | rfl
    · exact absurd rfl hne
    · exact sample_exactAt (by decide +kernel) (show _ = ((1 : ℕ) : ℚ) by decide +kernel)
        (by decide)
    · exact sample_exactAt (by decide +kernel) (show _ = ((3 : ℕ) : ℚ) by decide +kernel)
        (by decide)
    · exact sampleStrategy_exactAt
  obtain ⟨hsearch, -⟩ := compute_subset_search sampleStrategy (by decide) (by decide) hexact
  have hok : ∃ s', compute (offer [samplePoint]) 0 sampleStrategy = .ok s' :=
    ⟨_, compute_of_some (by decide) (by decide)
      (by rw [offer, List.find?_cons_of_pos (by decide +kernel)]; rfl) (by decide +kernel)⟩
  obtain ⟨s', hs'⟩ := hok
  obtain ⟨dataPoint, hdata, hleast⟩ := hsearch s' hs'
  exact ⟨s', dataPoint, hs', hdata, hleast⟩

end SdWan.ReactiveStrategy
