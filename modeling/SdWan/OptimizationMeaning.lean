import SdWan.Optimization

/-!
# What the rows say

The value of every row at a point is a sum over the table of the point. Since the pair
`(j, i)` of an application and an interface is recovered from the variable
`j + i * amountOfApplications`, no coefficient is entered twice and every point has exactly one
table. Hence feasible points and admissible assignments are the same thing, with the same cost.

Where a statement has `getElem xs l l.isLt`, it is the entry `xs[l]` with its bound written out.
-/

open Finset IntegerProgram

namespace SdWan

/-! ## The layout of the variables -/

theorem variable_lt {nA nL j i : ℕ} (hj : j < nA) (hi : i < nL) : j + i * nA < nA * nL := by
  calc j + i * nA < nA + i * nA := Nat.add_lt_add_right hj _
    _ = nA * (i + 1) := by ring
    _ ≤ nA * nL := Nat.mul_le_mul_left _ hi

theorem variable_mod {nA j i : ℕ} (hj : j < nA) : (j + i * nA) % nA = j := by
  rw [Nat.add_mul_mod_self_right, Nat.mod_eq_of_lt hj]

theorem variable_div {nA j i : ℕ} (hj : j < nA) : (j + i * nA) / nA = i := by
  rw [Nat.add_mul_div_right _ _ (by omega), Nat.div_eq_of_lt hj, Nat.zero_add]

theorem tableOf_pointOf {nA nL : ℕ} (x : Fin nA → Fin nL → ℕ) : tableOf nA nL (pointOf x) = x := by
  funext a l
  have hmod := variable_mod (i := l) a.isLt
  have hdiv := variable_div (i := l) a.isLt
  have h : (a + l * nA : ℕ) % nA < nA ∧ (a + l * nA : ℕ) / nA < nL := by
    rw [hmod, hdiv]
    exact ⟨a.isLt, l.isLt⟩
  rw [tableOf, pointOf, dif_pos h, Nat.floor_natCast]
  congr 1
  · exact Fin.ext hmod
  · exact Fin.ext hdiv

theorem natural_pointOf {nA nL : ℕ} (x : Fin nA → Fin nL → ℕ) (v : ℕ) :
    pointOf x v = (⌊pointOf x v⌋₊ : ℚ) := by
  unfold pointOf
  split_ifs with h
  · rw [Nat.floor_natCast]
  · simp

/-! ## The values of the rows -/

theorem zipIdx_map_eq_ofFn {α β : Type} (xs : List α) (f : α × ℕ → β) :
    xs.zipIdx.map f = List.ofFn fun l : Fin xs.length => f (xs[l], l) := by
  apply List.ext_getElem
  · simp
  · intro i h₁ h₂
    simp

theorem sum_range_map {M : Type} [AddCommMonoid M] (n : ℕ) (f : ℕ → M) :
    ((List.range n).map f).sum = ∑ i : Fin n, f i := by
  rw [← List.sum_ofFn]
  congr 1
  apply List.ext_getElem
  · simp
  · intro i h₁ h₂
    simp

section Values

variable {nA : ℕ} {ifaces : List ISPInterface}

theorem keys_interfaceTerms (c : ISPInterface → ℚ) (j : ℕ) :
    (interfaceTerms nA ifaces c j).map Prod.fst =
      (List.range ifaces.length).map fun i => j + i * nA := by
  rw [interfaceTerms, zipIdx_map_eq_ofFn]
  apply List.ext_getElem
  · simp
  · intro i h₁ h₂
    simp

theorem nodup_interfaceTerms (c : ISPInterface → ℚ) {j : ℕ} (hj : j < nA) :
    ((interfaceTerms nA ifaces c j).map Prod.fst).Nodup := by
  rw [keys_interfaceTerms]
  apply List.Nodup.map _ List.nodup_range
  intro i i' h
  exact Nat.eq_of_mul_eq_mul_right (by omega) (Nat.add_left_cancel h)

theorem interfaceTerms_lt (c : ISPInterface → ℚ) {j : ℕ} (hj : j < nA) :
    ∀ t ∈ interfaceTerms nA ifaces c j, t.1 < nA * ifaces.length := by
  intro t ht
  have hkey : t.1 ∈ (interfaceTerms nA ifaces c j).map Prod.fst := List.mem_map_of_mem ht
  rw [keys_interfaceTerms, List.mem_map] at hkey
  obtain ⟨i, hi, he⟩ := hkey
  rw [← he]
  exact variable_lt hj (List.mem_range.mp hi)

theorem sum_interfaceTerms (c : ISPInterface → ℚ) (x : ℕ → ℚ) (j : ℕ) :
    ((interfaceTerms nA ifaces c j).map fun t => t.2 * x t.1).sum =
      ∑ l : Fin ifaces.length, c (getElem ifaces l l.isLt) * x (j + l * nA) := by
  rw [interfaceTerms, List.map_map, zipIdx_map_eq_ofFn, List.sum_ofFn]
  rfl

theorem eval_applicationRow (lb : ℚ) (ub : Option ℚ) (c : ISPInterface → ℚ) (x : ℕ → ℚ) {j : ℕ}
    (hj : j < nA) :
    eval (nA * ifaces.length) (applicationRow nA ifaces lb ub c j).coefficient x =
      ∑ l : Fin ifaces.length, c ifaces[l] * x (j + l * nA) := by
  rw [applicationRow, eval_enterAll_zero x _ (nodup_interfaceTerms c hj) (interfaceTerms_lt c hj),
    sum_interfaceTerms]

theorem eval_capacityRow (iface : ISPInterface) (x : ℕ → ℚ) {j : ℕ} (hj : j < ifaces.length) :
    eval (nA * ifaces.length) (capacityRow nA iface j).coefficient x =
      ∑ a : Fin nA, x (a + j * nA) := by
  have hkeys : (((List.range nA).map fun i => (i + j * nA, (1 : ℚ))).map Prod.fst) =
      (List.range nA).map fun i => i + j * nA := by
    rw [List.map_map]
    rfl
  rw [capacityRow, eval_enterAll_zero, List.map_map, sum_range_map]
  · exact sum_congr rfl fun a _ => one_mul _
  · rw [hkeys]
    exact List.Nodup.map (fun i i' h => Nat.add_right_cancel h) List.nodup_range
  · intro t ht
    obtain ⟨i, hi, rfl⟩ := List.mem_map.mp ht
    exact variable_lt (List.mem_range.mp hi) hj

theorem eval_costObjective (x : ℕ → ℚ) :
    eval (nA * ifaces.length) (costObjective nA ifaces) x =
      ∑ a : Fin nA, ∑ l : Fin ifaces.length,
        ((getElem ifaces l l.isLt).cost : ℚ) * x (a + l * nA) := by
  have hkeys : ((List.range nA).flatMap fun j =>
      interfaceTerms nA ifaces (fun i => (i.cost : ℚ)) j).map Prod.fst =
      (List.range nA).flatMap fun j => (List.range ifaces.length).map fun i => j + i * nA := by
    rw [List.map_flatMap]
    exact List.flatMap_congr fun j _ => keys_interfaceTerms _ j
  rw [costObjective, eval_enterAll_zero, List.map_flatMap, List.flatMap_def, List.sum_flatten,
    List.map_map, sum_range_map]
  · exact sum_congr rfl fun a _ => sum_interfaceTerms _ x a
  · rw [hkeys, List.nodup_flatMap]
    refine ⟨fun j hj => ?_, ?_⟩
    · rw [← keys_interfaceTerms (fun _ => 0)]
      exact nodup_interfaceTerms _ (List.mem_range.mp hj)
    · apply List.Pairwise.imp_of_mem _ List.nodup_range
      intro j j' hj hj' hne
      rw [Function.onFun, List.disjoint_left]
      intro v hv hv'
      obtain ⟨i, _, rfl⟩ := List.mem_map.mp hv
      obtain ⟨i', _, he⟩ := List.mem_map.mp hv'
      apply hne
      rw [← variable_mod (i := i) (List.mem_range.mp hj), ← he,
        variable_mod (List.mem_range.mp hj')]
  · intro t ht
    obtain ⟨j, hj, ht⟩ := List.mem_flatMap.mp ht
    exact interfaceTerms_lt _ (List.mem_range.mp hj) t ht

end Values

/-! ## The rows in terms of the table -/

theorem forall_mem_zipIdx {α : Type} {xs : List α} {p : α × ℕ → Prop} :
    (∀ t ∈ xs.zipIdx, p t) ↔ ∀ l : Fin xs.length, p (xs[l], l) := by
  constructor
  · intro h l
    apply h
    rw [List.mem_zipIdx_iff_getElem?]
    exact List.getElem?_eq_getElem l.isLt
  · rintro h ⟨x, i⟩ ht
    obtain ⟨hi, he⟩ := List.getElem?_eq_some_iff.mp (List.mem_zipIdx_iff_getElem?.mp ht)
    rw [← show xs[i] = x from he]
    exact h ⟨i, hi⟩

section Rows

variable {nA : ℕ} {ifaces : List ISPInterface} {x : ℕ → ℚ}

/-- Natural values at the variables of an application are its line of the table. -/
theorem cast_tableOf (hx : ∀ v < nA * ifaces.length, x v = (⌊x v⌋₊ : ℚ)) (a : Fin nA)
    (l : Fin ifaces.length) : (tableOf nA ifaces.length x a l : ℚ) = x (a + l * nA) :=
  (hx _ (variable_lt a.isLt l.isLt)).symm

theorem eval_averageRow (hx : ∀ v < nA * ifaces.length, x v = (⌊x v⌋₊ : ℚ)) (a : Fin nA)
    (lb : ℚ) (ub : Option ℚ) (N : ℕ) (f : ISPInterface → ℚ) :
    eval (nA * ifaces.length)
        (applicationRow nA ifaces lb ub (fun i => perPacket N (f i)) a).coefficient x =
      AssignmentProblem.carried (tableOf nA ifaces.length x a)
        (fun l => f (getElem ifaces l l.isLt)) / N := by
  rw [eval_applicationRow _ _ _ _ a.isLt, AssignmentProblem.carried, sum_div]
  apply sum_congr rfl
  intro l _
  rw [cast_tableOf hx, perPacket]
  split_ifs with h
  · ring
  · have hN : N = 0 := by omega
    rw [hN, Nat.cast_zero, div_zero, zero_mul]

theorem holds_bandwidthRow_iff (hx : ∀ v < nA * ifaces.length, x v = (⌊x v⌋₊ : ℚ)) (a : Fin nA)
    (app : Application) :
    (bandwidthRow nA ifaces app a).Holds (nA * ifaces.length) x ↔
      app.getRequiredDataRate ≤ AssignmentProblem.carried (tableOf nA ifaces.length x a)
        (fun l => (getElem ifaces l l.isLt).getDataBitRate) / app.pendingpackets.length := by
  rw [bandwidthRow, Row.Holds, eval_averageRow hx]
  simp [applicationRow]

theorem holds_upperRow_iff (hx : ∀ v < nA * ifaces.length, x v = (⌊x v⌋₊ : ℚ)) (a : Fin nA)
    (u : ℚ) (N : ℕ) {f : ISPInterface → ℚ} (hf : ∀ i, 0 ≤ f i) :
    (applicationRow nA ifaces 0 (some u) (fun i => perPacket N (f i)) a).Holds
        (nA * ifaces.length) x ↔
      AssignmentProblem.carried (tableOf nA ifaces.length x a)
        (fun l => f (getElem ifaces l l.isLt)) / N ≤ u := by
  have hnonneg : 0 ≤ AssignmentProblem.carried (tableOf nA ifaces.length x a)
      (fun l => f ifaces[l]) / N :=
    div_nonneg (AssignmentProblem.carried_nonneg _ fun _ => hf _) (Nat.cast_nonneg _)
  rw [Row.Holds, eval_averageRow hx]
  simp only [applicationRow, Option.mem_def, Option.some.injEq, forall_eq']
  exact and_iff_right hnonneg

theorem holds_packetsRow_iff (hx : ∀ v < nA * ifaces.length, x v = (⌊x v⌋₊ : ℚ)) (a : Fin nA)
    (app : Application) :
    (packetsRow nA ifaces app a).Holds (nA * ifaces.length) x ↔
      ∑ l, tableOf nA ifaces.length x a l = app.pendingpackets.length := by
  have hvalue : eval (nA * ifaces.length) (packetsRow nA ifaces app a).coefficient x =
      ((∑ l, tableOf nA ifaces.length x a l : ℕ) : ℚ) := by
    rw [packetsRow, eval_applicationRow _ _ _ _ a.isLt, Nat.cast_sum]
    exact sum_congr rfl fun l _ => by rw [cast_tableOf hx, one_mul]
  rw [Row.Holds, hvalue]
  simp only [packetsRow, applicationRow, Option.mem_def, Option.some.injEq, forall_eq']
  norm_cast
  exact ⟨fun h => Nat.le_antisymm h.2 h.1, fun h => ⟨h.ge, h.le⟩⟩

theorem holds_capacityRow_iff (hx : ∀ v < nA * ifaces.length, x v = (⌊x v⌋₊ : ℚ))
    (l : Fin ifaces.length) :
    (capacityRow nA (getElem ifaces l l.isLt) l).Holds (nA * ifaces.length) x ↔
      ∑ a, tableOf nA ifaces.length x a l ≤ (getElem ifaces l l.isLt).getPackageRate := by
  have hvalue : eval (nA * ifaces.length) (capacityRow nA ifaces[l] l).coefficient x =
      ((∑ a, tableOf nA ifaces.length x a l : ℕ) : ℚ) := by
    rw [eval_capacityRow _ _ l.isLt, Nat.cast_sum]
    exact sum_congr rfl fun a _ => (cast_tableOf hx a l).symm
  rw [Row.Holds, hvalue]
  simp only [capacityRow, Option.mem_def, Option.some.injEq, forall_eq']
  norm_cast
  exact ⟨fun h => h.2, fun h => ⟨Nat.zero_le _, h⟩⟩

theorem cost_eq_totalCost (hx : ∀ v < nA * ifaces.length, x v = (⌊x v⌋₊ : ℚ)) :
    eval (nA * ifaces.length) (costObjective nA ifaces) x =
      ((∑ a, ∑ l, tableOf nA ifaces.length x a l * (getElem ifaces l l.isLt).cost : ℕ) : ℚ) := by
  rw [eval_costObjective, Nat.cast_sum]
  apply sum_congr rfl
  intro a _
  rw [Nat.cast_sum]
  exact sum_congr rfl fun l _ => by rw [Nat.cast_mul, cast_tableOf hx, mul_comm]

end Rows

theorem milliSecondsInterfaceDelay_nonneg (now : Time) (i : ISPInterface) :
    0 ≤ ReactiveStrategy.milliSecondsInterfaceDelay now i := by
  unfold ReactiveStrategy.milliSecondsInterfaceDelay
  positivity

/-! ## Feasible points are admissible assignments -/

theorem ReactiveStrategy.feasible_iff (now : Time) (apps : List Application)
    (ifaces : List ISPInterface) (x : ℕ → ℚ) :
    (ReactiveStrategy.program now apps ifaces).Feasible x ↔
      (∀ v < apps.length * ifaces.length, x v = (⌊x v⌋₊ : ℚ)) ∧
        (ReactiveStrategy.problem now apps ifaces).Admissible
          (tableOf apps.length ifaces.length x) := by
  constructor
  · rintro ⟨hx, hrows⟩
    simp only [ReactiveStrategy.program, List.forall_mem_append, List.forall_mem_map,
      List.forall_mem_filterMap, forall_mem_zipIdx] at hrows hx
    obtain ⟨⟨⟨⟨hcap, hband⟩, hdelay⟩, herror⟩, hpackets⟩ := hrows
    refine ⟨hx, ⟨fun a => ?_, fun l => ?_, fun a ha => ?_, fun a _ => ?_, fun a _ => ?_⟩⟩
    · exact (holds_packetsRow_iff hx a _).mp (hpackets a)
    · exact Nat.cast_le.mpr ((holds_capacityRow_iff hx l).mp (hcap l))
    · have hne : apps[a].pendingpackets.length ≠ 0 := Nat.pos_iff_ne_zero.mp ha
      exact (holds_bandwidthRow_iff hx a _).mp (hband a _ (by rw [if_neg hne]))
    · exact (holds_upperRow_iff hx a _ _ (milliSecondsInterfaceDelay_nonneg now)).mp (hdelay a)
    · exact (holds_upperRow_iff hx a _ _ ISPInterface.getErrorRate_nonneg).mp (herror a)
  · rintro ⟨hx, h⟩
    refine ⟨hx, ?_⟩
    simp only [ReactiveStrategy.program, List.forall_mem_append, List.forall_mem_map,
      List.forall_mem_filterMap, forall_mem_zipIdx]
    refine ⟨⟨⟨⟨fun l => ?_, fun a row hrow => ?_⟩, fun a => ?_⟩, fun a => ?_⟩, fun a => ?_⟩
    · exact (holds_capacityRow_iff hx l).mpr (Nat.cast_le.mp (h.withinCapacity l))
    · split_ifs at hrow with hne
      cases hrow
      exact (holds_bandwidthRow_iff hx a _).mpr (h.bandwidth a (Nat.pos_of_ne_zero hne))
    · apply (holds_upperRow_iff hx a _ _ (milliSecondsInterfaceDelay_nonneg now)).mpr
      exact h.average_le a (Nat.cast_nonneg _) (h.delay a)
    · apply (holds_upperRow_iff hx a _ _ ISPInterface.getErrorRate_nonneg).mpr
      exact h.average_le a (Nat.cast_nonneg _) (h.error a)
    · exact (holds_packetsRow_iff hx a _).mpr (h.allSent a)

/-- The linear program also has a bandwidth row for an application without packets, which only a
required rate of zero meets. -/
theorem LinearStrategy.feasible_iff (apps : List Application) (ifaces : List ISPInterface)
    (x : ℕ → ℚ) :
    (LinearStrategy.program apps ifaces).Feasible x ↔
      (∀ v < apps.length * ifaces.length, x v = (⌊x v⌋₊ : ℚ)) ∧
        (LinearStrategy.problem apps ifaces).Admissible (tableOf apps.length ifaces.length x) ∧
        ∀ a : Fin apps.length, (getElem apps a a.isLt).pendingpackets = [] →
          (getElem apps a a.isLt).getRequiredDataRate = 0 := by
  constructor
  · rintro ⟨hx, hrows⟩
    simp only [LinearStrategy.program, List.forall_mem_append, List.forall_mem_map,
      forall_mem_zipIdx] at hrows hx
    obtain ⟨⟨⟨hband, hdelay⟩, herror⟩, hpackets⟩ := hrows
    refine ⟨hx, ⟨fun a => ?_, fun l => le_top, fun a _ => ?_, fun a _ => ?_, fun a _ => ?_⟩,
      fun a ha => ?_⟩
    · exact (holds_packetsRow_iff hx a _).mp (hpackets a)
    · exact (holds_bandwidthRow_iff hx a _).mp (hband a)
    · exact (holds_upperRow_iff hx a _ _ fun _ => Nat.cast_nonneg _).mp (hdelay a)
    · exact (holds_upperRow_iff hx a _ _ ISPInterface.getErrorRate_nonneg).mp (herror a)
    · have hrow := (holds_bandwidthRow_iff hx a _).mp (hband a)
      rw [ha, List.length_nil, Nat.cast_zero, div_zero] at hrow
      exact Nat.le_zero.mp (by exact_mod_cast hrow)
  · rintro ⟨hx, h, hidle⟩
    refine ⟨hx, ?_⟩
    simp only [LinearStrategy.program, List.forall_mem_append, List.forall_mem_map,
      forall_mem_zipIdx]
    refine ⟨⟨⟨fun a => ?_, fun a => ?_⟩, fun a => ?_⟩, fun a => ?_⟩
    · apply (holds_bandwidthRow_iff hx a _).mpr
      rcases Nat.eq_zero_or_pos apps[a].pendingpackets.length with h0 | hpos
      · rw [hidle a (List.length_eq_zero_iff.mp h0), h0, Nat.cast_zero, div_zero]
      · exact h.bandwidth a hpos
    · apply (holds_upperRow_iff hx a _ _ fun _ => Nat.cast_nonneg _).mpr
      exact h.average_le a (Nat.cast_nonneg _) (h.delay a)
    · apply (holds_upperRow_iff hx a _ _ ISPInterface.getErrorRate_nonneg).mpr
      exact h.average_le a (Nat.cast_nonneg _) (h.error a)
    · exact (holds_packetsRow_iff hx a _).mpr (h.allSent a)

theorem ReactiveStrategy.feasible_pointOf {now : Time} {apps : List Application}
    {ifaces : List ISPInterface} {y : Fin apps.length → Fin ifaces.length → ℕ}
    (hy : (ReactiveStrategy.problem now apps ifaces).Admissible y) :
    (ReactiveStrategy.program now apps ifaces).Feasible (pointOf y) :=
  (ReactiveStrategy.feasible_iff now apps ifaces _).mpr
    ⟨fun v _ => natural_pointOf y v, (tableOf_pointOf y).symm ▸ hy⟩

theorem ReactiveStrategy.cost_eq {now : Time} {apps : List Application}
    {ifaces : List ISPInterface} {x : ℕ → ℚ}
    (hx : (ReactiveStrategy.program now apps ifaces).Feasible x) :
    (ReactiveStrategy.program now apps ifaces).cost x =
      (ReactiveStrategy.problem now apps ifaces).totalCost
        (tableOf apps.length ifaces.length x) :=
  cost_eq_totalCost hx.natural

theorem LinearStrategy.cost_eq {apps : List Application} {ifaces : List ISPInterface} {x : ℕ → ℚ}
    (hx : (LinearStrategy.program apps ifaces).Feasible x) :
    (LinearStrategy.program apps ifaces).cost x =
      (LinearStrategy.problem apps ifaces).totalCost (tableOf apps.length ifaces.length x) :=
  cost_eq_totalCost hx.natural

/-- The table of an optimal point is a cheapest assignment. -/
theorem ReactiveStrategy.optimal_iff {now : Time} {apps : List Application}
    {ifaces : List ISPInterface} {x : ℕ → ℚ}
    (hx : (ReactiveStrategy.program now apps ifaces).Feasible x) :
    (ReactiveStrategy.program now apps ifaces).Optimal x ↔
      (ReactiveStrategy.problem now apps ifaces).Cheapest
        (tableOf apps.length ifaces.length x) := by
  constructor
  · intro h
    refine ⟨((ReactiveStrategy.feasible_iff now apps ifaces x).mp hx).2, fun y hy => ?_⟩
    have hy' := ReactiveStrategy.feasible_pointOf hy
    have hle := h.least _ hy'
    rw [ReactiveStrategy.cost_eq hx, ReactiveStrategy.cost_eq hy', tableOf_pointOf] at hle
    exact_mod_cast hle
  · intro h
    refine ⟨hx, fun y hy => ?_⟩
    rw [ReactiveStrategy.cost_eq hx, ReactiveStrategy.cost_eq hy]
    exact_mod_cast h.least _ ((ReactiveStrategy.feasible_iff now apps ifaces y).mp hy).2

end SdWan
