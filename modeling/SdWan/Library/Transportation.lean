import Mathlib.Algebra.BigOperators.Group.Finset.Basic
import Mathlib.Algebra.Order.BigOperators.Group.Finset
import Mathlib.Tactic

/-!
# Supplies and capacities

Supplies can be spread over places of limited capacity, in natural numbers, exactly when the
capacities suffice in total.
-/

open Finset

namespace Transportation

variable {A L : Type*} [DecidableEq A] [DecidableEq L]

omit [DecidableEq A] in
/-- An amount below the total capacity can be spread. -/
theorem exists_sum_eq (places : Finset L) (capacity : L → ℕ) {n : ℕ}
    (h : n ≤ ∑ l ∈ places, capacity l) :
    ∃ y : L → ℕ, (∀ l, y l ≤ capacity l) ∧ ∑ l ∈ places, y l = n := by
  induction places using Finset.induction_on generalizing n with
  | empty => exact ⟨fun _ => 0, fun l => Nat.zero_le _, by
      rw [sum_empty] at h ⊢
      omega⟩
  | insert l places hl ih =>
    rw [sum_insert hl] at h
    obtain ⟨y, hy, hsum⟩ := ih (n := n - min n (capacity l)) (by omega)
    refine ⟨Function.update y l (min n (capacity l)), fun l' => ?_, ?_⟩
    · by_cases hl' : l' = l
      · subst hl'
        rw [Function.update_self]
        exact Nat.min_le_right _ _
      · rw [Function.update_of_ne hl']
        exact hy l'
    · have hothers : ∑ l' ∈ places, Function.update y l (min n (capacity l)) l' =
          ∑ l' ∈ places, y l' := by
        apply sum_congr rfl
        intro l' hl'
        exact Function.update_of_ne (ne_of_mem_of_not_mem hl' hl) _ _
      rw [sum_insert hl, Function.update_self, hothers, hsum]
      omega

theorem exists_table (suppliers : Finset A) (supply : A → ℕ) (places : Finset L)
    (capacity : L → ℕ) (h : ∑ a ∈ suppliers, supply a ≤ ∑ l ∈ places, capacity l) :
    ∃ x : A → L → ℕ, (∀ a ∈ suppliers, ∑ l ∈ places, x a l = supply a) ∧
      ∀ l, ∑ a ∈ suppliers, x a l ≤ capacity l := by
  induction suppliers using Finset.induction_on generalizing capacity with
  | empty => exact ⟨fun _ _ => 0, by simp, fun l => Nat.zero_le _⟩
  | insert a suppliers ha ih =>
    rw [sum_insert ha] at h
    obtain ⟨y, hy, hsum⟩ := exists_sum_eq places capacity (n := supply a) (by omega)
    -- The others get the capacities that `a` leaves.
    have hleft : ∑ l ∈ places, (capacity l - y l) = ∑ l ∈ places, capacity l - supply a := by
      rw [← hsum, sum_tsub_distrib _ fun l _ => hy l]
    obtain ⟨x, hx, hcapacity⟩ := ih (fun l => capacity l - y l) (by rw [hleft]; omega)
    have hothers : ∀ b ∈ suppliers, Function.update x a y b = x b := fun b hb =>
      Function.update_of_ne (ne_of_mem_of_not_mem hb ha) _ _
    refine ⟨Function.update x a y, ?_, fun l => ?_⟩
    · rw [forall_mem_insert, Function.update_self]
      refine ⟨hsum, fun b hb => ?_⟩
      rw [hothers b hb]
      exact hx b hb
    · have hrest : ∑ b ∈ suppliers, Function.update x a y b l = ∑ b ∈ suppliers, x b l :=
        sum_congr rfl fun b hb => by rw [hothers b hb]
      have hl := hcapacity l
      have hyl := hy l
      rw [sum_insert ha, Function.update_self, hrest]
      omega

/-- Supplies that do not fit in total do not fit at all. -/
theorem exists_table_iff [Fintype A] [Fintype L] (supply : A → ℕ) (capacity : L → ℕ) :
    (∃ x : A → L → ℕ, (∀ a, ∑ l, x a l = supply a) ∧ ∀ l, ∑ a, x a l ≤ capacity l) ↔
      ∑ a, supply a ≤ ∑ l, capacity l := by
  constructor
  · rintro ⟨x, hx, hcapacity⟩
    calc ∑ a, supply a = ∑ a, ∑ l, x a l := sum_congr rfl fun a _ => (hx a).symm
      _ = ∑ l, ∑ a, x a l := sum_comm
      _ ≤ ∑ l, capacity l := sum_le_sum fun l _ => hcapacity l
  · intro h
    obtain ⟨x, hx, hcapacity⟩ := exists_table univ supply univ capacity h
    exact ⟨x, fun a => hx a (mem_univ a), hcapacity⟩

end Transportation
