import Mathlib.Data.List.Lex
import Mathlib.Data.List.ProdSigma
import Mathlib.Tactic

/-!
# Tuples over an alphabet

All lists of a given length over an alphabet, in the lexicographic order that comes from the order
of the alphabet, and loops over them.
-/

namespace Tuples

variable {α : Type*}

def tuples (alphabet : List α) : ℕ → List (List α)
  | 0 => [[]]
  | n + 1 => alphabet.flatMap fun a => (tuples alphabet n).map (a :: ·)

theorem mem_tuples {alphabet t : List α} {n : ℕ} :
    t ∈ tuples alphabet n ↔ t.length = n ∧ ∀ a ∈ t, a ∈ alphabet := by
  induction n generalizing t with
  | zero =>
    rw [tuples, List.mem_singleton, List.length_eq_zero_iff]
    constructor
    · rintro rfl
      exact ⟨rfl, fun a ha => by cases ha⟩
    · exact And.left
  | succ n ih =>
    simp only [tuples, List.mem_flatMap, List.mem_map]
    constructor
    · rintro ⟨a, ha, t, ht, rfl⟩
      obtain ⟨hlength, hmem⟩ := ih.mp ht
      exact ⟨congrArg (· + 1) hlength, List.forall_mem_cons.mpr ⟨ha, hmem⟩⟩
    · rintro ⟨hlength, hmem⟩
      obtain ⟨a, t, rfl⟩ := List.exists_cons_of_length_eq_add_one hlength
      obtain ⟨ha, ht⟩ := List.forall_mem_cons.mp hmem
      exact ⟨a, ha, t, ih.mpr ⟨Nat.succ.inj hlength, ht⟩, rfl⟩

@[simp] theorem length_tuples (alphabet : List α) (n : ℕ) :
    (tuples alphabet n).length = alphabet.length ^ n := by
  induction n with
  | zero => rfl
  | succ n ih =>
    simp only [tuples, List.length_flatMap, List.length_map, ih, List.map_const',
      List.sum_replicate, smul_eq_mul]
    rw [Nat.pow_succ, Nat.mul_comm]

/-- An alphabet in increasing order gives the tuples in increasing lexicographic order. -/
theorem pairwise_tuples {r : α → α → Prop} {alphabet : List α} (h : alphabet.Pairwise r)
    (n : ℕ) : (tuples alphabet n).Pairwise (List.Lex r) := by
  induction n with
  | zero => exact List.pairwise_singleton _ _
  | succ n ih =>
    rw [tuples, List.pairwise_flatMap]
    constructor
    · intro a _
      rw [List.pairwise_map]
      exact ih.imp fun hlex => List.Lex.cons hlex
    · refine h.imp fun {a b} hab t ht t' ht' => ?_
      obtain ⟨t, -, rfl⟩ := List.mem_map.mp ht
      obtain ⟨t', -, rfl⟩ := List.mem_map.mp ht'
      exact List.Lex.rel hab

theorem nodup_tuples {r : α → α → Prop} [Std.Irrefl (List.Lex r)] {alphabet : List α}
    (h : alphabet.Pairwise r) (n : ℕ) : (tuples alphabet n).Nodup :=
  (pairwise_tuples h n).imp fun {t t'} hlex heq => by
    subst heq
    exact irrefl_of (List.Lex r) t hlex

/-- Two nested loops are one loop over the pairs. -/
theorem foldlM_product {m : Type → Type} [Monad m] [LawfulMonad m] {α β γ : Type}
    (f : γ → α × β → m γ) (xs : List α) (ys : List β) (s : γ) :
    (xs ×ˢ ys).foldlM f s = xs.foldlM (fun s x => ys.foldlM (fun s y => f s (x, y)) s) s := by
  induction xs generalizing s with
  | nil => rfl
  | cons x xs ih =>
    rw [List.product_cons, List.foldlM_append, List.foldlM_map, List.foldlM_cons]
    simp only [ih]

end Tuples
