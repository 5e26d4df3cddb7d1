import Mathlib.Data.List.Nodup

/-!
# First occurrences

Of the items with one key only the first counts. The definition looks at a list from its front;
`firsts_concat` says what a loop does that adds the items at the end, one after the other.
-/

namespace FirstOccurrences

variable {α κ : Type*} [DecidableEq κ] (key : α → κ)

/-- The items whose key no earlier item has. -/
def firsts : List α → List α
  | [] => []
  | a :: as => a :: (firsts as).filter fun b => decide (key b ≠ key a)

/-- Every key keeps an item. -/
theorem mem_map_firsts {as : List α} {k : κ} : k ∈ (firsts key as).map key ↔ k ∈ as.map key := by
  induction as with
  | nil => rfl
  | cons a as ih =>
    rw [firsts, List.map_cons, List.map_cons, List.mem_cons, List.mem_cons]
    by_cases hk : k = key a
    · simp only [hk, true_or]
    · rw [or_iff_right hk, or_iff_right hk, ← ih, List.mem_map, List.mem_map]
      constructor
      · rintro ⟨b, hb, rfl⟩
        exact ⟨b, (List.mem_filter.mp hb).1, rfl⟩
      · rintro ⟨b, hb, rfl⟩
        exact ⟨b, List.mem_filter.mpr ⟨hb, decide_eq_true hk⟩, rfl⟩

theorem firsts_concat (as : List α) (a : α) :
    firsts key (as ++ [a]) =
      if key a ∈ as.map key then firsts key as else firsts key as ++ [a] := by
  induction as with
  | nil => rfl
  | cons b as ih =>
    have hmem : key a ∈ (b :: as).map key ↔ key a = key b ∨ key a ∈ as.map key := List.mem_cons
    rw [List.cons_append, firsts, ih]
    by_cases hseen : key a ∈ as.map key
    · rw [if_pos hseen, if_pos (hmem.mpr (.inr hseen)), firsts]
    · rw [if_neg hseen, List.filter_append]
      by_cases hb : key a = key b
      · rw [if_pos (hmem.mpr (.inl hb)), firsts,
          List.filter_cons_of_neg (by simp [hb]), List.filter_nil, List.append_nil]
      · rw [if_neg (hmem.not.mpr (not_or.mpr ⟨hb, hseen⟩)), firsts,
          List.filter_cons_of_pos (by simp [hb]), List.filter_nil, List.cons_append]

end FirstOccurrences
