import Mathlib.Data.Nat.Digits.Lemmas
import Mathlib.Tactic

/-!
# Binary words of a fixed width

A list of Booleans read as a binary number, its first entry being the most significant. Words of
one width are determined by their values, so a function that gives every number its word runs
through all the words.
-/

namespace BinaryWord

def value (word : List Bool) : ℕ := Nat.ofDigits 2 (word.reverse.map Bool.toNat)

@[simp] theorem value_nil : value [] = 0 := rfl

@[simp] theorem value_concat (word : List Bool) (bit : Bool) :
    value (word ++ [bit]) = bit.toNat + 2 * value word := by
  rw [value, List.reverse_append, List.reverse_singleton, List.singleton_append, List.map_cons,
    Nat.ofDigits_cons]
  rfl

theorem digit_lt {word : List Bool} {digit : ℕ} (h : digit ∈ word.reverse.map Bool.toNat) :
    digit < 2 := by
  obtain ⟨bit, -, rfl⟩ := List.mem_map.mp h
  exact bit.toNat_lt

theorem value_lt (word : List Bool) : value word < 2 ^ word.length := by
  have hlt : value word < 2 ^ (word.reverse.map Bool.toNat).length :=
    Nat.ofDigits_lt_base_pow_length one_lt_two fun _ => digit_lt
  rwa [List.length_map, List.length_reverse] at hlt

theorem value_injective {word word' : List Bool} (hlength : word.length = word'.length)
    (h : value word = value word') : word = word' := by
  have hdigits : word.reverse.map Bool.toNat = word'.reverse.map Bool.toNat :=
    Nat.ofDigits_inj_of_len_eq one_lt_two (by simpa using hlength) (fun _ => digit_lt)
      (fun _ => digit_lt) h
  have htoNat : Function.Injective Bool.toNat := by decide
  exact List.reverse_injective (List.map_injective_iff.mpr htoNat hdigits)

theorem value_pos_iff (word : List Bool) : 0 < value word ↔ true ∈ word := by
  induction word using List.reverseRecOn with
  | nil => simp
  | append_singleton word bit ih =>
    rw [value_concat, List.mem_append, List.mem_singleton, ← ih]
    cases bit
    · simp
    · simp

/-- A function that gives every number below `2 ^ width` its word of that width takes every word
with a true entry exactly once on the positive ones. -/
theorem bijOn_of_value {width : ℕ} {f : ℕ → List Bool} (hlength : ∀ n, (f n).length = width)
    (hvalue : ∀ n < 2 ^ width, value (f n) = n) :
    Set.BijOn f (Set.Icc 1 (2 ^ width - 1)) {word | word.length = width ∧ true ∈ word} := by
  have hback : ∀ n ∈ Set.Icc 1 (2 ^ width - 1), value (f n) = n := by
    rintro n ⟨-, hn⟩
    exact hvalue n (by have := Nat.two_pow_pos width; omega)
  have hword : ∀ word : List Bool, word.length = width ∧ true ∈ word → f (value word) = word := by
    rintro word ⟨rfl, -⟩
    exact value_injective (hlength _) (hvalue _ (value_lt word))
  refine Set.InvOn.bijOn ⟨hback, hword⟩ ?_ ?_
  · intro n hn
    refine ⟨hlength n, (value_pos_iff _).mp ?_⟩
    rw [hback n hn]
    exact hn.1
  · rintro word ⟨rfl, htrue⟩
    have hlt := value_lt word
    exact ⟨(value_pos_iff word).mpr htrue, by omega⟩

end BinaryWord
