import SdWan.Basic
import SdWan.Library.Tuples

/-!
# Combinations of parameters

`generateArrays` backtracks on one array and one list of results, which all its recursive calls
share. Its loop counts in an `int` up to a bound that is a `uint32_t`.
-/

open Tuples

namespace SdWan.Utils

/-- `for (int i = i; i <= n; ++i)`. The increment after the last iteration is also made. -/
def forInt {σ : Type} (n : ℕ) (body : ℕ → σ → Result σ) (i : ℕ) (s : σ) : Result σ :=
  if i ≤ n then do
    let s ← body i s
    if i + 1 < 2 ^ 31 then forInt n body (i + 1) s else .error .signedOverflow
  else .ok s
termination_by n + 1 - i

/-- `frames` is the number of nested calls that the stack has room for. -/
def generateArrays (k n : ℕ) :
    ℕ → List ℕ × List (List ℕ) → Result (List ℕ × List (List ℕ))
  | 0, _ => .error .stackOverflow
  | frames + 1, (currentArray, result) =>
    if currentArray.length = k then .ok (currentArray, result ++ [currentArray])
    else
      forInt n (fun i (currentArray, result) => do
        let (currentArray, result) ← generateArrays k n frames (currentArray ++ [i], result)
        .ok (currentArray.dropLast, result)) 1 (currentArray, result)

def getPermutationsWithRepetitionOfKelementsOfLengthN (frames N k : ℕ) :
    Result (List (List ℕ)) := do
  let (_, result) ← generateArrays N k frames ([], [])
  .ok result

/-! ## The loop -/

section

variable {σ : Type} {n : ℕ} {body : ℕ → σ → Result σ}

theorem forInt_eq_foldlM (hn : n + 1 < 2 ^ 31) (i : ℕ) (s : σ) :
    forInt n body i s = (List.range' i (n + 1 - i)).foldlM (fun s i => body i s) s := by
  generalize hm : n + 1 - i = m
  induction m generalizing i s with
  | zero =>
    rw [forInt, if_neg (by omega)]
    rfl
  | succ m ih =>
    rw [forInt, if_pos (by omega), List.range'_succ, List.foldlM_cons]
    congr 1
    funext s
    rw [if_pos (by omega)]
    exact ih (i + 1) s (by omega)

/-- A loop that ends normally has made its last increment. -/
theorem forInt_eq_ok {i : ℕ} {s s' : σ} (h : forInt n body i s = .ok s') (hi : i ≤ n) :
    n + 1 < 2 ^ 31 := by
  generalize hm : n - i = m
  induction m generalizing i s with
  | zero =>
    rw [forInt, if_pos hi] at h
    obtain ⟨s₁, -, h⟩ := Result.bind_eq_ok.mp h
    split_ifs at h with hlt
    omega
  | succ m ih =>
    rw [forInt, if_pos hi] at h
    obtain ⟨s₁, -, h⟩ := Result.bind_eq_ok.mp h
    split_ifs at h with hlt
    exact ih h (by omega) (by omega)

end

/-- A loop whose iterations leave the array alone and append a block to the list. -/
theorem foldlM_append {α β γ : Type} {body : γ × List β → α → Result (γ × List β)} {p : γ}
    (block : α → List β) {is : List α}
    (hbody : ∀ i ∈ is, ∀ result, body (p, result) i = .ok (p, result ++ block i))
    (result : List β) :
    is.foldlM body (p, result) = .ok (p, result ++ is.flatMap block) := by
  induction is generalizing result with
  | nil =>
    rw [List.flatMap_nil, List.append_nil]
    rfl
  | cons i is ih =>
    rw [List.foldlM_cons, hbody i List.mem_cons_self, Result.ok_bind,
      ih fun i' hi' => hbody i' (List.mem_cons_of_mem i hi'), List.flatMap_cons,
      List.append_assoc]

/-! ## The recursion -/

/-- A call restores the prefix it was given and appends the completions of the prefix. -/
theorem generateArrays_eq {k n : ℕ} (hn : n + 1 < 2 ^ 31) {m frames : ℕ} (hframes : m < frames)
    {currentArray : List ℕ} (hlength : currentArray.length + m = k)
    (result : List (List ℕ)) :
    generateArrays k n frames (currentArray, result) = .ok (currentArray,
      result ++ (tuples (List.range' 1 n) m).map (currentArray ++ ·)) := by
  induction m generalizing frames currentArray result with
  | zero =>
    obtain ⟨frames, rfl⟩ := Nat.exists_eq_add_of_lt hframes
    rw [generateArrays, if_pos (by omega)]
    simp [tuples]
  | succ m ih =>
    obtain ⟨frames, rfl⟩ : ∃ frames', frames = frames' + 1 := ⟨frames - 1, by omega⟩
    -- One round of the loop: the prefix grows by `i`, is completed, and shrinks again.
    have hround : ∀ i ∈ List.range' 1 n, ∀ result : List (List ℕ), (do
        let (currentArray, result) ← generateArrays k n frames (currentArray ++ [i], result)
        .ok (currentArray.dropLast, result) : Result (List ℕ × List (List ℕ))) =
          .ok (currentArray,
            result ++ (tuples (List.range' 1 n) m).map (currentArray ++ [i] ++ ·)) := by
      intro i _ result
      have hprefix : (currentArray ++ [i]).length + m = k := by
        rw [List.length_append, List.length_singleton]
        omega
      simp only [ih (Nat.lt_of_succ_lt_succ hframes) hprefix result, Result.ok_bind,
        List.dropLast_concat]
    rw [generateArrays, if_neg (by omega), forInt_eq_foldlM hn, Nat.add_sub_cancel,
      foldlM_append _ hround]
    simp only [tuples, List.map_flatMap, List.map_map, Function.comp_def, List.append_assoc,
      List.singleton_append]

/-- A list of the tuples of length `N` with entries in `1, …, k`, in lexicographic order. -/
structure Enumerates (N k : ℕ) (result : List (List ℕ)) : Prop where
  mem_iff : ∀ t, t ∈ result ↔ t.length = N ∧ ∀ i ∈ t, 1 ≤ i ∧ i ≤ k
  nodup : result.Nodup
  increasing : result.Pairwise (List.Lex (· < ·))
  length : result.length = k ^ N

theorem enumerates_tuples (N k : ℕ) : Enumerates N k (tuples (List.range' 1 k) N) where
  mem_iff t := by
    have halphabet : ∀ i, i ∈ List.range' 1 k ↔ 1 ≤ i ∧ i ≤ k := by
      intro i
      rw [List.mem_range'_1]
      omega
    simp only [mem_tuples, halphabet]
  nodup := nodup_tuples List.pairwise_lt_range' N
  increasing := pairwise_tuples List.pairwise_lt_range' N
  length := by rw [length_tuples, List.length_range']

/-- The call succeeds, and then with the right tuples, unless its loops run and count up to the
largest `int`. -/
theorem getPermutations_enumerates_iff {frames N k : ℕ} (hframes : N < frames)
    (hk : k < 2 ^ 31) :
    (∃ result, getPermutationsWithRepetitionOfKelementsOfLengthN frames N k = .ok result ∧
      Enumerates N k result) ↔ N = 0 ∨ k + 1 < 2 ^ 31 := by
  constructor
  · rintro ⟨result, hresult, -⟩
    by_contra! h
    obtain ⟨hN, hoverflow⟩ := h
    obtain ⟨frames, rfl⟩ : ∃ frames', frames = frames' + 1 := ⟨frames - 1, by omega⟩
    obtain ⟨s, hs, -⟩ := Result.bind_eq_ok.mp hresult
    rw [generateArrays, if_neg (by rw [List.length_nil]; omega)] at hs
    have hlt := forInt_eq_ok hs (by omega)
    omega
  · rintro (rfl | hlt)
    · obtain ⟨frames, rfl⟩ : ∃ frames', frames = frames' + 1 := ⟨frames - 1, by omega⟩
      exact ⟨[[]], rfl, enumerates_tuples 0 k⟩
    · refine ⟨_, ?_, enumerates_tuples N k⟩
      have hcall : generateArrays N k frames ([], []) =
          .ok ([], [] ++ (tuples (List.range' 1 k) N).map ([] ++ ·)) :=
        generateArrays_eq hlt hframes (by rw [List.length_nil, Nat.zero_add]) []
      simp only [List.nil_append, List.map_id'] at hcall
      rw [getPermutationsWithRepetitionOfKelementsOfLengthN, hcall, Result.ok_bind]

theorem getPermutations_enumerates_iff_sample :
    ∃ result, getPermutationsWithRepetitionOfKelementsOfLengthN 4 3 12 = .ok result ∧
      Enumerates 3 12 result :=
  (getPermutations_enumerates_iff (by decide) (by decide)).mpr (.inr (by decide))

/-- After its last iteration the loop increments the largest `int`. -/
theorem getPermutations_enumerates_counterexample :
    ¬ ∃ frames result,
      getPermutationsWithRepetitionOfKelementsOfLengthN frames 1 2147483647 = .ok result := by
  rintro ⟨frames, result, hresult⟩
  obtain ⟨s, hs, -⟩ := Result.bind_eq_ok.mp hresult
  cases frames with
  | zero => cases hs
  | succ frames =>
    rw [generateArrays, if_neg (by simp)] at hs
    have hlt := forInt_eq_ok hs (by omega)
    omega

end SdWan.Utils
