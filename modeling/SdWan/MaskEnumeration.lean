import SdWan.ReactiveStrategy
import SdWan.Library.BinaryWord

/-!
# The masks of the reactive strategy

`compute` walks over the numbers `1, …, counter` and turns each of them into a vector of Booleans,
`interfacesToUse`, whose entries are the bits of the number. The loop counts in a `uint32_t`, which
would never exceed a counter of `2 ^ 32 - 1`. With at most 31 interfaces the counter is smaller,
and `interfacesToUse` takes every selection of interfaces but the empty one.
-/

open BinaryWord

namespace SdWan

/-! ## The bits of a number -/

namespace Utils

theorem getBoolVectorFromInt_succ (num bitSize : ℕ) :
    getBoolVectorFromInt num (bitSize + 1) =
      getBoolVectorFromInt (num / 2) bitSize ++ [decide (num % 2 = 1)] := by
  rw [getBoolVectorFromInt, List.range_succ_eq_map, List.map_cons, List.reverse_cons,
    List.map_map, Nat.testBit_zero]
  simp only [Function.comp_def, Nat.testBit_succ, getBoolVectorFromInt]

/-- The vector is the number, truncated to as many bits. -/
theorem value_getBoolVectorFromInt (num bitSize : ℕ) :
    value (getBoolVectorFromInt num bitSize) = num % 2 ^ bitSize := by
  induction bitSize generalizing num with
  | zero =>
    rw [Nat.pow_zero, Nat.mod_one]
    rfl
  | succ bitSize ih =>
    have hbit : (decide (num % 2 = 1)).toNat = num % 2 := by
      rcases Nat.mod_two_eq_zero_or_one num with h | h
      · rw [h]
        rfl
      · rw [h]
        rfl
    rw [getBoolVectorFromInt_succ, value_concat, ih, hbit, Nat.pow_succ', Nat.mod_mul]

example : getBoolVectorFromInt 13 4 = [true, true, false, true] := by decide

end Utils

/-! ## The loop -/

/-- `for (uint32_t i = i; i <= n; i++)`; `none` when `rounds` is no bound on its rounds. -/
def forUint32 {σ : Type} (n : ℕ) (body : ℕ → σ → σ) : ℕ → ℕ → σ → Option σ
  | 0, _, _ => none
  | rounds + 1, i, s =>
    if i ≤ n then forUint32 n body rounds (uint32 (i + 1)) (body i s) else some s

/-- Below the largest `uint32_t`, the loop ends. -/
theorem forUint32_eq {σ : Type} {n : ℕ} (hn : n + 1 < 2 ^ 32) {body : ℕ → σ → σ} {rounds i : ℕ}
    (hrounds : n + 1 - i < rounds) (s : σ) :
    forUint32 n body rounds i s =
      some ((List.range' i (n + 1 - i)).foldl (fun s i => body i s) s) := by
  generalize hm : n + 1 - i = m at hrounds ⊢
  induction m generalizing rounds i s with
  | zero =>
    obtain ⟨rounds, rfl⟩ : ∃ rounds', rounds = rounds' + 1 := ⟨rounds - 1, by omega⟩
    rw [forUint32, if_neg (by omega)]
    rfl
  | succ m ih =>
    obtain ⟨rounds, rfl⟩ : ∃ rounds', rounds = rounds' + 1 := ⟨rounds - 1, by omega⟩
    rw [forUint32, if_pos (by omega), uint32_of_lt (by omega), List.range'_succ, List.foldl_cons]
    exact ih (body i s) (by omega) (by omega)

namespace ReactiveStrategy

/-- The loop over the masks: the values that `interfacesToUse` has taken, and the sets built from
them. -/
structure Masks where
  interfacesToUse : List (List Bool) := []
  interfaceSet : List (List ℕ) := []

def Masks.push (amountOfInterfaces i : ℕ) (s : Masks) : Masks :=
  let interfacesToUse := Utils.getBoolVectorFromInt i amountOfInterfaces
  let currentSet := (interfacesToUse.zipIdx.filter
    fun (currentValue, _) => currentValue || true).map fun (_, j) => j
  { interfacesToUse := s.interfacesToUse ++ [interfacesToUse]
    interfaceSet := s.interfaceSet ++ [currentSet] }

def maskLoop (amountOfInterfaces counter rounds : ℕ) : Option Masks :=
  forUint32 counter (Masks.push amountOfInterfaces) rounds 1 {}

/-- The loop ends with the candidate sets of a computation. -/
theorem maskLoop_eq (amountOfInterfaces : ℕ) {counter rounds : ℕ} (hcounter : counter + 1 < 2 ^ 32)
    (hrounds : counter < rounds) :
    maskLoop amountOfInterfaces counter rounds = some {
      interfacesToUse := (List.range' 1 counter).map
        (Utils.getBoolVectorFromInt · amountOfInterfaces)
      interfaceSet := interfaceSet amountOfInterfaces counter } := by
  have hfold : ∀ (is : List ℕ) (s : Masks),
      is.foldl (fun s i => Masks.push amountOfInterfaces i s) s =
        { interfacesToUse := s.interfacesToUse ++
            is.map (Utils.getBoolVectorFromInt · amountOfInterfaces)
          interfaceSet := s.interfaceSet ++ is.map fun i =>
            ((Utils.getBoolVectorFromInt i amountOfInterfaces).zipIdx.filter
              fun (currentValue, _) => currentValue || true).map fun (_, j) => j } := by
    intro is
    induction is with
    | nil =>
      intro s
      simp only [List.foldl_nil, List.map_nil, List.append_nil]
    | cons i is ih =>
      intro s
      rw [List.foldl_cons, ih]
      simp only [Masks.push, List.map_cons, List.append_assoc, List.singleton_append]
  rw [maskLoop, forUint32_eq hcounter (by omega), Nat.add_sub_cancel, hfold]
  rfl

/-- The masks are the selections with at least one interface, each of them once. -/
theorem mask_enumeration {n : ℕ} (hn : n < 32) :
    ∃ counter, Utils.maxIntWithNBits n = .ok counter ∧
      Set.BijOn (Utils.getBoolVectorFromInt · n) (Set.Icc 1 counter)
        {selection | selection.length = n ∧ true ∈ selection} ∧
      (∀ i ∈ Set.Icc 1 counter, value (Utils.getBoolVectorFromInt i n) = i) ∧
      ∃ s : Masks, (∀ rounds, counter < rounds → maskLoop n counter rounds = some s) ∧
        s.interfaceSet = interfaceSet n counter ∧
        s.interfacesToUse.Nodup ∧
        ∀ selection, selection ∈ s.interfacesToUse ↔
          selection.length = n ∧ true ∈ selection := by
  have hpow : 0 < 2 ^ n := Nat.two_pow_pos n
  have hcounter : 2 ^ n - 1 + 1 < 2 ^ 32 := by
    have hlt := Nat.pow_lt_pow_right (a := 2) one_lt_two hn
    omega
  have hvalue : ∀ i < 2 ^ n, value (Utils.getBoolVectorFromInt i n) = i := fun i hi =>
    (Utils.value_getBoolVectorFromInt i n).trans (Nat.mod_eq_of_lt hi)
  have hbij := bijOn_of_value (fun i => Utils.length_getBoolVectorFromInt i n) hvalue
  have hrange : ∀ i, i ∈ List.range' 1 (2 ^ n - 1) ↔ i ∈ Set.Icc 1 (2 ^ n - 1) := by
    intro i
    rw [List.mem_range'_1, Set.mem_Icc]
    omega
  refine ⟨2 ^ n - 1, Utils.maxIntWithNBits_of_lt hn, hbij, ?_, _,
    fun rounds hrounds => maskLoop_eq n hcounter hrounds, rfl, ?_, ?_⟩
  · rintro i ⟨-, hi⟩
    exact hvalue i (by omega)
  · refine List.Nodup.map_on (fun i hi i' hi' heq => ?_) List.nodup_range'
    exact hbij.injOn ((hrange i).mp hi) ((hrange i').mp hi') heq
  · intro selection
    have himage := Set.ext_iff.mp hbij.image_eq selection
    simp only [List.mem_map, hrange]
    exact himage

theorem mask_enumeration_sample :
    ∃ counter, Utils.maxIntWithNBits 3 = .ok counter ∧ ∃ s : Masks,
      maskLoop 3 counter (counter + 1) = some s ∧ [true, false, true] ∈ s.interfacesToUse := by
  obtain ⟨counter, hcounter, -, -, s, hloop, -, -, hmem⟩ := mask_enumeration (n := 3) (by decide)
  exact ⟨counter, hcounter, s, hloop _ (Nat.lt_succ_self _), (hmem _).mpr (by decide)⟩

end ReactiveStrategy

end SdWan
