import Mathlib.Data.NNRat.Defs
import Mathlib.Data.Rat.Floor
import Mathlib.Tactic

/-!
# Machine arithmetic and failing calls

Unsigned quantities are natural numbers. Every sum that the program forms in `uint32_t` goes
through `uint32`, so wrap-around is explicit. A conversion of a `double` to an unsigned type is
the exact floor: outside the range of the type the language leaves its result undefined.

A call that leaves its normal path ends in a `Fault`, either an exception the program throws or
an operation whose behaviour the language does not define.
-/

namespace SdWan

/-- Simulated time in seconds. -/
abbrev Time := ℚ

namespace Utils

def packetSizeBit : ℕ := 1024

def packetSizeByte : ℕ := packetSizeBit / 8

def simulationDurationInSeconds : ℕ := 1200

def connectionPort : ℕ := 8080

end Utils

/-! ## `uint32_t` -/

def uint32 (n : ℕ) : ℕ := n % 2 ^ 32

theorem uint32_of_lt {n : ℕ} (h : n < 2 ^ 32) : uint32 n = n := Nat.mod_eq_of_lt h

@[simp] theorem uint32_zero : uint32 0 = 0 := rfl

@[simp] theorem uint32_uint32 (n : ℕ) : uint32 (uint32 n) = uint32 n := Nat.mod_mod _ _

@[simp] theorem uint32_add_left (m n : ℕ) : uint32 (uint32 m + n) = uint32 (m + n) :=
  Nat.mod_add_mod _ _ _

/-- A sum formed in `uint32_t`, term by term. -/
theorem foldl_uint32 {α : Type} (g : α → ℕ) (xs : List α) :
    xs.foldl (fun n x => uint32 (n + g x)) 0 = uint32 (xs.map g).sum := by
  have hfold : ∀ n, xs.foldl (fun n x => uint32 (n + g x)) (uint32 n) =
      uint32 (n + (xs.map g).sum) := by
    induction xs with
    | nil => intro n; rfl
    | cons x xs ih =>
      intro n
      rw [List.foldl_cons, uint32_add_left, ih, List.map_cons, List.sum_cons, Nat.add_assoc]
  have h := hfold 0
  rwa [uint32_zero, Nat.zero_add] at h

/-! ## Calls that may fail -/

inductive Fault
  | runtimeError (what : String)
  /-- `throw new std::runtime_error(what)`: the thrown object is a pointer. -/
  | runtimeErrorPointer (what : String)
  /-- `std::out_of_range`, from `vector::at`. -/
  | outOfRange
  /-- `NS_FATAL_ERROR`. -/
  | fatalError (what : String)
  | popOnEmptyQueue
  | divisionByZero
  | shiftTooWide
  | writeOutOfBounds
  | signedOverflow
  /-- More nested calls than the stack has room for. -/
  | stackOverflow
  deriving DecidableEq, Repr

abbrev Result := Except Fault

namespace Result

variable {α β : Type}

@[simp] theorem ok_bind (a : α) (f : α → Result β) : (Except.ok a >>= f : Result β) = f a := rfl

@[simp] theorem error_bind (e : Fault) (f : α → Result β) :
    (Except.error e >>= f : Result β) = .error e := rfl

/-- A sequence of two calls succeeds exactly when both do. -/
theorem bind_eq_ok {x : Result α} {f : α → Result β} {b : β} :
    x >>= f = .ok b ↔ ∃ a, x = .ok a ∧ f a = .ok b := by
  cases x with
  | error e => simp
  | ok a => simp

theorem bind_eq_error {x : Result α} {f : α → Result β} {e : Fault} :
    x >>= f = .error e ↔ x = .error e ∨ ∃ a, x = .ok a ∧ f a = .error e := by
  cases x with
  | error e => simp
  | ok a => simp

/-- A loop keeps what every iteration keeps. -/
theorem foldlM_invariant {σ : Type} {P : σ → Prop} {f : σ → α → Result σ}
    (hstep : ∀ s a s', P s → f s a = .ok s' → P s') {as : List α} {s s' : σ}
    (h : as.foldlM f s = .ok s') (hs : P s) : P s' := by
  induction as generalizing s with
  | nil =>
    cases h
    exact hs
  | cons a as ih =>
    rw [List.foldlM_cons] at h
    obtain ⟨t, ht, h⟩ := bind_eq_ok.mp h
    exact ih h (hstep s a t hs ht)

/-- A fold of calls that succeed on states with a property they keep. -/
theorem exists_foldlM {σ : Type} {P : σ → Prop} {f : σ → α → Result σ} {as : List α}
    (hf : ∀ a ∈ as, ∀ s, P s → ∃ s', f s a = .ok s' ∧ P s') {s : σ} (hs : P s) :
    ∃ s', as.foldlM f s = .ok s' ∧ P s' := by
  induction as generalizing s with
  | nil => exact ⟨s, rfl, hs⟩
  | cons a as ih =>
    rw [List.forall_mem_cons] at hf
    obtain ⟨s₁, hs₁, hs⟩ := hf.1 s hs
    rw [List.foldlM_cons, hs₁]
    exact ih hf.2 hs

/-- A loop that fails does so in one of its iterations. -/
theorem foldlM_eq_error {σ : Type} {f : σ → α → Result σ} {as : List α} {s : σ} {e : Fault}
    (h : as.foldlM f s = .error e) : ∃ s a, f s a = .error e := by
  induction as generalizing s with
  | nil => cases h
  | cons a as ih =>
    rw [List.foldlM_cons] at h
    rcases bind_eq_error.mp h with h | ⟨t, -, h⟩
    · exact ⟨s, a, h⟩
    · exact ih h

end Result

/-- `vector::at`. -/
def vectorAt {α : Type} (xs : List α) (i : ℕ) : Result α :=
  match xs[i]? with
  | some x => .ok x
  | none => .error .outOfRange

theorem vectorAt_eq_ok {α : Type} {xs : List α} {i : ℕ} {x : α} :
    vectorAt xs i = .ok x ↔ xs[i]? = some x := by
  unfold vectorAt
  cases xs[i]? <;> simp

theorem vectorAt_eq_error {α : Type} {xs : List α} {i : ℕ} {e : Fault}
    (h : vectorAt xs i = .error e) : e = .outOfRange := by
  unfold vectorAt at h
  split at h
  · cases h
  · exact (Except.error.inj h).symm

theorem exists_vectorAt_iff {α : Type} {xs : List α} {i : ℕ} :
    (∃ x, vectorAt xs i = .ok x) ↔ i < xs.length := by
  constructor
  · rintro ⟨x, hx⟩
    exact (List.getElem?_eq_some_iff.mp (vectorAt_eq_ok.mp hx)).1
  · intro hi
    exact ⟨xs[i], vectorAt_eq_ok.mpr (List.getElem?_eq_getElem hi)⟩

theorem getElem?_concat_cases {α : Type} {xs : List α} {x y : α} {k : ℕ}
    (h : (xs ++ [x])[k]? = some y) : xs[k]? = some y ∨ k = xs.length ∧ y = x := by
  by_cases hk : k < xs.length
  · rw [List.getElem?_append_left hk] at h
    exact .inl h
  · have hlength := (List.getElem?_eq_some_iff.mp h).1
    rw [List.length_append, List.length_singleton] at hlength
    obtain rfl : k = xs.length := by omega
    rw [List.getElem?_concat_length, Option.some.injEq] at h
    exact .inr ⟨rfl, h.symm⟩

theorem vectorAt_of_lt {α : Type} {xs : List α} {i : ℕ} (h : i < xs.length) :
    vectorAt xs i = .ok xs[i] := by
  simp [vectorAt, h]

theorem filterMap_range {α : Type} (xs : List α) :
    (List.range xs.length).filterMap (fun p => xs[p]?) = xs := by
  rw [← List.map_coe_finRange_eq_range, List.filterMap_map]
  calc (List.finRange xs.length).filterMap ((fun p => xs[p]?) ∘ Fin.val)
      = (List.finRange xs.length).filterMap (some ∘ fun l => xs[l]) :=
        List.filterMap_congr fun l _ => List.getElem?_eq_getElem l.isLt
    _ = xs := by rw [List.filterMap_eq_map]; exact List.map_getElem_finRange xs

/-- Two relations, entry by entry, one after the other. -/
theorem forall₂_comp {α β γ : Type} {R : α → β → Prop} {S : β → γ → Prop} {as : List α}
    {bs : List β} {cs : List γ} (h : List.Forall₂ R as bs) (h' : List.Forall₂ S bs cs) :
    List.Forall₂ (fun a c => ∃ b, R a b ∧ S b c) as cs := by
  induction h generalizing cs with
  | nil => cases h'; exact .nil
  | cons hab _ ih =>
    cases h' with
    | cons hbc hrest => exact .cons ⟨_, hab, hbc⟩ (ih hrest)

theorem forall₂_mem_right {α β : Type} {R : α → β → Prop} {as : List α} {bs : List β}
    (h : List.Forall₂ R as bs) {b : β} (hb : b ∈ bs) : ∃ a ∈ as, R a b := by
  induction h with
  | nil => cases hb
  | @cons a b' as bs hab _ ih =>
    rcases List.mem_cons.mp hb with rfl | hb
    · exact ⟨a, List.mem_cons_self, hab⟩
    · obtain ⟨a', ha', hrel⟩ := ih hb
      exact ⟨a', List.mem_cons_of_mem _ ha', hrel⟩

theorem exists_getElem?_of_forall₂ {α β : Type} {R : α → β → Prop} {as : List α} {bs : List β}
    (h : List.Forall₂ R as bs) {i : ℕ} {a : α} (ha : as[i]? = some a) :
    ∃ b, bs[i]? = some b ∧ R a b := by
  induction h generalizing i with
  | nil => cases ha
  | cons hab _ ih =>
    cases i with
    | zero =>
      cases ha
      exact ⟨_, rfl, hab⟩
    | succ i => exact ih ha

/-- After one entry has been set, an entry is the new one or an old one. -/
theorem getElem?_set_eq_some {α : Type} {xs : List α} {i j : ℕ} {x y : α}
    (h : (xs.set i x)[j]? = some y) : (j = i ∧ y = x) ∨ (j ≠ i ∧ xs[j]? = some y) := by
  by_cases hij : i = j
  · subst hij
    have hlt : i < xs.length := by simpa using (List.getElem?_eq_some_iff.mp h).1
    rw [List.getElem?_set_self hlt, Option.some.injEq] at h
    exact .inl ⟨rfl, h.symm⟩
  · rw [List.getElem?_set_ne hij] at h
    exact .inr ⟨Ne.symm hij, h⟩

/-- A call that changes a `σ`. When it fails, the `σ` it leaves behind comes with the fault. -/
abbrev Call (σ : Type) := Except (Fault × σ) σ

end SdWan
