import SdWan.Remaining

/-!
# The generator of the samples

`generateValues` follows the absolute value of a sine, one sample a second, and disturbs some of the
samples by a random offset. The source computes with `double`s and calls `std::sin` and `std::rand`:
`FloatingPoint` has what is needed of the first two, `rand n` is the result of the call number `n`
of the third. Every function takes the number of calls made so far and returns the new one.
-/

namespace SdWan

/-- The rounding of a result to the nearest `double`, which keeps the integers up to `2 ^ 53`, and
the sine on the grid of the samples. -/
structure FloatingPoint where
  round : ℚ → ℚ
  round_mono : Monotone round
  round_intCast : ∀ n : ℤ, |n| ≤ 2 ^ 53 → round n = n
  /-- `std::sin(frequency * n)`. -/
  sine : ℕ → ℚ
  abs_sine_le : ∀ n, |sine n| ≤ 1

/-- The conversion from `uint32_t` to `int`. -/
def int32 (n : ℕ) : ℤ := if n < 2 ^ 31 then n else n - 2 ^ 32

namespace SinGenerator

variable (fp : FloatingPoint) (rand : ℕ → ℕ)

/-- The sample before it is disturbed. -/
def wave (shift horizontalShift x : ℕ) : ℚ :=
  |fp.round (fp.sine (uint32 (x + horizontalShift)) * shift)|

/-- Three calls of `std::rand` for a sample that is disturbed, one for the others. -/
def disturb (noise : ℤ) (y : ℚ) (drawn : ℕ) : Result (ℚ × ℕ) :=
  if rand drawn % 3 = 0 ∧ 0 < noise then
    if noise + 1 < 2 ^ 31 then
      let randomOffset : ℤ := rand (drawn + 1) % (noise + 1)
      let randomOffset := if rand (drawn + 2) % 2 = 0 then -randomOffset else randomOffset
      .ok (fp.round (y + randomOffset), drawn + 3)
    else .error .signedOverflow
  else .ok (y, drawn + 1)

/-- The conversion of a sample to `uint32_t` is defined below `2 ^ 32` only. -/
def generateValue (shift : ℕ) (noise : ℤ) (horizontalShift x drawn : ℕ) :
    Result ((UInt32 × UInt32) × ℕ) := do
  let (y, drawn) ← disturb fp rand noise (wave fp shift horizontalShift x) drawn
  let y := if y < 0 then 0 else y
  .ok ((UInt32.ofNat x, UInt32.ofNat ⌊y⌋₊), drawn)

/-- The loop of the generator over the seconds before `n`. -/
def generateUpTo (shift : ℕ) (noise : ℤ) (horizontalShift drawn n : ℕ) :
    Result (List (UInt32 × UInt32) × ℕ) :=
  (List.range n).foldlM (fun s x => do
    let (value, drawn) ← generateValue fp rand shift noise horizontalShift x s.2
    .ok (s.1 ++ [value], drawn)) ([], drawn)

def generateValues (shift : ℕ) (noise : ℤ) (horizontalShift drawn : ℕ) :
    Result (List (UInt32 × UInt32) × ℕ) :=
  generateUpTo fp rand shift noise horizontalShift drawn (Utils.simulationDurationInSeconds + 1)

end SinGenerator

theorem SinApplication.fresh_of_samples (id requiredDelay errorRate : ℕ)
    (sinValues : List (UInt32 × UInt32)) :
    (Application.sin {
      applicationId := id
      requiredDelay := requiredDelay
      errorRate := errorRate
      sinValues := sinValues }).Fresh := ⟨rfl, rfl, rfl, rfl⟩

/-- The constructor of the sampled application. -/
def SinApplication.new (fp : FloatingPoint) (rand : ℕ → ℕ)
    (id requiredDelay errorRate shift noise horizontalShift drawn : ℕ) :
    Result ({ app : SinApplication // (Application.sin app).Fresh } × ℕ) := do
  let (sinValues, drawn) ←
    SinGenerator.generateValues fp rand shift (int32 noise) horizontalShift drawn
  .ok (⟨_, SinApplication.fresh_of_samples id requiredDelay errorRate sinValues⟩, drawn)

namespace SinGenerator

variable {fp : FloatingPoint} {rand : ℕ → ℕ} {shift horizontalShift x drawn drawn' : ℕ}
  {noise : ℤ} {y y' : ℚ}

/-! ## One sample -/

theorem wave_nonneg (fp : FloatingPoint) (shift horizontalShift x : ℕ) :
    0 ≤ wave fp shift horizontalShift x := abs_nonneg _

/-- The rounding of a number between two integers is between them. -/
theorem round_mem_Icc (fp : FloatingPoint) {m n : ℤ} (hm : |m| ≤ 2 ^ 53) (hn : |n| ≤ 2 ^ 53)
    (hy : y ∈ Set.Icc (m : ℚ) n) : fp.round y ∈ Set.Icc (m : ℚ) n := by
  constructor
  · rw [← fp.round_intCast m hm]
    exact fp.round_mono hy.1
  · rw [← fp.round_intCast n hn]
    exact fp.round_mono hy.2

theorem wave_le (fp : FloatingPoint) (hshift : shift < 2 ^ 32) (horizontalShift x : ℕ) :
    wave fp shift horizontalShift x ≤ shift := by
  have hsize : |(shift : ℤ)| ≤ 2 ^ 53 := by
    rw [Nat.abs_cast]
    omega
  have hsine := abs_le.mp (fp.abs_sine_le (uint32 (x + horizontalShift)))
  have hpos : (0 : ℚ) ≤ shift := Nat.cast_nonneg shift
  have hproduct : fp.sine (uint32 (x + horizontalShift)) * shift ∈
      Set.Icc ((-shift : ℤ) : ℚ) (shift : ℤ) := by
    push_cast
    constructor
    · nlinarith only [hsine.1, hpos]
    · nlinarith only [hsine.2, hpos]
  have hround := round_mem_Icc fp (by rwa [abs_neg]) hsize hproduct
  push_cast at hround
  exact abs_le.mpr hround

/-- Either the sample stays as it is, or a random offset is added. -/
theorem disturb_cases (h : disturb fp rand noise y drawn = .ok (y', drawn')) :
    (y' = y ∧ drawn' = drawn + 1) ∨
      ∃ offset : ℤ, |offset| ≤ noise ∧ y' = fp.round (y + offset) ∧ drawn' = drawn + 3 := by
  unfold disturb at h
  by_cases hnoisy : rand drawn % 3 = 0 ∧ 0 < noise
  · rw [if_pos hnoisy] at h
    by_cases hwide : noise + 1 < 2 ^ 31
    · rw [if_pos hwide] at h
      cases h
      refine .inr ⟨_, ?_, rfl, rfl⟩
      have hnonneg := Int.emod_nonneg (rand (drawn + 1) : ℤ) (show noise + 1 ≠ 0 by omega)
      have hlt := Int.emod_lt_of_pos (rand (drawn + 1) : ℤ) (show 0 < noise + 1 by omega)
      split_ifs
      · rw [abs_neg, abs_of_nonneg hnonneg]
        omega
      · rw [abs_of_nonneg hnonneg]
        omega
    · rw [if_neg hwide] at h
      cases h
  · rw [if_neg hnoisy] at h
    cases h
    exact .inl ⟨rfl, rfl⟩

theorem exists_disturb (fp : FloatingPoint) (rand : ℕ → ℕ) (hwide : noise + 1 < 2 ^ 31) (y : ℚ)
    (drawn : ℕ) : ∃ s, disturb fp rand noise y drawn = .ok s := by
  unfold disturb
  by_cases hnoisy : rand drawn % 3 = 0 ∧ 0 < noise
  · rw [if_pos hnoisy, if_pos hwide]
    exact ⟨_, rfl⟩
  · rw [if_neg hnoisy]
    exact ⟨_, rfl⟩

/-- Between two integers, negative numbers replaced by zero. -/
theorem natFloor_clip {m n : ℤ} (hy : y ∈ Set.Icc (m : ℚ) n) :
    m ≤ (⌊if y < 0 then 0 else y⌋₊ : ℤ) ∧ (⌊if y < 0 then 0 else y⌋₊ : ℤ) ≤ max n 0 := by
  by_cases hneg : y < 0
  · rw [if_pos hneg, Nat.floor_zero]
    have hm : (m : ℚ) < 0 := hy.1.trans_lt hneg
    exact ⟨by exact_mod_cast hm.le, le_max_right _ _⟩
  · rw [if_neg hneg, Int.natCast_floor_eq_floor (not_lt.mp hneg)]
    refine ⟨Int.le_floor.mpr hy.1, le_max_of_le_left ?_⟩
    exact_mod_cast (Int.floor_le y).trans hy.2

/-- What is known of a sample: it is as far from the wave as the noise allows, and within the
range of the application. -/
structure Follows (fp : FloatingPoint) (shift : ℕ) (noise : ℤ) (horizontalShift x : ℕ)
    (value : UInt32 × UInt32) : Prop where
  second : value.1.toNat = x
  lower : ⌊wave fp shift horizontalShift x⌋₊ ≤ value.2.toNat + noise.toNat
  upper : value.2.toNat ≤ ⌈wave fp shift horizontalShift x⌉₊ + noise.toNat

theorem wave_mem_Icc (fp : FloatingPoint) (shift horizontalShift x : ℕ) :
    wave fp shift horizontalShift x ∈ Set.Icc
      ((⌊wave fp shift horizontalShift x⌋₊ : ℤ) : ℚ) (⌈wave fp shift horizontalShift x⌉₊ : ℤ) := by
  rw [Int.cast_natCast, Int.cast_natCast]
  exact ⟨Nat.floor_le (wave_nonneg fp shift horizontalShift x), Nat.le_ceil _⟩

theorem ceil_wave_le (fp : FloatingPoint) (hshift : shift < 2 ^ 32) (horizontalShift x : ℕ) :
    ⌈wave fp shift horizontalShift x⌉₊ ≤ shift :=
  Nat.ceil_le.mpr (wave_le fp hshift horizontalShift x)

theorem generateValue_follows (hrange : shift + noise.toNat < 2 ^ 32) (hx : x < 2 ^ 32)
    {value : UInt32 × UInt32}
    (h : generateValue fp rand shift noise horizontalShift x drawn = .ok (value, drawn')) :
    Follows fp shift noise horizontalShift x value ∧ drawn < drawn' ∧ drawn' ≤ drawn + 3 := by
  obtain ⟨⟨y, d⟩, hdisturb, h⟩ := Result.bind_eq_ok.mp h
  rw [Except.ok.injEq, Prod.mk.injEq] at h
  obtain ⟨rfl, rfl⟩ := h
  have hwave := wave_mem_Icc fp shift horizontalShift x
  have hceil := ceil_wave_le fp (show shift < 2 ^ 32 by omega) horizontalShift x
  have hfloor := Nat.floor_le_ceil (wave fp shift horizontalShift x)
  obtain ⟨k, hk, hy, hdrawn⟩ : ∃ k : ℤ, |k| ≤ noise.toNat ∧
      y ∈ Set.Icc ((⌊wave fp shift horizontalShift x⌋₊ + k : ℤ) : ℚ)
        (⌈wave fp shift horizontalShift x⌉₊ + k : ℤ) ∧ (d = drawn + 1 ∨ d = drawn + 3) := by
    rcases disturb_cases hdisturb with ⟨rfl, hd⟩ | ⟨k, hk, rfl, hd⟩
    · refine ⟨0, ?_, by rwa [add_zero, add_zero], .inl hd⟩
      rw [abs_zero]
      exact Nat.cast_nonneg _
    · have hk' := abs_le.mp hk
      refine ⟨k, hk.trans (Int.self_le_toNat noise), round_mem_Icc fp ?_ ?_ ?_, .inr hd⟩
      · rw [abs_le]
        omega
      · rw [abs_le]
        omega
      · push_cast at hwave ⊢
        exact ⟨add_le_add_left hwave.1 _, add_le_add_left hwave.2 _⟩
  obtain ⟨hlower, hupper⟩ := natFloor_clip hy
  have hk' := abs_le.mp hk
  have hsize : ⌊if y < 0 then 0 else y⌋₊ < 2 ^ 32 := by omega
  have hvalue : (UInt32.ofNat ⌊if y < 0 then 0 else y⌋₊).toNat = ⌊if y < 0 then 0 else y⌋₊ :=
    UInt32.toNat_ofNat_of_lt' hsize
  refine ⟨⟨UInt32.toNat_ofNat_of_lt' hx, ?_, ?_⟩, by omega, by omega⟩
  · dsimp only
    omega
  · dsimp only
    omega

/-! ## All samples -/

theorem generateUpTo_succ (fp : FloatingPoint) (rand : ℕ → ℕ) (shift : ℕ) (noise : ℤ)
    (horizontalShift drawn n : ℕ) :
    generateUpTo fp rand shift noise horizontalShift drawn (n + 1) = (do
      let s ← generateUpTo fp rand shift noise horizontalShift drawn n
      let (value, drawn) ← generateValue fp rand shift noise horizontalShift n s.2
      .ok (s.1 ++ [value], drawn)) := by
  rw [generateUpTo, List.range_succ, List.foldlM_append]
  refine congrArg _ (funext fun s => ?_)
  rw [List.foldlM_cons]
  exact bind_pure _

/-- The samples of the first seconds, and how many random numbers they took. -/
structure Samples (fp : FloatingPoint) (shift : ℕ) (noise : ℤ) (horizontalShift drawn n : ℕ)
    (s : List (UInt32 × UInt32) × ℕ) : Prop where
  length : s.1.length = n
  follows : ∀ x value, s.1[x]? = some value → Follows fp shift noise horizontalShift x value
  drawn_ge : drawn + n ≤ s.2
  drawn_le : s.2 ≤ drawn + 3 * n

theorem samples_of_generateUpTo (hrange : shift + noise.toNat < 2 ^ 32) {n : ℕ}
    (hn : n < 2 ^ 32) {s : List (UInt32 × UInt32) × ℕ}
    (h : generateUpTo fp rand shift noise horizontalShift drawn n = .ok s) :
    Samples fp shift noise horizontalShift drawn n s := by
  induction n generalizing s with
  | zero =>
    cases h
    refine ⟨rfl, fun x value hvalue => ?_, le_rfl, le_rfl⟩
    cases hvalue
  | succ n ih =>
    rw [generateUpTo_succ] at h
    obtain ⟨t, ht, h⟩ := Result.bind_eq_ok.mp h
    obtain ⟨⟨value, d⟩, hvalue, h⟩ := Result.bind_eq_ok.mp h
    cases h
    have hsamples := ih (by omega) ht
    obtain ⟨hfollows, hmore, hless⟩ := generateValue_follows hrange (by omega) hvalue
    have hge := hsamples.drawn_ge
    have hle := hsamples.drawn_le
    refine ⟨?_, fun x value' hx => ?_, ?_, ?_⟩
    · rw [List.length_append, hsamples.length, List.length_singleton]
    · rcases getElem?_concat_cases hx with hx | ⟨rfl, rfl⟩
      · exact hsamples.follows x value' hx
      · rw [hsamples.length]
        exact hfollows
    · dsimp only
      omega
    · dsimp only
      omega

theorem exists_generateUpTo (fp : FloatingPoint) (rand : ℕ → ℕ) (shift : ℕ)
    (hwide : noise + 1 < 2 ^ 31) (horizontalShift drawn n : ℕ) :
    ∃ s, generateUpTo fp rand shift noise horizontalShift drawn n = .ok s := by
  induction n with
  | zero => exact ⟨_, rfl⟩
  | succ n ih =>
    obtain ⟨t, ht⟩ := ih
    obtain ⟨s, hs⟩ := exists_disturb fp rand hwide (wave fp shift horizontalShift n) t.2
    rw [generateUpTo_succ, ht, Result.ok_bind, generateValue, hs]
    exact ⟨_, rfl⟩

/-- The samples are those of the seconds, in order. -/
theorem Samples.seconds {n : ℕ} {s : List (UInt32 × UInt32) × ℕ}
    (h : Samples fp shift noise horizontalShift drawn n s) :
    s.1.map (·.1.toNat) = List.range n := by
  apply List.ext_getElem
  · rw [List.length_map, List.length_range, h.length]
  · intro x hx hx'
    rw [List.length_map] at hx
    rw [List.getElem_map, List.getElem_range]
    exact (h.follows x _ (List.getElem?_eq_getElem hx)).second

theorem Samples.value_le {n : ℕ} {s : List (UInt32 × UInt32) × ℕ} (hshift : shift < 2 ^ 32)
    (h : Samples fp shift noise horizontalShift drawn n s) :
    ∀ value ∈ s.1, value.2.toNat ≤ shift + noise.toNat := by
  intro value hvalue
  obtain ⟨x, hx⟩ := List.mem_iff_getElem?.mp hvalue
  have hupper := (h.follows x value hx).upper
  have hceil := ceil_wave_le fp hshift horizontalShift x
  omega

/-- `std::sin` on a grid of 600 points, up to an error of `0.002`. -/
def sampleSine (n : ℕ) : ℚ :=
  let t : ℚ := (n % 300 : ℕ)
  (if n % 600 < 300 then 1 else -1) * (16 * (t * (300 - t)) / (450000 - 4 * (t * (300 - t))))

theorem abs_sampleSine_le (n : ℕ) : |sampleSine n| ≤ 1 := by
  have hlt : ((n % 300 : ℕ) : ℚ) ≤ 300 := by exact_mod_cast (Nat.mod_lt n (by norm_num)).le
  have hnonneg : (0 : ℚ) ≤ (n % 300 : ℕ) := Nat.cast_nonneg _
  have hsign : |(if n % 600 < 300 then 1 else -1 : ℚ)| = 1 := by split_ifs <;> simp
  have hproduct := mul_nonneg hnonneg (sub_nonneg.mpr hlt)
  have hpeak : ((n % 300 : ℕ) : ℚ) * (300 - (n % 300 : ℕ)) ≤ 22500 := by
    linarith only [sq_nonneg (((n % 300 : ℕ) : ℚ) - 150)]
  rw [sampleSine, abs_mul, hsign, one_mul, abs_of_nonneg (by
    apply div_nonneg <;> linarith only [hproduct, hpeak]), div_le_one (by linarith only [hpeak])]
  linarith only [hpeak]

def sampleFloatingPoint : FloatingPoint where
  round := id
  round_mono := monotone_id
  round_intCast _ _ := rfl
  sine := sampleSine
  abs_sine_le := abs_sampleSine_le

end SinGenerator

namespace SinApplication

/-! ## The constructor -/

/-- What the constructor of the sampled application leaves. -/
structure Built (id requiredDelay errorRate bound : ℕ) (app : SinApplication) : Prop where
  applicationId : app.applicationId = id
  requiredDelay : app.requiredDelay = requiredDelay
  errorRate : app.errorRate = errorRate
  sampled : app.Sampled
  value_le : ∀ value ∈ app.sinValues, value.2.toNat ≤ bound

theorem exists_new (fp : FloatingPoint) (rand : ℕ → ℕ) (id requiredDelay errorRate : ℕ)
    (shift : ℕ) {noise : ℕ} (horizontalShift drawn : ℕ) (hwide : noise + 1 < 2 ^ 31) :
    ∃ s, new fp rand id requiredDelay errorRate shift noise horizontalShift drawn = .ok s := by
  have hint : int32 noise = noise := if_pos (by omega)
  obtain ⟨t, h⟩ := SinGenerator.exists_generateUpTo fp rand shift
    (show (noise : ℤ) + 1 < 2 ^ 31 by omega) horizontalShift drawn
    (Utils.simulationDurationInSeconds + 1)
  rw [new, hint, SinGenerator.generateValues, h]
  exact ⟨_, rfl⟩

theorem built_of_new {fp : FloatingPoint} {rand : ℕ → ℕ}
    {id requiredDelay errorRate shift noise horizontalShift drawn : ℕ}
    (hrange : shift + noise < 2 ^ 32) (hwide : noise + 1 < 2 ^ 31)
    {s : { app : SinApplication // (Application.sin app).Fresh } × ℕ}
    (h : new fp rand id requiredDelay errorRate shift noise horizontalShift drawn = .ok s) :
    Built id requiredDelay errorRate (shift + noise) s.1 := by
  have hint : int32 noise = noise := if_pos (by omega)
  have hduration : Utils.simulationDurationInSeconds + 1 < 2 ^ 32 := by decide
  obtain ⟨⟨values, drawn'⟩, hvalues, h⟩ := Result.bind_eq_ok.mp h
  cases h
  rw [hint] at hvalues
  have hsamples := SinGenerator.samples_of_generateUpTo
    (show shift + (noise : ℤ).toNat < 2 ^ 32 by omega) hduration hvalues
  have hle := hsamples.value_le (by omega)
  rw [Int.toNat_natCast] at hle
  exact ⟨rfl, rfl, rfl, hsamples.seconds, hle⟩

theorem packetsBefore_le {app : SinApplication} {bound : ℕ}
    (h : ∀ value ∈ app.sinValues, value.2.toNat ≤ bound) (n : ℕ) :
    app.packetsBefore n ≤ n * bound := by
  have hle := List.sum_le_card_nsmul ((app.sinValues.take n).map (·.2.toNat)) bound (by
    intro k hk
    obtain ⟨value, hvalue, rfl⟩ := List.mem_map.mp hk
    exact h value (List.mem_of_mem_take hvalue))
  rw [List.length_map, List.length_take, smul_eq_mul] at hle
  exact hle.trans (Nat.mul_le_mul_right _ (min_le_left _ _))

end SinApplication

end SdWan
