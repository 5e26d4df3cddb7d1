import SdWan.ParameterCombinations
import SdWan.RunSimulation

/-!
# The program

For every strategy `main` goes through all combinations of peaks, noises and shifts, simulates those
for which `dist(gen)` returns `1` and prints one file. The engine is seeded once, before the first
strategy, so that every strategy draws for itself: `dist n` is the result of the call number `n`.

What `RunSimulation` does until the simulator has stopped is a parameter here. It works on a state
of its own, such as that of `std::rand`.
-/

open Tuples

namespace SdWan.Campaign

/-- What the report is made of when the simulator has stopped. -/
structure Stopped where
  applications : List Application
  interfaces : List ISPInterface
  received : List ReceivedPacketInfo

/-- The local variables of the loops, with the number of calls of `dist(gen)`. -/
structure Loops (σ : Type) where
  results : List RunInfo := []
  drawn : ℕ
  state : σ

/-- The files that are written, with the number of calls of `dist(gen)`. -/
structure Files (σ : Type) where
  files : List (StrategyTypes × List RunRow) := []
  drawn : ℕ := 0
  state : σ

section

variable {σ : Type} (sort : List ReceivedPacketInfo → List ReceivedPacketInfo) (dist : ℕ → ℕ)
  (simulate : RunParameters → σ → Result (Stopped × σ)) (frames : ℕ)

def runSimulation (runParameters : RunParameters) (state : σ) : Result (RunInfo × σ) := do
  let (x, state) ← simulate runParameters state
  .ok (runInfo x.applications x.interfaces sort x.received runParameters, state)

/-- The body of the innermost loop. -/
def visit (strategy : StrategyTypes) (currentPeaks currentNoises currentShifts : List ℕ)
    (s : Loops σ) : Result (Loops σ) :=
  if dist s.drawn = 1 then do
    let applicationOnePeak ← vectorAt currentPeaks 0
    let applicationTwoPeak ← vectorAt currentPeaks 1
    let applicationThreePeak ← vectorAt currentPeaks 2
    let applicationOneNoise ← vectorAt currentNoises 0
    let applicationTwoNoise ← vectorAt currentNoises 1
    let applicationThreeNoise ← vectorAt currentNoises 2
    let applicationOneShift ← vectorAt currentShifts 0
    let applicationTwoShift ← vectorAt currentShifts 1
    let applicationThreeShift ← vectorAt currentShifts 2
    let (result, state) ← runSimulation sort simulate {
      applicationOnePeak := applicationOnePeak
      applicationTwoPeak := applicationTwoPeak
      applicationThreePeak := applicationThreePeak
      applicationOneNoise := applicationOneNoise
      applicationTwoNoise := applicationTwoNoise
      applicationThreeNoise := applicationThreeNoise
      applicationOneShift := uint32 (applicationOneShift * 50)
      applicationTwoShift := uint32 (applicationTwoShift * 50)
      applicationThreeShift := uint32 (applicationThreeShift * 50)
      strategyType := strategy } s.state
    .ok { results := s.results ++ [result], drawn := s.drawn + 1, state := state }
  else .ok { s with drawn := s.drawn + 1 }

/-- The loops over the combinations, after `drawn` calls of `dist(gen)`. -/
def runStrategy (strategy : StrategyTypes) (drawn : ℕ) (state : σ) : Result (Loops σ) := do
  let noiseCombinations ← Utils.getPermutationsWithRepetitionOfKelementsOfLengthN frames 3 3
  let peakCombinations ← Utils.getPermutationsWithRepetitionOfKelementsOfLengthN frames 3 12
  let shiftCombinations ← Utils.getPermutationsWithRepetitionOfKelementsOfLengthN frames 3 3
  peakCombinations.foldlM (fun s currentPeaks =>
    noiseCombinations.foldlM (fun s currentNoises =>
      shiftCombinations.foldlM (fun s currentShifts =>
        visit sort dist simulate strategy currentPeaks currentNoises currentShifts s) s) s)
    { drawn := drawn, state := state }

def strategies : List StrategyTypes := [.roundRobin, .random, .linear, .reactive]

def main (state : σ) : Result (Files σ) :=
  strategies.foldlM (fun s strategy => do
    let loops ← runStrategy sort dist simulate frames strategy s.drawn s.state
    let rows ← RunInfo.printResultsToFile loops.results
    .ok { files := s.files ++ [(strategy, rows)], drawn := loops.drawn, state := loops.state })
    { state := state }

end

/-! ## What is simulated -/

/-- The peaks, noises and shifts of three applications. -/
abbrev Combination := List ℕ × List ℕ × List ℕ

def combinations : List Combination :=
  tuples (List.range' 1 12) 3 ×ˢ tuples (List.range' 1 3) 3 ×ˢ tuples (List.range' 1 3) 3

def parameters (strategy : StrategyTypes) (c : Combination) : RunParameters where
  applicationOnePeak := c.1.getD 0 0
  applicationTwoPeak := c.1.getD 1 0
  applicationThreePeak := c.1.getD 2 0
  applicationOneNoise := c.2.1.getD 0 0
  applicationTwoNoise := c.2.1.getD 1 0
  applicationThreeNoise := c.2.1.getD 2 0
  applicationOneShift := c.2.2.getD 0 0 * 50
  applicationTwoShift := c.2.2.getD 1 0 * 50
  applicationThreeShift := c.2.2.getD 2 0 * 50
  strategyType := strategy

/-- The combinations for which `1` is drawn, when `drawn` numbers have been drawn before. -/
def selected (dist : ℕ → ℕ) (drawn : ℕ) (cs : List Combination) : List Combination :=
  ((cs.zipIdx drawn).filter fun c => decide (dist c.2 = 1)).map (·.1)

/-- The columns of a line that hold parameters. -/
def rowParameters (strategy : StrategyTypes) (row : RunRow) : RunParameters where
  applicationOnePeak := row.application1Peak
  applicationTwoPeak := row.application2Peak
  applicationThreePeak := row.application3Peak
  applicationOneNoise := row.application1Noise
  applicationTwoNoise := row.application2Noise
  applicationThreeNoise := row.application3Noise
  applicationOneShift := row.application1Shift
  applicationTwoShift := row.application2Shift
  applicationThreeShift := row.application3Shift
  strategyType := strategy

theorem mem_combinations {peaks noises shifts : List ℕ} :
    (peaks, noises, shifts) ∈ combinations ↔
      (peaks.length = 3 ∧ ∀ i ∈ peaks, 1 ≤ i ∧ i ≤ 12) ∧
        (noises.length = 3 ∧ ∀ i ∈ noises, 1 ≤ i ∧ i ≤ 3) ∧
          shifts.length = 3 ∧ ∀ i ∈ shifts, 1 ≤ i ∧ i ≤ 3 := by
  rw [combinations, List.mem_product, List.mem_product, (Utils.enumerates_tuples 3 12).mem_iff,
    (Utils.enumerates_tuples 3 3).mem_iff, (Utils.enumerates_tuples 3 3).mem_iff]

theorem nodup_combinations : combinations.Nodup :=
  (Utils.enumerates_tuples 3 12).nodup.product
    ((Utils.enumerates_tuples 3 3).nodup.product (Utils.enumerates_tuples 3 3).nodup)

/-- The shape of a combination. -/
theorem exists_of_mem_combinations {c : Combination} (hc : c ∈ combinations) :
    ∃ p₁ p₂ p₃ n₁ n₂ n₃ s₁ s₂ s₃, c = ([p₁, p₂, p₃], [n₁, n₂, n₃], [s₁, s₂, s₃]) ∧
      (p₁ ≤ 12 ∧ p₂ ≤ 12 ∧ p₃ ≤ 12) ∧ (n₁ ≤ 3 ∧ n₂ ≤ 3 ∧ n₃ ≤ 3) ∧
        s₁ ≤ 3 ∧ s₂ ≤ 3 ∧ s₃ ≤ 3 := by
  obtain ⟨peaks, noises, shifts⟩ := c
  obtain ⟨⟨hpeaks, hp⟩, ⟨hnoises, hn⟩, hshifts, hs⟩ := mem_combinations.mp hc
  obtain ⟨p₁, p₂, p₃, rfl⟩ := List.length_eq_three.mp hpeaks
  obtain ⟨n₁, n₂, n₃, rfl⟩ := List.length_eq_three.mp hnoises
  obtain ⟨s₁, s₂, s₃, rfl⟩ := List.length_eq_three.mp hshifts
  simp only [List.forall_mem_cons] at hp hn hs
  exact ⟨p₁, p₂, p₃, n₁, n₂, n₃, s₁, s₂, s₃, rfl, by omega, by omega, by omega⟩

theorem light_parameters (strategy : StrategyTypes) {c : Combination} (hc : c ∈ combinations) :
    RunSimulation.Light (parameters strategy c) := by
  obtain ⟨p₁, p₂, p₃, n₁, n₂, n₃, s₁, s₂, s₃, rfl, hp, hn, -⟩ := exists_of_mem_combinations hc
  constructor
  · change p₁ + n₁ ≤ 15
    omega
  · change p₂ + n₂ ≤ 15
    omega
  · change p₃ + n₃ ≤ 15
    omega

/-! ## The loops -/

section

variable {σ : Type} {sort : List ReceivedPacketInfo → List ReceivedPacketInfo} {dist : ℕ → ℕ}
  {simulate : RunParameters → σ → Result (Stopped × σ)} {frames : ℕ} {strategy : StrategyTypes}

theorem parameters_of_runSimulation {p : RunParameters} {state : σ} {r : RunInfo × σ}
    (h : runSimulation sort simulate p state = .ok r) : r.1.parameters = p := by
  obtain ⟨x, -, h⟩ := Result.bind_eq_ok.mp h
  cases h
  rfl

theorem selected_cons (dist : ℕ → ℕ) (drawn : ℕ) (c : Combination) (cs : List Combination) :
    selected dist drawn (c :: cs) =
      (if dist drawn = 1 then [c] else []) ++ selected dist (drawn + 1) cs := by
  rw [selected, List.zipIdx_cons, List.filter_cons]
  by_cases hone : dist drawn = 1
  · simp [hone, selected]
  · simp [hone, selected]

/-- The vectors of a combination are long enough and the shifts are small. -/
theorem visit_eq {c : Combination} (hc : c ∈ combinations) (s : Loops σ) :
    visit sort dist simulate strategy c.1 c.2.1 c.2.2 s =
      if dist s.drawn = 1 then do
        let (result, state) ← runSimulation sort simulate (parameters strategy c) s.state
        .ok { results := s.results ++ [result], drawn := s.drawn + 1, state := state }
      else .ok { s with drawn := s.drawn + 1 } := by
  obtain ⟨p₁, p₂, p₃, n₁, n₂, n₃, s₁, s₂, s₃, rfl, -, -, hs₁, hs₂, hs₃⟩ :=
    exists_of_mem_combinations hc
  have hone : uint32 (s₁ * 50) = s₁ * 50 := uint32_of_lt (by omega)
  have htwo : uint32 (s₂ * 50) = s₂ * 50 := uint32_of_lt (by omega)
  have hthree : uint32 (s₃ * 50) = s₃ * 50 := uint32_of_lt (by omega)
  simp [visit, vectorAt, parameters, hone, htwo, hthree]

/-- One visit draws once and simulates the combination if the number is `1`. -/
theorem visit_eq_ok {c : Combination} (hc : c ∈ combinations) {s s' : Loops σ}
    (h : visit sort dist simulate strategy c.1 c.2.1 c.2.2 s = .ok s') :
    s'.drawn = s.drawn + 1 ∧ s'.results.map (·.parameters) =
      s.results.map (·.parameters) ++
        (if dist s.drawn = 1 then [c] else []).map (parameters strategy) := by
  rw [visit_eq hc] at h
  by_cases hone : dist s.drawn = 1
  · rw [if_pos hone] at h ⊢
    obtain ⟨⟨result, state⟩, hresult, h⟩ := Result.bind_eq_ok.mp h
    cases h
    refine ⟨rfl, ?_⟩
    rw [List.map_append, List.map_singleton, parameters_of_runSimulation hresult]
    rfl
  · rw [if_neg hone] at h ⊢
    cases h
    exact ⟨rfl, (List.append_nil _).symm⟩

/-- The loop over some of the combinations. -/
theorem loops_eq_ok {cs : List Combination} (hcs : ∀ c ∈ cs, c ∈ combinations) {s s' : Loops σ}
    (h : cs.foldlM (fun s c => visit sort dist simulate strategy c.1 c.2.1 c.2.2 s) s = .ok s') :
    s'.drawn = s.drawn + cs.length ∧ s'.results.map (·.parameters) =
      s.results.map (·.parameters) ++ (selected dist s.drawn cs).map (parameters strategy) := by
  induction cs generalizing s with
  | nil =>
    cases h
    exact ⟨rfl, (List.append_nil _).symm⟩
  | cons c cs ih =>
    rw [List.forall_mem_cons] at hcs
    rw [List.foldlM_cons] at h
    obtain ⟨s₁, hvisit, h⟩ := Result.bind_eq_ok.mp h
    obtain ⟨hdrawn, hresults⟩ := visit_eq_ok hcs.1 hvisit
    obtain ⟨hdrawn', hresults'⟩ := ih hcs.2 h
    constructor
    · rw [hdrawn', hdrawn, List.length_cons]
      omega
    · rw [hresults', hresults, hdrawn, selected_cons, List.map_append, List.append_assoc]

theorem getPermutations_eq {N k : ℕ} (hframes : N < frames) (hk : k + 1 < 2 ^ 31) :
    Utils.getPermutationsWithRepetitionOfKelementsOfLengthN frames N k =
      .ok (tuples (List.range' 1 k) N) := by
  have hlength : ([] : List ℕ).length + N = N := Nat.zero_add N
  have hcall := Utils.generateArrays_eq hk hframes hlength []
  rw [Utils.getPermutationsWithRepetitionOfKelementsOfLengthN, hcall, Result.ok_bind]
  simp

theorem runStrategy_eq (hframes : 3 < frames) (drawn : ℕ) (state : σ) :
    runStrategy sort dist simulate frames strategy drawn state =
      combinations.foldlM (fun s c => visit sort dist simulate strategy c.1 c.2.1 c.2.2 s)
        { drawn := drawn, state := state } := by
  rw [runStrategy, getPermutations_eq hframes (by decide), getPermutations_eq hframes (by decide),
    Result.ok_bind, Result.ok_bind, Result.ok_bind, combinations, foldlM_product]
  simp only [foldlM_product]

theorem runStrategy_eq_ok (hframes : 3 < frames) {drawn : ℕ} {state : σ} {s : Loops σ}
    (h : runStrategy sort dist simulate frames strategy drawn state = .ok s) :
    s.drawn = drawn + combinations.length ∧ s.results.map (·.parameters) =
      (selected dist drawn combinations).map (parameters strategy) := by
  rw [runStrategy_eq hframes] at h
  have hall : ∀ c ∈ combinations, c ∈ combinations := fun _ hc => hc
  obtain ⟨hdrawn, hresults⟩ := loops_eq_ok hall h
  exact ⟨hdrawn, hresults.trans (List.nil_append _)⟩

/-! ## The files -/

theorem row_eq_ok {i : ℕ} {result : RunInfo} {row : RunRow} (h : result.row i = .ok row) :
    row.run = i + 1 ∧ rowParameters result.parameters.strategyType row = result.parameters := by
  simp only [RunInfo.row, Result.bind_eq_ok] at h
  obtain ⟨_, _, _, _, _, _, _, _, _, _, _, _, h⟩ := h
  cases h
  exact ⟨rfl, rfl⟩

/-- One line for every result, with its parameters. -/
theorem printed {results : List RunInfo} {rows : List RunRow}
    (hstrategy : ∀ result ∈ results, result.parameters.strategyType = strategy)
    (h : RunInfo.printResultsToFile results = .ok rows) :
    rows.map (·.run) = List.range' 1 results.length ∧
      rows.map (rowParameters strategy) = results.map (·.parameters) := by
  have hfrom : ∀ n rows, (results.zipIdx n).mapM (fun r => r.1.row r.2) = .ok rows →
      rows.map (·.run) = List.range' (n + 1) results.length ∧
        rows.map (rowParameters strategy) = results.map (·.parameters) := by
    clear h
    induction results with
    | nil =>
      intro n rows h
      cases h
      exact ⟨rfl, rfl⟩
    | cons result results ih =>
      intro n rows h
      rw [List.forall_mem_cons] at hstrategy
      rw [List.zipIdx_cons, List.mapM_cons] at h
      obtain ⟨row, hrow, h⟩ := Result.bind_eq_ok.mp h
      obtain ⟨rest, hrest, h⟩ := Result.bind_eq_ok.mp h
      cases h
      obtain ⟨hrun, hparameters⟩ := row_eq_ok hrow
      obtain ⟨hruns, hall⟩ := ih hstrategy.2 (n + 1) rest hrest
      rw [hstrategy.1] at hparameters
      constructor
      · rw [List.map_cons, hruns, hrun, List.length_cons, List.range'_succ]
      · rw [List.map_cons, List.map_cons, hall, hparameters]
  exact hfrom 0 rows h

/-- The file that the strategy number `k` writes. -/
structure Prints (dist : ℕ → ℕ) (k : ℕ) (strategy : StrategyTypes) (rows : List RunRow) :
    Prop where
  parameters : rows.map (rowParameters strategy) =
    (selected dist (k * combinations.length) combinations).map (parameters strategy)
  run : rows.map (·.run) = List.range' 1 rows.length

/-- The files written so far. -/
structure Written (dist : ℕ → ℕ) (ss : List StrategyTypes) (s : Files σ) : Prop where
  strategies : s.files.map (·.1) = ss
  drawn : s.drawn = ss.length * combinations.length
  prints : ∀ k strategy rows, s.files[k]? = some (strategy, rows) → Prints dist k strategy rows

/-- One more file. -/
theorem Written.concat (hframes : 3 < frames) {ss : List StrategyTypes} {s : Files σ}
    (hs : Written dist ss s) {loops : Loops σ} {rows : List RunRow}
    (hloops : runStrategy sort dist simulate frames strategy s.drawn s.state = .ok loops)
    (hrows : RunInfo.printResultsToFile loops.results = .ok rows) :
    Written dist (ss ++ [strategy])
      { files := s.files ++ [(strategy, rows)], drawn := loops.drawn, state := loops.state } := by
  obtain ⟨hdrawn, hresults⟩ := runStrategy_eq_ok hframes hloops
  have hstrategy : ∀ result ∈ loops.results, result.parameters.strategyType = strategy := by
    intro result hresult
    have hmem := List.mem_map_of_mem (f := (·.parameters)) hresult
    rw [hresults] at hmem
    obtain ⟨c, -, hc⟩ := List.mem_map.mp hmem
    rw [← hc]
    rfl
  obtain ⟨hruns, hparameters⟩ := printed hstrategy hrows
  have hlength : rows.length = loops.results.length := by
    simpa using congrArg List.length hparameters
  have hfiles : s.files.length = ss.length := by
    simpa using congrArg List.length hs.strategies
  constructor
  · rw [List.map_append, hs.strategies]
    rfl
  · rw [hdrawn, hs.drawn, List.length_append, List.length_singleton, Nat.succ_mul]
  · intro k strategy' rows' hk
    by_cases hlt : k < s.files.length
    · rw [List.getElem?_append_left hlt] at hk
      exact hs.prints k strategy' rows' hk
    · obtain ⟨hle, -⟩ := List.getElem?_eq_some_iff.mp hk
      rw [List.length_append, List.length_singleton] at hle
      obtain rfl : k = s.files.length := by omega
      rw [List.getElem?_concat_length] at hk
      cases hk
      refine ⟨?_, by rw [hlength, hruns]⟩
      rw [hparameters, hresults, hs.drawn, hfiles]

theorem written_of_main (hframes : 3 < frames) {state : σ} {out : Files σ}
    (h : main sort dist simulate frames state = .ok out) : Written dist strategies out := by
  have hfrom : ∀ (ss' ss : List StrategyTypes) (s : Files σ), Written dist ss s →
      ss'.foldlM (fun s strategy => do
        let loops ← runStrategy sort dist simulate frames strategy s.drawn s.state
        let rows ← RunInfo.printResultsToFile loops.results
        .ok { files := s.files ++ [(strategy, rows)], drawn := loops.drawn, state := loops.state })
          s = .ok out → Written dist (ss ++ ss') out := by
    intro ss'
    induction ss' with
    | nil =>
      intro ss s hs h
      cases h
      rwa [List.append_nil]
    | cons strategy ss' ih =>
      intro ss s hs h
      rw [List.foldlM_cons] at h
      obtain ⟨s', hs', h⟩ := Result.bind_eq_ok.mp h
      obtain ⟨loops, hloops, hs'⟩ := Result.bind_eq_ok.mp hs'
      obtain ⟨rows, hrows, hs'⟩ := Result.bind_eq_ok.mp hs'
      cases hs'
      rw [List.append_cons]
      exact ih _ _ (hs.concat hframes hloops hrows) h
  have hnone : Written dist [] ({ state := state } : Files σ) := by
    constructor
    · rfl
    · rw [List.length_nil, Nat.zero_mul]
    · intro k strategy rows hk
      cases hk
  exact hfrom strategies [] _ hnone h

/-! ## When all files are written -/

/-- A result with an entry for each of three applications. -/
def Complete (result : RunInfo) : Prop :=
  3 ≤ result.applicationBandWidth.length ∧ 3 ≤ result.applicationErrorRates.length

theorem exists_visit (hrun : ∀ c ∈ combinations, ∀ strategy state, ∃ r,
      runSimulation sort simulate (parameters strategy c) state = .ok r ∧ Complete r.1)
    {c : Combination} (hc : c ∈ combinations) {s : Loops σ}
    (hs : ∀ result ∈ s.results, Complete result) :
    ∃ s', visit sort dist simulate strategy c.1 c.2.1 c.2.2 s = .ok s' ∧
      ∀ result ∈ s'.results, Complete result := by
  rw [visit_eq hc]
  by_cases hone : dist s.drawn = 1
  · rw [if_pos hone]
    obtain ⟨⟨result, state⟩, hresult, hcomplete⟩ := hrun c hc strategy s.state
    rw [hresult, Result.ok_bind]
    refine ⟨_, rfl, ?_⟩
    rw [List.forall_mem_append, List.forall_mem_singleton]
    exact ⟨hs, hcomplete⟩
  · rw [if_neg hone]
    exact ⟨_, rfl, hs⟩

theorem exists_main (hframes : 3 < frames) (hrun : ∀ c ∈ combinations, ∀ strategy state, ∃ r,
      runSimulation sort simulate (parameters strategy c) state = .ok r ∧ Complete r.1)
    (state : σ) : ∃ out, main sort dist simulate frames state = .ok out := by
  obtain ⟨out, hout, -⟩ : ∃ out, main sort dist simulate frames state = .ok out ∧ True := by
    refine Result.exists_foldlM (fun strategy _ s _ => ?_) trivial
    obtain ⟨loops, hloops, hcomplete⟩ := Result.exists_foldlM
      (s := ({ drawn := s.drawn, state := s.state } : Loops σ))
      (f := fun s c => visit sort dist simulate strategy c.1 c.2.1 c.2.2 s)
      (fun c hc s hs => exists_visit hrun hc hs) (List.forall_mem_nil _)
    obtain ⟨rows, hrows⟩ := RunInfo.exists_printResultsToFile_iff.mpr hcomplete
    rw [← runStrategy_eq hframes] at hloops
    rw [hloops, Result.ok_bind, hrows, Result.ok_bind]
    exact ⟨_, rfl, trivial⟩
  exact ⟨out, hout⟩

end

/-- Every simulation ends with one packet of every application. -/
def sampleSimulate (_ : RunParameters) (n : ℕ) : Result (Stopped × ℕ) :=
  .ok ({
    applications := [reportedApplication 1, reportedApplication 2, reportedApplication 3]
    interfaces := [reportedInterface 10]
    received := [⟨0, 2⟩, ⟨0, 1⟩, ⟨0, 3⟩] }, n + 1)

end SdWan.Campaign
