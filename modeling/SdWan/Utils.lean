import SdWan.Basic

/-!
# The helpers of `Utils` and the row of a results file

`maxElement` is `std::max_element`: a scan from left to right that replaces its candidate
whenever the comparator puts it before the current element. `strategyRow` is one line of the
file that `printResultsToFile` writes for a list of data points.
-/

namespace SdWan

/-- `std::max_element`; `none` is the end iterator. -/
def maxElement {α : Type} (comp : α → α → Bool) : List α → Option α
  | [] => none
  | a :: as => some (as.foldl (fun largest b => if comp largest b then b else largest) a)

/-- What the candidate of the scan satisfies for the elements seen so far holds at the end. -/
theorem maxElement_invariant {α : Type} {comp : α → α → Bool} {P : List α → α → Prop}
    (hfirst : ∀ a, P [a] a)
    (hstep : ∀ seen largest b, P seen largest →
      P (seen ++ [b]) (if comp largest b then b else largest))
    {as : List α} {largest : α} (h : maxElement comp as = some largest) : P as largest := by
  have hscan : ∀ (as seen : List α) (a : α), P seen a →
      P (seen ++ as) (as.foldl (fun largest b => if comp largest b then b else largest) a) := by
    intro as
    induction as with
    | nil =>
      intro seen a ha
      rwa [List.append_nil]
    | cons b as ih =>
      intro seen a ha
      have hrest := ih (seen ++ [b]) _ (hstep seen a b ha)
      rwa [List.append_assoc] at hrest
  cases as with
  | nil => cases h
  | cons a as =>
    rw [← Option.some.inj h]
    exact hscan as [a] a (hfirst a)

theorem mem_of_maxElement {α : Type} {comp : α → α → Bool} {as : List α} {largest : α}
    (h : maxElement comp as = some largest) : largest ∈ as := by
  refine maxElement_invariant (P := fun seen a => a ∈ seen) (fun a => List.mem_cons_self)
    (fun seen a b ha => ?_) h
  split_ifs
  · exact List.mem_append_right seen List.mem_cons_self
  · exact List.mem_append_left [b] ha

theorem maxElement_replicate {α : Type} (comp : α → α → Bool) (a : α) (n : ℕ) :
    maxElement comp (List.replicate (n + 1) a) = some a := by
  obtain ⟨largest, h⟩ : ∃ largest, maxElement comp (List.replicate (n + 1) a) = some largest :=
    ⟨_, rfl⟩
  rw [h, List.eq_of_mem_replicate (mem_of_maxElement h)]

/-- Under a comparator that compares values of `f`, no element has a larger value. -/
theorem le_of_maxElement {α : Type} {comp : α → α → Bool} {f : α → ℕ}
    (hcomp : ∀ a b, comp a b = true ↔ f a < f b) {as : List α} {largest : α}
    (h : maxElement comp as = some largest) : ∀ a ∈ as, f a ≤ f largest := by
  refine maxElement_invariant (P := fun seen c => ∀ a ∈ seen, f a ≤ f c) ?_ ?_ h
  · intro a b hb
    rw [List.mem_singleton.mp hb]
  · intro seen c b hc
    rw [List.forall_mem_append]
    by_cases hcb : comp c b = true
    · rw [if_pos hcb]
      have hlt := (hcomp c b).mp hcb
      exact ⟨fun a ha => (hc a ha).trans hlt.le,
        fun a ha => (List.mem_singleton.mp ha).symm ▸ le_rfl⟩
    · rw [if_neg hcb]
      have hle := Nat.le_of_not_lt fun hlt => hcb ((hcomp c b).mpr hlt)
      exact ⟨hc, fun a ha => (List.mem_singleton.mp ha).symm ▸ hle⟩

theorem maxElement_map {α β : Type} (comp : β → β → Bool) (f : α → β) (as : List α) :
    maxElement comp (as.map f) = (maxElement (fun a b => comp (f a) (f b)) as).map f := by
  have hscan : ∀ (as : List α) (a : α),
      (as.map f).foldl (fun largest b => if comp largest b then b else largest) (f a) =
        f (as.foldl (fun largest b => if comp (f largest) (f b) then b else largest) a) := by
    intro as
    induction as with
    | nil => exact fun a => rfl
    | cons b as ih =>
      intro a
      simp only [List.map_cons, List.foldl_cons]
      rw [← ih, apply_ite f]
  cases as with
  | nil => rfl
  | cons a as => exact congrArg some (hscan as a)

structure StrategyDataPoint where
  totalCost : ℕ
  currentCost : ℕ
  totalAmountOfPackets : ℕ
  currentAmountOfPackets : ℕ
  deriving DecidableEq, Repr

/-- A line of a strategy's results file, in the order of its header
`Index,CurrentCost,TotalCost,CurrentPackets,TotalPackets, TrafficIntensity`. -/
structure StrategyRow where
  index : ℕ
  currentCost : ℕ
  totalCost : ℕ
  currentPackets : ℕ
  totalPackets : ℕ
  trafficIntensity : ℚ
  deriving DecidableEq, Repr

namespace Utils

/-- The product is formed in `uint32_t` before it becomes the 64-bit rate. -/
def convertPacketsPerSecondToBitPerSecondToDataRate (packetsPerSecond : ℕ) : ℕ :=
  uint32 (packetsPerSecond * packetSizeBit)

/-- The rate wrapped in a `DataRateValue`. -/
def convertPacketsPerSecondToBitPerSecond (packetsPerSecond : ℕ) : ℕ :=
  convertPacketsPerSecondToBitPerSecondToDataRate packetsPerSecond

/-- Most significant bit first. -/
def getBoolVectorFromInt (num bitSize : ℕ) : List Bool :=
  ((List.range bitSize).map num.testBit).reverse

@[simp] theorem length_getBoolVectorFromInt (num bitSize : ℕ) :
    (getBoolVectorFromInt num bitSize).length = bitSize := by
  simp [getBoolVectorFromInt]

/-- The shift `1U << n` is defined for `n < 32` only. -/
def maxIntWithNBits (n : ℕ) : Result ℕ :=
  if n = 0 then .ok 0
  else if n < 32 then .ok (2 ^ n - 1)
  else .error .shiftTooWide

theorem maxIntWithNBits_of_lt {n : ℕ} (h : n < 32) : maxIntWithNBits n = .ok (2 ^ n - 1) := by
  unfold maxIntWithNBits
  split_ifs with h0
  · simp [h0]
  · rfl

def strategyRow (i : ℕ) (dataPoint : StrategyDataPoint) : StrategyRow where
  index := i + 1
  currentCost := dataPoint.currentCost
  totalCost := dataPoint.totalCost
  currentPackets := dataPoint.currentAmountOfPackets
  totalPackets := dataPoint.totalAmountOfPackets
  trafficIntensity := (dataPoint.totalAmountOfPackets : ℚ) / (i + 1)

/-- The lines below the header. -/
def printResultsToFile (dataPoints : List StrategyDataPoint) : List StrategyRow :=
  dataPoints.zipIdx.map fun (dataPoint, i) => strategyRow i dataPoint

@[simp] theorem length_printResultsToFile (dataPoints : List StrategyDataPoint) :
    (printResultsToFile dataPoints).length = dataPoints.length := by
  simp [printResultsToFile]

theorem printResultsToFile_concat (dataPoints : List StrategyDataPoint) (p : StrategyDataPoint) :
    printResultsToFile (dataPoints ++ [p]) =
      printResultsToFile dataPoints ++ [strategyRow dataPoints.length p] := by
  simp [printResultsToFile, List.zipIdx_append]

end Utils

end SdWan
