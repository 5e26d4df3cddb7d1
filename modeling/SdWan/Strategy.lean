import SdWan.ISPInterface

/-!
# The state shared by all strategies

A strategy points to the applications and interfaces of the sender, so they are part of its
state; a pointer to an interface is its position among `availableInterfaces`. The results files
written so far are kept with the strategy, the oldest first.
-/

namespace SdWan

structure Strategy where
  applications : List Application
  availableInterfaces : List ISPInterface
  strategyData : List StrategyDataPoint := []
  /-- The flag of `LinearStrategy`. -/
  hasBeenComputed : Bool := false
  /-- How many values `RandomStrategy` has drawn from its engine. -/
  rngDraws : ℕ := 0
  resultsFiles : List (String × List StrategyRow) := []
  deriving DecidableEq

/-- What one call of a sequence finds. -/
structure ComputeCall where
  now : Time
  applications : List Application
  availableInterfaces : List ISPInterface

namespace Strategy

def getAllDataHasBeenSent (s : Strategy) : Bool :=
  s.applications.all (·.getHasStoppedGeneratingData) &&
    s.availableInterfaces.all (!·.getHasAnyAvailablePackage)

/-- The data point recorded after a computation, totals carried on from the last one. -/
def nextDataPoint (s : Strategy) (currentCost currentPendingPackages : ℕ) : StrategyDataPoint :=
  match s.strategyData.getLast? with
  | none => ⟨currentCost, currentCost, currentPendingPackages, currentPendingPackages⟩
  | some back =>
    ⟨uint32 (back.totalCost + currentCost), currentCost,
      uint32 (back.totalAmountOfPackets + currentPendingPackages), currentPendingPackages⟩

@[simp] theorem currentCost_nextDataPoint (s : Strategy) (currentCost packets : ℕ) :
    (s.nextDataPoint currentCost packets).currentCost = currentCost := by
  unfold nextDataPoint
  split <;> rfl

@[simp] theorem currentAmountOfPackets_nextDataPoint (s : Strategy) (currentCost packets : ℕ) :
    (s.nextDataPoint currentCost packets).currentAmountOfPackets = packets := by
  unfold nextDataPoint
  split <;> rfl

/-- The end of a computation: the results are printed once all data has been sent. -/
def printIfAllSent (fileName : String) (s : Strategy) : Strategy :=
  if s.getAllDataHasBeenSent then
    { s with
      resultsFiles := s.resultsFiles ++ [(fileName, Utils.printResultsToFile s.strategyData)] }
  else s

theorem getAllDataHasBeenSent_iff (s : Strategy) :
    s.getAllDataHasBeenSent = true ↔
      (∀ app ∈ s.applications, app.pendingpackets = [] ∧ app.allPacketsGenerated = true) ∧
        ∀ i ∈ s.availableInterfaces, i.pendingpackets = [] := by
  simp only [getAllDataHasBeenSent, Bool.and_eq_true, List.all_eq_true,
    Application.getHasStoppedGeneratingData_iff, Bool.not_eq_true',
    ISPInterface.getHasAnyAvailablePackage_eq_false]

section printIfAllSent

variable (fileName : String) (s : Strategy)

@[simp] theorem applications_printIfAllSent :
    (s.printIfAllSent fileName).applications = s.applications := by
  unfold printIfAllSent
  split_ifs <;> rfl

@[simp] theorem availableInterfaces_printIfAllSent :
    (s.printIfAllSent fileName).availableInterfaces = s.availableInterfaces := by
  unfold printIfAllSent
  split_ifs <;> rfl

@[simp] theorem strategyData_printIfAllSent :
    (s.printIfAllSent fileName).strategyData = s.strategyData := by
  unfold printIfAllSent
  split_ifs <;> rfl

@[simp] theorem getAllDataHasBeenSent_printIfAllSent :
    (s.printIfAllSent fileName).getAllDataHasBeenSent = s.getAllDataHasBeenSent := by
  simp only [getAllDataHasBeenSent, applications_printIfAllSent,
    availableInterfaces_printIfAllSent]

theorem resultsFiles_printIfAllSent :
    (s.printIfAllSent fileName).resultsFiles =
      if s.getAllDataHasBeenSent then
        s.resultsFiles ++ [(fileName, Utils.printResultsToFile s.strategyData)]
      else s.resultsFiles := by
  unfold printIfAllSent
  split_ifs <;> rfl

end printIfAllSent

/-! ## Running totals -/

/-- Every data point carries in `total` the sum of `current` up to it, as long as it fits. -/
def Accumulates (current total : StrategyDataPoint → ℕ) (dataPoints : List StrategyDataPoint) :
    Prop :=
  ∀ i p, dataPoints[i]? = some p → ((dataPoints.take (i + 1)).map current).sum < 2 ^ 32 →
    total p = ((dataPoints.take (i + 1)).map current).sum

section Accumulates

variable {current total : StrategyDataPoint → ℕ} {dataPoints : List StrategyDataPoint}

theorem accumulates_nil (current total : StrategyDataPoint → ℕ) : Accumulates current total [] := by
  intro i p h
  cases h

theorem Accumulates.last (h : Accumulates current total dataPoints) {p : StrategyDataPoint}
    (hp : dataPoints.getLast? = some p) (hlt : (dataPoints.map current).sum < 2 ^ 32) :
    total p = (dataPoints.map current).sum := by
  have hne : 0 < dataPoints.length := by
    cases dataPoints with
    | nil => cases hp
    | cons q qs => exact Nat.succ_pos _
  have htake : dataPoints.take (dataPoints.length - 1 + 1) = dataPoints := by
    rw [Nat.sub_add_cancel hne, List.take_length]
  rw [List.getLast?_eq_getElem?] at hp
  have hsum := h _ _ hp
  rw [htake] at hsum
  exact hsum hlt

theorem Accumulates.concat (h : Accumulates current total dataPoints) {p : StrategyDataPoint}
    (hfirst : dataPoints = [] → total p = current p)
    (hnext : ∀ q, dataPoints.getLast? = some q → total p = uint32 (total q + current p)) :
    Accumulates current total (dataPoints ++ [p]) := by
  intro i q hq hlt
  by_cases hi : i < dataPoints.length
  · rw [List.getElem?_append_left hi] at hq
    rw [List.take_append_of_le_length (by omega)] at hlt ⊢
    exact h i q hq hlt
  · obtain ⟨hbound, rfl⟩ := List.getElem?_eq_some_iff.mp hq
    rw [List.length_append, List.length_singleton] at hbound
    have hlen : i = dataPoints.length := by omega
    subst hlen
    rw [List.take_of_length_le (by simp)] at hlt ⊢
    rw [List.getElem_append_right le_rfl, List.getElem_singleton]
    rw [List.map_append, List.sum_append, List.map_singleton, List.sum_singleton] at hlt ⊢
    cases hlast : dataPoints.getLast? with
    | none =>
      have hnil := List.getLast?_eq_none_iff.mp hlast
      rw [hfirst hnil, hnil, List.map_nil, List.sum_nil, Nat.zero_add]
    | some back =>
      have hback := h.last hlast (by omega)
      rw [hnext back hlast, hback, uint32_of_lt hlt]

end Accumulates

/-- The running totals of a strategy's data points. -/
structure RunningTotals (dataPoints : List StrategyDataPoint) : Prop where
  cost : Accumulates (·.currentCost) (·.totalCost) dataPoints
  packets : Accumulates (·.currentAmountOfPackets) (·.totalAmountOfPackets) dataPoints

theorem runningTotals_nil : RunningTotals [] := ⟨accumulates_nil _ _, accumulates_nil _ _⟩

/-- Recording the next data point keeps the totals. -/
theorem RunningTotals.nextDataPoint {s : Strategy} (h : RunningTotals s.strategyData)
    (currentCost packets : ℕ) :
    RunningTotals (s.strategyData ++ [s.nextDataPoint currentCost packets]) := by
  have hnone : s.strategyData = [] →
      s.nextDataPoint currentCost packets = ⟨currentCost, currentCost, packets, packets⟩ := by
    intro hnil
    rw [Strategy.nextDataPoint, hnil]
    rfl
  have hsome : ∀ q, s.strategyData.getLast? = some q → s.nextDataPoint currentCost packets =
      ⟨uint32 (q.totalCost + currentCost), currentCost,
        uint32 (q.totalAmountOfPackets + packets), packets⟩ := by
    intro q hq
    rw [Strategy.nextDataPoint, hq]
  constructor
  · apply h.cost.concat
    · intro hnil
      rw [hnone hnil]
    · intro q hq
      rw [hsome q hq]
  · apply h.packets.concat
    · intro hnil
      rw [hnone hnil]
    · intro q hq
      rw [hsome q hq]

end Strategy

end SdWan
