import SdWan.Library.Grouping
import SdWan.Transfer

/-!
# The results of a run

When the simulation has ended, `RunSimulation` groups the received packets by application and puts
one error rate and one average bandwidth into the vectors of a `RunInfo` for every group.
`printResultsToFile` reads the two vectors by position, one position for each of three
applications.

`std::ranges::sort` may put packets of one application in any order: `sort` is what it does.
-/

open Grouping

namespace SdWan

namespace ReceivedPacketInfo

/-- The cost of the interface behind the pointer `fromInterface`. -/
def getCost (interfaces : List ISPInterface) (p : ReceivedPacketInfo) : ℕ :=
  (interfaces[p.fromInterface]?).elim 0 (·.cost)

def getDataRateInPacketPerSeconds (interfaces : List ISPInterface) (p : ReceivedPacketInfo) : ℕ :=
  (interfaces[p.fromInterface]?).elim 0 fun i => uint32 (i.getDataBitRate / Utils.packetSizeBit)

end ReceivedPacketInfo

structure RunParameters where
  applicationOnePeak : ℕ
  applicationTwoPeak : ℕ
  applicationThreePeak : ℕ
  applicationOneNoise : ℕ
  applicationTwoNoise : ℕ
  applicationThreeNoise : ℕ
  applicationOneShift : ℕ
  applicationTwoShift : ℕ
  applicationThreeShift : ℕ
  strategyType : StrategyTypes
  deriving DecidableEq, Repr

structure RunInfo where
  totalAmountOfPackets : ℕ
  totalCost : ℕ
  applicationErrorRates : List ℚ
  applicationBandWidth : List ℚ
  parameters : RunParameters
  deriving DecidableEq

/-- A line of the results file, in the order of its header. -/
structure RunRow where
  run : ℕ
  application1AverageBandWidth : ℚ
  application2AverageBandWidth : ℚ
  application3AverageBandWidth : ℚ
  application1ErrorRate : ℚ
  application2ErrorRate : ℚ
  application3ErrorRate : ℚ
  application1Noise : ℕ
  application2Noise : ℕ
  application3Noise : ℕ
  application1Peak : ℕ
  application2Peak : ℕ
  application3Peak : ℕ
  application1Shift : ℕ
  application2Shift : ℕ
  application3Shift : ℕ
  averagePacketCost : ℚ
  totalPackets : ℕ
  totalCost : ℕ
  deriving DecidableEq

namespace RunInfo

def getAveragePacketCost (result : RunInfo) : ℚ :=
  if result.totalAmountOfPackets = 0 then 0
  else (result.totalAmountOfPackets : ℚ) / result.totalCost

def row (i : ℕ) (result : RunInfo) : Result RunRow := do
  let application1AverageBandWidth ← vectorAt result.applicationBandWidth 0
  let application2AverageBandWidth ← vectorAt result.applicationBandWidth 1
  let application3AverageBandWidth ← vectorAt result.applicationBandWidth 2
  let application1ErrorRate ← vectorAt result.applicationErrorRates 0
  let application2ErrorRate ← vectorAt result.applicationErrorRates 1
  let application3ErrorRate ← vectorAt result.applicationErrorRates 2
  .ok {
    run := i + 1
    application1AverageBandWidth := application1AverageBandWidth
    application2AverageBandWidth := application2AverageBandWidth
    application3AverageBandWidth := application3AverageBandWidth
    application1ErrorRate := application1ErrorRate
    application2ErrorRate := application2ErrorRate
    application3ErrorRate := application3ErrorRate
    application1Noise := result.parameters.applicationOneNoise
    application2Noise := result.parameters.applicationTwoNoise
    application3Noise := result.parameters.applicationThreeNoise
    application1Peak := result.parameters.applicationOnePeak
    application2Peak := result.parameters.applicationTwoPeak
    application3Peak := result.parameters.applicationThreePeak
    application1Shift := result.parameters.applicationOneShift
    application2Shift := result.parameters.applicationTwoShift
    application3Shift := result.parameters.applicationThreeShift
    averagePacketCost := result.getAveragePacketCost
    totalPackets := result.totalAmountOfPackets
    totalCost := result.totalCost }

/-- The lines below the header. -/
def printResultsToFile (results : List RunInfo) : Result (List RunRow) :=
  results.zipIdx.mapM fun (result, i) => row i result

end RunInfo

/-! ## The end of `RunSimulation` -/

/-- The local variables of the loop over the groups. -/
structure FlowTotals where
  totalCost : ℕ := 0
  errorRates : List ℚ := []
  bandWidth : List ℚ := []
  deriving DecidableEq

section

variable (applications : List Application) (interfaces : List ISPInterface)

def addFlow (s : FlowTotals) (groupOfPackets : ℕ × List ReceivedPacketInfo) : FlowTotals :=
  if groupOfPackets.2.length < 1 then s
  else
    match applications.find? fun item => decide (item.applicationId = groupOfPackets.1) with
    | none => s
    | some currentApplication =>
      let totalBandwidth : ℚ := groupOfPackets.2.foldl
        (fun totalBandwidth p => totalBandwidth + p.getDataRateInPacketPerSeconds interfaces) 0
      let generatedPackages : ℚ := currentApplication.generatedPackets
      let receivedPackages : ℚ := groupOfPackets.2.length
      { totalCost := groupOfPackets.2.foldl
          (fun totalCost p => totalCost + p.getCost interfaces) s.totalCost
        errorRates := s.errorRates ++ [100 - receivedPackages / generatedPackages * 100]
        bandWidth := s.bandWidth ++ [totalBandwidth / groupOfPackets.2.length] }

def runInfo (sort : List ReceivedPacketInfo → List ReceivedPacketInfo)
    (received : List ReceivedPacketInfo) (runParameters : RunParameters) : RunInfo :=
  let allPackets := sort received
  let flowGroups := group ReceivedPacketInfo.fromApplication allPackets
  let totals := flowGroups.toList.foldl (addFlow applications interfaces) {}
  { totalAmountOfPackets := uint32 allPackets.length
    totalCost := totals.totalCost
    applicationErrorRates := totals.errorRates
    applicationBandWidth := totals.bandWidth
    parameters := runParameters }

end

/-- What `std::ranges::sort` does, with the application as the projection. -/
structure SortsByApplication (sort : List ReceivedPacketInfo → List ReceivedPacketInfo) :
    Prop where
  perm : ∀ packets, (sort packets).Perm packets
  sorted : ∀ packets, (sort packets).Pairwise fun p q => p.fromApplication ≤ q.fromApplication

/-! ## What the loop reports -/

/-- The received packets of an application. -/
def packetsFrom (applicationId : ℕ) (received : List ReceivedPacketInfo) :
    List ReceivedPacketInfo :=
  received.filter fun p => decide (p.fromApplication = applicationId)

def averageBandwidth (interfaces : List ISPInterface) (packets : List ReceivedPacketInfo) : ℚ :=
  ((packets.map (·.getDataRateInPacketPerSeconds interfaces)).sum : ℕ) / packets.length

def totalCostOf (interfaces : List ISPInterface) (packets : List ReceivedPacketInfo) : ℕ :=
  (packets.map (·.getCost interfaces)).sum

/-- The percentage of the packets of an application that have not been received. -/
def errorRate (received : List ReceivedPacketInfo) (app : Application) : ℚ :=
  100 * ((app.generatedPackets : ℚ) - (packetsFrom app.applicationId received).length) /
    app.generatedPackets

/-- The groups whose application is found, with it. -/
def flowsOf (applications : List Application) (groups : List (ℕ × List ReceivedPacketInfo)) :
    List (Application × List ReceivedPacketInfo) :=
  groups.filterMap fun g =>
    (applications.find? fun item => decide (item.applicationId = g.1)).map fun app => (app, g.2)

section

variable {applications : List Application} {interfaces : List ISPInterface}

theorem foldl_add {α M : Type} [AddCommMonoid M] (g : α → M) (xs : List α) (m : M) :
    xs.foldl (fun total x => total + g x) m = m + (xs.map g).sum := by
  induction xs generalizing m with
  | nil => simp
  | cons x xs ih => rw [List.foldl_cons, ih, List.map_cons, List.sum_cons, add_assoc]

theorem flowsOf_cons_of_none {g : ℕ × List ReceivedPacketInfo}
    {groups : List (ℕ × List ReceivedPacketInfo)}
    (h : (applications.find? fun item => decide (item.applicationId = g.1)) = none) :
    flowsOf applications (g :: groups) = flowsOf applications groups := by
  rw [flowsOf, List.filterMap_cons_none (by rw [h]; rfl), flowsOf]

theorem flowsOf_cons_of_some {g : ℕ × List ReceivedPacketInfo}
    {groups : List (ℕ × List ReceivedPacketInfo)} {app : Application}
    (h : (applications.find? fun item => decide (item.applicationId = g.1)) = some app) :
    flowsOf applications (g :: groups) = (app, g.2) :: flowsOf applications groups := by
  rw [flowsOf, List.filterMap_cons_some (by rw [h]; rfl), flowsOf]

theorem foldl_addFlow {groups : List (ℕ × List ReceivedPacketInfo)}
    (hne : ∀ g ∈ groups, g.2 ≠ []) (s : FlowTotals) :
    groups.foldl (addFlow applications interfaces) s = {
      totalCost := s.totalCost +
        ((flowsOf applications groups).map fun f => totalCostOf interfaces f.2).sum
      errorRates := s.errorRates ++ (flowsOf applications groups).map fun f =>
        100 - (f.2.length : ℚ) / f.1.generatedPackets * 100
      bandWidth := s.bandWidth ++
        (flowsOf applications groups).map fun f => averageBandwidth interfaces f.2 } := by
  induction groups generalizing s with
  | nil => simp [flowsOf]
  | cons g groups ih =>
    have hlength : ¬ g.2.length < 1 := by
      have := List.length_pos_iff.mpr (hne g List.mem_cons_self)
      omega
    rw [List.foldl_cons, ih fun g' hg' => hne g' (List.mem_cons_of_mem g hg'), addFlow,
      if_neg hlength]
    cases hfind : applications.find? fun item => decide (item.applicationId = g.1) with
    | none => rw [flowsOf_cons_of_none hfind]
    | some app =>
      simp only [flowsOf_cons_of_some hfind, List.map_cons, List.sum_cons, foldl_add, zero_add,
        List.append_assoc, List.singleton_append, Nat.add_assoc, totalCostOf, averageBandwidth,
        Nat.cast_list_sum, List.map_map, Function.comp_def]

theorem find?_applicationId (hids : (applications.map (·.applicationId)).Nodup) {id : ℕ}
    {app : Application} :
    (applications.find? fun item => decide (item.applicationId = id)) = some app ↔
      app ∈ applications ∧ app.applicationId = id := by
  constructor
  · intro h
    exact ⟨List.mem_of_find?_eq_some h, by simpa using List.find?_some h⟩
  · rintro ⟨happ, rfl⟩
    obtain ⟨app', h⟩ := Option.isSome_iff_exists.mp
      (List.find?_isSome.mpr ⟨app, happ, decide_eq_true rfl⟩ :
        (applications.find? fun item => decide (item.applicationId = app.applicationId)).isSome)
    have hid : app'.applicationId = app.applicationId := by simpa using List.find?_some h
    rw [h, List.inj_on_of_nodup_map hids (List.mem_of_find?_eq_some h) happ hid]

theorem packetsFrom_ne_nil {id : ℕ} {received : List ReceivedPacketInfo} :
    packetsFrom id received ≠ [] ↔ ∃ p ∈ received, p.fromApplication = id := by
  simp [packetsFrom, List.filter_eq_nil_iff]

/-- A group and its application are an application and the packets received from it. -/
theorem mem_flowsOf_group (hids : (applications.map (·.applicationId)).Nodup)
    {packets : List ReceivedPacketInfo} {f : Application × List ReceivedPacketInfo} :
    f ∈ flowsOf applications (group ReceivedPacketInfo.fromApplication packets).toList ↔
      f.1 ∈ applications ∧ packetsFrom f.1.applicationId packets ≠ [] ∧
        f.2 = packetsFrom f.1.applicationId packets := by
  rw [flowsOf, List.mem_filterMap, packetsFrom_ne_nil]
  constructor
  · rintro ⟨⟨id, g⟩, hg, hf⟩
    obtain ⟨app, happ, rfl⟩ := Option.map_eq_some_iff.mp hf
    obtain ⟨hmem, rfl⟩ := (find?_applicationId hids).mp happ
    exact ⟨hmem, mem_toList_group.mp hg⟩
  · rintro ⟨hmem, hoccurs, hf⟩
    refine ⟨(f.1.applicationId, f.2), mem_toList_group.mpr ⟨hoccurs, hf⟩, ?_⟩
    rw [(find?_applicationId hids).mpr ⟨hmem, rfl⟩]
    rfl

/-- The groups of applications in increasing order are found in that order. -/
theorem flowsOf_group (hids : applications.Pairwise fun a b => a.applicationId < b.applicationId)
    (packets : List ReceivedPacketInfo) :
    flowsOf applications (group ReceivedPacketInfo.fromApplication packets).toList =
      (applications.filter fun a => decide (packetsFrom a.applicationId packets ≠ [])).map
        fun a => (a, packetsFrom a.applicationId packets) := by
  have hnodup : (applications.map (·.applicationId)).Nodup :=
    (List.pairwise_map.mpr hids).imp Nat.ne_of_lt
  have hfound : (flowsOf applications
      (group ReceivedPacketInfo.fromApplication packets).toList).Pairwise
        fun f f' => f.1.applicationId < f'.1.applicationId := by
    refine Std.TreeMap.ordered_keys_toList.filterMap _ fun g g' hg f hf f' hf' => ?_
    obtain ⟨app, happ, rfl⟩ := Option.map_eq_some_iff.mp hf
    obtain ⟨app', happ', rfl⟩ := Option.map_eq_some_iff.mp hf'
    rw [((find?_applicationId hnodup).mp happ).2, ((find?_applicationId hnodup).mp happ').2]
    exact Nat.compare_eq_lt.mp hg
  have hlisted : ((applications.filter fun a =>
      decide (packetsFrom a.applicationId packets ≠ [])).map
        fun a => (a, packetsFrom a.applicationId packets)).Pairwise
          fun f f' => f.1.applicationId < f'.1.applicationId :=
    List.pairwise_map.mpr (hids.filter _)
  have hne : ∀ {f f' : Application × List ReceivedPacketInfo},
      f.1.applicationId < f'.1.applicationId → f ≠ f' := by
    rintro f _ h rfl
    exact h.false
  -- Both lists are in increasing order, so it is enough that they have the same members.
  refine List.Perm.eq_of_pairwise (fun f f' _ _ h h' => absurd h' h.not_gt) hfound hlisted
    ((List.perm_ext_iff_of_nodup (hfound.imp hne) (hlisted.imp hne)).mpr fun f => ?_)
  rw [mem_flowsOf_group hnodup, List.mem_map]
  constructor
  · rintro ⟨hmem, hoccurs, hf⟩
    exact ⟨f.1, List.mem_filter.mpr ⟨hmem, decide_eq_true hoccurs⟩, Prod.ext rfl hf.symm⟩
  · rintro ⟨a, ha, rfl⟩
    obtain ⟨hmem, hoccurs⟩ := List.mem_filter.mp ha
    exact ⟨hmem, of_decide_eq_true hoccurs, rfl⟩

variable {sort : List ReceivedPacketInfo → List ReceivedPacketInfo}
  {received : List ReceivedPacketInfo} {runParameters : RunParameters}

theorem runInfo_eq (hsort : SortsByApplication sort) :
    runInfo applications interfaces sort received runParameters = {
      totalAmountOfPackets := uint32 received.length
      totalCost := ((flowsOf applications (group ReceivedPacketInfo.fromApplication
        (sort received)).toList).map fun f => totalCostOf interfaces f.2).sum
      applicationErrorRates := (flowsOf applications (group ReceivedPacketInfo.fromApplication
        (sort received)).toList).map fun f =>
          100 - (f.2.length : ℚ) / f.1.generatedPackets * 100
      applicationBandWidth := (flowsOf applications (group ReceivedPacketInfo.fromApplication
        (sort received)).toList).map fun f => averageBandwidth interfaces f.2
      parameters := runParameters } := by
  have hne : ∀ g ∈ (group ReceivedPacketInfo.fromApplication (sort received)).toList,
      g.2 ≠ [] := by
    rintro ⟨id, g⟩ hg
    obtain ⟨hoccurs, rfl⟩ := mem_toList_group.mp hg
    exact packetsFrom_ne_nil.mpr hoccurs
  simp only [runInfo, foldl_addFlow hne, Nat.zero_add, List.nil_append,
    (hsort.perm received).length_eq]

theorem averageBandwidth_perm {packets packets' : List ReceivedPacketInfo}
    (h : packets.Perm packets') :
    averageBandwidth interfaces packets = averageBandwidth interfaces packets' := by
  rw [averageBandwidth, averageBandwidth, (h.map _).sum_eq, h.length_eq]

variable (interfaces received runParameters) in
/-- There is one entry for every application with a received packet, in their order. -/
theorem runInfo_vectors (hsort : SortsByApplication sort)
    (hids : applications.Pairwise fun a b => a.applicationId < b.applicationId)
    (hgenerated : ∀ app ∈ applications, 0 < app.generatedPackets) :
    (runInfo applications interfaces sort received runParameters).applicationErrorRates =
        (applications.filter fun a => decide (packetsFrom a.applicationId received ≠ [])).map
          (errorRate received) ∧
      (runInfo applications interfaces sort received runParameters).applicationBandWidth =
        (applications.filter fun a => decide (packetsFrom a.applicationId received ≠ [])).map
          fun a => averageBandwidth interfaces (packetsFrom a.applicationId received) := by
  have hperm : ∀ id, (packetsFrom id (sort received)).Perm (packetsFrom id received) :=
    fun id => (hsort.perm received).filter _
  have hoccurs : ∀ id, packetsFrom id (sort received) ≠ [] ↔ packetsFrom id received ≠ [] :=
    fun id => not_congr ⟨fun h => List.nil_perm.mp (h ▸ hperm id),
      fun h => List.perm_nil.mp (h ▸ hperm id)⟩
  rw [runInfo_eq hsort]
  simp only [flowsOf_group hids, List.map_map, hoccurs]
  constructor
  · refine List.map_congr_left fun a ha => ?_
    have hpos : (a.generatedPackets : ℚ) ≠ 0 := by
      have := hgenerated a (List.mem_of_mem_filter ha)
      exact_mod_cast this.ne'
    rw [Function.comp_apply, (hperm _).length_eq, errorRate]
    field_simp
  · exact List.map_congr_left fun a _ => averageBandwidth_perm (hperm _)

end

/-! ## Printing -/

theorem RunInfo.exists_row_iff {i : ℕ} {result : RunInfo} :
    (∃ row, result.row i = .ok row) ↔
      3 ≤ result.applicationBandWidth.length ∧ 3 ≤ result.applicationErrorRates.length := by
  constructor
  · rintro ⟨row, hrow⟩
    simp only [RunInfo.row, Result.bind_eq_ok, vectorAt_eq_ok] at hrow
    obtain ⟨-, -, -, -, b, hb, -, -, -, -, e, he, -⟩ := hrow
    exact ⟨(List.getElem?_eq_some_iff.mp hb).1, (List.getElem?_eq_some_iff.mp he).1⟩
  · rintro ⟨hb, he⟩
    rw [RunInfo.row, vectorAt_of_lt (by omega), vectorAt_of_lt (by omega),
      vectorAt_of_lt (by omega), vectorAt_of_lt (by omega), vectorAt_of_lt (by omega),
      vectorAt_of_lt (by omega)]
    exact ⟨_, rfl⟩

/-- The file of a campaign is written exactly when every run has three entries in its vectors. -/
theorem RunInfo.exists_printResultsToFile_iff {results : List RunInfo} :
    (∃ rows, printResultsToFile results = .ok rows) ↔ ∀ result ∈ results,
      3 ≤ result.applicationBandWidth.length ∧ 3 ≤ result.applicationErrorRates.length := by
  have hfrom : ∀ n, (∃ rows, (results.zipIdx n).mapM (fun (result, i) => result.row i) =
      .ok rows) ↔ ∀ result ∈ results,
        3 ≤ result.applicationBandWidth.length ∧ 3 ≤ result.applicationErrorRates.length := by
    induction results with
    | nil => exact fun n => iff_of_true ⟨[], rfl⟩ (by simp)
    | cons result results ih =>
      intro n
      rw [List.forall_mem_cons, ← exists_row_iff (i := n), ← ih (n + 1), List.zipIdx_cons,
        List.mapM_cons]
      simp only [Result.bind_eq_ok]
      constructor
      · rintro ⟨rows, row, hrow, rest, hrest, -⟩
        exact ⟨⟨row, hrow⟩, ⟨rest, hrest⟩⟩
      · rintro ⟨⟨row, hrow⟩, ⟨rest, hrest⟩⟩
        exact ⟨row :: rest, row, hrow, rest, hrest, rfl⟩
  exact hfrom 0

/-- The vectors of a run have one entry for each of three applications, in their order, and its
line shows every figure in the column of its application. -/
structure Reported (a₁ a₂ a₃ : Application) (interfaces : List ISPInterface)
    (received : List ReceivedPacketInfo) (result : RunInfo) : Prop where
  errorRates : result.applicationErrorRates = [a₁, a₂, a₃].map (errorRate received)
  bandWidth : result.applicationBandWidth = [a₁, a₂, a₃].map fun a =>
    averageBandwidth interfaces (packetsFrom a.applicationId received)
  printed : ∀ i, ∃ row, result.row i = .ok row ∧
    [row.application1ErrorRate, row.application2ErrorRate, row.application3ErrorRate] =
      [a₁, a₂, a₃].map (errorRate received) ∧
    [row.application1AverageBandWidth, row.application2AverageBandWidth,
        row.application3AverageBandWidth] =
      [a₁, a₂, a₃].map fun a => averageBandwidth interfaces (packetsFrom a.applicationId received)

theorem Reported.of_vectors {a₁ a₂ a₃ : Application} {interfaces : List ISPInterface}
    {received : List ReceivedPacketInfo} {result : RunInfo}
    (herror : result.applicationErrorRates = [a₁, a₂, a₃].map (errorRate received))
    (hband : result.applicationBandWidth = [a₁, a₂, a₃].map fun a =>
      averageBandwidth interfaces (packetsFrom a.applicationId received)) :
    Reported a₁ a₂ a₃ interfaces received result where
  errorRates := herror
  bandWidth := hband
  printed i := by
    rw [RunInfo.row, herror, hband]
    exact ⟨_, rfl, rfl, rfl⟩

/-- The figures of a run are reported for the right applications exactly when a packet of every
application has been received. -/
theorem reported_iff {sort : List ReceivedPacketInfo → List ReceivedPacketInfo}
    (hsort : SortsByApplication sort) {a₁ a₂ a₃ : Application}
    (hids : [a₁, a₂, a₃].map (·.applicationId) = [1, 2, 3])
    (hgenerated : ∀ app ∈ [a₁, a₂, a₃], 0 < app.generatedPackets)
    (interfaces : List ISPInterface) (received : List ReceivedPacketInfo)
    (runParameters : RunParameters) :
    Reported a₁ a₂ a₃ interfaces received
        (runInfo [a₁, a₂, a₃] interfaces sort received runParameters) ↔
      ∀ app ∈ [a₁, a₂, a₃], ∃ p ∈ received, p.fromApplication = app.applicationId := by
  have hincreasing : [a₁, a₂, a₃].Pairwise fun a b => a.applicationId < b.applicationId := by
    have h : [1, 2, 3].Pairwise fun m n : ℕ => m < n := by decide
    rw [← hids, List.pairwise_map] at h
    exact h
  obtain ⟨herror, hband⟩ :=
    runInfo_vectors interfaces received runParameters hsort hincreasing hgenerated
  simp only [← packetsFrom_ne_nil]
  constructor
  · intro h
    have hlength := congrArg List.length (herror.symm.trans h.errorRates)
    rw [List.length_map, List.length_map, List.length_filter_eq_length_iff] at hlength
    exact fun app happ => of_decide_eq_true (hlength app happ)
  · intro h
    have hall := List.filter_eq_self.mpr fun app happ => decide_eq_true (h app happ)
    rw [hall] at herror hband
    exact .of_vectors herror hband

/-- One way to sort. -/
def sortByApplication (packets : List ReceivedPacketInfo) : List ReceivedPacketInfo :=
  packets.mergeSort fun p q => decide (p.fromApplication ≤ q.fromApplication)

theorem sortsByApplication_sortByApplication : SortsByApplication sortByApplication where
  perm packets := List.mergeSort_perm packets _
  sorted packets := by
    have hpairwise : (sortByApplication packets).Pairwise fun p q =>
        decide (p.fromApplication ≤ q.fromApplication) = true :=
      List.pairwise_mergeSort
        (fun p q r hpq hqr => decide_eq_true
          ((of_decide_eq_true hpq).trans (of_decide_eq_true hqr)))
        (fun p q => by simpa using Nat.le_total _ _) packets
    exact hpairwise.imp of_decide_eq_true

/-- An application that has generated one packet. -/
def reportedApplication (id : ℕ) : Application :=
  .static {
    applicationId := id
    requiredDelay := 200
    errorRate := 20
    generatedPackets := 1
    amountOfPacketsToSend := 1
    requiredDataRate := 1024
    allPacketsGenerated := true }

def reportedInterface (cost : ℕ) : ISPInterface where
  interfaceId := 1
  netDevice := ⟨10240, 150, 0⟩
  outgoingAddress := ⟨1, Utils.connectionPort⟩
  destinationAddress := ⟨0, Utils.connectionPort⟩
  errorModel := 0
  cost := cost

def sampleParameters : RunParameters := ⟨1, 1, 1, 1, 1, 1, 50, 50, 50, .roundRobin⟩

theorem reported_iff_sample :
    Reported (reportedApplication 1) (reportedApplication 2) (reportedApplication 3)
      [reportedInterface 10] [⟨0, 2⟩, ⟨0, 1⟩, ⟨0, 3⟩]
      (runInfo [reportedApplication 1, reportedApplication 2, reportedApplication 3]
        [reportedInterface 10] sortByApplication [⟨0, 2⟩, ⟨0, 1⟩, ⟨0, 3⟩] sampleParameters) :=
  (reported_iff sortsByApplication_sortByApplication rfl (by decide) _ _ _).mpr (by decide)

/-- Nothing was received from the first application: the figures of the other two are in the
first two columns, and reading the third throws. -/
theorem reported_counterexample :
    ¬ Reported (reportedApplication 1) (reportedApplication 2) (reportedApplication 3)
        [reportedInterface 10] [⟨0, 2⟩, ⟨0, 3⟩]
        (runInfo [reportedApplication 1, reportedApplication 2, reportedApplication 3]
          [reportedInterface 10] sortByApplication [⟨0, 2⟩, ⟨0, 3⟩] sampleParameters) ∧
      RunInfo.printResultsToFile
        [runInfo [reportedApplication 1, reportedApplication 2, reportedApplication 3]
          [reportedInterface 10] sortByApplication [⟨0, 2⟩, ⟨0, 3⟩] sampleParameters] =
        .error .outOfRange := by
  have hids : [reportedApplication 1, reportedApplication 2, reportedApplication 3].Pairwise
      fun a b => a.applicationId < b.applicationId := by decide
  obtain ⟨herror, hband⟩ := runInfo_vectors [reportedInterface 10] [⟨0, 2⟩, ⟨0, 3⟩]
    sampleParameters sortsByApplication_sortByApplication hids (by decide)
  constructor
  · intro h
    have hlength := congrArg List.length (h.errorRates.symm.trans herror)
    exact absurd hlength (by decide)
  · simp only [RunInfo.printResultsToFile, List.zipIdx_singleton, List.mapM_cons, RunInfo.row,
      hband]
    rfl

end SdWan
