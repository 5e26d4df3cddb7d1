import SdWan.Delivery
import SdWan.RunInfo
import SdWan.Schedulable
import SdWan.SinGenerator
import SdWan.Termination
import SdWan.Traffic

/-!
# One simulation

`RunSimulation` connects the sender and the receiver by a slow, a medium and a fast link, and gives
the sender three sampled applications, or static ones with the same packets for the linear strategy.
With peaks and noises that are as small as those of the program, the medium link is right for the
second application and the fast one for the other two, so that no computation but the first one of
the reactive strategy can fail. Every simulation that starts comes to an end, and all packets are
taken out of the queues then.
-/

open IntegerProgram

namespace SdWan

namespace RunSimulation

/-! ## The configuration -/

def slowDevice : NetDevice := ⟨Utils.convertPacketsPerSecondToBitPerSecond 10, 150, 1 / 5⟩

def mediumDevice : NetDevice := ⟨Utils.convertPacketsPerSecondToBitPerSecond 20, 100, 1 / 10⟩

def fastDevice : NetDevice := ⟨Utils.convertPacketsPerSecondToBitPerSecond 30, 30, 1 / 100⟩

/-- The address `10.1.network.host`. -/
def ipv4 (network host : ℕ) : ℕ := 10 * 2 ^ 24 + 1 * 2 ^ 16 + network * 2 ^ 8 + host

theorem fresh_of_mem_map (applications : List { app : Application // app.Fresh }) :
    ∀ app ∈ applications.map (·.1), app.Fresh :=
  List.forall_mem_map.mpr fun app _ => app.2

/-- The sender on the node `cpe`, the first host of every network. -/
def sender (strategyType : StrategyTypes)
    (applications : List { app : Application // app.Fresh }) : Setup where
  devices := [(slowDevice, [ipv4 1 1]), (mediumDevice, [ipv4 2 1]), (fastDevice, [ipv4 3 1])]
  addresses := [⟨ipv4 1 2, Utils.connectionPort⟩, ⟨ipv4 2 2, Utils.connectionPort⟩,
    ⟨ipv4 3 2, Utils.connectionPort⟩]
  costs := [10, 20, 100]
  application := applications.map (·.1)
  strategyType := strategyType
  fresh := fresh_of_mem_map applications

theorem fresh_staticApplication (app : SinApplication) (allPacketsGenerated : Bool) :
    (Application.static (app.staticApplication allPacketsGenerated)).Fresh := ⟨rfl, rfl⟩

/-- The vector `applications`. Nobody initialises the member `allPacketsGenerated` of the static
application with the number `id`, which holds `allPacketsGenerated id`. -/
def applications (strategyType : StrategyTypes) (allPacketsGenerated : ℕ → Bool)
    (apps : List { app : SinApplication // (Application.sin app).Fresh }) :
    List { app : Application // app.Fresh } :=
  if strategyType ≠ .linear then apps.map fun app => ⟨.sin app.1, app.2⟩
  else apps.map fun app => ⟨.static (app.1.staticApplication
    (allPacketsGenerated app.1.applicationId)), fresh_staticApplication _ _⟩

/-- What `RunSimulation` configures, and the number of calls of `std::rand` after it. -/
def setup (fp : FloatingPoint) (rand : ℕ → ℕ) (allPacketsGenerated : ℕ → Bool)
    (runParameters : RunParameters) (drawn : ℕ) : Result (Setup × ℕ) := do
  let (firstSinApplication, drawn) ← SinApplication.new fp rand 1 200 20
    runParameters.applicationOnePeak runParameters.applicationOneNoise
    runParameters.applicationOneShift drawn
  let (secondSinApplication, drawn) ← SinApplication.new fp rand 2 150 10
    runParameters.applicationTwoPeak runParameters.applicationTwoNoise
    runParameters.applicationTwoShift drawn
  let (thirdSinApplication, drawn) ← SinApplication.new fp rand 3 100 5
    runParameters.applicationThreePeak runParameters.applicationThreeNoise
    runParameters.applicationThreeShift drawn
  .ok (sender runParameters.strategyType (applications runParameters.strategyType
    allPacketsGenerated [firstSinApplication, secondSinApplication, thirdSinApplication]), drawn)

/-! ## The interfaces of the sender -/

def link (interfaceId : ℕ) (netDevice : NetDevice) (network cost : ℕ) : ISPInterface where
  interfaceId := interfaceId
  netDevice := netDevice
  outgoingAddress := ⟨ipv4 network 1, Utils.connectionPort⟩
  destinationAddress := ⟨ipv4 network 2, Utils.connectionPort⟩
  errorModel := netDevice.receiveErrorModel
  cost := cost

def links : List ISPInterface :=
  [link 101 slowDevice 1 10, link 102 mediumDevice 2 20, link 103 fastDevice 3 100]

theorem initSockets_sender (strategyType : StrategyTypes)
    (applications : List { app : Application // app.Fresh }) :
    SenderApplication.initSockets (sender strategyType applications) = .ok (links, 103) := rfl

/-! ## The applications -/

/-- No sample is more than half of what the fast link carries in a second. -/
structure Light (p : RunParameters) : Prop where
  one : p.applicationOnePeak + p.applicationOneNoise ≤ 15
  two : p.applicationTwoPeak + p.applicationTwoNoise ≤ 15
  three : p.applicationThreePeak + p.applicationThreeNoise ≤ 15

/-- The link that is right for an application of these. -/
def choice (id : ℕ) : Fin links.length := (if id = 2 then 1 else 2 : Fin 3)

/-- The three sampled applications. -/
structure Trio (p : RunParameters) where
  first : SinApplication
  second : SinApplication
  third : SinApplication
  builtFirst : first.Built 1 200 20 (p.applicationOnePeak + p.applicationOneNoise)
  builtSecond : second.Built 2 150 10 (p.applicationTwoPeak + p.applicationTwoNoise)
  builtThird : third.Built 3 100 5 (p.applicationThreePeak + p.applicationThreeNoise)

namespace Trio

variable {p : RunParameters}

def apps (trio : Trio p) : List SinApplication := [trio.first, trio.second, trio.third]

theorem ids (trio : Trio p) : trio.apps.map (·.applicationId) = [1, 2, 3] := by
  rw [apps, List.map_cons, List.map_cons, List.map_singleton, trio.builtFirst.applicationId,
    trio.builtSecond.applicationId, trio.builtThird.applicationId]

theorem value_le (trio : Trio p) (hlight : Light p) {app : SinApplication}
    (happ : app ∈ trio.apps) : ∀ value ∈ app.sinValues, value.2.toNat ≤ 15 := by
  intro value hvalue
  rw [apps, List.mem_cons, List.mem_cons, List.mem_singleton] at happ
  rcases happ with rfl | rfl | rfl
  · exact (trio.builtFirst.value_le value hvalue).trans hlight.one
  · exact (trio.builtSecond.value_le value hvalue).trans hlight.two
  · exact (trio.builtThird.value_le value hvalue).trans hlight.three

theorem sampled (trio : Trio p) {app : SinApplication} (happ : app ∈ trio.apps) :
    app.Sampled := by
  rw [apps, List.mem_cons, List.mem_cons, List.mem_singleton] at happ
  rcases happ with rfl | rfl | rfl
  · exact trio.builtFirst.sampled
  · exact trio.builtSecond.sampled
  · exact trio.builtThird.sampled

theorem getRequiredDataRate_le (trio : Trio p) (hlight : Light p) {app : SinApplication}
    (happ : app ∈ trio.apps) (id : ℕ) :
    app.getRequiredDataRate ≤ (links.get (choice id)).getDataBitRate := by
  have hmax : app.maxValue ≤ 15 := SinApplication.maxValue_le (trio.value_le hlight happ)
  refine (SinApplication.getRequiredDataRate_le hmax).trans ?_
  unfold choice
  split_ifs
  · decide
  · decide

theorem delay_le (trio : Trio p) {app : SinApplication} (happ : app ∈ trio.apps) :
    (links.get (choice app.applicationId)).getDelayInMilliseconds ≤ app.requiredDelay := by
  rw [apps, List.mem_cons, List.mem_cons, List.mem_singleton] at happ
  rcases happ with rfl | rfl | rfl
  · rw [trio.builtFirst.applicationId, trio.builtFirst.requiredDelay]
    decide
  · rw [trio.builtSecond.applicationId, trio.builtSecond.requiredDelay]
    decide
  · rw [trio.builtThird.applicationId, trio.builtThird.requiredDelay]
    decide

theorem errorRate_le (trio : Trio p) {app : SinApplication} (happ : app ∈ trio.apps) :
    (links.get (choice app.applicationId)).getErrorRate ≤ app.errorRate := by
  have hmedium : (links.get (choice 2)).getErrorRate = 10 := by decide +kernel
  have hfast : ∀ id, id ≠ 2 → (links.get (choice id)).getErrorRate = 1 := by
    intro id hid
    rw [choice, if_neg hid]
    decide +kernel
  rw [apps, List.mem_cons, List.mem_cons, List.mem_singleton] at happ
  rcases happ with rfl | rfl | rfl
  · rw [trio.builtFirst.applicationId, trio.builtFirst.errorRate, hfast 1 (by decide)]
    norm_num
  · rw [trio.builtSecond.applicationId, trio.builtSecond.errorRate, hmedium]
    norm_num
  · rw [trio.builtThird.applicationId, trio.builtThird.errorRate, hfast 3 (by decide)]
    norm_num

/-- What the links get. -/
theorem sum_choice (trio : Trio p) (demand : SinApplication → ℕ) (l : Fin links.length) :
    (trio.apps.map fun s => if choice s.applicationId = l then demand s else 0).sum =
      (if choice 1 = l then demand trio.first else 0) +
        ((if choice 2 = l then demand trio.second else 0) +
          if choice 3 = l then demand trio.third else 0) := by
  rw [apps, List.map_cons, List.map_cons, List.map_singleton, List.sum_cons, List.sum_cons,
    List.sum_singleton, trio.builtFirst.applicationId, trio.builtSecond.applicationId,
    trio.builtThird.applicationId]

theorem exists_plan (trio : Trio p) (hlight : Light p) :
    ∃ plan : Plan trio.apps links, ∀ demand : SinApplication → ℕ, demand trio.second ≤ 20 →
      demand trio.first + demand trio.third ≤ 30 → plan.Fits demand := by
  refine ⟨⟨choice, fun s hs => trio.getRequiredDataRate_le hlight hs _, fun s hs =>
    trio.delay_le hs, fun s hs => trio.errorRate_le hs⟩, fun demand hmedium hfast l => ?_⟩
  refine (trio.sum_choice demand l).trans_le ?_
  have hl : l = ⟨0, by decide⟩ ∨ l = ⟨1, by decide⟩ ∨ l = ⟨2, by decide⟩ := by
    revert l
    decide
  rcases hl with rfl | rfl | rfl
  · rw [if_neg (by decide), if_neg (by decide), if_neg (by decide)]
    exact Nat.zero_le _
  · rw [if_neg (by decide), if_pos (by decide), if_neg (by decide), Nat.zero_add]
    exact hmedium
  · rw [if_pos (by decide), if_neg (by decide), if_pos (by decide), Nat.zero_add]
    exact hfast

end Trio

/-! ## What is configured -/

/-- A sender with the three applications behind the three links. -/
structure Configures {p : RunParameters} (trio : Trio p) (allPacketsGenerated : ℕ → Bool)
    (setup : Setup) : Prop where
  strategyType : setup.strategyType = p.strategyType
  sockets : SenderApplication.initSockets setup = .ok (links, 103)
  sin : p.strategyType ≠ .linear → setup.application = trio.apps.map .sin
  static : p.strategyType = .linear → setup.application = trio.apps.map fun app =>
    .static (app.staticApplication (allPacketsGenerated app.applicationId))

section

variable {fp : FloatingPoint} {rand : ℕ → ℕ} {allPacketsGenerated : ℕ → Bool}
  {p : RunParameters} {drawn drawn' : ℕ} {setup : Setup} {trio : Trio p}

theorem exists_setup (fp : FloatingPoint) (rand : ℕ → ℕ) (allPacketsGenerated : ℕ → Bool)
    (hlight : Light p) (drawn : ℕ) :
    ∃ s, RunSimulation.setup fp rand allPacketsGenerated p drawn = .ok s := by
  obtain ⟨hone, htwo, hthree⟩ := hlight
  obtain ⟨s₁, hfirst⟩ := SinApplication.exists_new fp rand 1 200 20 p.applicationOnePeak
    p.applicationOneShift drawn (show p.applicationOneNoise + 1 < 2 ^ 31 by omega)
  obtain ⟨s₂, hsecond⟩ := SinApplication.exists_new fp rand 2 150 10 p.applicationTwoPeak
    p.applicationTwoShift s₁.2 (show p.applicationTwoNoise + 1 < 2 ^ 31 by omega)
  obtain ⟨s₃, hthird⟩ := SinApplication.exists_new fp rand 3 100 5 p.applicationThreePeak
    p.applicationThreeShift s₂.2 (show p.applicationThreeNoise + 1 < 2 ^ 31 by omega)
  refine ⟨_, Result.bind_eq_ok.mpr ⟨s₁, hfirst, Result.bind_eq_ok.mpr ⟨s₂, hsecond,
    Result.bind_eq_ok.mpr ⟨s₃, hthird, rfl⟩⟩⟩⟩

theorem configures_of_setup (hlight : Light p)
    (h : RunSimulation.setup fp rand allPacketsGenerated p drawn = .ok (setup, drawn')) :
    ∃ trio : Trio p, Configures trio allPacketsGenerated setup := by
  obtain ⟨hone, htwo, hthree⟩ := hlight
  obtain ⟨s₁, hfirst, h⟩ := Result.bind_eq_ok.mp h
  obtain ⟨s₂, hsecond, h⟩ := Result.bind_eq_ok.mp h
  obtain ⟨s₃, hthird, h⟩ := Result.bind_eq_ok.mp h
  cases h
  refine ⟨⟨s₁.1, s₂.1, s₃.1, SinApplication.built_of_new (by omega) (by omega) hfirst,
    SinApplication.built_of_new (by omega) (by omega) hsecond,
    SinApplication.built_of_new (by omega) (by omega) hthird⟩, rfl, initSockets_sender _ _,
    fun hlinear => ?_, fun hlinear => ?_⟩
  · rw [sender, applications, if_pos hlinear]
    rfl
  · rw [sender, applications, if_neg (not_not.mpr hlinear)]
    rfl

namespace Configures

theorem ids (h : Configures trio allPacketsGenerated setup) :
    setup.application.map (·.applicationId) = [1, 2, 3] := by
  rw [← trio.ids]
  by_cases hlinear : p.strategyType = .linear
  · rw [h.static hlinear, List.map_map]
    rfl
  · rw [h.sin hlinear, List.map_map]
    rfl

theorem usable (h : Configures trio allPacketsGenerated setup)
    (hrandom : p.strategyType ≠ .random) : SenderApplication.Usable setup links where
  sockets := ⟨103, h.sockets⟩
  nonempty := List.cons_ne_nil _ _
  rates := by decide
  longEnough app happ := by
    by_cases hlinear : p.strategyType = .linear
    · rw [h.static hlinear] at happ
      obtain ⟨s, hs, rfl⟩ := List.mem_map.mp happ
      trivial
    · rw [h.sin hlinear] at happ
      obtain ⟨s, hs, rfl⟩ := List.mem_map.mp happ
      rw [Application.LongEnough, (trio.sampled hs).length_eq]
      exact Nat.lt_succ_self _
  notRandom := h.strategyType ▸ hrandom
  width _ := by decide

/-! ## The linear strategy -/

theorem update_static (app : SDWanStaticApplication) :
    (Application.static app).update = .ok (.static app) := by
  rw [Application.update]
  split_ifs
  · rfl
  · rfl

/-- The computation of the linear strategy finds all packets at once. -/
theorem forall₂_static {apps : List SinApplication} {started updated : List Application}
    (hstarted : SenderApplication.forEach Application.onApplicationStart (apps.map fun app =>
      .static (app.staticApplication (allPacketsGenerated app.applicationId))) = .ok started)
    (hupdated : SenderApplication.forEach Application.update started = .ok updated) :
    List.Forall₂ (fun s app => app.requirements = (Application.sin s).requirements ∧
      app.pendingpackets.length = s.getTotalData) apps updated := by
  have hstart := List.forall₂_map_left_iff.mp (SenderApplication.forEach_eq_ok.mp hstarted)
  apply (forall₂_comp hstart (SenderApplication.forEach_eq_ok.mp hupdated)).imp
  rintro s app' ⟨app, hstart, hupdate⟩
  obtain ⟨n, hgenerates⟩ := Application.onApplicationStart_generates hstart
  cases hstart
  rw [update_static] at hupdate
  cases hupdate
  refine ⟨hgenerates.requirements, ?_⟩
  have hpushed := (s.staticApplication
    (allPacketsGenerated s.applicationId)).length_pushPackets s.getTotalData
  exact hpushed.trans (Nat.zero_add _)

/-- An application without packets requires no rate. -/
theorem getRequiredDataRate_eq_zero (hlight : Light p) {app : SinApplication}
    (happ : app ∈ trio.apps) (htotal : app.getTotalData = 0) : app.getRequiredDataRate = 0 := by
  have hlength := (trio.sampled happ).length_eq
  have hle := SinApplication.packetsBefore_le (trio.value_le hlight happ) app.sinValues.length
  have hsmall : app.sinValues.length * 15 < 2 ^ 32 := by
    rw [hlength]
    decide
  rw [app.getTotalData_eq, uint32_of_lt (by omega), SinApplication.packetsBefore,
    List.take_length, List.sum_eq_zero_iff] at htotal
  have hmax : app.maxValue ≤ 0 := SinApplication.maxValue_le fun value hvalue =>
    (htotal _ (List.mem_map_of_mem hvalue)).le
  have hrate := SinApplication.getRequiredDataRate_le hmax
  omega

/-! ## The whole run -/

section

open SenderApplication

variable {env : Environment} {now : Time} {as : List Action} {x : SenderApplication}

theorem laterPackets_eq_zero (h : Configures trio allPacketsGenerated setup)
    (hlinear : setup.strategyType = .linear) : laterPackets setup = 0 := by
  rw [laterPackets_eq_zero_iff, h.static (h.strategyType.symm.trans hlinear)]
  intro app happ value hvalue
  obtain ⟨s, -, rfl⟩ := List.mem_map.mp happ
  cases hvalue

theorem exists_start_linear (h : Configures trio allPacketsGenerated setup) (hlight : Light p)
    (hlinear : p.strategyType = .linear) (hsolve : AnswersFeasibly env.solve)
    (hanswers : AnswersCalls env setup) (now : Time) :
    ∃ s, startApplication env now setup = .ok s := by
  have htype : setup.strategyType = .linear := h.strategyType.trans hlinear
  have hrandom : p.strategyType ≠ .random := hlinear ▸ StrategyTypes.noConfusion
  cases hfails : startApplication env now setup with
  | ok s => exact ⟨s, rfl⟩
  | error f =>
    obtain ⟨started, updated, hstarted, hupdated, hinfeasible⟩ :=
      infeasible_of_start hsolve (h.usable hrandom) hfails
    rw [htype] at hinfeasible
    have hcalled : ComputeCalled env setup _ := .start h.sockets hstarted hupdated
    rw [h.static hlinear] at hstarted
    have hstatic := forall₂_static hstarted hupdated
    obtain ⟨plan, -⟩ := trio.exists_plan hlight
    have hidle : ∀ app ∈ updated, app.pendingpackets = [] → app.getRequiredDataRate = 0 := by
      intro app happ hnone
      obtain ⟨s, hs, hrequirements, hpending⟩ := forall₂_mem_right hstatic happ
      rw [hnone] at hpending
      exact (congrArg Application.Requirements.requiredDataRate hrequirements).trans
        (getRequiredDataRate_eq_zero hlight hs hpending.symm)
    have hdemands : Demands (·.getTotalData) trio.apps updated :=
      hstatic.imp fun _ _ happ => ⟨happ.1, happ.2.le⟩
    obtain ⟨y, hy⟩ := plan.exists_feasible_linear hdemands hidle
    have hanswer := hanswers _ hcalled now _ (htype ▸ List.mem_singleton_self _) _ hy
    cases hinfeasible with
    | linear _ hnone =>
      rw [hnone] at hanswer
      cases hanswer

theorem exists_start_reactive (h : Configures trio allPacketsGenerated setup) (hlight : Light p)
    (hreactive : p.strategyType = .reactive) (hsolve : Sound env.solve)
    (hanswers : AnswersCalls env setup)
    (htwo : p.applicationTwoPeak + p.applicationTwoNoise ≤ 10)
    (hothers : p.applicationOnePeak + p.applicationOneNoise +
      (p.applicationThreePeak + p.applicationThreeNoise) ≤ 15) (now : Time) :
    ∃ s, startApplication env now setup = .ok s := by
  have hlinear : p.strategyType ≠ .linear := hreactive ▸ StrategyTypes.noConfusion
  have hrandom : p.strategyType ≠ .random := hreactive ▸ StrategyTypes.noConfusion
  obtain ⟨plan, hfits⟩ := trio.exists_plan hlight
  have hfirst := SinApplication.packetsBefore_le trio.builtFirst.value_le 2
  have hsecond := SinApplication.packetsBefore_le trio.builtSecond.value_le 2
  have hthird := SinApplication.packetsBefore_le trio.builtThird.value_le 2
  exact exists_start hsolve hanswers (h.strategyType.trans hreactive) (h.sin hlinear)
    (h.usable hrandom) plan (hfits _ (by omega) (by omega)) now

theorem exists_start_roundRobin (h : Configures trio allPacketsGenerated setup)
    (hroundRobin : p.strategyType = .roundRobin) (hsolve : AnswersFeasibly env.solve)
    (now : Time) : ∃ s, startApplication env now setup = .ok s := by
  have hrandom : p.strategyType ≠ .random := hroundRobin ▸ StrategyTypes.noConfusion
  cases hfails : startApplication env now setup with
  | ok s => exact ⟨s, rfl⟩
  | error f =>
    obtain ⟨started, updated, -, -, hinfeasible⟩ :=
      infeasible_of_start hsolve (h.usable hrandom) hfails
    rw [h.strategyType, hroundRobin] at hinfeasible
    cases hinfeasible

/-- No event fails. -/
theorem exists_run (h : Configures trio allPacketsGenerated setup) (hlight : Light p)
    (hrandom : p.strategyType ≠ .random) (hsolve : Sound env.solve)
    (hanswers : AnswersCalls env setup) (hruns : TimedRuns env setup as x)
    {e : EventQueue.Event Time Handler} (hnext : x.simulator.IsNext e) {poll : Poll}
    (hpoll : Willing poll) : ∃ s, run env e.ts poll e x = .ok s := by
  by_cases hreactive : p.strategyType = .reactive
  · have hlinear : p.strategyType ≠ .linear := hreactive ▸ StrategyTypes.noConfusion
    obtain ⟨plan, hfits⟩ := trio.exists_plan hlight
    have hmax : ∀ s ∈ trio.apps, s.maxValue ≤ 15 := fun s hs =>
      SinApplication.maxValue_le (trio.value_le hlight hs)
    have hfirst := hmax trio.first (by simp [Trio.apps])
    have hsecond := hmax trio.second (by simp [Trio.apps])
    have hthird := hmax trio.third (by simp [Trio.apps])
    exact exists_run_of_plan hsolve hanswers (h.strategyType.trans hreactive) (h.sin hlinear)
      (h.usable hrandom) plan (hfits _ (by omega) (by omega)) hruns hnext hpoll
  · cases hfails : run env e.ts poll e x with
    | ok s => exact ⟨s, rfl⟩
    | error f =>
      obtain ⟨htype, -⟩ := infeasible_of_run_error hsolve.answersFeasibly (h.usable hrandom)
        hruns.runs hnext.mem hpoll hfails
      exact absurd (h.strategyType.symm.trans htype) hreactive

theorem exists_length_le (h : Configures trio allPacketsGenerated setup)
    (hrandom : p.strategyType ≠ .random) (hsolve : AnswersFeasibly env.solve) :
    ∃ n, ∀ as x, TimedRuns env setup as x → as.length ≤ n := by
  have husable := h.usable hrandom
  obtain ⟨apps, happs⟩ : ∃ apps,
      forEach Application.onApplicationStart setup.application = .ok apps :=
    exists_forEach fun app happ => Application.exists_onApplicationStart (setup.fresh app happ)
      (husable.longEnough app happ)
  refine ⟨(firstEvents links.length).totalTurns (interval links)
    (span links (undelivered apps)) + 1, fun as x hruns => ?_⟩
  obtain ⟨start, -, hle⟩ := length_add_totalTurns_le hsolve husable h.laterPackets_eq_zero happs
    hruns
  exact (Nat.le_add_right _ _).trans hle

/-- Every run goes on until no event is left. -/
theorem exists_ended_run (h : Configures trio allPacketsGenerated setup) (hlight : Light p)
    (hrandom : p.strategyType ≠ .random) (hsolve : Sound env.solve)
    (hanswers : AnswersCalls env setup) (hruns : TimedRuns env setup as x) :
    ∃ bs y, TimedRuns env setup (as ++ bs) y ∧ y.simulator.events = [] := by
  obtain ⟨n, hn⟩ := h.exists_length_le hrandom hsolve.answersFeasibly
  refine Transition.Reaches.exists_final hn (fun as x hruns hleft => ?_) hruns
  obtain ⟨e, he⟩ := List.exists_mem_of_ne_nil _ hleft
  obtain ⟨e, hnext⟩ := EventQueue.exists_isNext he
  have hpoll : Willing ⟨Utils.packetSizeByte, false, Utils.packetSizeByte⟩ := ⟨le_rfl, rfl⟩
  obtain ⟨⟨a, y⟩, hrun⟩ := h.exists_run hlight hrandom hsolve hanswers hruns hnext hpoll
  exact ⟨a, y, _, e, hnext, le_rfl, hrun⟩

end

end Configures

end

/-! ## The simulation -/

section

open SenderApplication

variable {fp : FloatingPoint} {rand : ℕ → ℕ} {allPacketsGenerated : ℕ → Bool}
  {p : RunParameters} {drawn drawn' : ℕ} {setup : Setup} {env : Environment}

/-- Small peaks, so that the reactive strategy starts. -/
def sampleReactive : RunParameters := ⟨4, 4, 4, 1, 2, 3, 50, 100, 150, .reactive⟩

/-- The solver that tries all amounts up to 30 is enough for the sampled simulation. -/
def sampleSearch : Environment := { sampleEnvironment with solve := search 30 }

theorem light_sampleReactive : Light sampleReactive := ⟨by decide, by decide, by decide⟩

theorem exists_sampleSetup :
    ∃ setup drawn', RunSimulation.setup SinGenerator.sampleFloatingPoint
        (fun n => 1103515245 * n % 2 ^ 31) (fun _ => false) sampleReactive 0 =
          .ok (setup, drawn') ∧ AnswersCalls sampleSearch setup := by
  have hlight := light_sampleReactive
  obtain ⟨⟨setup, drawn'⟩, hsetup⟩ := exists_setup SinGenerator.sampleFloatingPoint
    (fun n => 1103515245 * n % 2 ^ 31) (fun _ => false) hlight 0
  obtain ⟨trio, h⟩ := configures_of_setup hlight hsetup
  refine ⟨setup, drawn', hsetup, ?_⟩
  refine answersCalls_search rfl h.strategyType (h.sin StrategyTypes.noConfusion) h.sockets
    (fun s hs => ?_) (fun s hs => ?_)
  · exact (SinApplication.packetsBefore_le (trio.value_le hlight hs) 2).trans (by decide)
  · exact (SinApplication.maxValue_le (trio.value_le hlight hs)).trans (by decide)

end

end RunSimulation

end SdWan
