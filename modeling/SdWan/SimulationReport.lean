import SdWan.EndToEnd
import SdWan.RunSimulation

/-!
# What a simulation reports

A simulation of the program takes so few packets that no counter wraps around. Once everything has
arrived, its line of the results file therefore says what happened: how many packets each link
carried and what they cost, and which share of the packets of each application the error models
corrupted. There is a line only if a packet of every application arrived.
-/

open IntegerProgram

namespace SdWan

namespace SenderApplication

variable {env : Environment} {setup : Setup} {as : List Action} {x : SenderApplication}

/-- The packets that are taken come from the applications. -/
theorem origin_of_runs (hsolve : AnswersFeasibly env.solve) (h : Runs env setup as x) :
    ∀ t ∈ takenPackets as,
      t.2.1.originatedFrom ∈ setup.application.map (·.applicationId) := by
  have hboth : Originates setup x ∧ ∀ t ∈ takenPackets as,
      t.2.1.originatedFrom ∈ setup.application.map (·.applicationId) := by
    apply h.invariant (I := fun as x => Originates setup x ∧ ∀ t ∈ takenPackets as,
      t.2.1.originatedFrom ∈ setup.application.map (·.applicationId))
    · intro a x hinit
      refine ⟨originates_init hsolve hinit, fun t ht => ?_⟩
      obtain ⟨now, hstart⟩ := hinit
      obtain ⟨-, before, after, -, rfl, -⟩ := startApplication_eq_ok hstart
      cases ht
    · rintro as a x y - ⟨hx, htaken⟩ hstep
      obtain ⟨hy, horigin⟩ := step_originates hsolve hstep hx
      refine ⟨hy, fun t ht => ?_⟩
      rw [takenPackets_append, List.mem_append] at ht
      rcases ht with ht | ht
      · exact htaken t ht
      · cases a with
        | taken now l packetInfo isCorrupt =>
          rw [List.mem_singleton.mp ht]
          exact horigin now l packetInfo isCorrupt rfl
        | _ => cases ht
  exact hboth.2

theorem sum_takenFrom (hsolve : AnswersFeasibly env.solve)
    (hids : (setup.application.map (·.applicationId)).Nodup) (h : Runs env setup as x) :
    (setup.application.map fun app => takenFrom app.applicationId as).sum =
      (takenPackets as).length := by
  have hknown : ∀ p ∈ (takenPackets as).map fun t => t.2.1,
      p.originatedFrom ∈ setup.application.map (·.applicationId) :=
    List.forall_mem_map.mpr (origin_of_runs hsolve h)
  have hsum := sum_amountFrom hids hknown
  rwa [List.length_map] at hsum

end SenderApplication

namespace Transfer

variable {env : Environment} {setup : Setup} {ifaces : List ISPInterface} {events : List Event}
  {s : Transfer}

section

variable (hsolve : AnswersFeasibly env.solve) (husable : SenderApplication.Usable setup ifaces)
  (hids : (setup.application.map (·.applicationId)).Nodup) (h : Transfers env setup events s)
  (hs : Delivered s)

include hsolve husable hids h hs

/-- Every packet of an application was lost to the error model or has been received. -/
theorem total_of_delivered {app : Application} (happ : app ∈ setup.application) :
    app.total = lostFrom app.applicationId events +
      (packetsFrom app.applicationId s.receiver.receivedPacketInfo).length := by
  have htaken := SenderApplication.takenFrom_of_allSent hsolve husable hids (runs_of_transfers h)
    hs.allSent happ
  rw [← htaken, takenFrom_eq_add h hsolve, hs.inFlightFrom_eq_zero h,
    Nat.add_zero]

/-- All packets of all applications are taken, each of them once. -/
theorem length_taken_of_delivered :
    (taken events).length = (setup.application.map (·.total)).sum := by
  have hruns := runs_of_transfers h
  rw [taken, List.length_map, ← SenderApplication.sum_takenFrom hsolve hids hruns]
  congr 1
  exact List.map_congr_left fun app happ =>
    SenderApplication.takenFrom_of_allSent hsolve husable hids hruns hs.allSent happ

/-- The packets that are not received are those that were lost to the error models. -/
theorem received_add_lost :
    s.receiver.receivedPacketInfo.length +
        (setup.application.map fun app => lostFrom app.applicationId events).sum =
      (setup.application.map (·.total)).sum := by
  have hknown : ∀ p ∈ s.receiver.receivedPacketInfo,
      p.fromApplication ∈ setup.application.map (·.applicationId) := by
    intro p hp
    rw [← (SenderApplication.conserved_of_runs hsolve hids (runs_of_transfers h)).ids]
    exact (received_of_transfers hsolve h p hp).2
  have hperm := Grouping.flatMap_filter_perm ReceivedPacketInfo.fromApplication
    s.receiver.receivedPacketInfo hids
  rw [List.filter_eq_self.mpr fun p hp => decide_eq_true (hknown p hp)] at hperm
  have htotal : (setup.application.map (·.total)).sum =
      (setup.application.map fun app => lostFrom app.applicationId events +
        (packetsFrom app.applicationId s.receiver.receivedPacketInfo).length).sum := by
    congr 1
    exact List.map_congr_left fun app happ => total_of_delivered hsolve husable hids h hs happ
  rw [htotal, List.sum_map_add, ← hperm.length_eq, List.length_flatMap, List.map_map]
  exact Nat.add_comm _ _

/-- The applications have generated all their packets. -/
theorem generated_of_delivered (hfits : (setup.application.map (·.total)).sum < 2 ^ 32) :
    s.sender.strategy.applications.map (fun app => (app.applicationId, app.generatedPackets)) =
      setup.application.map fun app => (app.applicationId, app.total) := by
  have htaken : (taken events).length < 2 ^ 32 := by
    rwa [length_taken_of_delivered hsolve husable hids h hs]
  have hledger := SenderApplication.ledger_of_runs hsolve husable hids (runs_of_transfers h)
  have hmember := ((List.forall₂_and_left
    (p := fun app => app ∈ s.sender.strategy.applications) _ _).mpr
      ⟨fun _ h => h, ((List.forall₂_and_left (p := fun app => app ∈ setup.application) _ _).mpr
        ⟨fun _ h => h, hledger⟩).flip⟩).flip
  have heq : List.Forall₂ Eq
      (setup.application.map fun app => (app.applicationId, app.total))
      (s.sender.strategy.applications.map fun app => (app.applicationId, app.generatedPackets)) := by
    rw [List.forall₂_map_left_iff, List.forall₂_map_right_iff]
    apply hmember.imp
    rintro app₀ app ⟨happ, happ₀, hid, -⟩
    have hgenerated := generatedPackets_of_delivered hsolve h hs hids htaken happ
    have htotal := total_of_delivered hsolve husable hids h hs happ₀
    rw [hid] at hgenerated
    rw [hid, hgenerated, htotal]
  rw [List.forall₂_eq_eq_eq] at heq
  exact heq.symm

end

/-- When the sender has come to its end, what it sent can still arrive. -/
theorem exists_delivered_of_ended {as : List Action} {x : SenderApplication}
    (hsolve : AnswersFeasibly env.solve) (h : SenderApplication.Runs env setup as x)
    (hended : x.simulator.events = []) :
    ∃ events s, Transfers env setup events s ∧ s.sender = x ∧ Delivered s := by
  obtain ⟨s, hs, rfl, -, -⟩ := transfers_of_runs h
  obtain ⟨rest, s', hs', hsender, -, harrived⟩ := exists_allArrived hs
  refine ⟨_, s', hs', hsender, ?_, harrived⟩
  rw [hsender]
  exact SenderApplication.allSent_of_ended_run hsolve h hended

/-! ## The line of the results file -/

section

variable {sort : List ReceivedPacketInfo → List ReceivedPacketInfo}
  (hsort : SortsByApplication sort) (runParameters : RunParameters)
  (hsolve : AnswersFeasibly env.solve) (husable : SenderApplication.Usable setup ifaces)
  (hids : (setup.application.map (·.applicationId)).Pairwise (· < ·))
  (hfits : (setup.application.map (·.total)).sum < 2 ^ 32)
  (h : Transfers env setup events s) (hs : Delivered s)

include hsort hsolve husable hids hfits h hs

theorem errorRates_eq :
    (runInfo s.sender.strategy.applications s.sender.strategy.availableInterfaces sort
      s.receiver.receivedPacketInfo runParameters).applicationErrorRates =
        (setup.application.filter fun app =>
          decide (lostFrom app.applicationId events < app.total)).map fun app =>
            100 * (lostFrom app.applicationId events : ℚ) / app.total := by
  have hnodup : (setup.application.map (·.applicationId)).Nodup := hids.imp Nat.ne_of_lt
  have htaken : (taken events).length < 2 ^ 32 := by
    rwa [length_taken_of_delivered hsolve husable hnodup h hs]
  have hpairs : ∀ pairs : List (ℕ × ℕ), ∀ (apps : List Application) (count : Application → ℕ),
      apps.map (fun app => (app.applicationId, count app)) = pairs →
      (apps.filter fun app => decide (lostFrom app.applicationId events < count app)).map
          (fun app => 100 * (lostFrom app.applicationId events : ℚ) / count app) =
        (pairs.filter fun q => decide (lostFrom q.1 events < q.2)).map
          fun q => 100 * (lostFrom q.1 events : ℚ) / q.2 := by
    rintro pairs apps count rfl
    rw [List.filter_map, List.map_map]
    rfl
  rw [errorRates_of_delivered hsolve h hs hsort runParameters hids htaken,
    hpairs _ _ _ (generated_of_delivered hsolve husable hnodup h hs hfits)]
  exact (hpairs _ _ _ rfl).symm

/-- The line of a run is printed if a packet of every one of three applications was received. -/
theorem exists_row_iff (hthree : setup.application.length = 3) (i : ℕ) :
    (∃ row, (runInfo s.sender.strategy.applications s.sender.strategy.availableInterfaces sort
        s.receiver.receivedPacketInfo runParameters).row i = .ok row) ↔
      ∀ app ∈ setup.application, lostFrom app.applicationId events < app.total := by
  have hrates := congrArg List.length
    (errorRates_eq hsort runParameters hsolve husable hids hfits h hs)
  have hwidths : (runInfo s.sender.strategy.applications s.sender.strategy.availableInterfaces sort
      s.receiver.receivedPacketInfo runParameters).applicationBandWidth.length =
        (runInfo s.sender.strategy.applications s.sender.strategy.availableInterfaces sort
          s.receiver.receivedPacketInfo runParameters).applicationErrorRates.length := by
    rw [runInfo_eq hsort, List.length_map, List.length_map]
  rw [List.length_map] at hrates
  have hle := List.length_filter_le (fun app : Application =>
    decide (lostFrom app.applicationId events < app.total)) setup.application
  rw [RunInfo.exists_row_iff, hwidths, and_self, hrates]
  constructor
  · intro hthirds app happ
    have hlength : (setup.application.filter fun app =>
        decide (lostFrom app.applicationId events < app.total)).length =
          setup.application.length := by omega
    exact of_decide_eq_true (List.length_filter_eq_length_iff.mp hlength app happ)
  · intro hall
    rw [List.length_filter_eq_length_iff.mpr fun app happ => decide_eq_true (hall app happ), hthree]

end

end Transfer

namespace RunSimulation

variable {fp : FloatingPoint} {rand : ℕ → ℕ} {allPacketsGenerated : ℕ → Bool}
  {p : RunParameters} {drawn drawn' : ℕ} {setup : Setup} {trio : Trio p} {env : Environment}

/-- No application has more packets than 15 in each second. -/
theorem Configures.total_le (h : Configures trio allPacketsGenerated setup) (hlight : Light p) :
    ∀ app ∈ setup.application, app.total ≤ Utils.simulationDurationInSeconds * 15 + 15 := by
  intro app happ
  by_cases hlinear : p.strategyType = .linear
  · rw [h.static hlinear] at happ
    obtain ⟨s, hs, rfl⟩ := List.mem_map.mp happ
    have hle := SinApplication.packetsBefore_le (trio.value_le hlight hs) s.sinValues.length
    rw [(trio.sampled hs).length_eq] at hle
    change s.getTotalData ≤ _
    rw [s.getTotalData_eq, (trio.sampled hs).length_eq]
    exact (Nat.mod_le _ _).trans (by omega)
  · rw [h.sin hlinear] at happ
    obtain ⟨s, hs, rfl⟩ := List.mem_map.mp happ
    have hle := SinApplication.packetsBefore_le (trio.value_le hlight hs)
      Utils.simulationDurationInSeconds
    change s.packetsBefore Utils.simulationDurationInSeconds ≤ _
    omega

theorem Configures.length_application (h : Configures trio allPacketsGenerated setup) :
    setup.application.length = 3 := by
  have hlength := congrArg List.length h.ids
  rwa [List.length_map] at hlength

/-- No counter of a simulation wraps around. -/
theorem Configures.sum_total_lt (h : Configures trio allPacketsGenerated setup)
    (hlight : Light p) : (setup.application.map (·.total)).sum < 2 ^ 32 := by
  have hle := List.sum_le_card_nsmul (setup.application.map (·.total))
    (Utils.simulationDurationInSeconds * 15 + 15) (List.forall_mem_map.mpr (h.total_le hlight))
  rw [List.length_map, h.length_application] at hle
  exact hle.trans_lt (by decide)

theorem Configures.costs (h : Configures trio allPacketsGenerated setup) {as : List Action}
    {x : SenderApplication} (hruns : SenderApplication.Runs env setup as x) :
    x.strategy.availableInterfaces.map (·.cost) = [10, 20, 100] := by
  obtain ⟨s, hs, hlinks⟩ := SenderApplication.links_of_runs hruns
  rw [h.sockets] at hs
  cases hs
  have hcosts := congrArg (List.map ISPInterface.Attributes.cost) hlinks
  rw [List.map_map, List.map_map] at hcosts
  exact hcosts

theorem row_eq_ok {i : ℕ} {result : RunInfo} {row : RunRow} (h : result.row i = .ok row)
    {rates : List ℚ} (hrates : result.applicationErrorRates = rates) (hthree : rates.length = 3) :
    [row.application1ErrorRate, row.application2ErrorRate, row.application3ErrorRate] = rates := by
  obtain ⟨r₁, r₂, r₃, rfl⟩ := List.length_eq_three.mp hthree
  rw [RunInfo.row, hrates] at h
  simp only [Result.bind_eq_ok, vectorAt_eq_ok] at h
  obtain ⟨_, _, _, _, _, _, e₁, h₁, e₂, h₂, e₃, h₃, h⟩ := h
  cases h
  cases h₁
  cases h₂
  cases h₃
  rfl

section

variable {events : List Transfer.Event} {s : Transfer}
  {sort : List ReceivedPacketInfo → List ReceivedPacketInfo} {result : RunInfo}

/-- Once everything has arrived, every packet of the applications is either reported or was lost,
and the cost is that of the packets that the three links carried. The line of the simulation is
printed exactly if a packet of every application arrived, and then it shows which share of their
packets was lost. -/
theorem simulation_reports (hlight : Light p) (hrandom : p.strategyType ≠ .random)
    (hsetup : RunSimulation.setup fp rand allPacketsGenerated p drawn = .ok (setup, drawn'))
    (hsolve : AnswersFeasibly env.solve) (h : Transfer.Transfers env setup events s)
    (hs : Transfer.Delivered s) (hsort : SortsByApplication sort)
    (hresult : result = runInfo s.sender.strategy.applications
      s.sender.strategy.availableInterfaces sort s.receiver.receivedPacketInfo p) :
    (∃ slow medium fast,
        s.sender.strategy.availableInterfaces.map (·.correctPackages) = [slow, medium, fast] ∧
          result.totalAmountOfPackets = slow + medium + fast ∧
          result.totalCost = 10 * slow + 20 * medium + 100 * fast) ∧
      result.totalAmountOfPackets +
          (setup.application.map fun app => Transfer.lostFrom app.applicationId events).sum =
        (setup.application.map (·.total)).sum ∧
      ∀ i, ((∃ row, result.row i = .ok row) ↔
          ∀ app ∈ setup.application, Transfer.lostFrom app.applicationId events < app.total) ∧
        ∀ row, result.row i = .ok row →
          [row.application1ErrorRate, row.application2ErrorRate, row.application3ErrorRate] =
            setup.application.map fun app =>
              100 * (Transfer.lostFrom app.applicationId events : ℚ) / app.total := by
  subst hresult
  obtain ⟨trio, hconfigures⟩ := configures_of_setup hlight hsetup
  have husable := hconfigures.usable hrandom
  have hids : (setup.application.map (·.applicationId)).Pairwise (· < ·) := by
    rw [hconfigures.ids]
    decide
  have hnodup : (setup.application.map (·.applicationId)).Nodup := hids.imp Nat.ne_of_lt
  have hfits := hconfigures.sum_total_lt hlight
  have htaken : (Transfer.taken events).length < 2 ^ 32 := by
    rwa [Transfer.length_taken_of_delivered hsolve husable hnodup h hs]
  have hpackets := Transfer.totalPackets_of_delivered hsolve h hs hsort p htaken
  refine ⟨?_, ?_, fun i => ⟨?_, fun row hrow => ?_⟩⟩
  · have hcost := Transfer.totalCost_of_delivered hsolve h hs hsort p htaken
    have hlinks := hconfigures.costs (Transfer.runs_of_transfers h)
    have hthree := congrArg List.length hlinks
    rw [List.length_map] at hthree
    obtain ⟨slow, medium, fast, hifaces⟩ := List.length_eq_three.mp hthree
    rw [hpackets, hcost]
    rw [hifaces] at hlinks ⊢
    simp only [List.map_cons, List.map_nil, List.cons.injEq, and_true] at hlinks
    obtain ⟨hslow, hmedium, hfast⟩ := hlinks
    refine ⟨slow.correctPackages, medium.correctPackages, fast.correctPackages, rfl, ?_, ?_⟩
    · simp only [List.map_cons, List.map_nil, List.sum_cons, List.sum_nil]
      omega
    · simp only [List.map_cons, List.map_nil, List.sum_cons, List.sum_nil, hslow, hmedium, hfast]
      omega
  · rw [hpackets, ← Transfer.length_received hsolve h hs htaken]
    exact Transfer.received_add_lost hsolve husable hnodup h hs
  · exact Transfer.exists_row_iff hsort p hsolve husable hids hfits h hs
      hconfigures.length_application i
  · have hall := (Transfer.exists_row_iff hsort p hsolve husable hids hfits h hs
      hconfigures.length_application i).mp ⟨row, hrow⟩
    have hrates := Transfer.errorRates_eq hsort p hsolve husable hids hfits h hs
    rw [List.filter_eq_self.mpr fun app happ => decide_eq_true (hall app happ)] at hrates
    refine row_eq_ok hrow hrates ?_
    rw [List.length_map, hconfigures.length_application]

theorem simulation_reports_sample :
    ∃ setup events s, Transfer.Transfers sampleSearch setup events s ∧
      (runInfo s.sender.strategy.applications s.sender.strategy.availableInterfaces
          sortByApplication s.receiver.receivedPacketInfo sampleReactive).totalAmountOfPackets +
        (setup.application.map fun app => Transfer.lostFrom app.applicationId events).sum =
          (setup.application.map (·.total)).sum := by
  obtain ⟨setup, drawn', hsetup, hanswers⟩ := exists_sampleSetup
  have hsolve := sound_search 30
  obtain ⟨trio, h⟩ := configures_of_setup light_sampleReactive hsetup
  obtain ⟨⟨a, x⟩, hstart⟩ := h.exists_start_reactive light_sampleReactive rfl hsolve hanswers
    (by decide) (by decide) 0
  obtain ⟨bs, y, hy, hended⟩ := h.exists_ended_run light_sampleReactive StrategyTypes.noConfusion
    hsolve hanswers (.start ⟨0, hstart⟩)
  obtain ⟨events, s, hs, -, hdelivered⟩ :=
    Transfer.exists_delivered_of_ended hsolve.answersFeasibly hy.runs hended
  exact ⟨setup, events, s, hs, (simulation_reports light_sampleReactive
    StrategyTypes.noConfusion hsetup hsolve.answersFeasibly hs hdelivered
    sortsByApplication_sortByApplication rfl).2.1⟩

end

end RunSimulation

end SdWan
