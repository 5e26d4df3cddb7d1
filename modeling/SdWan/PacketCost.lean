import SdWan.Conservation
import SdWan.RunInfo

/-!
# The average cost of a packet

Every received packet comes from an application of the sender, over one of its interfaces, so the
total cost of a run is the sum of the costs of its packets. `getAveragePacketCost` divides the
number of packets by this total.
-/

open IntegerProgram Framing Grouping

namespace SdWan

/-! ## Where packets come from -/

namespace SenderApplication

/-- Every queued packet comes from an application. -/
structure Originates (setup : Setup) (x : SenderApplication) : Prop where
  ids : x.strategy.applications.map (·.applicationId) = setup.application.map (·.applicationId)
  queued : ∀ i ∈ x.strategy.availableInterfaces, ∀ p ∈ i.pendingpackets,
    p.originatedFrom ∈ setup.application.map (·.applicationId)

theorem queuedTotal_eq_zero_iff {g : SendPacketInfo → ℕ} {ifaces : List ISPInterface} :
    queuedTotal (fun _ => g) ifaces = 0 ↔ ∀ i ∈ ifaces, ∀ p ∈ i.pendingpackets, g p = 0 := by
  simp only [queuedTotal, List.sum_eq_zero_iff, List.forall_mem_map]

variable {env : Environment} {setup : Setup}

theorem Drains.originates {now : Time} {s s' : Strategy} {f : ℕ → List SendPacketInfo}
    (h : Drains now s s' f) {ids : List ℕ}
    (hids : ∀ app ∈ s.applications, app.applicationId ∈ ids)
    (hqueued : ∀ i ∈ s.availableInterfaces, ∀ p ∈ i.pendingpackets, p.originatedFrom ∈ ids) :
    ∀ i ∈ s'.availableInterfaces, ∀ p ∈ i.pendingpackets, p.originatedFrom ∈ ids := by
  -- The packets from elsewhere are counted; draining adds none.
  let stray : SendPacketInfo → ℕ := fun p => if p.originatedFrom ∈ ids then 0 else 1
  have hstray : ∀ p, stray p = 0 ↔ p.originatedFrom ∈ ids := by
    intro p
    simp [stray]
  have hmoved : totalOver (fun _ => stray) s.availableInterfaces f = 0 := by
    rw [h.moved, List.sum_eq_zero_iff, List.forall_mem_map]
    intro app happ
    rw [(hstray _).mpr (hids app happ), Nat.mul_zero]
  simp only [← hstray] at hqueued ⊢
  rw [← queuedTotal_eq_zero_iff] at hqueued ⊢
  rw [h.availableInterfaces, queuedTotal_appendAt, hqueued, hmoved]

theorem Computes.originates (hsolve : AnswersFeasibly env.solve) {now : Time}
    {x y : SenderApplication} {before after : Strategy} (h : Computes env now x y before after)
    (hx : Originates setup x) : Originates setup y where
  ids := (h.map_applicationId hsolve).trans hx.ids
  queued := by
    have hids : ∀ app ∈ before.applications,
        app.applicationId ∈ setup.application.map (·.applicationId) := by
      intro app happ
      rw [← hx.ids, ← map_applicationId_of_generates (updated_generates h.updated)]
      exact List.mem_map_of_mem happ
    have hqueued := hx.queued
    have hifaces : before.availableInterfaces = x.strategy.availableInterfaces := by
      rw [h.before_eq]
    rw [← hifaces] at hqueued
    rw [h.strategy]
    rcases Strategy.compute_effect hsolve h.computed with ⟨-, -, hsame⟩ | ⟨f, hdrains⟩
    · rwa [hsame]
    · exact Drains.originates hdrains hids hqueued

theorem originates_init (hsolve : AnswersFeasibly env.solve) {a : Action} {x : SenderApplication}
    (h : Init env setup a x) : Originates setup x := by
  obtain ⟨now, hstart⟩ := h
  obtain ⟨x₀, before, after, hstarted, -, hcomputes⟩ := startApplication_eq_ok hstart
  refine hcomputes.originates hsolve ⟨?_, ?_⟩
  · exact map_applicationId_of_generates
      (hstarted.applications.imp fun _ _ happ => Application.onApplicationStart_generates happ)
  · intro i hi p hp
    rw [hstarted.created.pendingpackets i hi] at hp
    cases hp

/-- What remains of a queue comes from where it came from. -/
theorem sendData_originates {now : Time} {poll : Poll} {l : ℕ} {x y : SenderApplication}
    {a : Action} (h : sendData now poll l x = .ok (a, y)) (hx : Originates setup x) :
    Originates setup y ∧ ∀ now l packetInfo isCorrupt, a = .taken now l packetInfo isCorrupt →
      packetInfo.originatedFrom ∈ setup.application.map (·.applicationId) := by
  have hids : y.strategy.applications.map (·.applicationId) =
      setup.application.map (·.applicationId) := by
    rw [strategy_of_sendData h]
    exact hx.ids
  obtain ⟨interface, hl, -, -, hcases⟩ := sendData_eq_ok h
  rcases hcases with ⟨rfl, hstrategy, -⟩ | ⟨packetInfo, rest, hqueue, rfl, hstrategy⟩
  · refine ⟨⟨hids, ?_⟩, fun _ _ _ _ ha => by cases ha⟩
    rw [hstrategy]
    exact hx.queued
  · have hinterface := hx.queued interface (List.mem_of_getElem? hl)
    rw [hqueue, List.forall_mem_cons] at hinterface
    refine ⟨⟨hids, ?_⟩, fun _ _ _ _ ha => ?_⟩
    · rw [hstrategy]
      intro i hi p hp
      rcases List.mem_or_eq_of_mem_set hi with hi | rfl
      · exact hx.queued i hi p hp
      · rw [pendingpackets_afterSend] at hp
        exact hinterface.2 p hp
    · cases ha
      exact hinterface.1

/-- A step keeps the origins, and a packet it takes comes from an application. -/
theorem step_originates (hsolve : AnswersFeasibly env.solve) {x y : SenderApplication} {a : Action}
    (h : Step env x a y) (hx : Originates setup x) :
    Originates setup y ∧ ∀ now l packetInfo isCorrupt, a = .taken now l packetInfo isCorrupt →
      packetInfo.originatedFrom ∈ setup.application.map (·.applicationId) := by
  obtain ⟨now, poll, e, -, hrun⟩ := h
  rcases run_cases hrun with
    ⟨-, before, after, rfl, hcomputes⟩ | ⟨l, -, ⟨-, rfl, rfl⟩ | ⟨-, hsend⟩⟩
  · exact ⟨hcomputes.originates hsolve ⟨hx.ids, hx.queued⟩, fun _ _ _ _ ha => by cases ha⟩
  · exact ⟨⟨hx.ids, hx.queued⟩, fun _ _ _ _ ha => by cases ha⟩
  · exact sendData_originates hsend ⟨hx.ids, hx.queued⟩

end SenderApplication

namespace ReceiverApplication

/-- The packets attributed to an interface are all packets if there are none for another one. -/
theorem receivedFrom_eq_self {l : ℕ} {r : ReceiverApplication}
    (h : ∀ l' ≠ l, r.receivedFrom l' = []) : r.receivedFrom l = r.receivedPacketInfo := by
  apply List.filter_eq_self.mpr
  intro p hp
  rw [decide_eq_true_iff]
  by_contra hne
  have hmem : p ∈ r.receivedFrom p.fromInterface :=
    List.mem_filter.mpr ⟨hp, decide_eq_true rfl⟩
  rw [h _ hne] at hmem
  cases hmem

/-- Only positions of interfaces are recorded. -/
theorem handleRead_fromInterface_lt {interfaces : List ISPInterface} (originFlowId : ℕ)
    {socket : AcceptedSocket} {r : ReceiverApplication}
    (hr : ∀ p ∈ r.receivedPacketInfo, p.fromInterface < interfaces.length) :
    ∀ p ∈ (handleRead interfaces originFlowId socket r).2.receivedPacketInfo,
      p.fromInterface < interfaces.length := by
  fun_induction handleRead interfaces originFlowId socket r with
  | case1 originFlowId socket r havailable received originFlowId' ih =>
    refine ih ?_
    unfold receive
    dsimp only
    split
    · rename_i interface hfind
      rw [List.forall_mem_append, List.forall_mem_singleton]
      exact ⟨hr, (List.findIdx?_eq_some_iff_getElem.mp hfind).1⟩
    · exact hr
  | case2 originFlowId socket r hempty => exact hr

end ReceiverApplication

namespace Transfer

variable {env : Environment} {setup : Setup}

/-- Only the packets that are taken and not corrupt are sent. -/
theorem mem_sentOn_sender {l id : ℕ} {a : Action}
    (h : id ∈ (Event.sender a).sentOn l) :
    ∃ now packetInfo, a = .taken now l packetInfo false ∧ id = packetInfo.originatedFrom := by
  unfold Event.sentOn at h
  split at h
  · rename_i now l' packetInfo heq
    cases heq
    split_ifs at h with hl
    · subst hl
      exact ⟨now, packetInfo, rfl, List.mem_singleton.mp h⟩
    · cases h
  · cases h

/-- Every packet on its way or received comes from an application, over an interface. -/
structure Known (setup : Setup) (events : List Event) (s : Transfer) : Prop where
  originates : SenderApplication.Originates setup s.sender
  sent : ∀ l, ∀ id ∈ sentOn l events, id ∈ setup.application.map (·.applicationId)
  received : ∀ p ∈ s.receiver.receivedPacketInfo,
    p.fromInterface < s.sender.strategy.availableInterfaces.length

theorem known_init (hsolve : AnswersFeasibly env.solve) {e : Event} {s : Transfer}
    (h : Init env setup e s) : Known setup [e] s := by
  obtain ⟨a, x, hinit, rfl, rfl⟩ := h
  refine ⟨SenderApplication.originates_init hsolve hinit, ?_, fun p hp => by cases hp⟩
  obtain ⟨now, hstart⟩ := hinit
  obtain ⟨x₀, before, after, -, rfl, -⟩ := SenderApplication.startApplication_eq_ok hstart
  intro l id hid
  cases hid

theorem known_step (hsolve : AnswersFeasibly env.solve) {events : List Event} {e : Event}
    {s s' : Transfer} (hs : Known setup events s) (h : Step env s e s') :
    Known setup (events ++ [e]) s' := by
  cases h with
  | @sender a x hstep =>
    obtain ⟨horiginates, htaken⟩ := SenderApplication.step_originates hsolve hstep hs.originates
    refine ⟨horiginates, ?_, ?_⟩
    · intro l id hid
      rw [sentOn_concat, List.mem_append] at hid
      rcases hid with hid | hid
      · exact hs.sent l id hid
      · obtain ⟨now, packetInfo, rfl, rfl⟩ := mem_sentOn_sender hid
        exact htaken _ _ _ _ rfl
    · have hlength := congrArg List.length (SenderApplication.step_attributes hstep)
      rw [List.length_map, List.length_map] at hlength
      rw [hlength]
      exact hs.received
  | @delivered l n i c hi hc hn =>
    refine ⟨hs.originates, ?_, hs.received⟩
    intro l' id hid
    rw [sentOn_concat] at hid
    exact hs.sent l' id (by simpa [Event.sentOn] using hid)
  | @read l c originFlowId hc =>
    refine ⟨hs.originates, ?_, ?_⟩
    · intro l' id hid
      rw [sentOn_concat] at hid
      exact hs.sent l' id (by simpa [Event.sentOn] using hid)
    · exact ReceiverApplication.handleRead_fromInterface_lt originFlowId hs.received

theorem known_of_transfers (hsolve : AnswersFeasibly env.solve) {events : List Event}
    {s : Transfer} (h : Transfers env setup events s) : Known setup events s :=
  h.invariant (fun _ _ hinit => known_init hsolve hinit)
    fun _ _ _ _ _ hs hstep => known_step hsolve hs hstep

/-- Every received packet comes from an application of the sender, over one of its interfaces. -/
theorem received_of_transfers (hsolve : AnswersFeasibly env.solve) {events : List Event}
    {s : Transfer} (h : Transfers env setup events s) :
    ∀ p ∈ s.receiver.receivedPacketInfo,
      p.fromInterface < s.sender.strategy.availableInterfaces.length ∧
        p.fromApplication ∈ s.sender.strategy.applications.map (·.applicationId) := by
  intro p hp
  have hknown := known_of_transfers hsolve h
  have hmatched := matched_of_transfers h
  have hl := hknown.received p hp
  refine ⟨hl, ?_⟩
  obtain ⟨read, -, hreceived⟩ :=
    (hmatched.aligned p.fromInterface _ (List.getElem?_eq_getElem (hmatched.length_eq ▸ hl))).reads
  have hmem : p ∈ s.receiver.receivedFrom p.fromInterface :=
    List.mem_filter.mpr ⟨hp, decide_eq_true rfl⟩
  rw [hreceived] at hmem
  obtain ⟨id, hid, hpid⟩ := List.mem_map.mp hmem
  rw [hknown.originates.ids, ← hpid]
  exact hknown.sent _ id (List.mem_of_mem_take hid)

end Transfer

/-! ## The total cost -/

section

variable {applications : List Application} {interfaces : List ISPInterface}
  {sort : List ReceivedPacketInfo → List ReceivedPacketInfo}
  {received : List ReceivedPacketInfo} {runParameters : RunParameters}

theorem map_snd_flowsOf {groups : List (ℕ × List ReceivedPacketInfo)}
    (h : ∀ g ∈ groups, g.1 ∈ applications.map (·.applicationId)) :
    (flowsOf applications groups).map Prod.snd = groups.map Prod.snd := by
  induction groups with
  | nil => rfl
  | cons g groups ih =>
    obtain ⟨hg, hgroups⟩ := List.forall_mem_cons.mp h
    obtain ⟨app, happ, hid⟩ := List.mem_map.mp hg
    obtain ⟨found, hfound⟩ : ∃ found, (applications.find? fun item =>
        decide (item.applicationId = g.1)) = some found :=
      Option.isSome_iff_exists.mp (List.find?_isSome.mpr ⟨app, happ, decide_eq_true hid⟩)
    rw [flowsOf_cons_of_some hfound, List.map_cons, List.map_cons, ih hgroups]

/-- The groups together cost what the packets cost. -/
theorem totalCost_runInfo (hsort : SortsByApplication sort)
    (hknown : ∀ p ∈ received, p.fromApplication ∈ applications.map (·.applicationId)) :
    (runInfo applications interfaces sort received runParameters).totalCost =
      totalCostOf interfaces received := by
  have hfound : ∀ g ∈ (group ReceivedPacketInfo.fromApplication (sort received)).toList,
      g.1 ∈ applications.map (·.applicationId) := by
    rintro ⟨id, g⟩ hg
    obtain ⟨⟨p, hp, rfl⟩, -⟩ := mem_toList_group.mp hg
    exact hknown p ((hsort.perm received).mem_iff.mp hp)
  have hperm := (flatMap_toList_group ReceivedPacketInfo.fromApplication (sort received)).trans
    (hsort.perm received)
  rw [runInfo_eq hsort]
  calc ((flowsOf applications (group ReceivedPacketInfo.fromApplication
        (sort received)).toList).map fun f => totalCostOf interfaces f.2).sum
      = (((group ReceivedPacketInfo.fromApplication (sort received)).toList.map Prod.snd).map
          (totalCostOf interfaces)).sum := by
        rw [← map_snd_flowsOf hfound, List.map_map]
        rfl
    _ = totalCostOf interfaces
          ((group ReceivedPacketInfo.fromApplication (sort received)).toList.flatMap Prod.snd) := by
        simp only [totalCostOf, List.flatMap, List.map_flatten, List.sum_flatten, List.map_map,
          Function.comp_def]
    _ = totalCostOf interfaces received := (hperm.map _).sum_eq

theorem length_le_totalCostOf (hpositive : ∀ p ∈ received, 0 < p.getCost interfaces) :
    received.length ≤ totalCostOf interfaces received := by
  have h := List.card_nsmul_le_sum (received.map (·.getCost interfaces)) 1
    (List.forall_mem_map.mpr hpositive)
  simpa [totalCostOf] using h

theorem length_eq_totalCostOf_iff (hpositive : ∀ p ∈ received, 0 < p.getCost interfaces) :
    received.length = totalCostOf interfaces received ↔
      ∀ p ∈ received, p.getCost interfaces = 1 := by
  induction received with
  | nil => simp [totalCostOf]
  | cons p received ih =>
    obtain ⟨hp, hreceived⟩ := List.forall_mem_cons.mp hpositive
    have hle := length_le_totalCostOf hreceived
    rw [List.forall_mem_cons, ← ih hreceived, totalCostOf, List.map_cons, List.sum_cons,
      List.length_cons, ← totalCostOf]
    omega

end

/-- The reported average cost times the number of packets is the total cost of the packets, and
the average lies between the costs of two interfaces. -/
structure IsAverage (interfaces : List ISPInterface) (received : List ReceivedPacketInfo)
    (result : RunInfo) : Prop where
  mul_eq : result.getAveragePacketCost * result.totalAmountOfPackets =
    totalCostOf interfaces received
  least : ∃ i ∈ interfaces, (i.cost : ℚ) ≤ result.getAveragePacketCost
  greatest : ∃ i ∈ interfaces, result.getAveragePacketCost ≤ (i.cost : ℚ)

/-- The quotient is the wrong way round, so it is an average exactly when it is `1`. -/
theorem isAverage_iff {interfaces : List ISPInterface} {received : List ReceivedPacketInfo}
    {result : RunInfo} (hne : received ≠ [])
    (hfrom : ∀ p ∈ received, p.fromInterface < interfaces.length)
    (hcosts : ∀ i ∈ interfaces, 0 < i.cost)
    (hamount : result.totalAmountOfPackets = received.length)
    (hcost : result.totalCost = totalCostOf interfaces received) :
    IsAverage interfaces received result ↔ ∀ p ∈ received, p.getCost interfaces = 1 := by
  have hgetCost : ∀ p ∈ received, ∃ i ∈ interfaces, p.getCost interfaces = i.cost := by
    intro p hp
    refine ⟨_, List.getElem_mem (hfrom p hp), ?_⟩
    rw [ReceivedPacketInfo.getCost, List.getElem?_eq_getElem (hfrom p hp)]
    rfl
  have hpositive : ∀ p ∈ received, 0 < p.getCost interfaces := by
    intro p hp
    obtain ⟨i, hi, heq⟩ := hgetCost p hp
    rw [heq]
    exact hcosts i hi
  have hlength : 0 < received.length := List.length_pos_iff.mpr hne
  have htotal := hlength.trans_le (length_le_totalCostOf hpositive)
  have haverage : result.getAveragePacketCost =
      (received.length : ℚ) / totalCostOf interfaces received := by
    rw [RunInfo.getAveragePacketCost, hamount, hcost, if_neg hlength.ne']
  have htotalQ : (0 : ℚ) < totalCostOf interfaces received := by exact_mod_cast htotal
  rw [← length_eq_totalCostOf_iff hpositive]
  constructor
  · intro h
    have hmul := h.mul_eq
    rw [haverage, hamount, div_mul_eq_mul_div, div_eq_iff htotalQ.ne'] at hmul
    have hsquares : received.length * received.length =
        totalCostOf interfaces received * totalCostOf interfaces received := by
      exact_mod_cast hmul
    exact Nat.mul_self_inj.mp hsquares
  · intro h
    have hone : result.getAveragePacketCost = 1 := by
      rw [haverage, ← h, div_self]
      exact_mod_cast hlength.ne'
    obtain ⟨p, hp⟩ := List.exists_mem_of_ne_nil received hne
    obtain ⟨i, hi, heq⟩ := hgetCost p hp
    have hi1 : i.cost = 1 := heq ▸ (length_eq_totalCostOf_iff hpositive).mp h p hp
    refine ⟨?_, ⟨i, hi, ?_⟩, ⟨i, hi, ?_⟩⟩
    · rw [hone, hamount, one_mul, h]
    · rw [hone, hi1, Nat.cast_one]
    · rw [hone, hi1, Nat.cast_one]

/-- For every run of the sender and the receiver, the reported average packet cost is an average
exactly when all packets were received over interfaces of cost `1`. -/
theorem averagePacketCost_iff {env : Environment} (hsolve : AnswersFeasibly env.solve)
    {setup : Setup} {events : List Transfer.Event} {s : Transfer}
    (h : Transfer.Transfers env setup events s)
    {sort : List ReceivedPacketInfo → List ReceivedPacketInfo} (hsort : SortsByApplication sort)
    (hne : s.receiver.receivedPacketInfo ≠ [])
    (hcosts : ∀ i ∈ s.sender.strategy.availableInterfaces, 0 < i.cost)
    (hlt : s.receiver.receivedPacketInfo.length < 2 ^ 32) (runParameters : RunParameters) :
    IsAverage s.sender.strategy.availableInterfaces s.receiver.receivedPacketInfo
        (runInfo s.sender.strategy.applications s.sender.strategy.availableInterfaces sort
          s.receiver.receivedPacketInfo runParameters) ↔
      ∀ p ∈ s.receiver.receivedPacketInfo,
        p.getCost s.sender.strategy.availableInterfaces = 1 := by
  have hreceived := Transfer.received_of_transfers hsolve h
  refine isAverage_iff hne (fun p hp => (hreceived p hp).1) hcosts ?_
    (totalCost_runInfo hsort fun p hp => (hreceived p hp).2)
  rw [runInfo_eq hsort]
  exact uint32_of_lt hlt

/-- The first packet sent over a link of the small sender has been received. -/
theorem exists_sampleReceived {l cost : ℕ} (hl : [1, 3][l]? = some cost) :
    ∃ events s, Transfer.Transfers SenderApplication.sampleEnvironment
        (SenderApplication.sampleSetup .reactive) events s ∧
      s.sender.strategy.availableInterfaces.map (·.cost) = [1, 3] ∧
      s.receiver.receivedPacketInfo = [⟨l, 1⟩] := by
  obtain ⟨as, x, hruns, hobserved⟩ := SenderApplication.exists_timedRuns
    SenderApplication.sampleEnvironment 0 (SenderApplication.sampleSetup .reactive)
    (List.replicate 3 false)
    (fun s => ([0, 1].map fun l => s.1.flatMap fun a => (Transfer.Event.sender a).sentOn l,
      s.2.strategy.availableInterfaces.map fun i => (i.cost, i.socketInfo.bytes.length)))
    ([[1, 1], [1]], [(1, 256), (3, 128)]) (by decide +kernel)
  obtain ⟨hsent, hinterfaces⟩ := Prod.mk.inj hobserved
  obtain ⟨hsent₀, hsent₁⟩ := List.cons.inj hsent
  have hlink : l = 0 ∨ l = 1 := by
    have hlt : l < 2 := (List.getElem?_eq_some_iff.mp hl).1
    omega
  obtain ⟨i, hi, hlength⟩ : ∃ i, x.strategy.availableInterfaces[l]? = some i ∧
      128 ≤ i.socketInfo.bytes.length := by
    have hentry := congrArg (fun xs => xs[l]?) hinterfaces
    rcases hlink with rfl | rfl
    · obtain ⟨i, hi, hpair⟩ := Option.map_eq_some_iff.mp ((List.getElem?_map ..).symm.trans hentry)
      exact ⟨i, hi, (Prod.mk.inj hpair).2 ▸ by decide⟩
    · obtain ⟨i, hi, hpair⟩ := Option.map_eq_some_iff.mp ((List.getElem?_map ..).symm.trans hentry)
      exact ⟨i, hi, (Prod.mk.inj hpair).2.ge⟩
  obtain ⟨events, s, c, hs, rfl, hc, hdelivered, hdue, hall, hothers⟩ :=
    Transfer.exists_received hruns.runs hi hlength
  have haligned := (Transfer.matched_of_transfers hs).aligned l c hc
  obtain ⟨read, hreceives, hreceived⟩ := haligned.reads
  obtain ⟨hread, -⟩ := hreceives.read_eq (haligned.rest_lt hdue)
  have hfirst : (Transfer.sentOn l events).take 1 = [1] := by
    rw [hall, Transfer.sentOn, List.flatMap_map]
    rcases hlink with rfl | rfl
    · exact congrArg (List.take 1) hsent₀
    · exact congrArg (List.take 1) (List.cons.inj hsent₁).1
  refine ⟨events, s, hs, ?_, ?_⟩
  · have hcosts := congrArg (List.map Prod.fst) hinterfaces
    rwa [List.map_map] at hcosts
  · rw [← ReceiverApplication.receivedFrom_eq_self hothers, hreceived, hread, hdelivered]
    exact congrArg (List.map (ReceivedPacketInfo.mk l)) hfirst

theorem getCost_sample {s : Transfer} {l cost : ℕ} (hl : [1, 3][l]? = some cost)
    (hcosts : s.sender.strategy.availableInterfaces.map (·.cost) = [1, 3]) :
    ReceivedPacketInfo.getCost s.sender.strategy.availableInterfaces ⟨l, 1⟩ = cost := by
  rw [← hcosts, List.getElem?_map] at hl
  obtain ⟨i, hi, rfl⟩ := Option.map_eq_some_iff.mp hl
  rw [ReceivedPacketInfo.getCost, hi]
  rfl

theorem averagePacketCost_iff_sample :
    ∃ events s, Transfer.Transfers SenderApplication.sampleEnvironment
        (SenderApplication.sampleSetup .reactive) events s ∧
      IsAverage s.sender.strategy.availableInterfaces s.receiver.receivedPacketInfo
        (runInfo s.sender.strategy.applications s.sender.strategy.availableInterfaces
          sortByApplication s.receiver.receivedPacketInfo sampleParameters) := by
  have hl : [1, 3][0]? = some 1 := rfl
  obtain ⟨events, s, hs, hcosts, hreceived⟩ := exists_sampleReceived hl
  have hpositive : ∀ i ∈ s.sender.strategy.availableInterfaces, 0 < i.cost := by
    intro i hi
    have hcost : i.cost ∈ s.sender.strategy.availableInterfaces.map (·.cost) :=
      List.mem_map_of_mem hi
    rw [hcosts] at hcost
    exact (by decide : ∀ cost ∈ [1, 3], 0 < cost) i.cost hcost
  refine ⟨events, s, hs, (averagePacketCost_iff (sound_offer _).answersFeasibly hs
    sortsByApplication_sortByApplication ?_ hpositive ?_ sampleParameters).mpr ?_⟩
  · rw [hreceived]
    exact List.cons_ne_nil _ _
  · rw [hreceived]
    decide
  · rw [hreceived, List.forall_mem_singleton]
    exact getCost_sample hl hcosts

/-- One packet over a link of cost `3`: the reported average cost is a third. -/
theorem averagePacketCost_counterexample :
    ∃ events s, Transfer.Transfers SenderApplication.sampleEnvironment
        (SenderApplication.sampleSetup .reactive) events s ∧
      s.receiver.receivedPacketInfo = [⟨1, 1⟩] ∧
      s.sender.strategy.availableInterfaces.map (·.cost) = [1, 3] ∧
      (runInfo s.sender.strategy.applications s.sender.strategy.availableInterfaces
        sortByApplication s.receiver.receivedPacketInfo sampleParameters).getAveragePacketCost =
          1 / 3 ∧
      ¬ IsAverage s.sender.strategy.availableInterfaces s.receiver.receivedPacketInfo
        (runInfo s.sender.strategy.applications s.sender.strategy.availableInterfaces
          sortByApplication s.receiver.receivedPacketInfo sampleParameters) := by
  have hl : [1, 3][1]? = some 3 := rfl
  obtain ⟨events, s, hs, hcosts, hreceived⟩ := exists_sampleReceived hl
  have hknown := Transfer.received_of_transfers (sound_offer _).answersFeasibly hs
  have hamount : (runInfo s.sender.strategy.applications s.sender.strategy.availableInterfaces
      sortByApplication s.receiver.receivedPacketInfo sampleParameters).totalAmountOfPackets =
        1 := by
    rw [runInfo_eq sortsByApplication_sortByApplication, hreceived]
    rfl
  have htotal : totalCostOf s.sender.strategy.availableInterfaces
      s.receiver.receivedPacketInfo = 3 := by
    rw [hreceived, totalCostOf, List.map_singleton, List.sum_singleton, getCost_sample hl hcosts]
  have haverage : (runInfo s.sender.strategy.applications s.sender.strategy.availableInterfaces
      sortByApplication s.receiver.receivedPacketInfo sampleParameters).getAveragePacketCost =
        1 / 3 := by
    rw [RunInfo.getAveragePacketCost, hamount, if_neg one_ne_zero,
      totalCost_runInfo sortsByApplication_sortByApplication fun p hp => (hknown p hp).2, htotal]
    norm_num
  refine ⟨events, s, hs, hreceived, hcosts, haverage, fun h => ?_⟩
  have hmul := h.mul_eq
  rw [haverage, hamount, htotal] at hmul
  norm_num at hmul

end SdWan
