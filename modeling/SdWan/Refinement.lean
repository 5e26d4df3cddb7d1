import SdWan.Transfer
import SdWan.Library.LossyLinks

/-!
# Both ends as links that lose packets

What the sender, the network and the receiver do to the packets is what links do that lose some
packets: a computation offers the packets of the applications to the links, `SendData` transmits
the first one of a link and loses it if it is corrupt, and `handleRead` lets some arrive. Here a
packet is the application it originated from.
-/

open IntegerProgram Framing

namespace SdWan

theorem SenderApplication.Computes.appends {env : Environment}
    (hsolve : AnswersFeasibly env.solve) {now : Time} {x y : SenderApplication}
    {before after : Strategy} (h : Computes env now x y before after) :
    ∃ f, y.strategy.availableInterfaces = appendAt x.strategy.availableInterfaces f ∧
      before.availableInterfaces = x.strategy.availableInterfaces ∧
      after.availableInterfaces = y.strategy.availableInterfaces := by
  have hbefore : before.availableInterfaces = x.strategy.availableInterfaces := by rw [h.before_eq]
  rw [h.strategy]
  rcases Strategy.compute_effect hsolve h.computed with ⟨-, -, hsame⟩ | ⟨f, hdrains⟩
  · exact ⟨fun _ => [], by rw [appendAt_nil, hsame, hbefore], hbefore, rfl⟩
  · exact ⟨f, by rw [hdrains.availableInterfaces, hbefore], hbefore, rfl⟩

/-- A call of `handleRead` only adds to the received packets. -/
theorem ReceiverApplication.prefix_handleRead (interfaces : List ISPInterface)
    (originFlowId : ℕ) (socket : AcceptedSocket) (r : ReceiverApplication) :
    r.receivedPacketInfo <+:
      (handleRead interfaces originFlowId socket r).2.receivedPacketInfo := by
  fun_induction handleRead interfaces originFlowId socket r with
  | case1 originFlowId socket r _ received originFlowId' ih =>
    refine List.IsPrefix.trans ?_ ih
    unfold receive
    dsimp only
    split
    · exact List.prefix_append _ _
    · exact List.prefix_refl _
  | case2 => exact List.prefix_refl _

namespace Transfer

/-- The packets at both ends and in between. A packet is in flight from the call of `Send` until
`handleRead` has attributed it. -/
def links (s : Transfer) : LossyLinks ℕ ℕ where
  queue l := (s.sender.strategy.availableInterfaces[l]?).elim [] fun i =>
    i.pendingpackets.map (·.originatedFrom)
  flight l := ((s.sender.strategy.availableInterfaces[l]?).elim [] fun i =>
    i.socketInfo.sent.map (·.flowId)).drop (s.receiver.receivedFrom l).length
  arrived l := (s.receiver.receivedFrom l).map (·.fromApplication)

/-- The applications of the packets that a computation puts on the queue of an interface. -/
def Event.dispatchedOn (l : ℕ) : Event → List ℕ
  | .sender (.computed _ before after) =>
    (enqueued before.availableInterfaces after.availableInterfaces l).map (·.originatedFrom)
  | _ => []

/-- The application of the packet that an event takes out of the queue of an interface, and
whether it was corrupt. -/
def Event.takenOn (l : ℕ) : Event → List (ℕ × Bool)
  | .sender (.taken _ l' packetInfo isCorrupt) =>
    if l' = l then [(packetInfo.originatedFrom, isCorrupt)] else []
  | _ => []

def dispatchedOn (l : ℕ) (events : List Event) : List ℕ := events.flatMap (Event.dispatchedOn l)

def takenOn (l : ℕ) (events : List Event) : List (ℕ × Bool) := events.flatMap (Event.takenOn l)

theorem dispatchedOn_concat (l : ℕ) (events : List Event) (e : Event) :
    dispatchedOn l (events ++ [e]) = dispatchedOn l events ++ e.dispatchedOn l := by
  simp [dispatchedOn]

theorem takenOn_concat (l : ℕ) (events : List Event) (e : Event) :
    takenOn l (events ++ [e]) = takenOn l events ++ e.takenOn l := by
  simp [takenOn]

/-! ## One event -/

/-- The packets attributed to an interface are the first ones sent on it, the others are in
flight. -/
theorem Matched.received_eq {events : List Event} {s : Transfer} (hs : Matched events s) {l : ℕ}
    {i : ISPInterface} (hi : s.sender.strategy.availableInterfaces[l]? = some i) :
    (s.receiver.receivedFrom l).map (·.fromApplication) =
      (i.socketInfo.sent.map (·.flowId)).take (s.receiver.receivedFrom l).length := by
  have hl : l < s.connections.length := by
    rw [hs.length_eq]
    exact (List.getElem?_eq_some_iff.mp hi).1
  obtain ⟨read, -, hreceived⟩ := (hs.aligned l _ (List.getElem?_eq_getElem hl)).reads
  have hids : i.socketInfo.sent.map (·.flowId) = sentOn l events := by
    rw [hs.sent l i hi, List.map_map]
    exact List.map_id _
  rw [hids, hreceived, List.length_map, List.length_take, List.map_map, ← List.take_eq_take_min]
  exact List.map_id _

theorem Matched.length_received_le {events : List Event} {s : Transfer} (hs : Matched events s)
    {l : ℕ} {i : ISPInterface} (hi : s.sender.strategy.availableInterfaces[l]? = some i) :
    (s.receiver.receivedFrom l).length ≤ i.socketInfo.sent.length := by
  have hlength := congrArg List.length (hs.received_eq hi)
  rw [List.length_map, List.length_take, List.length_map] at hlength
  omega

/-- What a computation does to the links, when it appends `f` to the queues. -/
theorem links_of_appendAt (s s' : Transfer) {f : ℕ → List SendPacketInfo}
    (h : s'.sender.strategy.availableInterfaces =
      appendAt s.sender.strategy.availableInterfaces f)
    (hreceiver : s'.receiver = s.receiver) :
    s'.links = s.links.offer fun l => (enqueued s.sender.strategy.availableInterfaces
      s'.sender.strategy.availableInterfaces l).map (·.originatedFrom) := by
  refine LossyLinks.ext (funext fun l => ?_) (funext fun l => ?_) ?_
  · simp only [links, LossyLinks.offer, enqueued, h, getElem?_appendAt]
    cases s.sender.strategy.availableInterfaces[l]? with
    | none => rfl
    | some i => simp [ISPInterface.enqueueAll]
  · simp only [links, LossyLinks.offer, h, hreceiver, getElem?_appendAt]
    cases s.sender.strategy.availableInterfaces[l]? <;> rfl
  · simp only [links, LossyLinks.offer, hreceiver]

theorem flowIds_afterSend (i : ISPInterface) (rest : List SendPacketInfo) (flowId : ℕ)
    (isCorrupt : Bool) :
    (SenderApplication.afterSend i rest flowId isCorrupt).socketInfo.sent.map (·.flowId) =
      i.socketInfo.sent.map (·.flowId) ++ LossyLinks.survivors [(flowId, isCorrupt)] := by
  cases isCorrupt with
  | true => exact (List.append_nil _).symm
  | false => exact List.map_append

/-- What a call of `SendData` does to the links, when it takes the first packet of a queue. -/
theorem links_of_taken (s s' : Transfer) {l : ℕ} {i : ISPInterface}
    {packetInfo : SendPacketInfo} {rest : List SendPacketInfo} {isCorrupt : Bool}
    (hl : s.sender.strategy.availableInterfaces[l]? = some i)
    (hreceived : (s.receiver.receivedFrom l).length ≤ i.socketInfo.sent.length)
    (h : s'.sender.strategy.availableInterfaces = s.sender.strategy.availableInterfaces.set l
      (SenderApplication.afterSend i rest packetInfo.originatedFrom isCorrupt))
    (hreceiver : s'.receiver = s.receiver) :
    s'.links = s.links.transmit l packetInfo.originatedFrom (rest.map (·.originatedFrom))
      isCorrupt := by
  have hself := List.getElem?_set_self
    (a := SenderApplication.afterSend i rest packetInfo.originatedFrom isCorrupt)
    (List.getElem?_eq_some_iff.mp hl).1
  have hothers : ∀ l' ≠ l, s'.sender.strategy.availableInterfaces[l']? =
      s.sender.strategy.availableInterfaces[l']? := fun l' hll => by
    rw [h, List.getElem?_set_ne hll.symm]
  rw [← h] at hself
  refine LossyLinks.ext (funext fun l' => ?_) (funext fun l' => ?_) ?_
  · by_cases hll : l' = l
    · subst hll
      simp only [links, LossyLinks.transmit, Function.update_self, hself, Option.elim_some,
        SenderApplication.pendingpackets_afterSend]
    · simp only [links, LossyLinks.transmit, Function.update_of_ne hll, hothers l' hll]
  · by_cases hll : l' = l
    · subst hll
      have hle : (s.receiver.receivedFrom l').length ≤
          (i.socketInfo.sent.map (·.flowId)).length := by rwa [List.length_map]
      simp only [links, LossyLinks.transmit, Function.update_self, hself, hl, Option.elim_some,
        hreceiver, flowIds_afterSend, List.drop_append_of_le_length hle]
    · simp only [links, LossyLinks.transmit, Function.update_of_ne hll, hothers l' hll, hreceiver]
  · simp only [links, LossyLinks.transmit, hreceiver]

/-- The event is a step of the links, or they do not notice it. -/
def Event.Refines (e : Event) (x y : LossyLinks ℕ ℕ) : Prop :=
  (y = x ∧ ∀ l, e.dispatchedOn l = [] ∧ e.takenOn l = []) ∨
    ∃ a, LossyLinks.Step x a y ∧
      ∀ l, a.offeredOn l = e.dispatchedOn l ∧ a.transmittedOn l = e.takenOn l

theorem links_of_strategy_eq {s : Transfer} {x : SenderApplication}
    (h : x.strategy = s.sender.strategy) : ({ s with sender := x } : Transfer).links = s.links := by
  simp only [links, h]

theorem Matched.sender_refines {env : Environment} (hsolve : AnswersFeasibly env.solve)
    {events : List Event} {s : Transfer} (hs : Matched events s) {a : Action}
    {x : SenderApplication} (h : SenderApplication.Step env s.sender a x) :
    (Event.sender a).Refines s.links ({ s with sender := x } : Transfer).links := by
  obtain ⟨now, poll, e, -, hrun⟩ := h
  rcases SenderApplication.run_cases hrun with
    ⟨-, before, after, rfl, hcomputes⟩ | ⟨l, -, ⟨-, rfl, rfl⟩ | ⟨-, hsend⟩⟩
  · obtain ⟨f, hifaces, hbefore, hafter⟩ := hcomputes.appends hsolve
    refine .inr ⟨.offer fun l => (enqueued before.availableInterfaces
      after.availableInterfaces l).map (·.originatedFrom), ?_, fun l => ⟨rfl, rfl⟩⟩
    rw [hbefore, hafter, links_of_appendAt s { s with sender := x } hifaces rfl]
    exact .offer _ _
  · exact .inl ⟨rfl, fun l => ⟨rfl, rfl⟩⟩
  · obtain ⟨i, hl, -, -, ⟨rfl, hstrategy, -⟩ | ⟨packetInfo, rest, hqueue, rfl, hstrategy⟩⟩ :=
      SenderApplication.sendData_eq_ok hsend
    · exact .inl ⟨links_of_strategy_eq hstrategy, fun l => ⟨rfl, rfl⟩⟩
    · refine .inr ⟨.transmit l packetInfo.originatedFrom poll.isCorrupt, ?_,
        fun l' => ⟨rfl, rfl⟩⟩
      rw [links_of_taken s { s with sender := x } hl (hs.length_received_le hl)
        (congrArg Strategy.availableInterfaces hstrategy) rfl]
      refine .transmit _ ?_
      have hl' : s.sender.strategy.availableInterfaces[l]? = some i := hl
      simp only [links, hl', Option.elim_some, hqueue, List.map_cons]

/-- A call of `handleRead` lets the packets arrive that it attributes to its interface. -/
theorem links_of_read {s s' : Transfer} {l : ℕ} {i : ISPInterface}
    (hl : s.sender.strategy.availableInterfaces[l]? = some i)
    (hbefore : (s.receiver.receivedFrom l).map (·.fromApplication) =
      (i.socketInfo.sent.map (·.flowId)).take (s.receiver.receivedFrom l).length)
    (hafter : (s'.receiver.receivedFrom l).map (·.fromApplication) =
      (i.socketInfo.sent.map (·.flowId)).take (s'.receiver.receivedFrom l).length)
    (hle : (s.receiver.receivedFrom l).length ≤ (s'.receiver.receivedFrom l).length)
    (hothers : ∀ l' ≠ l, s'.receiver.receivedFrom l' = s.receiver.receivedFrom l')
    (hsender : s'.sender = s.sender) :
    s'.links = s.links.arrive l
      ((s'.receiver.receivedFrom l).length - (s.receiver.receivedFrom l).length) := by
  refine LossyLinks.ext ?_ (funext fun l' => ?_) (funext fun l' => ?_)
  · simp only [links, LossyLinks.arrive, hsender]
  · by_cases hll : l' = l
    · subst hll
      simp only [links, LossyLinks.arrive, Function.update_self, hsender, hl, Option.elim_some,
        List.drop_drop, Nat.add_sub_cancel' hle]
    · simp only [links, LossyLinks.arrive, Function.update_of_ne hll, hsender, hothers l' hll]
  · by_cases hll : l' = l
    · subst hll
      simp only [links, LossyLinks.arrive, Function.update_self, hl, Option.elim_some]
      rw [hafter, hbefore, ← List.take_add, Nat.add_sub_cancel' hle]
    · simp only [links, LossyLinks.arrive, Function.update_of_ne hll, hothers l' hll]

/-- Every event is a step of the links, or they do not notice it. -/
theorem Matched.step_refines {env : Environment} (hsolve : AnswersFeasibly env.solve)
    {events : List Event} {s s' : Transfer} {e : Event} (hs : Matched events s)
    (h : Step env s e s') : e.Refines s.links s'.links := by
  have hs' := matched_step hs h
  cases h with
  | sender hstep => exact hs.sender_refines hsolve hstep
  | delivered => exact .inl ⟨rfl, fun l => ⟨rfl, rfl⟩⟩
  | @read l c originFlowId hc =>
    have hl := (List.getElem?_eq_some_iff.mp hc).1
    obtain ⟨i, hi⟩ : ∃ i, s.sender.strategy.availableInterfaces[l]? = some i :=
      ⟨_, List.getElem?_eq_getElem (hs.length_eq ▸ hl)⟩
    have hpeer := findIdx?_outgoingAddress hs.distinct hi
    rw [← hs.peer l i c hi hc] at hpeer
    obtain ⟨-, -, hothers⟩ := (hs.aligned l c hc).read originFlowId hpeer
    have hgrows := (ReceiverApplication.prefix_handleRead
      s.sender.strategy.availableInterfaces originFlowId c.socket s.receiver).filter
        fun p => decide (p.fromInterface = l)
    rw [links_of_read hi (hs.received_eq hi) (hs'.received_eq hi) hgrows.length_le hothers rfl]
    exact .inr ⟨.arrive l _, .arrive _ _ _, fun l' => ⟨rfl, rfl⟩⟩

/-! ## Every run -/

theorem init_refines {env : Environment} (hsolve : AnswersFeasibly env.solve) {setup : Setup}
    {e : Event} {s : Transfer} (h : Init env setup e s) : ∃ a, LossyLinks.Step {} a s.links ∧
      ∀ l, a.offeredOn l = e.dispatchedOn l ∧ a.transmittedOn l = e.takenOn l := by
  obtain ⟨a, x, ⟨now, hstart⟩, rfl, rfl⟩ := h
  obtain ⟨x₀, before, after, hstarted, rfl, hcomputes⟩ :=
    SenderApplication.startApplication_eq_ok hstart
  obtain ⟨f, hifaces, hbefore, hafter⟩ := hcomputes.appends hsolve
  refine ⟨.offer fun l => (enqueued before.availableInterfaces
    after.availableInterfaces l).map (·.originatedFrom), ?_, fun l => ⟨rfl, rfl⟩⟩
  have hidle : ({ sender := x₀, connections := [] } : Transfer).links = {} := by
    refine LossyLinks.ext (funext fun l => ?_) (funext fun l => ?_) rfl
    · cases hl : x₀.strategy.availableInterfaces[l]? with
      | none => simp only [links, hl, Option.elim_none]
      | some i => simp [links, hl, hstarted.created.pendingpackets i (List.mem_of_getElem? hl)]
    · cases hl : x₀.strategy.availableInterfaces[l]? with
      | none => simp only [links, hl, Option.elim_none, List.drop_nil]
      | some i => simp [links, hl, hstarted.created.socketInfo i (List.mem_of_getElem? hl)]
  rw [hbefore, hafter, links_of_appendAt { sender := x₀, connections := [] } { sender := x, .. }
    hifaces rfl, hidle]
  exact .offer _ _

/-- The run of the links behind a run of both ends. -/
theorem exists_runs_links {env : Environment} (hsolve : AnswersFeasibly env.solve) {setup : Setup}
    {events : List Event} {s : Transfer} (h : Transfers env setup events s) :
    ∃ acts, LossyLinks.Runs acts s.links ∧
      ∀ l, LossyLinks.offered l acts = dispatchedOn l events ∧
        LossyLinks.transmitted l acts = takenOn l events := by
  induction h with
  | start hinit =>
    obtain ⟨a, hstep, hlabels⟩ := init_refines hsolve hinit
    refine ⟨[a], .start hstep, fun l => ?_⟩
    obtain ⟨hoffered, htransmitted⟩ := hlabels l
    simp [LossyLinks.offered, LossyLinks.transmitted, dispatchedOn, takenOn, hoffered,
      htransmitted]
  | @step events e s s' hreach hstep ih =>
    obtain ⟨acts, hruns, hlabels⟩ := ih
    rcases (matched_of_transfers hreach).step_refines hsolve hstep with
      ⟨hsame, hnone⟩ | ⟨a, ha, heq⟩
    · refine ⟨acts, hsame ▸ hruns, fun l => ?_⟩
      rw [dispatchedOn_concat, takenOn_concat, (hnone l).1, (hnone l).2, List.append_nil,
        List.append_nil]
      exact hlabels l
    · refine ⟨acts ++ [a], hruns.step ha, fun l => ?_⟩
      rw [LossyLinks.offered_concat, LossyLinks.transmitted_concat, dispatchedOn_concat,
        takenOn_concat, (hlabels l).1, (hlabels l).2, (heq l).1, (heq l).2]
      exact ⟨rfl, rfl⟩

section

variable {env : Environment} {setup : Setup} {events : List Event} {s : Transfer}

theorem dispatchedOn_eq (hsolve : AnswersFeasibly env.solve) (h : Transfers env setup events s)
    (l : ℕ) : dispatchedOn l events = (takenOn l events).map Prod.fst ++ s.links.queue l := by
  obtain ⟨acts, hruns, hlabels⟩ := exists_runs_links hsolve h
  rw [← (hlabels l).1, ← (hlabels l).2]
  exact (LossyLinks.history hruns l).offered_eq

theorem survivors_takenOn (hsolve : AnswersFeasibly env.solve) (h : Transfers env setup events s)
    (l : ℕ) : LossyLinks.survivors (takenOn l events) = s.links.arrived l ++ s.links.flight l := by
  obtain ⟨acts, hruns, hlabels⟩ := exists_runs_links hsolve h
  rw [← (hlabels l).2]
  exact (LossyLinks.history hruns l).survivors_eq

/-- The socket of an interface got what is in flight and what has arrived. -/
theorem arrived_append_flight (h : Transfers env setup events s) {l : ℕ} {i : ISPInterface}
    (hi : s.sender.strategy.availableInterfaces[l]? = some i) :
    s.links.arrived l ++ s.links.flight l = i.socketInfo.sent.map (·.flowId) := by
  simp only [links, hi, Option.elim_some]
  rw [(matched_of_transfers h).received_eq hi, List.take_append_drop]

end

/-- A run of both ends is a run of links that lose packets. What is offered to a link is what the
computations dispatch to the interface, what it transmits is what `SendData` takes, lost exactly
when it is corrupt, and whatever event comes next the links follow. -/
theorem refines_lossyLinks {env : Environment} (hsolve : AnswersFeasibly env.solve) {setup : Setup}
    {events : List Event} {s : Transfer} (h : Transfers env setup events s) :
    (∃ acts, LossyLinks.Runs acts s.links ∧
      ∀ l, LossyLinks.offered l acts = dispatchedOn l events ∧
        LossyLinks.transmitted l acts = takenOn l events) ∧
      ∀ e s', Step env s e s' → e.Refines s.links s'.links :=
  ⟨exists_runs_links hsolve h, fun _ _ hstep =>
    (matched_of_transfers h).step_refines hsolve hstep⟩

/-- Three packets have been dispatched to two links and sent; nothing has arrived. -/
theorem exists_transfers_sample :
    ∃ events s, Transfers SenderApplication.sampleEnvironment
        (SenderApplication.sampleSetup .reactive) events s ∧
      dispatchedOn 0 events = [1, 1] ∧ takenOn 0 events = [(1, false), (1, true)] ∧
      s.sender.strategy.availableInterfaces.length = 2 := by
  obtain ⟨as, x, hruns, hobserved⟩ := SenderApplication.exists_timedRuns
    SenderApplication.sampleEnvironment 0 (SenderApplication.sampleSetup .reactive)
    [false, false, true]
    (fun s => ((s.1.flatMap fun a => (Event.sender a).dispatchedOn 0,
      s.1.flatMap fun a => (Event.sender a).takenOn 0),
      s.2.strategy.availableInterfaces.length))
    (([1, 1], [(1, false), (1, true)]), 2) (by decide +kernel)
  obtain ⟨hboth, hlength⟩ := Prod.mk.inj hobserved
  obtain ⟨hdispatched, htaken⟩ := Prod.mk.inj hboth
  obtain ⟨s, hs, rfl, -, -⟩ := transfers_of_runs hruns.runs
  refine ⟨_, s, hs, ?_, ?_, hlength⟩
  · rw [dispatchedOn, List.flatMap_map]
    exact hdispatched
  · rw [takenOn, List.flatMap_map]
    exact htaken

theorem refines_lossyLinks_sample :
    ∃ acts x, LossyLinks.Runs acts x ∧ LossyLinks.offered 0 acts = [1, 1] ∧
      LossyLinks.transmitted 0 acts = [(1, false), (1, true)] := by
  obtain ⟨events, s, hs, hdispatched, htaken, -⟩ := exists_transfers_sample
  obtain ⟨⟨acts, hruns, hlabels⟩, -⟩ := refines_lossyLinks (sound_offer _).answersFeasibly hs
  exact ⟨acts, s.links, hruns, (hlabels 0).1.trans hdispatched, (hlabels 0).2.trans htaken⟩

/-- Every interface takes its packets in the order in which they were dispatched to it, its socket
gets those that are not corrupt, and the received packets are the first of these. -/
theorem dispatched_in_order {env : Environment} (hsolve : AnswersFeasibly env.solve)
    {setup : Setup} {events : List Event} {s : Transfer} (h : Transfers env setup events s)
    {l : ℕ} {i : ISPInterface} (hi : s.sender.strategy.availableInterfaces[l]? = some i) :
    dispatchedOn l events = (takenOn l events).map Prod.fst ++
        i.pendingpackets.map (·.originatedFrom) ∧
      LossyLinks.survivors (takenOn l events) = i.socketInfo.sent.map (·.flowId) ∧
      (s.receiver.receivedFrom l).map (·.fromApplication) <+:
        LossyLinks.survivors (takenOn l events) := by
  have hqueue : s.links.queue l = i.pendingpackets.map (·.originatedFrom) := by
    simp only [links, hi, Option.elim_some]
  have hsurvivors := survivors_takenOn hsolve h l
  refine ⟨hqueue ▸ dispatchedOn_eq hsolve h l,
    hsurvivors.trans (arrived_append_flight h hi), ?_⟩
  rw [hsurvivors]
  exact List.prefix_append _ _

theorem dispatched_in_order_sample :
    ∃ events s i, Transfers SenderApplication.sampleEnvironment
        (SenderApplication.sampleSetup .reactive) events s ∧
      s.sender.strategy.availableInterfaces[0]? = some i ∧ dispatchedOn 0 events = [1, 1] ∧
      i.pendingpackets = [] ∧ i.socketInfo.sent.map (·.flowId) = [1] := by
  obtain ⟨events, s, hs, hdispatched, htaken, hlength⟩ := exists_transfers_sample
  obtain ⟨i, hi⟩ : ∃ i, s.sender.strategy.availableInterfaces[0]? = some i :=
    ⟨_, List.getElem?_eq_getElem (by omega)⟩
  obtain ⟨horder, hsent, -⟩ := dispatched_in_order (sound_offer _).answersFeasibly hs hi
  rw [hdispatched, htaken] at horder
  rw [htaken] at hsent
  refine ⟨events, s, i, hs, hi, hdispatched, ?_, hsent.symm⟩
  have hlengths := congrArg List.length horder
  simp only [List.length_append, List.length_map, List.length_cons, List.length_nil] at hlengths
  exact List.length_eq_zero_iff.mp (by omega)

end Transfer

end SdWan
