import SdWan.ReceiverApplication
import SdWan.SenderRuns

/-!
# From the sender to the receiver

`Step` interleaves the events of the sender with the network and the callbacks of the receiver. The
network carries the bytes of every interface in order and cuts them anywhere; a delivery makes
the callback of its connection due, and `handleRead` may run at any time.

The vector of interfaces is shared: the receiver looks up the interfaces of the sender.
-/

open IntegerProgram Framing

namespace SdWan

/-- The accepted end of the connection of an interface, and the number of bytes that arrived. -/
structure Connection where
  socket : AcceptedSocket
  delivered : ℕ := 0
  callbackDue : Bool := false

namespace Connection

def deliver (stream : List Byte) (n : ℕ) (c : Connection) : Connection where
  socket := { c.socket with rxBuffer := c.socket.rxBuffer ++ (stream.drop c.delivered).take n }
  delivered := c.delivered + n
  callbackDue := true

def read (interfaces : List ISPInterface) (originFlowId : ℕ) (c : Connection)
    (r : ReceiverApplication) : Connection × ReceiverApplication :=
  let done := ReceiverApplication.handleRead interfaces originFlowId c.socket r
  ({ c with socket := done.1, callbackDue := false }, done.2)

end Connection

/-- The connections are in the order of the interfaces. -/
structure Transfer where
  sender : SenderApplication
  connections : List Connection
  receiver : ReceiverApplication := {}

namespace Transfer

inductive Event
  | sender (a : Action)
  | delivered (l n : ℕ)
  | read (l : ℕ)

def Init (env : Environment) (setup : Setup) (e : Event) (s : Transfer) : Prop :=
  ∃ a x, SenderApplication.Init env setup a x ∧ e = .sender a ∧ s = {
    sender := x
    connections := x.strategy.availableInterfaces.map fun i =>
      { socket := ⟨i.outgoingAddress, []⟩ } }

inductive Step (env : Environment) : Transfer → Event → Transfer → Prop
  | sender {s : Transfer} {a : Action} {x : SenderApplication} :
      SenderApplication.Step env s.sender a x → Step env s (.sender a) { s with sender := x }
  | delivered {s : Transfer} {l n : ℕ} {i : ISPInterface} {c : Connection} :
      s.sender.strategy.availableInterfaces[l]? = some i → s.connections[l]? = some c →
      c.delivered + n ≤ i.socketInfo.bytes.length →
      Step env s (.delivered l n)
        { s with connections := s.connections.set l (c.deliver i.socketInfo.bytes n) }
  | read {s : Transfer} {l : ℕ} {c : Connection} (originFlowId : ℕ) :
      s.connections[l]? = some c →
      Step env s (.read l) { s with
        connections := s.connections.set l
          (c.read s.sender.strategy.availableInterfaces originFlowId s.receiver).1
        receiver := (c.read s.sender.strategy.availableInterfaces originFlowId s.receiver).2 }

/-- The application of the packet that an event hands to the socket of an interface. -/
def Event.sentOn (l : ℕ) : Event → List ℕ
  | .sender (.taken _ l' packetInfo false) => if l' = l then [packetInfo.originatedFrom] else []
  | _ => []

/-- The applications of the packets that `SendData` has sent on an interface, the oldest first. -/
def sentOn (l : ℕ) (events : List Event) : List ℕ := events.flatMap (Event.sentOn l)

theorem sentOn_concat (l : ℕ) (events : List Event) (e : Event) :
    sentOn l (events ++ [e]) = sentOn l events ++ e.sentOn l := by
  simp [sentOn]

/-! ## What a step of the sender puts on the streams -/

theorem bytes_eq_stream {socket : Socket} {ids : List ℕ}
    (h : socket.sent = ids.map (Packet.mk Utils.packetSizeByte)) :
    socket.bytes = stream Utils.packetSizeByte (ids.map fun id => Byte.mk (some id)) := by
  rw [Socket.bytes, h, stream, List.flatMap_map, List.flatMap_map]
  rfl

theorem exists_of_map_eq {γ : Type*} {g : ISPInterface → γ} {ifaces ifaces' : List ISPInterface}
    (h : ifaces'.map g = ifaces.map g) {l : ℕ} {i' : ISPInterface} (hi' : ifaces'[l]? = some i') :
    ∃ i, ifaces[l]? = some i ∧ g i' = g i := by
  have hl := congrArg (fun xs => xs[l]?) h
  rw [List.getElem?_map, List.getElem?_map, hi', Option.map_some, eq_comm,
    Option.map_eq_some_iff] at hl
  obtain ⟨i, hi, heq⟩ := hl
  exact ⟨i, hi, heq.symm⟩

theorem step_sent {env : Environment} {x y : SenderApplication} {a : Action}
    (h : SenderApplication.Step env x a y) {l : ℕ} {i' : ISPInterface}
    (hi' : y.strategy.availableInterfaces[l]? = some i') :
    ∃ i, x.strategy.availableInterfaces[l]? = some i ∧ i'.outgoingAddress = i.outgoingAddress ∧
      i'.socketInfo.sent = i.socketInfo.sent ++
        ((Event.sender a).sentOn l).map (Packet.mk Utils.packetSizeByte) := by
  obtain ⟨now, poll, e, -, hrun⟩ := h
  rcases SenderApplication.run_cases hrun with
    ⟨-, before, after, rfl, hcomputes⟩ | ⟨l', -, ⟨-, rfl, rfl⟩ | ⟨-, hsend⟩⟩
  · have hkeeps := hcomputes.keeps (g := fun i => (i.outgoingAddress, i.socketInfo))
      fun _ _ => rfl
    obtain ⟨i, hi, heq⟩ := exists_of_map_eq hkeeps hi'
    obtain ⟨haddress, hsocket⟩ := Prod.mk.inj heq
    exact ⟨i, hi, haddress, by rw [hsocket]; exact (List.append_nil _).symm⟩
  · exact ⟨i', hi', rfl, (List.append_nil _).symm⟩
  · obtain ⟨interface, hl', -, -, ⟨rfl, hstrategy, -⟩ | ⟨packetInfo, rest, -, rfl, hstrategy⟩⟩ :=
      SenderApplication.sendData_eq_ok hsend
    · rw [hstrategy] at hi'
      exact ⟨i', hi', rfl, (List.append_nil _).symm⟩
    · rw [hstrategy] at hi'
      rcases getElem?_set_eq_some hi' with ⟨rfl, rfl⟩ | ⟨hll, hi'⟩
      · refine ⟨interface, hl', congrArg ISPInterface.Attributes.outgoingAddress
          (SenderApplication.attributes_afterSend _ _ _ _), ?_⟩
        cases poll.isCorrupt with
        | true => exact (List.append_nil _).symm
        | false => simp [SenderApplication.afterSend, SenderApplication.sent, Event.sentOn]
      · refine ⟨i', hi', rfl, ?_⟩
        cases poll.isCorrupt <;> simp [Event.sentOn, hll.symm]

/-- The address of an interface finds that interface. -/
theorem findIdx?_outgoingAddress {ifaces : List ISPInterface}
    (hdistinct : (ifaces.map (·.outgoingAddress)).Nodup) {l : ℕ} {i : ISPInterface}
    (hi : ifaces[l]? = some i) :
    ifaces.findIdx? (fun j => decide (j.outgoingAddress = i.outgoingAddress)) = some l := by
  induction ifaces generalizing l with
  | nil => cases hi
  | cons head ifaces ih =>
    rw [List.map_cons, List.nodup_cons] at hdistinct
    rw [List.findIdx?_cons]
    cases l with
    | zero =>
      rw [List.getElem?_cons_zero, Option.some.injEq] at hi
      rw [hi, decide_eq_true rfl, if_pos rfl]
    | succ l =>
      rw [List.getElem?_cons_succ] at hi
      have hne : head.outgoingAddress ≠ i.outgoingAddress := fun heq =>
        hdistinct.1 (heq ▸ List.mem_map_of_mem (List.mem_of_getElem? hi))
      rw [decide_eq_false hne, if_neg Bool.false_ne_true, ih hdistinct.2 hi]
      rfl

/-! ## The reads stay aligned -/

/-- `sent` are the applications of the packets sent on the interface at position `l`, and `c` is
its connection: the packets attributed to it are those whose bytes have been read. -/
structure Aligned (l : ℕ) (sent : List ℕ) (c : Connection) (r : ReceiverApplication) : Prop where
  reads : ∃ read, Receives Utils.packetSizeByte (sent.map fun id => Byte.mk (some id)) c.delivered
      read c.socket.rxBuffer ∧
    r.receivedFrom l = (sent.take read).map (ReceivedPacketInfo.mk l)
  rest_lt : c.callbackDue = false → c.socket.rxBuffer.length < Utils.packetSizeByte

structure Matched (events : List Event) (s : Transfer) : Prop where
  distinct : (s.sender.strategy.availableInterfaces.map (·.outgoingAddress)).Nodup
  length_eq : s.connections.length = s.sender.strategy.availableInterfaces.length
  sent : ∀ (l : ℕ) (i : ISPInterface), s.sender.strategy.availableInterfaces[l]? = some i →
    i.socketInfo.sent = (sentOn l events).map (Packet.mk Utils.packetSizeByte)
  peer : ∀ (l : ℕ) (i : ISPInterface) (c : Connection),
    s.sender.strategy.availableInterfaces[l]? = some i → s.connections[l]? = some c →
      c.socket.peer = i.outgoingAddress
  aligned : ∀ (l : ℕ) (c : Connection), s.connections[l]? = some c →
    Aligned l (sentOn l events) c s.receiver

theorem Aligned.send {l : ℕ} {sent : List ℕ} {c : Connection} {r : ReceiverApplication}
    (h : Aligned l sent c r) (sent' : List ℕ) : Aligned l (sent ++ sent') c r where
  reads := by
    obtain ⟨read, hreceives, hreceived⟩ := h.reads
    have hle : read ≤ sent.length := by
      have hread := hreceives.read_le.trans hreceives.delivered_le
      rw [List.length_map] at hread
      exact Nat.le_of_mul_le_mul_right hread (by decide)
    refine ⟨read, ?_, ?_⟩
    · rw [List.map_append]
      exact hreceives.send _
    · rw [hreceived, List.take_append_of_le_length hle]
  rest_lt := h.rest_lt

theorem Aligned.deliver {l n : ℕ} {sent : List ℕ} {c : Connection} {r : ReceiverApplication}
    (h : Aligned l sent c r) (hn : c.delivered + n ≤ sent.length * Utils.packetSizeByte) :
    Aligned l sent
      (c.deliver (stream Utils.packetSizeByte (sent.map fun id => Byte.mk (some id))) n) r where
  reads := by
    obtain ⟨read, hreceives, hreceived⟩ := h.reads
    exact ⟨read, hreceives.deliver (by rwa [List.length_map]), hreceived⟩
  rest_lt hdue := by cases hdue

theorem matched_init {env : Environment} {setup : Setup} {e : Event} {s : Transfer}
    (h : Init env setup e s) : Matched [e] s := by
  obtain ⟨a, x, ⟨now, hstart⟩, rfl, rfl⟩ := h
  obtain ⟨x₀, before, after, hstarted, rfl, hcomputes⟩ :=
    SenderApplication.startApplication_eq_ok hstart
  have hkeeps := hcomputes.keeps (g := fun i => (i.outgoingAddress, i.socketInfo)) fun _ _ => rfl
  have haddresses : x.strategy.availableInterfaces.map (·.outgoingAddress) =
      x₀.strategy.availableInterfaces.map (·.outgoingAddress) := by
    simpa [Function.comp_def] using congrArg (List.map Prod.fst) hkeeps
  constructor
  · rw [haddresses]
    exact hstarted.created.distinct
  · simp
  · intro l i hi
    obtain ⟨i₀, hi₀, heq⟩ := exists_of_map_eq hkeeps hi
    rw [(Prod.mk.inj heq).2, hstarted.created.socketInfo i₀ (List.mem_of_getElem? hi₀)]
    rfl
  · intro l i c hi hc
    rw [List.getElem?_map, hi, Option.map_some, Option.some.injEq] at hc
    rw [← hc]
  · intro l c hc
    rw [List.getElem?_map, Option.map_eq_some_iff] at hc
    obtain ⟨i, -, rfl⟩ := hc
    exact ⟨⟨0, .start _, rfl⟩, fun _ => (by decide : 0 < Utils.packetSizeByte)⟩

theorem Aligned.read {ifaces : List ISPInterface} (originFlowId : ℕ) {l : ℕ} {sent : List ℕ}
    {c : Connection} {r : ReceiverApplication} (h : Aligned l sent c r)
    (hpeer : ifaces.findIdx? (fun i => decide (i.outgoingAddress = c.socket.peer)) = some l) :
    Aligned l sent (c.read ifaces originFlowId r).1 (c.read ifaces originFlowId r).2 ∧
      (c.read ifaces originFlowId r).1.socket.peer = c.socket.peer ∧
      ∀ l' ≠ l, (c.read ifaces originFlowId r).2.receivedFrom l' = r.receivedFrom l' := by
  obtain ⟨read, hreceives, hreceived⟩ := h.reads
  obtain ⟨read', hreceives', hreceived', hrest, hpeer', hothers⟩ :=
    ReceiverApplication.handleRead_spec originFlowId hpeer hreceives hreceived
  exact ⟨⟨⟨read', hreceives', hreceived'⟩, fun _ => hrest⟩, hpeer', hothers⟩

/-- Another connection may have changed. -/
theorem Aligned.of_receivedFrom {l : ℕ} {sent : List ℕ} {c : Connection}
    {r r' : ReceiverApplication} (h : Aligned l sent c r)
    (hr : r'.receivedFrom l = r.receivedFrom l) : Aligned l sent c r' where
  reads := by
    obtain ⟨read, hreceives, hreceived⟩ := h.reads
    exact ⟨read, hreceives, hr.trans hreceived⟩
  rest_lt := h.rest_lt

/-- One connection changes while the sender rests. -/
theorem Matched.set {events : List Event} {s : Transfer} (hs : Matched events s) {e : Event}
    (hrests : ∀ l, e.sentOn l = []) {l : ℕ} {c c' : Connection} {r : ReceiverApplication}
    (hc : s.connections[l]? = some c) (hpeer : c'.socket.peer = c.socket.peer)
    (haligned : Aligned l (sentOn l events) c' r)
    (hothers : ∀ l' ≠ l, r.receivedFrom l' = s.receiver.receivedFrom l') :
    Matched (events ++ [e]) { s with connections := s.connections.set l c', receiver := r } := by
  have hsame : ∀ l', sentOn l' (events ++ [e]) = sentOn l' events := fun l' => by
    rw [sentOn_concat, hrests, List.append_nil]
  refine ⟨hs.distinct, ?_, ?_, ?_, ?_⟩
  · rw [List.length_set]
    exact hs.length_eq
  · simpa only [hsame] using hs.sent
  · intro l' i d hi hd
    rcases getElem?_set_eq_some hd with ⟨rfl, rfl⟩ | ⟨-, hd⟩
    · rw [hpeer]
      exact hs.peer l' i c hi hc
    · exact hs.peer l' i d hi hd
  · intro l' d hd
    rw [hsame]
    rcases getElem?_set_eq_some hd with ⟨rfl, rfl⟩ | ⟨hll, hd⟩
    · exact haligned
    · exact (hs.aligned l' d hd).of_receivedFrom (hothers l' hll)

theorem Matched.send {env : Environment} {events : List Event} {s : Transfer}
    (hs : Matched events s) {a : Action} {x : SenderApplication}
    (h : SenderApplication.Step env s.sender a x) :
    Matched (events ++ [.sender a]) { s with sender := x } := by
  have hattributes := SenderApplication.step_attributes h
  constructor
  · have haddresses := congrArg (List.map ISPInterface.Attributes.outgoingAddress) hattributes
    rw [List.map_map, List.map_map] at haddresses
    exact haddresses ▸ hs.distinct
  · rw [hs.length_eq]
    simpa using (congrArg List.length hattributes).symm
  · intro l i' hi'
    obtain ⟨i, hi, -, hsent⟩ := step_sent h hi'
    rw [hsent, hs.sent l i hi, sentOn_concat, List.map_append]
  · intro l i' c hi' hc
    obtain ⟨i, hi, haddress, -⟩ := step_sent h hi'
    rw [hs.peer l i c hi hc, haddress]
  · intro l c hc
    rw [sentOn_concat]
    exact (hs.aligned l c hc).send _

theorem matched_step {env : Environment} {events : List Event} {e : Event} {s s' : Transfer}
    (hs : Matched events s) (h : Step env s e s') : Matched (events ++ [e]) s' := by
  cases h with
  | sender hstep => exact hs.send hstep
  | @delivered l n i c hi hc hn =>
    have hstream := bytes_eq_stream (hs.sent l i hi)
    rw [hstream, length_stream, List.length_map] at hn
    rw [hstream]
    exact hs.set (fun _ => rfl) hc rfl ((hs.aligned l c hc).deliver hn) fun _ _ => rfl
  | @read l c originFlowId hc =>
    have hl := (List.getElem?_eq_some_iff.mp hc).1
    obtain ⟨i, hi⟩ : ∃ i, s.sender.strategy.availableInterfaces[l]? = some i :=
      ⟨_, List.getElem?_eq_getElem (hs.length_eq ▸ hl)⟩
    have hpeer := findIdx?_outgoingAddress hs.distinct hi
    rw [← hs.peer l i c hi hc] at hpeer
    obtain ⟨haligned, hpeer', hothers⟩ := (hs.aligned l c hc).read originFlowId hpeer
    exact hs.set (fun _ => rfl) hc hpeer' haligned hothers

/-! ## Every run of both ends -/

abbrev Transfers (env : Environment) (setup : Setup) : List Event → Transfer → Prop :=
  Transition.Reaches (Init env setup) (Step env)

section

variable {env : Environment} {setup : Setup} {events : List Event} {s : Transfer}

theorem matched_of_transfers (h : Transfers env setup events s) : Matched events s :=
  h.invariant (fun _ _ hinit => matched_init hinit) fun _ _ _ _ _ hs hstep => matched_step hs hstep

/-- A run of the sender is a run of both ends in which nothing arrives. -/
theorem transfers_of_runs {as : List Action} {x : SenderApplication}
    (h : SenderApplication.Runs env setup as x) :
    ∃ s, Transfers env setup (as.map .sender) s ∧ s.sender = x ∧ s.receiver = {} ∧
      ∀ c ∈ s.connections, c.delivered = 0 := by
  induction h with
  | start hinit =>
    refine ⟨_, .start ⟨_, _, hinit, rfl, rfl⟩, rfl, rfl, fun c hc => ?_⟩
    obtain ⟨i, -, rfl⟩ := List.mem_map.mp hc
    rfl
  | step _ hstep ih =>
    obtain ⟨s, hs, rfl, hreceiver, hdelivered⟩ := ih
    rw [List.map_append, List.map_singleton]
    exact ⟨_, hs.step (.sender hstep), rfl, hreceiver, hdelivered⟩

/-- Any part of what is on its way can arrive and be read. -/
theorem exists_delivered {l n : ℕ} {i : ISPInterface} {c : Connection}
    (h : Transfers env setup events s)
    (hi : s.sender.strategy.availableInterfaces[l]? = some i) (hc : s.connections[l]? = some c)
    (hn : c.delivered + n ≤ i.socketInfo.bytes.length) :
    ∃ s' c', Transfers env setup (events ++ [.delivered l n] ++ [.read l]) s' ∧
      s'.sender = s.sender ∧ s'.connections[l]? = some c' ∧ c'.delivered = c.delivered + n ∧
      c'.callbackDue = false ∧
      ∀ l' ≠ l, s'.receiver.receivedFrom l' = s.receiver.receivedFrom l' := by
  have hl := (List.getElem?_eq_some_iff.mp hc).1
  have hdelivered := h.step (.delivered hi hc hn)
  have hset := List.getElem?_set_self (a := c.deliver i.socketInfo.bytes n) hl
  have hread := hdelivered.step (.read 0 hset)
  have hmatched := matched_of_transfers hdelivered
  have hpeer := findIdx?_outgoingAddress hmatched.distinct hi
  rw [← hmatched.peer l i _ hi hset] at hpeer
  obtain ⟨-, -, hothers⟩ := (hmatched.aligned l _ hset).read 0 hpeer
  exact ⟨_, _, hread, rfl, List.getElem?_set_self (by rwa [List.length_set]), rfl, rfl, hothers⟩

/-- The first bytes sent on an interface arrive and are read, and nothing else. -/
theorem exists_received {as : List Action} {x : SenderApplication} {l n : ℕ} {i : ISPInterface}
    (h : SenderApplication.Runs env setup as x)
    (hi : x.strategy.availableInterfaces[l]? = some i) (hn : n ≤ i.socketInfo.bytes.length) :
    ∃ events s c, Transfers env setup events s ∧ s.sender = x ∧ s.connections[l]? = some c ∧
      c.delivered = n ∧ c.callbackDue = false ∧
      sentOn l events = sentOn l (as.map .sender) ∧
      ∀ l' ≠ l, s.receiver.receivedFrom l' = [] := by
  obtain ⟨s, hs, rfl, hreceiver, hnothing⟩ := transfers_of_runs h
  have hlt : l < s.connections.length := by
    rw [(matched_of_transfers hs).length_eq]
    exact (List.getElem?_eq_some_iff.mp hi).1
  have hc := List.getElem?_eq_getElem hlt
  have hzero := hnothing _ (List.mem_of_getElem? hc)
  have hn' : s.connections[l].delivered + n ≤ i.socketInfo.bytes.length := by
    rwa [hzero, Nat.zero_add]
  obtain ⟨s', c', hs', hsender, hc', hdelivered, hdue, hothers⟩ := exists_delivered hs hi hc hn'
  rw [hzero, Nat.zero_add] at hdelivered
  refine ⟨as.map .sender ++ [.delivered l n] ++ [.read l], s', c', hs', hsender, hc', hdelivered,
    hdue, ?_, fun l' hne => ?_⟩
  · simp [sentOn, Event.sentOn]
  · rw [hothers l' hne, hreceiver]
    rfl

/-- The packets attributed to an interface are the first ones sent on it, in order: those whose
bytes have been read, which are all complete ones unless the callback of the connection is due. -/
theorem received_prefix_of_sent (h : Transfers env setup events s) :
    s.connections.length = s.sender.strategy.availableInterfaces.length ∧
      ∀ l c, s.connections[l]? = some c →
        (∃ n, s.receiver.receivedFrom l =
            ((sentOn l events).take n).map (ReceivedPacketInfo.mk l) ∧
          n * Utils.packetSizeByte + c.socket.rxBuffer.length = c.delivered) ∧
        (c.callbackDue = false →
          s.receiver.receivedFrom l = ((sentOn l events).take
              (c.delivered / Utils.packetSizeByte)).map (ReceivedPacketInfo.mk l) ∧
            c.socket.rxBuffer.length = c.delivered % Utils.packetSizeByte ∧
            c.socket.rxBuffer.length < Utils.packetSizeByte) := by
  have hmatched := matched_of_transfers h
  refine ⟨hmatched.length_eq, fun l c hc => ?_⟩
  have haligned := hmatched.aligned l c hc
  obtain ⟨read, hreceives, hreceived⟩ := haligned.reads
  constructor
  · have hle := hreceives.read_le
    have hlength := hreceives.length_buffer
    exact ⟨read, hreceived, by omega⟩
  · intro hdue
    have hrest := haligned.rest_lt hdue
    obtain ⟨hread, hmod⟩ := hreceives.read_eq hrest
    exact ⟨by rw [hreceived, hread], hmod, hrest⟩

/-- Two packets are sent; 200 bytes arrive, which is one packet and 72 bytes. -/
theorem received_prefix_of_sent_sample :
    ∃ events s c, Transfers SenderApplication.sampleEnvironment
        (SenderApplication.sampleSetup .reactive) events s ∧
      s.connections[0]? = some c ∧ s.receiver.receivedFrom 0 = [⟨0, 1⟩] ∧
      c.socket.rxBuffer.length = 72 := by
  obtain ⟨as, x, hruns, hobserved⟩ := SenderApplication.exists_timedRuns
    SenderApplication.sampleEnvironment 0 (SenderApplication.sampleSetup .reactive)
    (List.replicate 3 false)
    (fun s => (s.1.flatMap fun a => (Event.sender a).sentOn 0,
      s.2.strategy.availableInterfaces.map fun i => i.socketInfo.bytes.length))
    ([1, 1], [256, 128]) (by decide +kernel)
  obtain ⟨hsent, hbytes⟩ := Prod.mk.inj hobserved
  obtain ⟨i, hi, hlength⟩ : ∃ i, x.strategy.availableInterfaces[0]? = some i ∧
      i.socketInfo.bytes.length = 256 := by
    have hfirst := congrArg (fun xs => xs[0]?) hbytes
    exact Option.map_eq_some_iff.mp ((List.getElem?_map ..).symm.trans hfirst)
  obtain ⟨events, s, c, hs, -, hc, hdelivered, hdue, hall, -⟩ :=
    exists_received hruns.runs hi (by rw [hlength]; decide : 200 ≤ _)
  obtain ⟨hreceived, hrest, -⟩ := ((received_prefix_of_sent hs).2 0 c hc).2 hdue
  have hsent' : sentOn 0 (as.map Event.sender) = [1, 1] := by
    rw [sentOn, List.flatMap_map]
    exact hsent
  rw [hsent'] at hall
  rw [hdelivered] at hreceived hrest
  rw [hall] at hreceived
  exact ⟨_, s, c, hs, hc, hreceived, hrest⟩

end

end Transfer

end SdWan
