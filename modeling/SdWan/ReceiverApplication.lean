import SdWan.ISPInterface
import SdWan.Library.Framing

/-!
# The receiver

The network carries the bytes of the packets handed to `Send` in order, each with its byte tag.
`handleRead` takes packets of `packetSizeByte` bytes out of the buffer of an accepted socket while
one is available, reads the flow id off the tag, looks up the interface of the sender by the address
of the peer, and records where the packet came from.
-/

open Framing

namespace SdWan

/-- A byte and the flow id of its `FlowIdTag`, if it has one. -/
structure Byte where
  flowId : Option ℕ
  deriving DecidableEq, Repr

def Packet.bytes (packet : Packet) : List Byte := List.replicate packet.size ⟨some packet.flowId⟩

/-- The bytes handed to the socket, as a stream. -/
def Socket.bytes (socket : Socket) : List Byte := socket.sent.flatMap Packet.bytes

structure AcceptedSocket where
  peer : Address
  rxBuffer : List Byte := []
  deriving DecidableEq, Repr

namespace AcceptedSocket

def getRxAvailable (socket : AcceptedSocket) : ℕ := socket.rxBuffer.length

/-- The first `maxSize` bytes of the buffer and the address of the peer. -/
def recvFrom (maxSize : ℕ) (socket : AcceptedSocket) : (List Byte × Address) × AcceptedSocket :=
  ((socket.rxBuffer.take maxSize, socket.peer),
    { socket with rxBuffer := socket.rxBuffer.drop maxSize })

end AcceptedSocket

def findFirstMatchingByteTag (packet : List Byte) : Option ℕ := packet.findSome? (·.flowId)

/-- `fromInterface` is a position among the interfaces of the sender. -/
structure ReceivedPacketInfo where
  fromInterface : ℕ
  fromApplication : ℕ
  deriving DecidableEq, Repr

structure ReceiverApplication where
  totalRx : ℕ := 0
  receivedPacketInfo : List ReceivedPacketInfo := []
  deriving DecidableEq, Repr

namespace ReceiverApplication

/-- The body of the loop for one packet. Without a tag `originFlowId` keeps its value. -/
def receive (interfaces : List ISPInterface) (packet : List Byte) (sender : Address)
    (originFlowId : ℕ) (r : ReceiverApplication) : ReceiverApplication where
  totalRx := (r.totalRx + packet.length) % 2 ^ 64
  receivedPacketInfo :=
    match interfaces.findIdx? fun i => decide (i.outgoingAddress = sender) with
    | some interface => r.receivedPacketInfo ++ [⟨interface, originFlowId⟩]
    | none => r.receivedPacketInfo

/-- The variable `originFlowId` of the source is not initialised: any value may be in it. -/
def handleRead (interfaces : List ISPInterface) (originFlowId : ℕ) (socket : AcceptedSocket)
    (r : ReceiverApplication) : AcceptedSocket × ReceiverApplication :=
  if Utils.packetSizeByte ≤ socket.getRxAvailable then
    let received := socket.recvFrom Utils.packetSizeByte
    let originFlowId := (findFirstMatchingByteTag received.1.1).getD originFlowId
    handleRead interfaces originFlowId received.2
      (r.receive interfaces received.1.1 received.1.2 originFlowId)
  else (socket, r)
termination_by socket.getRxAvailable
decreasing_by
  have hsize : 0 < Utils.packetSizeByte := by decide
  simp only [AcceptedSocket.recvFrom, AcceptedSocket.getRxAvailable, List.length_drop] at *
  omega

/-- The packets attributed to an interface, in the order of arrival. -/
def receivedFrom (interface : ℕ) (r : ReceiverApplication) : List ReceivedPacketInfo :=
  r.receivedPacketInfo.filter fun p => decide (p.fromInterface = interface)

/-! ## What the loop reads -/

theorem findFirstMatchingByteTag_replicate {n : ℕ} (hn : 0 < n) (flowId : ℕ) :
    findFirstMatchingByteTag (List.replicate n ⟨some flowId⟩) = some flowId := by
  obtain ⟨n, rfl⟩ := Nat.exists_eq_succ_of_ne_zero hn.ne'
  rfl

section

variable {interfaces : List ISPInterface} {packet : List Byte} {sender : Address}
  {originFlowId interface : ℕ} {r : ReceiverApplication}

theorem receivedFrom_receive_self
    (h : interfaces.findIdx? (fun i => decide (i.outgoingAddress = sender)) = some interface) :
    (r.receive interfaces packet sender originFlowId).receivedFrom interface =
      r.receivedFrom interface ++ [⟨interface, originFlowId⟩] := by
  simp [receivedFrom, receive, h]

theorem receivedFrom_receive_of_ne
    (h : interfaces.findIdx? (fun i => decide (i.outgoingAddress = sender)) = some interface)
    {interface' : ℕ} (hne : interface' ≠ interface) :
    (r.receive interfaces packet sender originFlowId).receivedFrom interface' =
      r.receivedFrom interface' := by
  simp [receivedFrom, receive, h, hne.symm]

end

/-- What a call of `handleRead` does to a connection that carries the packets of the applications
`sent` over the interface at position `l`. -/
theorem handleRead_spec {interfaces : List ISPInterface} (originFlowId : ℕ)
    {l delivered read : ℕ}
    {sent : List ℕ} {socket : AcceptedSocket} {r : ReceiverApplication}
    (hpeer : interfaces.findIdx? (fun i => decide (i.outgoingAddress = socket.peer)) = some l)
    (hreceives : Receives Utils.packetSizeByte (sent.map fun id => Byte.mk (some id)) delivered read
      socket.rxBuffer)
    (hreceived : r.receivedFrom l = (sent.take read).map (ReceivedPacketInfo.mk l)) :
    ∃ read', Receives Utils.packetSizeByte (sent.map fun id => Byte.mk (some id)) delivered read'
        (handleRead interfaces originFlowId socket r).1.rxBuffer ∧
      (handleRead interfaces originFlowId socket r).2.receivedFrom l =
        (sent.take read').map (ReceivedPacketInfo.mk l) ∧
      (handleRead interfaces originFlowId socket r).1.rxBuffer.length < Utils.packetSizeByte ∧
      (handleRead interfaces originFlowId socket r).1.peer = socket.peer ∧
      ∀ l' ≠ l, (handleRead interfaces originFlowId socket r).2.receivedFrom l' =
        r.receivedFrom l' := by
  fun_induction handleRead interfaces originFlowId socket r generalizing read with
  | case1 originFlowId socket r havailable received originFlowId' =>
    rename_i ih
    obtain ⟨frame, hframe, hpacket, hrest⟩ := hreceives.read_frame (by decide) havailable
    rw [List.getElem?_map, Option.map_eq_some_iff] at hframe
    obtain ⟨id, hid, rfl⟩ := hframe
    have hsender : interfaces.findIdx? (fun i => decide (i.outgoingAddress = received.1.2)) =
        some l := hpeer
    have htag : originFlowId' = id := by
      change (findFirstMatchingByteTag (socket.rxBuffer.take _)).getD _ = id
      rw [hpacket, findFirstMatchingByteTag_replicate (by decide)]
      rfl
    have hnext : (r.receive interfaces received.1.1 received.1.2 originFlowId').receivedFrom l =
        (sent.take (read + 1)).map (ReceivedPacketInfo.mk l) := by
      rw [receivedFrom_receive_self hsender, hreceived, htag, List.take_add_one, hid,
        List.map_append]
      rfl
    obtain ⟨read', hreceives', hreceived', hleft, hpeer', hothers⟩ := ih hpeer hrest hnext
    refine ⟨read', hreceives', hreceived', hleft, hpeer', fun l' hne => ?_⟩
    rw [hothers l' hne, receivedFrom_receive_of_ne hsender hne]
  | case2 originFlowId socket r hempty =>
    exact ⟨read, hreceives, hreceived, Nat.lt_of_not_le hempty, rfl, fun _ _ => rfl⟩

end ReceiverApplication

end SdWan
