import SdWan.Application

/-!
# Interfaces of the sender

An `ISPInterface` owns a queue of packets waiting to be sent, counts what it has sent or lost, and
reads its rate and delay from the channel of its network device. The socket records the packets
handed to `Send`; of a packet only its size and the flow id of its byte tag are ever read.
-/

namespace SdWan

/-- An `InetSocketAddress`. -/
structure Address where
  ipv4 : ℕ
  port : ℕ
  deriving DecidableEq, Repr

/-- The attributes of a device and its channel: bits per second, milliseconds, and the `ErrorRate`
of the device's receive error model, a probability. -/
structure NetDevice where
  dataRate : ℕ
  delay : ℕ
  receiveErrorModel : ℚ≥0
  deriving DecidableEq

structure SendPacketInfo where
  dateEnqueued : Time
  originatedFrom : ℕ
  deriving DecidableEq

/-- The number of packets that originated from an application. -/
def amountFrom (applicationId : ℕ) (packets : List SendPacketInfo) : ℕ :=
  packets.countP fun p => decide (p.originatedFrom = applicationId)

theorem amountFrom_eq_sum (applicationId : ℕ) (packets : List SendPacketInfo) :
    amountFrom applicationId packets =
      (packets.map fun p => if p.originatedFrom = applicationId then 1 else 0).sum := by
  unfold amountFrom
  induction packets with
  | nil => rfl
  | cons p packets ih =>
    rw [List.countP_cons, ih, List.map_cons, List.sum_cons, Nat.add_comm]
    simp only [decide_eq_true_eq]

structure Packet where
  size : ℕ
  flowId : ℕ
  deriving DecidableEq, Repr

structure Socket where
  sent : List Packet := []
  deriving DecidableEq, Repr

structure ISPInterface where
  interfaceId : ℕ
  netDevice : NetDevice
  outgoingAddress : Address
  destinationAddress : Address
  errorModel : ℚ≥0
  cost : ℕ
  socketInfo : Socket := {}
  correctPackages : ℕ := 0
  corruptPackages : ℕ := 0
  pendingpackets : List SendPacketInfo := []
  deriving DecidableEq

namespace ISPInterface

def getDataBitRate (i : ISPInterface) : ℕ := i.netDevice.dataRate

/-- Packets per second, rounded down. -/
def getPackageRate (i : ISPInterface) : ℕ := i.getDataBitRate / Utils.packetSizeBit

def getDelayInMilliseconds (i : ISPInterface) : ℕ := uint32 i.netDevice.delay

/-- A percentage. -/
def getErrorRate (i : ISPInterface) : ℚ := i.errorModel * 100

theorem getErrorRate_nonneg (i : ISPInterface) : 0 ≤ i.getErrorRate :=
  mul_nonneg i.errorModel.2 (by norm_num)

def enqueuePacket (i : ISPInterface) (packet : SendPacketInfo) : ISPInterface :=
  { i with pendingpackets := i.pendingpackets ++ [packet] }

def getHasAnyAvailablePackage (i : ISPInterface) : Bool := !i.pendingpackets.isEmpty

/-- The front of the queue, removed from it. -/
def getNextPacket (i : ISPInterface) : Option SendPacketInfo × ISPInterface :=
  match i.pendingpackets with
  | [] => (none, i)
  | value :: rest => (some value, { i with pendingpackets := rest })

def getAverageWaitingTimeInMilliseconds (now : Time) (i : ISPInterface) : ℚ :=
  let currentPackets := uint32 i.pendingpackets.length
  let currentTime : ℚ := ⌊now * 1000⌋
  if currentTime = 0 then 0
  else
    let totalAmountOfPackets := uint32 (i.correctPackages + i.corruptPackages)
    let arrivalRate : ℚ := totalAmountOfPackets / currentTime
    if arrivalRate = 0 then 0 else currentPackets / arrivalRate

/-- Appends packets one after the other. -/
def enqueueAll (i : ISPInterface) (packets : List SendPacketInfo) : ISPInterface :=
  { i with pendingpackets := i.pendingpackets ++ packets }

@[simp] theorem enqueueAll_nil (i : ISPInterface) : i.enqueueAll [] = i := by
  simp [enqueueAll]

theorem enqueueAll_cons (i : ISPInterface) (p : SendPacketInfo) (ps : List SendPacketInfo) :
    i.enqueueAll (p :: ps) = (i.enqueuePacket p).enqueueAll ps := by
  simp [enqueueAll, enqueuePacket]

@[simp] theorem enqueueAll_enqueueAll (i : ISPInterface) (ps qs : List SendPacketInfo) :
    (i.enqueueAll ps).enqueueAll qs = i.enqueueAll (ps ++ qs) := by
  simp [enqueueAll]

@[simp] theorem getHasAnyAvailablePackage_eq_false (i : ISPInterface) :
    i.getHasAnyAvailablePackage = false ↔ i.pendingpackets = [] := by
  simp [getHasAnyAvailablePackage]

/-! ## What never changes about an interface -/

/-- The attributes of an interface that no call of the sender modifies. -/
structure Attributes where
  interfaceId : ℕ
  netDevice : NetDevice
  outgoingAddress : Address
  destinationAddress : Address
  errorModel : ℚ≥0
  cost : ℕ
  deriving DecidableEq

def attributes (i : ISPInterface) : Attributes where
  interfaceId := i.interfaceId
  netDevice := i.netDevice
  outgoingAddress := i.outgoingAddress
  destinationAddress := i.destinationAddress
  errorModel := i.errorModel
  cost := i.cost

@[simp] theorem attributes_enqueueAll (i : ISPInterface) (ps : List SendPacketInfo) :
    (i.enqueueAll ps).attributes = i.attributes := rfl

end ISPInterface

end SdWan
