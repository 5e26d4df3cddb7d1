import SdWan.LinearStrategy
import SdWan.RandomStrategy
import SdWan.ReactiveStrategy
import SdWan.RoundRobinStrategy
import SdWan.Library.EventQueue

/-!
# The sender

`startApplication` creates the interfaces and the strategy, starts the applications, schedules one
`sendPacket` event for every interface and computes for the first time.
`computeStrategyAndContinue` updates the applications, computes and schedules itself one second
later; `sendPacket` takes at most one packet out of the queue of its interface and schedules
itself one transmission time later. Both stop once all data has been sent.

Every call returns an `Action` that says what it did. A call that throws ends the simulation.
-/

open IntegerProgram

namespace SdWan

inductive StrategyTypes
  | linear
  | random
  | roundRobin
  | reactive
  deriving DecidableEq, Repr

/-- What the strategies take from elsewhere: the solver and the random engine. -/
structure Environment where
  solve : Solver
  shuffle : ℕ → List ℕ → List ℕ × ℕ
  rng : ℕ → ℕ

def Strategy.compute (env : Environment) (strategyType : StrategyTypes) (now : Time)
    (s : Strategy) : Call Strategy :=
  match strategyType with
  | .linear => LinearStrategy.compute env.solve now s
  | .random => RandomStrategy.compute env.shuffle env.rng now s
  | .roundRobin => RoundRobinStrategy.compute now s
  | .reactive => ReactiveStrategy.compute env.solve now s

inductive Handler
  | computeStrategyAndContinue
  | sendPacket (interface : ℕ)
  deriving DecidableEq, Repr

/-- What a run does, event by event. -/
inductive Action
  | computed (now : Time) (before after : Strategy)
  | ended (interface : ℕ)
  | idle (interface : ℕ)
  | taken (now : Time) (interface : ℕ) (packetInfo : SendPacketInfo) (isCorrupt : Bool)

/-- What `SendData` learns from the socket and from the error model. -/
structure Poll where
  txAvailable : ℕ
  isCorrupt : Bool
  actual : ℤ

/-- The configuration of a sender: the devices of its node, each with its addresses, and the
members set before the start. -/
structure Setup where
  devices : List (NetDevice × List ℕ)
  addresses : List Address
  costs : List ℕ
  application : List Application
  strategyType : StrategyTypes
  fresh : ∀ app ∈ application, app.Fresh

structure SenderApplication where
  strategyType : StrategyTypes
  strategy : Strategy
  simulator : EventQueue Time Handler

namespace SenderApplication

/-! ## The start -/

def hasAlreadyInitSocket (availableInterfaces : List ISPInterface) (source : Address) : Bool :=
  availableInterfaces.any fun interface => decide (interface.outgoingAddress = source)

/-- The second component is `initialInterfaceId`. -/
def initSocket (device : NetDevice) (source destinationAddress : Address) (cost : ℕ)
    (s : List ISPInterface × ℕ) : List ISPInterface × ℕ :=
  if hasAlreadyInitSocket s.1 source then s
  else
    let interfaceId := uint32 (s.2 + 1)
    (s.1 ++ [{
      interfaceId := interfaceId
      netDevice := device
      outgoingAddress := source
      destinationAddress := destinationAddress
      errorModel := device.receiveErrorModel
      cost := cost }], interfaceId)

def initSockets (setup : Setup) : Result (List ISPInterface × ℕ) :=
  setup.devices.zipIdx.foldlM (fun s (devicei : (NetDevice × List ℕ) × ℕ) =>
    devicei.1.2.foldlM (fun s addr => do
      let destinationAddress ← vectorAt setup.addresses devicei.2
      let cost ← vectorAt setup.costs devicei.2
      .ok (initSocket devicei.1.1 ⟨addr, Utils.connectionPort⟩ destinationAddress cost s)) s)
    ([], 100)

/-- `std::for_each` with a virtual call on every application. -/
def forEach (call : Application → Result Application) : List Application →
    Result (List Application)
  | [] => .ok []
  | app :: apps => do
    let app ← call app
    let apps ← forEach call apps
    .ok (app :: apps)

variable (env : Environment) (now : Time)

def computeStrategyAndContinue (x : SenderApplication) : Result (Action × SenderApplication) := do
  let applications ← forEach Application.update x.strategy.applications
  let before := { x.strategy with applications := applications }
  match before.compute env x.strategyType now with
  | .error (e, _) => .error e
  | .ok after =>
    .ok (.computed now before after,
      if after.getAllDataHasBeenSent then { x with strategy := after }
      else { x with
        strategy := after
        simulator := x.simulator.schedule (now + 1) .computeStrategyAndContinue })

/-- One event for each interface, at once. -/
def initInterfaceEventLoops (amountOfInterfaces : ℕ) : EventQueue Time Handler :=
  (List.range amountOfInterfaces).foldl (fun q l => q.schedule (now + 0) (.sendPacket l)) {}

def startApplication (setup : Setup) : Result (Action × SenderApplication) := do
  let (availableInterfaces, _) ← initSockets setup
  let applications ← forEach Application.onApplicationStart setup.application
  computeStrategyAndContinue env now {
    strategyType := setup.strategyType
    strategy := { applications := applications, availableInterfaces := availableInterfaces }
    simulator := initInterfaceEventLoops now availableInterfaces.length }

/-! ## The loop of an interface -/

/-- The time one packet takes on the channel. -/
def transmissionTime (interface : ISPInterface) : Time :=
  Utils.packetSizeBit / interface.getDataBitRate

/-- The socket of the interface took the packet. -/
def sent (interface : ISPInterface) (packet : Packet) : ISPInterface :=
  { interface with
    socketInfo := { sent := interface.socketInfo.sent ++ [packet] }
    correctPackages := uint32 (interface.correctPackages + 1) }

def corrupted (interface : ISPInterface) : ISPInterface :=
  { interface with corruptPackages := uint32 (interface.corruptPackages + 1) }

def sendData (poll : Poll) (l : ℕ) (x : SenderApplication) : Result (Action × SenderApplication) :=
  match x.strategy.availableInterfaces[l]? with
  | none => .error .outOfRange
  | some interface =>
    let simulator := x.simulator.schedule (now + transmissionTime interface) (.sendPacket l)
    if !interface.getHasAnyAvailablePackage then .ok (.idle l, { x with simulator := simulator })
    else if poll.txAvailable < Utils.packetSizeByte then
      .ok (.idle l, { x with simulator := simulator })
    else
      match interface.getNextPacket with
      | (none, _) => .error .popOnEmptyQueue
      | (some packetInfo, rest) =>
        let packet : Packet := ⟨Utils.packetSizeByte, packetInfo.originatedFrom⟩
        let done (interface : ISPInterface) : Action × SenderApplication :=
          (.taken now l packetInfo poll.isCorrupt, { x with
            strategy := { x.strategy with
              availableInterfaces := x.strategy.availableInterfaces.set l interface }
            simulator := simulator })
        if poll.isCorrupt then .ok (done (corrupted rest))
        else if poll.actual % 2 ^ 32 = Utils.packetSizeByte then .ok (done (sent rest packet))
        else .error (.fatalError "Unexpected return value from m_socket->Send ()")

def sendPacket (poll : Poll) (l : ℕ) (x : SenderApplication) :
    Result (Action × SenderApplication) :=
  if x.strategy.getAllDataHasBeenSent then .ok (.ended l, x) else sendData now poll l x

/-- The simulator runs a pending event. -/
def run (poll : Poll) (e : EventQueue.Event Time Handler) (x : SenderApplication) :
    Result (Action × SenderApplication) :=
  let x := { x with simulator := x.simulator.remove e }
  match e.handler with
  | .computeStrategyAndContinue => computeStrategyAndContinue env now x
  | .sendPacket l => sendPacket now poll l x

end SenderApplication

end SdWan
