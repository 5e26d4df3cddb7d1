import SdWan.Assignment
import SdWan.ISPInterface
import SdWan.Library.IntegerProgram

/-!
# The integer programs of the optimising strategies

Both `ReactiveStrategy::ComputeOptimization` and `LinearStrategy::Compute` give every pair of an
application `j` and an interface `i` the variable `j + i * amountOfApplications`, build rows over
these variables and decode the solution into a table with one line per application.

A point satisfies the rows of the reactive strategy exactly when its table is an admissible
assignment of the pending packets. The linear strategy has no capacity rows and no waiting times,
and keeps the bandwidth row of an application without packets.
-/

open Finset IntegerProgram

namespace SdWan

/-! ## The rows -/

/-- One `SetCoefficient` for each interface, on the variable of application `j`. -/
def interfaceTerms (amountOfApplications : ℕ) (currentInterfaces : List ISPInterface)
    (coefficient : ISPInterface → ℚ) (j : ℕ) : List (ℕ × ℚ) :=
  currentInterfaces.zipIdx.map fun (currentInterface, i) =>
    (j + i * amountOfApplications, coefficient currentInterface)

def applicationRow (amountOfApplications : ℕ) (currentInterfaces : List ISPInterface)
    (lb : ℚ) (ub : Option ℚ) (coefficient : ISPInterface → ℚ) (j : ℕ) : Row where
  lb := lb
  ub := ub
  coefficient :=
    enterAll (fun _ => 0) (interfaceTerms amountOfApplications currentInterfaces coefficient j)

/-- The coefficient of an average over the packets of an application. -/
def perPacket (totalPackagesForApplication : ℕ) (q : ℚ) : ℚ :=
  if 0 < totalPackagesForApplication then q / totalPackagesForApplication else 0

section Rows

variable (amountOfApplications : ℕ) (currentInterfaces : List ISPInterface)

def capacityRow (currentInterface : ISPInterface) (j : ℕ) : Row where
  lb := 0
  ub := some currentInterface.getPackageRate
  coefficient := enterAll (fun _ => 0)
    ((List.range amountOfApplications).map fun i => (i + j * amountOfApplications, 1))

def bandwidthRow (currentApplication : Application) (j : ℕ) : Row :=
  applicationRow amountOfApplications currentInterfaces
    currentApplication.getRequiredDataRate none
    (fun i => perPacket currentApplication.pendingpackets.length i.getDataBitRate) j

def delayRow (milliSecondsInterfaceDelay : ISPInterface → ℚ) (currentApplication : Application)
    (j : ℕ) : Row :=
  applicationRow amountOfApplications currentInterfaces
    0 (some currentApplication.requiredDelay)
    (fun i => perPacket currentApplication.pendingpackets.length (milliSecondsInterfaceDelay i)) j

def errorRow (currentApplication : Application) (j : ℕ) : Row :=
  applicationRow amountOfApplications currentInterfaces
    0 (some currentApplication.errorRate)
    (fun i => perPacket currentApplication.pendingpackets.length i.getErrorRate) j

def packetsRow (currentApplication : Application) (j : ℕ) : Row :=
  applicationRow amountOfApplications currentInterfaces
    currentApplication.pendingpackets.length (some currentApplication.pendingpackets.length)
    (fun _ => 1) j

def costObjective : ℕ → ℚ :=
  enterAll (fun _ => 0) ((List.range amountOfApplications).flatMap fun j =>
    interfaceTerms amountOfApplications currentInterfaces (fun i => i.cost) j)

end Rows

/-- `ReactiveStrategy::DelayEstimator`, whose result is a `uint32_t`. -/
def ReactiveStrategy.delayEstimator (now : Time) (interface : ISPInterface) : ℕ :=
  ⌊interface.getAverageWaitingTimeInMilliseconds now⌋₊

def ReactiveStrategy.milliSecondsInterfaceDelay (now : Time) (i : ISPInterface) : ℚ :=
  i.getDelayInMilliseconds + ReactiveStrategy.delayEstimator now i

def ReactiveStrategy.program (now : Time) (currentApplications : List Application)
    (currentInterfaces : List ISPInterface) : Program where
  numVariables := currentApplications.length * currentInterfaces.length
  rows :=
    (currentInterfaces.zipIdx.map fun (currentInterface, j) =>
      capacityRow currentApplications.length currentInterface j) ++
    (currentApplications.zipIdx.filterMap fun (currentApplication, j) =>
      if currentApplication.pendingpackets.length = 0 then none
      else some (bandwidthRow currentApplications.length currentInterfaces currentApplication j)) ++
    (currentApplications.zipIdx.map fun (currentApplication, j) =>
      delayRow currentApplications.length currentInterfaces
        (ReactiveStrategy.milliSecondsInterfaceDelay now) currentApplication j) ++
    (currentApplications.zipIdx.map fun (currentApplication, j) =>
      errorRow currentApplications.length currentInterfaces currentApplication j) ++
    (currentApplications.zipIdx.map fun (currentApplication, j) =>
      packetsRow currentApplications.length currentInterfaces currentApplication j)
  objective := costObjective currentApplications.length currentInterfaces

def LinearStrategy.program (applications : List Application)
    (availableInterfaces : List ISPInterface) : Program where
  numVariables := applications.length * availableInterfaces.length
  rows :=
    (applications.zipIdx.map fun (currentApplication, j) =>
      bandwidthRow applications.length availableInterfaces currentApplication j) ++
    (applications.zipIdx.map fun (currentApplication, j) =>
      delayRow applications.length availableInterfaces
        (fun i => i.getDelayInMilliseconds) currentApplication j) ++
    (applications.zipIdx.map fun (currentApplication, j) =>
      errorRow applications.length availableInterfaces currentApplication j) ++
    (applications.zipIdx.map fun (currentApplication, j) =>
      packetsRow applications.length availableInterfaces currentApplication j)
  objective := costObjective applications.length availableInterfaces

/-- The program reads the requirements of the applications and how many packets are pending. -/
theorem LinearStrategy.program_congr {apps apps' : List Application}
    (h : List.Forall₂ (fun app app' : Application => app'.requirements = app.requirements ∧
      app'.pendingpackets.length = app.pendingpackets.length) apps apps')
    (ifaces : List ISPInterface) : program apps' ifaces = program apps ifaces := by
  have hrows : ∀ row : Application.Requirements → ℕ → ℕ → Row, ∀ k,
      (apps'.zipIdx k).map (fun p => row p.1.requirements p.1.pendingpackets.length p.2) =
        (apps.zipIdx k).map fun p => row p.1.requirements p.1.pendingpackets.length p.2 := by
    intro row
    induction h with
    | nil => exact fun k => rfl
    | cons happ _ ih =>
      intro k
      rw [List.zipIdx_cons, List.zipIdx_cons, List.map_cons, List.map_cons, ih (k + 1), happ.1,
        happ.2]
  have hbandwidth := hrows (fun r n j => applicationRow apps.length ifaces r.requiredDataRate none
    (fun i => perPacket n i.getDataBitRate) j) 0
  have hdelay := hrows (fun r n j => applicationRow apps.length ifaces 0 (some r.requiredDelay)
    (fun i => perPacket n i.getDelayInMilliseconds) j) 0
  have herror := hrows (fun r n j => applicationRow apps.length ifaces 0 (some r.errorRate)
    (fun i => perPacket n i.getErrorRate) j) 0
  have hpackets := hrows (fun _ n j => applicationRow apps.length ifaces n (some n)
    (fun _ => 1) j) 0
  unfold program
  rw [← h.length_eq]
  exact congrArg (fun rows => (⟨_, rows, _⟩ : Program)) (congrArg₂ (· ++ ·)
    (congrArg₂ (· ++ ·) (congrArg₂ (· ++ ·) hbandwidth hdelay) herror) hpackets)

/-- The decoding of a solution, `floor` included. -/
def decodeSolution (amountOfApplications amountOfInterfaces : ℕ) (value : ℕ → ℚ) :
    List (List ℕ) :=
  (List.range amountOfApplications).map fun j =>
    (List.range amountOfInterfaces).map fun i => ⌊value (j + i * amountOfApplications)⌋₊

/-! ## The problems behind the programs -/

def ReactiveStrategy.problem (now : Time) (apps : List Application) (ifaces : List ISPInterface) :
    AssignmentProblem (Fin apps.length) (Fin ifaces.length) where
  pending a := apps[a].pendingpackets.length
  requiredBitRate a := apps[a].getRequiredDataRate
  requiredDelay a := apps[a].requiredDelay
  requiredErrorRate a := apps[a].errorRate
  capacity l := ifaces[l].getPackageRate
  bitRate l := ifaces[l].getDataBitRate
  delay l := ReactiveStrategy.milliSecondsInterfaceDelay now ifaces[l]
  errorPercentage l := ifaces[l].getErrorRate
  cost l := ifaces[l].cost

def LinearStrategy.problem (apps : List Application) (ifaces : List ISPInterface) :
    AssignmentProblem (Fin apps.length) (Fin ifaces.length) where
  pending a := apps[a].pendingpackets.length
  requiredBitRate a := apps[a].getRequiredDataRate
  requiredDelay a := apps[a].requiredDelay
  requiredErrorRate a := apps[a].errorRate
  capacity _ := ⊤
  bitRate l := ifaces[l].getDataBitRate
  delay l := ifaces[l].getDelayInMilliseconds
  errorPercentage l := ifaces[l].getErrorRate
  cost l := ifaces[l].cost

/-- The table of a point, as a function. -/
def tableOf (nA nL : ℕ) (value : ℕ → ℚ) (a : Fin nA) (l : Fin nL) : ℕ :=
  ⌊value (a + l * nA)⌋₊

/-- The point with a given table. -/
def pointOf {nA nL : ℕ} (x : Fin nA → Fin nL → ℕ) (v : ℕ) : ℚ :=
  if h : v % nA < nA ∧ v / nA < nL then x ⟨v % nA, h.1⟩ ⟨v / nA, h.2⟩ else 0

end SdWan
