import SdWan.Utils

/-!
# Applications that generate packets

An `SDWanApplication` holds the requirements of an application, its queue of pending packets and
the count of the packets it generated. A `SinApplication` walks a vector of samples, one at its
start and one at every update, until it has taken `simulationDurationInSeconds` of them. An
`SDWanStaticApplication` generates its whole amount at its start. `Application` is the dynamic
type behind a pointer to the base class.
-/

namespace SdWan

/-- The members of the base class. The queue's entries are arbitrary numbers. -/
structure SDWanApplication where
  applicationId : ℕ
  requiredDelay : ℕ
  errorRate : ℕ
  pendingpackets : List ℕ := []
  generatedPackets : ℕ := 0
  deriving DecidableEq, Repr

namespace SDWanApplication

def pushPacket (app : SDWanApplication) (i : ℕ) : SDWanApplication :=
  { app with
    pendingpackets := app.pendingpackets ++ [uint32 i]
    generatedPackets := uint32 (app.generatedPackets + 1) }

/-- The loop shared by both kinds of application. -/
def pushPackets (app : SDWanApplication) (amountOfPackets : ℕ) : SDWanApplication :=
  (List.range amountOfPackets).foldl pushPacket app

theorem pushPackets_succ (app : SDWanApplication) (n : ℕ) :
    app.pushPackets (n + 1) = (app.pushPackets n).pushPacket n := by
  simp only [pushPackets, List.range_succ, List.foldl_append, List.foldl_cons, List.foldl_nil]

@[simp] theorem length_pushPackets (app : SDWanApplication) (n : ℕ) :
    (app.pushPackets n).pendingpackets.length = app.pendingpackets.length + n := by
  induction n with
  | zero => rfl
  | succ n ih => rw [pushPackets_succ]; simp only [pushPacket, List.length_append, ih]; rfl

/-- The counter follows the exact number of generated packets modulo the width of the counter. -/
theorem generatedPackets_pushPackets (app : SDWanApplication) (m n : ℕ)
    (h : app.generatedPackets = uint32 m) :
    (app.pushPackets n).generatedPackets = uint32 (m + n) := by
  induction n with
  | zero => exact h
  | succ n ih => rw [pushPackets_succ, pushPacket, ih, uint32_add_left, Nat.add_assoc]

theorem pushPackets_requirements (app : SDWanApplication) (n : ℕ) :
    (app.pushPackets n).applicationId = app.applicationId ∧
      (app.pushPackets n).requiredDelay = app.requiredDelay ∧
      (app.pushPackets n).errorRate = app.errorRate := by
  induction n with
  | zero => exact ⟨rfl, rfl, rfl⟩
  | succ n ih => rw [pushPackets_succ]; exact ih

end SDWanApplication

/-! ## The sampled application -/

structure SinApplication extends SDWanApplication where
  sinValues : List (UInt32 × UInt32)
  currentSample : ℕ := 0
  allPacketsGenerated : Bool := false
  deriving DecidableEq, Repr

namespace SinApplication

def enqueuePacketsForCurrentSample (app : SinApplication) : Result SinApplication :=
  if app.allPacketsGenerated then .ok app
  else do
    let packetsStart ← vectorAt app.sinValues app.currentSample
    .ok { app with
      toSDWanApplication := app.pushPackets packetsStart.2.toNat
      currentSample := app.currentSample + 1
      allPacketsGenerated := decide (app.currentSample + 1 = Utils.simulationDurationInSeconds) }

def onApplicationStart (app : SinApplication) : Result SinApplication :=
  app.enqueuePacketsForCurrentSample

def onUpdate (app : SinApplication) : Result SinApplication :=
  app.enqueuePacketsForCurrentSample

def getHasStoppedGeneratingData (app : SinApplication) : Bool :=
  app.pendingpackets.isEmpty && app.allPacketsGenerated

def getTotalData (app : SinApplication) : ℕ :=
  app.sinValues.foldl (fun totalResult value => uint32 (totalResult + value.2.toNat)) 0

/-- The largest sample. The empty vector, where the code dereferences the end iterator, is given
the value `0`; `onApplicationStart` throws on it. -/
def maxValue (app : SinApplication) : ℕ :=
  ((maxElement (fun a b => decide (a.2 < b.2)) app.sinValues).map (·.2.toNat)).getD 0

def getRequiredDataRate (app : SinApplication) : ℕ :=
  Utils.convertPacketsPerSecondToBitPerSecondToDataRate app.maxValue

end SinApplication

/-! ## The static application -/

structure SDWanStaticApplication extends SDWanApplication where
  amountOfPacketsToSend : ℕ
  requiredDataRate : ℕ
  allPacketsGenerated : Bool
  deriving DecidableEq, Repr

namespace SDWanStaticApplication

def onApplicationStart (app : SDWanStaticApplication) : SDWanStaticApplication :=
  { app with
    toSDWanApplication := app.pushPackets app.amountOfPacketsToSend
    allPacketsGenerated := true }

def getHasStoppedGeneratingData (app : SDWanStaticApplication) : Bool :=
  app.pendingpackets.isEmpty && app.allPacketsGenerated

end SDWanStaticApplication

/-! ## Virtual calls -/

inductive Application
  | sin (app : SinApplication)
  | static (app : SDWanStaticApplication)
  deriving DecidableEq, Repr

namespace Application

def base : Application → SDWanApplication
  | sin app => app.toSDWanApplication
  | static app => app.toSDWanApplication

def withBase : Application → SDWanApplication → Application
  | sin app, b => sin { app with toSDWanApplication := b }
  | static app, b => static { app with toSDWanApplication := b }

def applicationId (app : Application) : ℕ := app.base.applicationId

def requiredDelay (app : Application) : ℕ := app.base.requiredDelay

def errorRate (app : Application) : ℕ := app.base.errorRate

def pendingpackets (app : Application) : List ℕ := app.base.pendingpackets

def generatedPackets (app : Application) : ℕ := app.base.generatedPackets

def allPacketsGenerated : Application → Bool
  | sin app => app.allPacketsGenerated
  | static app => app.allPacketsGenerated

def onApplicationStart : Application → Result Application
  | sin app => do
    let app ← app.onApplicationStart
    .ok (sin app)
  | static app => .ok (static app.onApplicationStart)

def onUpdate : Application → Result Application
  | sin app => do
    let app ← app.onUpdate
    .ok (sin app)
  | static app => .ok (static app)

def getHasStoppedGeneratingData : Application → Bool
  | sin app => app.getHasStoppedGeneratingData
  | static app => app.getHasStoppedGeneratingData

def getRequiredDataRate : Application → ℕ
  | sin app => app.getRequiredDataRate
  | static app => app.requiredDataRate

def update (app : Application) : Result Application :=
  if app.getHasStoppedGeneratingData then .ok app else app.onUpdate

/-- An application as its constructor leaves it. The constructor of the static application does
not initialise `allPacketsGenerated`. -/
def Fresh : Application → Prop
  | sin app => app.pendingpackets = [] ∧ app.generatedPackets = 0 ∧ app.currentSample = 0 ∧
      app.allPacketsGenerated = false
  | static app => app.pendingpackets = [] ∧ app.generatedPackets = 0

/-- Replaces the queue of pending packets. -/
def setPending (app : Application) (pending : List ℕ) : Application :=
  app.withBase { app.base with pendingpackets := pending }

@[simp] theorem pendingpackets_setPending (app : Application) (pending : List ℕ) :
    (app.setPending pending).pendingpackets = pending := by cases app <;> rfl

@[simp] theorem generatedPackets_setPending (app : Application) (pending : List ℕ) :
    (app.setPending pending).generatedPackets = app.generatedPackets := by cases app <;> rfl

@[simp] theorem setPending_setPending (app : Application) (p q : List ℕ) :
    (app.setPending p).setPending q = app.setPending q := by cases app <;> rfl

@[simp] theorem setPending_self (app : Application) :
    app.setPending app.pendingpackets = app := by cases app <;> rfl

theorem getHasStoppedGeneratingData_iff (app : Application) :
    app.getHasStoppedGeneratingData = true ↔
      app.pendingpackets = [] ∧ app.allPacketsGenerated = true := by
  cases app <;>
    simp [getHasStoppedGeneratingData, SinApplication.getHasStoppedGeneratingData,
      SDWanStaticApplication.getHasStoppedGeneratingData, pendingpackets, base,
      allPacketsGenerated]

/-! ## What never changes about an application -/

/-- The requirements an application keeps for its whole life. -/
structure Requirements where
  applicationId : ℕ
  requiredDelay : ℕ
  errorRate : ℕ
  requiredDataRate : ℕ
  deriving DecidableEq, Repr

def requirements (app : Application) : Requirements where
  applicationId := app.applicationId
  requiredDelay := app.requiredDelay
  errorRate := app.errorRate
  requiredDataRate := app.getRequiredDataRate

@[simp] theorem requirements_setPending (app : Application) (pending : List ℕ) :
    (app.setPending pending).requirements = app.requirements := by cases app <;> rfl

/-- What an application generates in one call: some packets join its queue, its counter moves
with them and its requirements stay. -/
structure Generates (app app' : Application) (n : ℕ) : Prop where
  pending : app'.pendingpackets.length = app.pendingpackets.length + n
  generated : ∀ m, app.generatedPackets = uint32 m → app'.generatedPackets = uint32 (m + n)
  requirements : app'.requirements = app.requirements

theorem Generates.refl (app : Application) : app.Generates app 0 := ⟨rfl, fun _ h => h, rfl⟩

end Application

namespace SinApplication

theorem le_maxValue {app : SinApplication} {value : UInt32 × UInt32}
    (h : value ∈ app.sinValues) : value.2.toNat ≤ app.maxValue := by
  unfold maxValue
  cases hlargest : maxElement (fun a b => decide (a.2 < b.2)) app.sinValues with
  | none =>
    cases hvalues : app.sinValues with
    | nil => rw [hvalues] at h; cases h
    | cons => rw [hvalues] at hlargest; cases hlargest
  | some largest =>
    exact le_of_maxElement (f := fun value => value.2.toNat)
      (fun a b => by rw [decide_eq_true_iff]; exact UInt32.lt_iff_toNat_lt) hlargest value h

theorem maxValue_le {app : SinApplication} {n : ℕ}
    (h : ∀ value ∈ app.sinValues, value.2.toNat ≤ n) : app.maxValue ≤ n := by
  unfold maxValue
  cases hlargest : maxElement (fun a b => decide (a.2 < b.2)) app.sinValues with
  | none => exact Nat.zero_le _
  | some largest => exact h largest (mem_of_maxElement hlargest)

theorem getRequiredDataRate_le {app : SinApplication} {n : ℕ} (h : app.maxValue ≤ n) :
    app.getRequiredDataRate ≤ n * Utils.packetSizeBit := by
  rw [getRequiredDataRate, Utils.convertPacketsPerSecondToBitPerSecondToDataRate, uint32]
  exact (Nat.mod_le _ _).trans (Nat.mul_le_mul_right _ h)

/-- The walk over the samples: once all of them are taken nothing happens, and otherwise the
current sample is generated. -/
theorem enqueuePacketsForCurrentSample_cases {app app' : SinApplication}
    (h : app.enqueuePacketsForCurrentSample = .ok app') :
    (app.allPacketsGenerated = true ∧ app' = app) ∨
      ∃ hs : app.currentSample < app.sinValues.length,
        app.allPacketsGenerated = false ∧
        app' = { app with
          toSDWanApplication := app.pushPackets (app.sinValues[app.currentSample].2.toNat)
          currentSample := app.currentSample + 1
          allPacketsGenerated :=
            decide (app.currentSample + 1 = Utils.simulationDurationInSeconds) } := by
  unfold enqueuePacketsForCurrentSample at h
  split_ifs at h with hg
  · exact .inl ⟨hg, (Except.ok.inj h).symm⟩
  · obtain ⟨value, hv, h⟩ := Result.bind_eq_ok.mp h
    obtain ⟨hs, rfl⟩ := List.getElem?_eq_some_iff.mp (vectorAt_eq_ok.mp hv)
    exact .inr ⟨hs, by simpa using hg, (Except.ok.inj h).symm⟩

/-- The only fault is a read behind the last sample. -/
theorem enqueue_eq_error {app : SinApplication} {e : Fault}
    (h : app.enqueuePacketsForCurrentSample = .error e) : e = .outOfRange := by
  unfold enqueuePacketsForCurrentSample at h
  split_ifs at h
  rcases Result.bind_eq_error.mp h with h | ⟨value, -, h⟩
  · exact vectorAt_eq_error h
  · cases h

theorem generates_pushPackets (app : SinApplication) (n i : ℕ) (b : Bool) :
    (Application.sin app).Generates (.sin { app with
      toSDWanApplication := app.pushPackets n
      currentSample := i
      allPacketsGenerated := b }) n where
  pending := app.length_pushPackets n
  generated m hm := app.generatedPackets_pushPackets m n hm
  requirements := by
    obtain ⟨hid, hdelay, herror⟩ := app.pushPackets_requirements n
    simp only [Application.requirements, Application.applicationId, Application.requiredDelay,
      Application.errorRate, Application.base, hid, hdelay, herror]
    rfl

theorem generates_of_enqueue {app app' : SinApplication}
    (h : app.enqueuePacketsForCurrentSample = .ok app') :
    ∃ n, (Application.sin app).Generates (.sin app') n := by
  obtain ⟨-, rfl⟩ | ⟨hs, -, rfl⟩ := enqueuePacketsForCurrentSample_cases h
  · exact ⟨0, .refl _⟩
  · exact ⟨_, app.generates_pushPackets _ _ _⟩

end SinApplication

namespace Application

theorem onApplicationStart_generates {app app' : Application}
    (h : app.onApplicationStart = .ok app') : ∃ n, app.Generates app' n := by
  cases app with
  | sin app =>
    obtain ⟨b, hb, h⟩ := Result.bind_eq_ok.mp h
    cases h
    exact SinApplication.generates_of_enqueue hb
  | static app =>
    cases h
    refine ⟨app.amountOfPacketsToSend, app.length_pushPackets _,
      fun m hm => app.generatedPackets_pushPackets m _ hm, ?_⟩
    obtain ⟨hid, hdelay, herror⟩ := app.pushPackets_requirements app.amountOfPacketsToSend
    simp only [requirements, applicationId, requiredDelay, errorRate, base,
      SDWanStaticApplication.onApplicationStart, hid, hdelay, herror]
    rfl

theorem onUpdate_generates {app app' : Application} (h : app.onUpdate = .ok app') :
    ∃ n, app.Generates app' n := by
  cases app with
  | sin app =>
    obtain ⟨b, hb, h⟩ := Result.bind_eq_ok.mp h
    cases h
    exact SinApplication.generates_of_enqueue hb
  | static app => cases h; exact ⟨0, .refl _⟩

theorem update_generates {app app' : Application} (h : app.update = .ok app') :
    ∃ n, app.Generates app' n := by
  unfold update at h
  split_ifs at h with hs
  · cases h; exact ⟨0, .refl _⟩
  · exact onUpdate_generates h

theorem onApplicationStart_eq_error {app : Application} {e : Fault}
    (h : app.onApplicationStart = .error e) : e = .outOfRange := by
  cases app with
  | static app => cases h
  | sin app =>
    rcases Result.bind_eq_error.mp h with h | ⟨b, -, h⟩
    · exact SinApplication.enqueue_eq_error h
    · cases h

theorem update_eq_error {app : Application} {e : Fault} (h : app.update = .error e) :
    e = .outOfRange := by
  unfold update at h
  split_ifs at h
  cases app with
  | static app => cases h
  | sin app =>
    rcases Result.bind_eq_error.mp h with h | ⟨b, -, h⟩
    · exact SinApplication.enqueue_eq_error h
    · cases h

/-- An application that has stopped is left alone by every later update. -/
theorem update_of_stopped {app : Application} (h : app.getHasStoppedGeneratingData = true) :
    app.update = .ok app := by
  simp only [update, h, if_true]

end Application

/-- The pending packets of all applications. -/
def pendingTotal (apps : List Application) : ℕ :=
  (apps.map fun app => app.pendingpackets.length).sum

end SdWan
