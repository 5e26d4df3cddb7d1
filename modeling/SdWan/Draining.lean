import SdWan.Dispatch

/-!
# The draining loop of the simple strategies

`RoundRobinStrategy` and `RandomStrategy` take the applications one after the other and, packet by
packet, pick an interface, enqueue the packet there and add up its cost. They differ in how they
pick: `pick` is the index given to `availableInterfaces->at`, and `next` the cursor afterwards.
-/

namespace SdWan

structure DrainState where
  cursor : ℕ
  currentCost : ℕ
  currentPendingPackages : ℕ
  availableInterfaces : List ISPInterface
  deriving DecidableEq

/-- The packet `p` goes on interface `i`, is counted and paid for. -/
def DrainState.put (s : DrainState) (i : ℕ) (iface : ISPInterface) (p : SendPacketInfo)
    (cursor : ℕ) : DrainState where
  cursor := cursor
  currentCost := uint32 (s.currentCost + iface.cost)
  currentPendingPackages := uint32 (s.currentPendingPackages + 1)
  availableInterfaces := s.availableInterfaces.set i (iface.enqueuePacket p)

section Loops

variable (pick : ℕ → ℕ → Result ℕ) (next : ℕ → ℕ → ℕ) (now : Time)

/-- The packets of one application. A fault leaves the packet that was popped nowhere. -/
def drainPackets (applicationId : ℕ) :
    List ℕ → DrainState → Except (Fault × List ℕ × DrainState) DrainState
  | [], s => .ok s
  | _ :: pendingpackets, s =>
    match pick s.cursor s.availableInterfaces.length with
    | .error e => .error (e, pendingpackets, s)
    | .ok i =>
      match s.availableInterfaces[i]? with
      | none => .error (.outOfRange, pendingpackets, s)
      | some iface =>
        drainPackets applicationId pendingpackets
          (s.put i iface ⟨now, applicationId⟩ (next s.cursor s.availableInterfaces.length))

def drainApplications : List Application → DrainState →
    Except (Fault × List Application × DrainState) (List Application × DrainState)
  | [], s => .ok ([], s)
  | app :: apps, s =>
    match drainPackets pick next now app.applicationId app.pendingpackets s with
    | .error (e, pendingpackets, s) => .error (e, app.setPending pendingpackets :: apps, s)
    | .ok s =>
      match drainApplications apps s with
      | .error (e, apps, s) => .error (e, app.setPending [] :: apps, s)
      | .ok (apps, s) => .ok (app.setPending [] :: apps, s)

end Loops

/-! ## What the loop adds -/

/-- The state `s'` is `s` with packets `f` on the queues, counted and paid for. -/
structure DrainState.Adds (now : Time) (s s' : DrainState) (f : ℕ → List SendPacketInfo) :
    Prop where
  availableInterfaces : s'.availableInterfaces = appendAt s.availableInterfaces f
  enqueuedNow : ∀ q, ∀ p ∈ f q, p.dateEnqueued = now
  cost : ∀ n, s.currentCost = uint32 n →
    s'.currentCost = uint32 (n + totalOver (fun i _ => i.cost) s.availableInterfaces f)
  packets : ∀ n, s.currentPendingPackages = uint32 n →
    s'.currentPendingPackages = uint32 (n + totalOver (fun _ _ => 1) s.availableInterfaces f)

namespace DrainState

variable {now : Time} {s s' s'' : DrainState} {f g : ℕ → List SendPacketInfo}

theorem Adds.refl (now : Time) (s : DrainState) : Adds now s s (fun _ => []) where
  availableInterfaces := (appendAt_nil _).symm
  enqueuedNow q p hp := by cases hp
  cost n hn := by rw [totalOver_nil, Nat.add_zero, hn]
  packets n hn := by rw [totalOver_nil, Nat.add_zero, hn]

theorem Adds.trans (h : Adds now s s' f) (h' : Adds now s' s'' g) :
    Adds now s s'' (fun q => f q ++ g q) where
  availableInterfaces := by
    rw [h'.availableInterfaces, h.availableInterfaces, appendAt_appendAt]
  enqueuedNow q p hp := by
    rcases List.mem_append.mp hp with hp | hp
    · exact h.enqueuedNow q p hp
    · exact h'.enqueuedNow q p hp
  cost n hn := by
    have hnext := h'.cost _ (h.cost n hn)
    rw [h.availableInterfaces, totalOver_appendAt] at hnext
    rw [hnext, totalOver_append, Nat.add_assoc]
  packets n hn := by
    have hnext := h'.packets _ (h.packets n hn)
    rw [h.availableInterfaces, totalOver_appendAt] at hnext
    rw [hnext, totalOver_append, Nat.add_assoc]

end DrainState

theorem totalOver_single (w : ISPInterface.Attributes → SendPacketInfo → ℕ)
    {ifaces : List ISPInterface} {i : ℕ} {iface : ISPInterface} (hi : ifaces[i]? = some iface)
    (p : SendPacketInfo) :
    totalOver w ifaces (fun q => if i = q then [p] else []) = w iface.attributes p := by
  induction ifaces generalizing i with
  | nil => cases hi
  | cons head ifaces ih =>
    rw [totalOver_cons]
    cases i with
    | zero =>
      rw [List.getElem?_cons_zero, Option.some.injEq] at hi
      subst hi
      have hrest : totalOver w ifaces (fun q => if 0 = q + 1 then [p] else []) = 0 := by
        simp only [(Nat.succ_ne_zero _).symm, if_false, totalOver_nil]
      rw [hrest, if_pos rfl]
      simp
    | succ i =>
      rw [List.getElem?_cons_succ] at hi
      have hrest := ih hi
      simp only [Nat.add_right_cancel_iff, hrest, Nat.succ_ne_zero, if_false]
      simp

theorem DrainState.adds_put {s : DrainState} {i : ℕ} {iface : ISPInterface}
    (hi : s.availableInterfaces[i]? = some iface) (p : SendPacketInfo) (cursor : ℕ) :
    Adds p.dateEnqueued s (s.put i iface p cursor) (fun q => if i = q then [p] else []) where
  availableInterfaces := set_eq_appendAt hi [p]
  enqueuedNow q p' hp' := by
    split_ifs at hp'
    · rw [List.mem_singleton.mp hp']
    · cases hp'
  cost n hn := by
    rw [totalOver_single _ hi, put, hn, uint32_add_left]
    rfl
  packets n hn := by rw [totalOver_single _ hi, put, hn, uint32_add_left]

section Specification

variable {pick : ℕ → ℕ → Result ℕ} {next : ℕ → ℕ → ℕ} {now : Time}

theorem drainPackets_adds {applicationId : ℕ} {pending : List ℕ} {s s' : DrainState}
    (h : drainPackets pick next now applicationId pending s = .ok s') :
    ∃ f, DrainState.Adds now s s' f ∧ ∀ g : SendPacketInfo → ℕ,
      totalOver (fun _ => g) s.availableInterfaces f =
        pending.length * g ⟨now, applicationId⟩ := by
  induction pending generalizing s with
  | nil =>
    cases h
    exact ⟨_, .refl now _, fun g => by rw [totalOver_nil, List.length_nil, Nat.zero_mul]⟩
  | cons x pending ih =>
    rw [drainPackets] at h
    split at h
    · cases h
    split at h
    · cases h
    rename_i i hpick _ iface hi
    obtain ⟨f, hf, hmoved⟩ := ih h
    have hone := DrainState.adds_put hi ⟨now, applicationId⟩
      (next s.cursor s.availableInterfaces.length)
    refine ⟨_, hone.trans hf, fun g => ?_⟩
    have hrest := hmoved g
    rw [hone.availableInterfaces, totalOver_appendAt] at hrest
    rw [totalOver_append, hrest, totalOver_single _ hi, List.length_cons]
    ring

theorem drainApplications_adds {apps apps' : List Application} {s s' : DrainState}
    (h : drainApplications pick next now apps s = .ok (apps', s')) :
    apps' = apps.map (·.setPending []) ∧
      ∃ f, DrainState.Adds now s s' f ∧ ∀ g : SendPacketInfo → ℕ,
        totalOver (fun _ => g) s.availableInterfaces f =
          (apps.map fun app =>
            app.pendingpackets.length * g ⟨now, app.applicationId⟩).sum := by
  induction apps generalizing apps' s with
  | nil =>
    cases h
    exact ⟨rfl, _, .refl now _, fun g => totalOver_nil _ _⟩
  | cons app apps ih =>
    rw [drainApplications] at h
    split at h
    · cases h
    rename_i s₁ hfirst
    split at h
    · cases h
    rename_i apps₁ s₂ hrest
    cases h
    obtain ⟨f₁, hf₁, hmoved₁⟩ := drainPackets_adds hfirst
    obtain ⟨happs, f₂, hf₂, hmoved₂⟩ := ih hrest
    refine ⟨by rw [happs, List.map_cons], _, hf₁.trans hf₂, fun g => ?_⟩
    have hlater := hmoved₂ g
    rw [hf₁.availableInterfaces, totalOver_appendAt] at hlater
    rw [totalOver_append, hmoved₁, hlater, List.map_cons, List.sum_cons]

theorem drainPackets_error {applicationId : ℕ} {pending pending' : List ℕ} {s s' : DrainState}
    {e : Fault}
    (h : drainPackets pick next now applicationId pending s = .error (e, pending', s')) :
    e = .outOfRange ∨ ∃ cursor n, pick cursor n = .error e := by
  induction pending generalizing s with
  | nil => cases h
  | cons x pending ih =>
    rw [drainPackets] at h
    split at h
    · rename_i e' hpick
      cases h
      exact .inr ⟨_, _, hpick⟩
    split at h
    · cases h
      exact .inl rfl
    · exact ih h

theorem drainApplications_error {apps apps' : List Application} {s s' : DrainState} {e : Fault}
    (h : drainApplications pick next now apps s = .error (e, apps', s')) :
    e = .outOfRange ∨ ∃ cursor n, pick cursor n = .error e := by
  induction apps generalizing apps' s with
  | nil => cases h
  | cons app apps ih =>
    rw [drainApplications] at h
    split at h
    · rename_i hdrain
      cases h
      exact drainPackets_error hdrain
    split at h
    · rename_i hdrain
      cases h
      exact ih hdrain
    · cases h

end Specification

/-! ## The end of a computation -/

/-- The strategy after its loop: the data point is recorded, then the results may be printed. -/
def Strategy.recordDrained (fileName : String) (s : Strategy) (applications : List Application)
    (loop : DrainState) : Strategy :=
  Strategy.printIfAllSent fileName { s with
    applications := applications
    availableInterfaces := loop.availableInterfaces
    strategyData := s.strategyData ++
      [s.nextDataPoint loop.currentCost loop.currentPendingPackages] }

end SdWan
