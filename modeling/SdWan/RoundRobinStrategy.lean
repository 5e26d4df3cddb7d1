import SdWan.Draining

/-!
# The round robin strategy

The cursor is the index of the next interface. It starts at the first interface in every
computation.
-/

namespace SdWan.RoundRobinStrategy

def compute (now : Time) (s : Strategy) : Call Strategy :=
  match drainApplications (fun currentIndex _ => .ok currentIndex)
      (fun currentIndex totalInterfacesAmount => (currentIndex + 1) % totalInterfacesAmount) now
      s.applications ⟨0, 0, 0, s.availableInterfaces⟩ with
  | .error (e, applications, loop) =>
    .error (e, { s with
      applications := applications, availableInterfaces := loop.availableInterfaces })
  | .ok (applications, loop) => .ok (s.recordDrained "outputRoundRobin.csv" applications loop)

theorem compute_cases {now : Time} {s s' : Strategy} (h : compute now s = .ok s') :
    ∃ applications loop f, s' = s.recordDrained "outputRoundRobin.csv" applications loop ∧
      applications = s.applications.map (·.setPending []) ∧
      DrainState.Adds now ⟨0, 0, 0, s.availableInterfaces⟩ loop f ∧
      ∀ g : SendPacketInfo → ℕ, totalOver (fun _ => g) s.availableInterfaces f =
        (s.applications.map fun app =>
          app.pendingpackets.length * g ⟨now, app.applicationId⟩).sum := by
  unfold compute at h
  split at h
  · cases h
  · rename_i applications loop hdrain
    obtain ⟨happs, f, hf, hmoved⟩ := drainApplications_adds hdrain
    exact ⟨applications, loop, f, (Except.ok.inj h).symm, happs, hf, hmoved⟩

/-- Only the access to an interface can fail. -/
theorem compute_error {now : Time} {s s' : Strategy} {e : Fault}
    (h : compute now s = .error (e, s')) : e = .outOfRange := by
  unfold compute at h
  split at h
  · rename_i hdrain
    cases h
    rcases drainApplications_error hdrain with rfl | ⟨_, _, hpick⟩
    · rfl
    · cases hpick
  · cases h

theorem compute_drains {now : Time} {s s' : Strategy} (h : compute now s = .ok s') :
    ∃ f, Drains now s s' f := by
  obtain ⟨applications, loop, f, rfl, rfl, hf, hmoved⟩ := compute_cases h
  refine ⟨f, ?_, ?_, hf.enqueuedNow, hmoved⟩
  · rw [Strategy.recordDrained, Strategy.applications_printIfAllSent]
  · rw [Strategy.recordDrained, Strategy.availableInterfaces_printIfAllSent]
    exact hf.availableInterfaces

end SdWan.RoundRobinStrategy
