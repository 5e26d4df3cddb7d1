import SdWan.Dispatch

/-!
# The linear strategy

The whole amount of data is known in advance, so one integer program is solved once, without
capacity rows and waiting times, and later computations do nothing.
-/

open IntegerProgram

namespace SdWan.LinearStrategy

def compute (solve : Solver) (now : Time) (s : Strategy) : Call Strategy :=
  if s.hasBeenComputed then .ok s
  else
    match solve (program s.applications s.availableInterfaces) with
    | none => .error (.runtimeError "Soluzione non trovata", s)
    | some r =>
      let solutionValues :=
        decodeSolution s.applications.length s.availableInterfaces.length r.value
      match dispatch .popOnEmptyQueue now (List.range s.availableInterfaces.length)
          solutionValues (s.applications, s.availableInterfaces) with
      | .error (e, applications, availableInterfaces) =>
        .error (e, { s with
          applications := applications, availableInterfaces := availableInterfaces })
      | .ok (applications, availableInterfaces) =>
        .ok { s with
          applications := applications
          availableInterfaces := availableInterfaces
          hasBeenComputed := true }

def dispatched (now : Time) (s : Strategy)
    (x : Fin s.applications.length → Fin s.availableInterfaces.length → ℕ) : Strategy :=
  { s with
    applications := s.applications.map (·.setPending [])
    availableInterfaces := appendAt s.availableInterfaces (packetsOf now s.applications x)
    hasBeenComputed := true }

theorem compute_of_some {solve : Solver} {now : Time} {s : Strategy} {r : Outcome}
    (hfirst : s.hasBeenComputed = false)
    (h : solve (program s.applications s.availableInterfaces) = some r)
    (hr : (program s.applications s.availableInterfaces).Feasible r.value) :
    compute solve now s = .ok (dispatched now s
      (tableOf s.applications.length s.availableInterfaces.length r.value)) := by
  have hsent := ((feasible_iff _ _ _).mp hr).2.1.allSent
  have hdispatch := dispatch_decodeSolution .popOnEmptyQueue now s.applications
    s.availableInterfaces hsent
  unfold compute
  simp only [hfirst, h, hdispatch]
  rfl

theorem compute_cases {solve : Solver} (hsolve : AnswersFeasibly solve) {now : Time}
    {s s' : Strategy} (h : compute solve now s = .ok s') :
    (s.hasBeenComputed = true ∧ s' = s) ∨
      (s.hasBeenComputed = false ∧
        ∃ x, (problem s.applications s.availableInterfaces).Admissible x ∧
          s' = dispatched now s x) := by
  cases hfirst : s.hasBeenComputed with
  | true =>
    rw [compute, hfirst] at h
    exact .inl ⟨rfl, (Except.ok.inj h).symm⟩
  | false =>
    cases hr : solve (program s.applications s.availableInterfaces) with
    | none =>
      rw [compute, hfirst, hr] at h
      cases h
    | some r =>
      have hfeasible := hsolve _ _ hr
      rw [compute_of_some hfirst hr hfeasible] at h
      exact .inr ⟨rfl, _, ((feasible_iff _ _ _).mp hfeasible).2.1, (Except.ok.inj h).symm⟩

/-- Whatever the solver answers, only the queues of the interfaces change. -/
theorem compute_keeps {γ : Type*} {g : ISPInterface → γ}
    (hg : ∀ i p, g (i.enqueuePacket p) = g i) {solve : Solver} {now : Time} {s s' : Strategy}
    (h : compute solve now s = .ok s') :
    s'.availableInterfaces.map g = s.availableInterfaces.map g := by
  unfold compute at h
  split_ifs at h
  · cases h; rfl
  split at h
  · cases h
  dsimp only at h
  split at h
  · cases h
  rename_i hdispatch
  cases h
  exact dispatch_keeps hg hdispatch

theorem compute_error {solve : Solver} (hsolve : AnswersFeasibly solve) {now : Time}
    {s s' : Strategy} {e : Fault} (h : compute solve now s = .error (e, s')) :
    e = .runtimeError "Soluzione non trovata" ∧ s' = s := by
  cases hfirst : s.hasBeenComputed with
  | true =>
    rw [compute, hfirst] at h
    cases h
  | false =>
    cases hr : solve (program s.applications s.availableInterfaces) with
    | none =>
      rw [compute, hfirst, hr] at h
      cases h
      exact ⟨rfl, rfl⟩
    | some r =>
      rw [compute_of_some hfirst hr (hsolve _ _ hr)] at h
      cases h

/-- Later computations leave everything as it is. -/
theorem compute_drains {solve : Solver} (hsolve : AnswersFeasibly solve) {now : Time}
    {s s' : Strategy} (h : compute solve now s = .ok s') :
    (s.hasBeenComputed = true ∧ s' = s) ∨ ∃ f, Drains now s s' f := by
  obtain hdone | ⟨-, x, hx, rfl⟩ := compute_cases hsolve h
  · exact .inl hdone
  · refine .inr ⟨packetsOf now s.applications x, rfl, rfl, dateEnqueued_packetsOf _ _ _, ?_⟩
    exact totalOver_packetsOf_of_allSent now _ _ hx.allSent

end SdWan.LinearStrategy
