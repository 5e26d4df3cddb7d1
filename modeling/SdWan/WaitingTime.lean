import Mathlib.Algebra.Order.Floor.Semifield
import SdWan.Optimization

/-!
# The estimated waiting time

An interface is expected to send a backlog of `p` packets in the time that it took for as many of
the packets processed so far. An interface that has not processed any packet is expected to need
no time at all, whatever its backlog.
-/

namespace SdWan.ReactiveStrategy

/-- The packets an interface has processed, as the estimate counts them. -/
def processed (i : ISPInterface) : ℕ := uint32 (i.correctPackages + i.corruptPackages)

/-- The backlog of an interface, as the estimate counts it. -/
def backlog (i : ISPInterface) : ℕ := uint32 i.pendingpackets.length

/-- The two special cases, and the quotient with its fraction cut off. -/
theorem delayEstimator_eq {now : Time} {t : ℕ} (ht : ⌊now * 1000⌋ = t) (ht0 : 0 < t)
    (i : ISPInterface) : delayEstimator now i = backlog i * t / processed i := by
  have hnow : ((⌊now * 1000⌋ : ℤ) : ℚ) = t := by rw [ht, Int.cast_natCast]
  have hpos : (0 : ℚ) < t := by exact_mod_cast ht0
  unfold delayEstimator ISPInterface.getAverageWaitingTimeInMilliseconds
  simp only [hnow, hpos.ne', if_false]
  by_cases hn : processed i = 0
  · rw [hn, Nat.div_zero]
    unfold processed at hn
    rw [hn, Nat.cast_zero, zero_div, if_pos rfl, Nat.floor_zero]
  · have hrate : ((processed i : ℚ) / t) ≠ 0 :=
      div_ne_zero (by exact_mod_cast hn) hpos.ne'
    have hquotient : (backlog i : ℚ) / ((processed i : ℚ) / t) =
        ((backlog i * t : ℕ) : ℚ) / (processed i : ℕ) := by
      rw [Nat.cast_mul, div_div_eq_mul_div]
    unfold processed at hrate
    rw [if_neg hrate]
    exact (congrArg Nat.floor hquotient).trans (Nat.floor_div_eq_div _ _)

/-- Of two interfaces with the same backlog, the one that has processed fewer packets is not
expected to be faster, unless it has processed none and the other would need some time. -/
theorem delayEstimator_antitone_iff {now : Time} {t : ℕ} (ht : ⌊now * 1000⌋ = t) (ht0 : 0 < t)
    {i i' : ISPInterface} (hp : i.pendingpackets.length = i'.pendingpackets.length)
    (hn : processed i ≤ processed i') :
    delayEstimator now i' ≤ delayEstimator now i ↔
      0 < processed i ∨ processed i' = 0 ∨ backlog i * t < processed i' := by
  have hbacklog : backlog i' = backlog i := by rw [backlog, backlog, hp]
  rw [delayEstimator_eq ht ht0, delayEstimator_eq ht ht0, hbacklog]
  rcases Nat.eq_zero_or_pos (processed i) with h0 | hpos
  · rw [h0, Nat.div_zero, Nat.le_zero, Nat.div_eq_zero_iff]
    omega
  · exact iff_of_true (Nat.div_le_div_left hn hpos) (.inl hpos)

theorem delayEstimator_mono {now : Time} {t : ℕ} (ht : ⌊now * 1000⌋ = t) (ht0 : 0 < t)
    {i i' : ISPInterface} (hp : backlog i ≤ backlog i') (hn : processed i = processed i') :
    delayEstimator now i ≤ delayEstimator now i' := by
  rw [delayEstimator_eq ht ht0, delayEstimator_eq ht ht0, hn]
  exact Nat.div_le_div_right (Nat.mul_le_mul_right t hp)

/-- When the estimate does not favour the interface that has processed fewer packets, and how it
depends on the backlog. -/
theorem delayEstimator_order {now : Time} (ht : 0 < ⌊now * 1000⌋) :
    (∀ i i' : ISPInterface, i.pendingpackets.length = i'.pendingpackets.length →
      i.correctPackages + i.corruptPackages ≤ i'.correctPackages + i'.corruptPackages →
      i'.correctPackages + i'.corruptPackages < 2 ^ 32 →
      (delayEstimator now i' ≤ delayEstimator now i ↔
        0 < i.correctPackages + i.corruptPackages ∨
          i'.correctPackages + i'.corruptPackages = 0 ∨
          backlog i * ⌊now * 1000⌋ < (i'.correctPackages + i'.corruptPackages : ℕ))) ∧
      ∀ i i' : ISPInterface, backlog i ≤ backlog i' → processed i = processed i' →
        delayEstimator now i ≤ delayEstimator now i' := by
  obtain ⟨t, ht'⟩ := Int.eq_ofNat_of_zero_le ht.le
  have ht0 : 0 < t := by omega
  constructor
  · intro i i' hp hn hlt
    have hprocessed : processed i = i.correctPackages + i.corruptPackages :=
      uint32_of_lt (hn.trans_lt hlt)
    have hprocessed' : processed i' = i'.correctPackages + i'.corruptPackages :=
      uint32_of_lt hlt
    rw [delayEstimator_antitone_iff ht' ht0 hp (by rwa [hprocessed, hprocessed']), hprocessed,
      hprocessed', ht']
    norm_cast
  · exact fun i i' hp hn => delayEstimator_mono ht' ht0 hp hn

/-- An interface with one packet in its queue that has processed `correctPackages` packets. -/
def waitingInterface (correctPackages : ℕ) : ISPInterface where
  interfaceId := 1
  netDevice := ⟨2048, 10, 0⟩
  outgoingAddress := ⟨1, Utils.connectionPort⟩
  destinationAddress := ⟨0, Utils.connectionPort⟩
  errorModel := 0
  cost := 1
  correctPackages := correctPackages
  pendingpackets := [⟨0, 1⟩]

theorem delayEstimator_order_sample :
    delayEstimator 1 (waitingInterface 2) ≤ delayEstimator 1 (waitingInterface 1) :=
  ((delayEstimator_order (by norm_num)).1 (waitingInterface 1) (waitingInterface 2) rfl (by decide)
    (by decide)).mpr (.inl (by decide))

/-- After one second, the interface that has not sent anything is expected to send its packet at
once, and the one that has sent one packet is expected to need another second. -/
theorem delayEstimator_order_counterexample :
    delayEstimator 1 (waitingInterface 0) = 0 ∧ delayEstimator 1 (waitingInterface 1) = 1000 := by
  have hnow : ⌊(1 : Time) * 1000⌋ = ((1000 : ℕ) : ℤ) := by norm_num
  rw [delayEstimator_eq hnow (by decide), delayEstimator_eq hnow (by decide)]
  exact ⟨rfl, rfl⟩

end SdWan.ReactiveStrategy
