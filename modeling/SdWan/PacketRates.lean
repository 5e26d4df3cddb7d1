import SdWan.ISPInterface

/-!
# Packet rates and bit rates

A packet rate becomes a bit rate by a product that is formed in `uint32_t`, although a `DataRate`
holds 64 bits. A packet has `2 ^ 10` bits, so the product keeps a packet rate modulo `2 ^ 22`: the
rates below survive the conversion, and a larger one becomes a rate that is much too small.
-/

namespace SdWan

namespace Utils

theorem convertPacketsPerSecond_eq (packetsPerSecond : ℕ) :
    convertPacketsPerSecondToBitPerSecondToDataRate packetsPerSecond =
      packetsPerSecond % 2 ^ 22 * packetSizeBit := by
  have hwidth : 2 ^ 32 = 2 ^ 22 * packetSizeBit := rfl
  rw [convertPacketsPerSecondToBitPerSecondToDataRate, uint32, hwidth, Nat.mul_mod_mul_right]

end Utils

/-! ## Interfaces -/

/-- The channel of the interface with another `DataRate`. -/
def ISPInterface.setDataRate (i : ISPInterface) (dataRate : ℕ) : ISPInterface :=
  { i with netDevice := { i.netDevice with dataRate := dataRate } }

theorem getPackageRate_setDataRate (i : ISPInterface) (packetsPerSecond : ℕ) :
    (i.setDataRate (Utils.convertPacketsPerSecondToBitPerSecond packetsPerSecond)).getPackageRate =
      packetsPerSecond % 2 ^ 22 := by
  change Utils.convertPacketsPerSecondToBitPerSecondToDataRate packetsPerSecond /
    Utils.packetSizeBit = _
  rw [Utils.convertPacketsPerSecond_eq, Nat.mul_div_cancel _ (by decide)]

theorem getPackageRate_setDataRate_eq_iff (i : ISPInterface) (packetsPerSecond : ℕ) :
    (i.setDataRate (Utils.convertPacketsPerSecondToBitPerSecond packetsPerSecond)).getPackageRate =
      packetsPerSecond ↔ packetsPerSecond < 2 ^ 22 := by
  rw [getPackageRate_setDataRate]
  exact Nat.mod_eq_iff_lt (by decide)

/-! ## Applications -/

namespace SinApplication

/-- The largest sample. -/
def IsPeak (app : SinApplication) (peak : ℕ) : Prop :=
  IsGreatest {n | ∃ value ∈ app.sinValues, value.2.toNat = n} peak

variable {app app' : SinApplication} {peak peak' : ℕ}

theorem isPeak_maxValue (h : app.sinValues ≠ []) : app.IsPeak app.maxValue := by
  constructor
  · obtain ⟨value, values, hvalues⟩ := List.exists_cons_of_ne_nil h
    obtain ⟨largest, hlargest⟩ : ∃ largest,
        maxElement (fun a b => decide (a.2 < b.2)) app.sinValues = some largest := by
      rw [hvalues]
      exact ⟨_, rfl⟩
    refine ⟨largest, mem_of_maxElement hlargest, ?_⟩
    rw [maxValue, hlargest]
    rfl
  · rintro n ⟨value, hvalue, rfl⟩
    exact le_maxValue hvalue

theorem IsPeak.maxValue_eq (h : app.IsPeak peak) : app.maxValue = peak := by
  obtain ⟨value, hvalue, -⟩ := h.1
  exact (isPeak_maxValue (List.ne_nil_of_mem hvalue)).unique h

theorem IsPeak.lt_iff (h : app.IsPeak peak) (n : ℕ) :
    peak < n ↔ ∀ value ∈ app.sinValues, value.2.toNat < n := by
  obtain ⟨⟨value, hvalue, rfl⟩, hle⟩ := h
  constructor
  · intro hlt value' hvalue'
    exact (hle ⟨value', hvalue', rfl⟩).trans_lt hlt
  · exact fun hlt => hlt value hvalue

theorem IsPeak.getRequiredDataRate_eq (h : app.IsPeak peak) :
    app.getRequiredDataRate = peak % 2 ^ 22 * Utils.packetSizeBit := by
  rw [getRequiredDataRate, h.maxValue_eq, Utils.convertPacketsPerSecond_eq]

theorem IsPeak.getRequiredDataRate_eq_iff (h : app.IsPeak peak) :
    app.getRequiredDataRate = Utils.packetSizeBit * peak ↔ peak < 2 ^ 22 := by
  rw [h.getRequiredDataRate_eq, Nat.mul_comm Utils.packetSizeBit,
    Nat.mul_left_inj (by decide)]
  exact Nat.mod_eq_iff_lt (by decide)

/-- Of two requirements, the larger is the one that keeps more of its peak. -/
theorem IsPeak.getRequiredDataRate_le_iff (h : app.IsPeak peak) (h' : app'.IsPeak peak') :
    app.getRequiredDataRate ≤ app'.getRequiredDataRate ↔ peak % 2 ^ 22 ≤ peak' % 2 ^ 22 := by
  rw [h.getRequiredDataRate_eq, h'.getRequiredDataRate_eq]
  exact Nat.mul_le_mul_right_iff (by decide)

/-- No sample of `app` exceeds the one of `app'` at the same time. -/
def Below (app app' : SinApplication) : Prop :=
  List.Forall₂ (fun value value' => value.2 ≤ value'.2) app.sinValues app'.sinValues

theorem Below.peak_le (h : app.Below app') (hpeak : app.IsPeak peak) (hpeak' : app'.IsPeak peak') :
    peak ≤ peak' := by
  obtain ⟨⟨value, hvalue, rfl⟩, -⟩ := hpeak
  obtain ⟨value', hvalue', hle⟩ := forall₂_mem_right (List.Forall₂.flip h) hvalue
  exact (UInt32.le_iff_toNat_le.mp hle).trans (hpeak'.2 ⟨value', hvalue', rfl⟩)

theorem Below.exists_isPeak (h : app.Below app') (hpeak' : app'.IsPeak peak') :
    ∃ peak, app.IsPeak peak := by
  obtain ⟨value', hvalue', -⟩ := hpeak'.1
  obtain ⟨value, hvalue, -⟩ := forall₂_mem_right h hvalue'
  exact ⟨_, isPeak_maxValue (List.ne_nil_of_mem hvalue)⟩

def cutOff (top value : UInt32) : UInt32 := if value ≤ top then value else top

theorem cutOff_le (top value : UInt32) : cutOff top value ≤ value ∧ cutOff top value ≤ top := by
  unfold cutOff
  split_ifs with h
  · exact ⟨UInt32.le_refl value, h⟩
  · exact ⟨UInt32.le_of_lt (UInt32.not_le.mp h), UInt32.le_refl top⟩

theorem cutOff_of_le {top value : UInt32} (h : top ≤ value) : cutOff top value = top := by
  unfold cutOff
  split_ifs with hle
  · exact UInt32.le_antisymm hle h
  · rfl

/-- The application with its samples cut off at `top`. -/
def withSamplesUpTo (app : SinApplication) (top : UInt32) : SinApplication :=
  { app with sinValues := app.sinValues.map fun value => (value.1, cutOff top value.2) }

theorem below_withSamplesUpTo (app : SinApplication) (top : UInt32) :
    (app.withSamplesUpTo top).Below app := by
  rw [Below, withSamplesUpTo, List.forall₂_map_left_iff, List.forall₂_same]
  exact fun value _ => (cutOff_le top value.2).1

theorem IsPeak.withSamplesUpTo (h : app.IsPeak peak) {top : UInt32} (htop : top.toNat ≤ peak) :
    (app.withSamplesUpTo top).IsPeak top.toNat := by
  obtain ⟨⟨value, hvalue, rfl⟩, -⟩ := h
  constructor
  · refine ⟨_, List.mem_map_of_mem hvalue, congrArg UInt32.toNat ?_⟩
    exact cutOff_of_le (UInt32.le_iff_toNat_le.mpr htop)
  · rintro n ⟨value', hvalue', rfl⟩
    obtain ⟨value, -, rfl⟩ := List.mem_map.mp hvalue'
    exact UInt32.le_iff_toNat_le.mp (cutOff_le top value.2).2

/-- An application never requires a lower rate than one below it, exactly when the conversion keeps
its peak or leaves the largest rate there is. -/
theorem IsPeak.forall_below_le_iff (h : app.IsPeak peak) :
    (∀ app' : SinApplication, app'.Below app →
      app'.getRequiredDataRate ≤ app.getRequiredDataRate) ↔
        peak < 2 ^ 22 ∨ peak % 2 ^ 22 = 2 ^ 22 - 1 := by
  constructor
  · intro hall
    by_contra! hpeak
    obtain ⟨hle, hne⟩ := hpeak
    have htop : (UInt32.ofNat (2 ^ 22 - 1)).toNat = 2 ^ 22 - 1 := rfl
    have hcut : (app.withSamplesUpTo (UInt32.ofNat (2 ^ 22 - 1))).IsPeak _ :=
      h.withSamplesUpTo (by omega)
    have hrate := (hcut.getRequiredDataRate_le_iff h).mp (hall _ (below_withSamplesUpTo app _))
    omega
  · intro hpeak app' hbelow
    obtain ⟨peak', hpeak'⟩ := hbelow.exists_isPeak h
    have hle := hbelow.peak_le hpeak' h
    rw [hpeak'.getRequiredDataRate_le_iff h]
    omega

end SinApplication

/-! ## The rates that survive -/

/-- The packet rates that an interface keeps, the samples that a requirement reflects, and the
order of two requirements, one application being below the other. -/
theorem packetRates_survive_iff (packetsPerSecond : UInt32) (i : ISPInterface)
    {app app' : SinApplication} (happ : app.sinValues ≠ []) (happ' : app'.sinValues ≠ []) :
    ((i.setDataRate (Utils.convertPacketsPerSecondToBitPerSecond
        packetsPerSecond.toNat)).getPackageRate = packetsPerSecond.toNat ↔
          packetsPerSecond.toNat < 2 ^ 22) ∧
      ∃ peak peak', app.IsPeak peak ∧ app'.IsPeak peak' ∧
        (app.getRequiredDataRate = Utils.packetSizeBit * peak ↔
          ∀ value ∈ app.sinValues, value.2.toNat < 2 ^ 22) ∧
        (app.Below app' → (app.getRequiredDataRate ≤ app'.getRequiredDataRate ↔
          peak % 2 ^ 22 ≤ peak' % 2 ^ 22)) ∧
        ((∀ lower : SinApplication, lower.Below app' →
          lower.getRequiredDataRate ≤ app'.getRequiredDataRate) ↔
            peak' < 2 ^ 22 ∨ peak' % 2 ^ 22 = 2 ^ 22 - 1) := by
  have hpeak := SinApplication.isPeak_maxValue happ
  have hpeak' := SinApplication.isPeak_maxValue happ'
  refine ⟨getPackageRate_setDataRate_eq_iff i packetsPerSecond.toNat, _, _, hpeak, hpeak', ?_, ?_,
    hpeak'.forall_below_le_iff⟩
  · exact hpeak.getRequiredDataRate_eq_iff.trans (hpeak.lt_iff _)
  · exact fun _ => hpeak.getRequiredDataRate_le_iff hpeak'

/-- An interface that has not sent anything. -/
def unusedInterface : ISPInterface where
  interfaceId := 1
  netDevice := ⟨0, 10, 0⟩
  outgoingAddress := ⟨1, Utils.connectionPort⟩
  destinationAddress := ⟨0, Utils.connectionPort⟩
  errorModel := 0
  cost := 1

/-- An application with two samples, the second of them without packets. -/
def SinApplication.sampled (amountOfPackets : UInt32) : SinApplication where
  applicationId := 1
  requiredDelay := 200
  errorRate := 20
  sinValues := [(0, amountOfPackets), (1, 0)]

theorem SinApplication.isPeak_sampled (amountOfPackets : UInt32) :
    (sampled amountOfPackets).IsPeak amountOfPackets.toNat := by
  constructor
  · exact ⟨_, List.mem_cons_self, rfl⟩
  · rintro n ⟨value, hvalue, rfl⟩
    rcases List.mem_cons.mp hvalue with rfl | hvalue
    · exact le_rfl
    · rw [List.mem_singleton.mp hvalue]
      exact Nat.zero_le _

theorem SinApplication.sampled_below_sampled {amountOfPackets amountOfPackets' : UInt32}
    (h : amountOfPackets ≤ amountOfPackets') :
    (sampled amountOfPackets).Below (sampled amountOfPackets') :=
  .cons h (.cons (UInt32.le_refl 0) .nil)

theorem packetRates_survive_iff_sample :
    (unusedInterface.setDataRate
        (Utils.convertPacketsPerSecondToBitPerSecond 30)).getPackageRate = 30 ∧
      (SinApplication.sampled 20).getRequiredDataRate = Utils.packetSizeBit * 20 ∧
      (SinApplication.sampled 20).getRequiredDataRate ≤
        (SinApplication.sampled 30).getRequiredDataRate ∧
      ∀ app : SinApplication, app.Below (SinApplication.sampled 30) →
        app.getRequiredDataRate ≤ (SinApplication.sampled 30).getRequiredDataRate := by
  have happ : (SinApplication.sampled 20).sinValues ≠ [] := List.cons_ne_nil _ _
  have happ' : (SinApplication.sampled 30).sinValues ≠ [] := List.cons_ne_nil _ _
  obtain ⟨hrate, peak, peak', hpeak, hpeak', hsamples, horder, hall⟩ :=
    packetRates_survive_iff 30 unusedInterface happ happ'
  have h20 := SinApplication.isPeak_sampled 20
  have h30 := SinApplication.isPeak_sampled 30
  rw [hpeak.unique h20] at hsamples horder
  rw [hpeak'.unique h30] at horder hall
  refine ⟨hrate.mpr (by decide), hsamples.mpr ((h20.lt_iff _).mp (by decide)), ?_, ?_⟩
  · exact (horder (SinApplication.sampled_below_sampled (by decide))).mpr (by decide)
  · exact hall.mpr (.inl (by decide))

/-- A link for `2 ^ 22` packets per second does not let any packet through, and `2 ^ 22` packets
require less than one packet. -/
theorem packetRates_survive_counterexample :
    (unusedInterface.setDataRate
        (Utils.convertPacketsPerSecondToBitPerSecond 4194304)).getPackageRate = 0 ∧
      (SinApplication.sampled 4194304).getRequiredDataRate = 0 ∧
      (SinApplication.sampled 1).Below (SinApplication.sampled 4194304) ∧
      (SinApplication.sampled 4194304).getRequiredDataRate <
        (SinApplication.sampled 1).getRequiredDataRate := by
  have hlarge := (SinApplication.isPeak_sampled 4194304).getRequiredDataRate_eq
  have hsmall := (SinApplication.isPeak_sampled 1).getRequiredDataRate_eq
  refine ⟨getPackageRate_setDataRate _ _, hlarge, ?_, ?_⟩
  · exact SinApplication.sampled_below_sampled (by decide)
  · rw [hlarge, hsmall]
    decide

end SdWan
