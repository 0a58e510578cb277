/-
  SniLua.Cache.Budget

  The arithmetic of the adaptive byte budget: one AIMD step (`next_budget`), the
  budget of the time that remains in a frame (`budget_for_remaining_time`) and the
  time a batch will take (`batch_fits_remaining_time`).  An `f32` is read as an
  exact rational; the casts to integers truncate and saturate.

  For a constant link the budget is a controller of `Lib.Aimd`.  It grows to 80% of
  what the whole frame can carry, but a batch is over its target when it exceeds
  the frame less the latency floor.  So it settles unless the ceiling lies above
  the target and the smallest budget below it.

  The two time gates agree: 80% of the remaining time, rounded down to bytes, takes
  no more than the remaining time, rounded up to milliseconds.
-/

import Mathlib.Tactic.Linarith
import Mathlib.Algebra.Order.Floor.Semiring
import Mathlib.Data.Rat.Floor
import Mathlib.Tactic.NormNum
import SniLua.Lib.Aimd
import SniLua.Cache.Split
import SniLua.Cache.Selection
import SniLua.Cache.Engine

namespace SniLua
namespace Cache

open Lib

-- ============================================================================
-- Casts
-- ============================================================================

/-- `as u32`: truncate, saturate. -/
def asU32 (q : ℚ) : UInt32 := .ofNat (min ⌊q⌋₊ (2 ^ 32 - 1))

/-- `as u128`. -/
def asU128 (q : ℚ) : Nat := min ⌊q⌋₊ (2 ^ 128 - 1)

theorem toNat_asU32 (q : ℚ) : (asU32 q).toNat = min ⌊q⌋₊ (2 ^ 32 - 1) := by
  have hlt : min ⌊q⌋₊ (2 ^ 32 - 1) < 2 ^ 32 := by omega
  exact UInt32.toNat_ofNat_of_lt hlt

theorem floor_floor (q : ℚ) : ⌊(⌊q⌋ : ℚ)⌋₊ = ⌊q⌋₊ := by
  rw [← Int.floor_toNat, Int.floor_intCast, Int.floor_toNat]

/-- A whole number of milliseconds is its own floor. -/
theorem toNat_asU32_natCast {n : Nat} (h : n < 2 ^ 32) : (asU32 (⌊(n : ℚ)⌋ : ℚ)).toNat = n := by
  rw [toNat_asU32, floor_floor, Nat.floor_natCast]
  omega

theorem asU128_le (q : ℚ) : asU128 q ≤ ⌊q⌋₊ := Nat.min_le_left _ _

-- ============================================================================
-- next_budget
-- ============================================================================

/-- The part of the configuration the budget depends on. -/
structure BudgetConfig where
  frameBudgetMs : UInt32
  minByteBudget : UInt32
  maxByteBudget : UInt32
deriving DecidableEq, Repr

/-- `THROUGHPUT_HEADROOM`. -/
def throughputHeadroom : ℚ := 4 / 5

/-- `u32::clamp`, for bounds in order. -/
def clampU32 (x lo hi : UInt32) : UInt32 := max lo (min x hi)

/-- The lowest RTT seen. -/
def observeLatencyFloor (latencyFloorMs : Option ℚ) (rttMs : UInt32) : Option ℚ :=
  let sample : ℚ := (max rttMs.toNat 1 : Nat)
  match latencyFloorMs with
  | some floor => some (min floor sample)
  | none => some sample

/-- The milliseconds of an RTT that count against the budget. -/
def budgetedTransferMs (rttMs : UInt32) (latencyFloorMs : Option ℚ) : Nat :=
  max (rttMs.toNat - (asU32 (⌊latencyFloorMs.getD 0⌋ : ℚ)).toNat) 1

/-- The transfer time a batch may take: the frame less the latency floor. -/
def targetTransferMs (latencyFloorMs : Option ℚ) (cfg : BudgetConfig) : Nat :=
  max (cfg.frameBudgetMs.toNat - (asU32 (⌊latencyFloorMs.getD 0⌋ : ℚ)).toNat) 1

/-- One AIMD step for the adaptive bulk-read budget, for any number of milliseconds
    of transfer. -/
def nextBudget (budget : UInt32) (transferMs : Nat) (throughput latencyFloorMs : Option ℚ)
    (cfg : BudgetConfig) : UInt32 :=
  let target := targetTransferMs latencyFloorMs cfg
  let ceilFrameMs : ℚ := (max cfg.frameBudgetMs.toNat 1 : Nat)
  let b : ℚ := budget.toNat
  let next : ℚ :=
    if transferMs > target then
      let overshoot : ℚ := min ((max transferMs 1 : Nat) / target) 4
      max (b * max (1 / 2 / overshoot) (1 / 5)) 0
    else
      let ceil : ℚ := (throughput.map fun t => t * ceilFrameMs * throughputHeadroom).getD b
      let step : ℚ := max (cfg.maxByteBudget.toNat * (1 / 20)) 256
      min (b + step) (max ceil b)
  clampU32 (asU32 next) cfg.minByteBudget cfg.maxByteBudget

-- ============================================================================
-- The time gates
-- ============================================================================

/-- Only a positive throughput counts. -/
def positive (throughput : Option ℚ) : Option ℚ := throughput.filter (0 < ·)

/-- Trim a full-frame budget to the frame remainder. -/
def budgetForRemainingTime (budget : UInt32) (throughput latencyFloorMs : Option ℚ)
    (elapsedMs frameMs : Nat) : Option UInt32 :=
  if elapsedMs ≥ frameMs then none
  else
    let fixedMs := asU128 (⌊latencyFloorMs.getD 0⌋ : ℚ)
    let remainingMs := frameMs - elapsedMs
    if remainingMs ≤ fixedMs then none
    else
      let transferRemainingMs : ℚ := (remainingMs - fixedMs : Nat)
      match positive throughput with
      | none => some budget
      | some tp =>
          let capped := asU32 (⌊tp * transferRemainingMs * throughputHeadroom⌋ : ℚ)
          if capped = 0 then none else some (min budget (max capped 1))

def predictedTransferMs (bytes : UInt32) (throughput : Option ℚ) : Option Nat :=
  (positive throughput).map fun tp => asU128 (max (⌈(bytes.toNat : ℚ) / tp⌉ : ℚ) 1)

/-- `u128::saturating_add`. -/
def saturatingAdd128 (a b : Nat) : Nat := min (a + b) (2 ^ 128 - 1)

def batchFitsRemainingTime (bytes : UInt32) (throughput latencyFloorMs : Option ℚ)
    (elapsedMs frameMs : Nat) : Bool :=
  let fixedMs := asU128 (⌊latencyFloorMs.getD 0⌋ : ℚ)
  ((predictedTransferMs bytes throughput).map fun predicted =>
    decide (saturatingAdd128 (saturatingAdd128 elapsedMs fixedMs) predicted ≤ frameMs)).getD true

-- ============================================================================
-- The time gates agree
-- ============================================================================

theorem positive_eq_some {throughput : Option ℚ} {tp : ℚ} (h : positive throughput = some tp) :
    0 < tp := by
  have hfilter := Option.filter_eq_some_iff.mp h
  simpa using hfilter.2

/-- The bytes 80% of the time carries take, in whole milliseconds, no more than
    the time. -/
theorem ceil_div_le {bytes ms : Nat} {tp : ℚ} (htp : 0 < tp) (hms : 1 ≤ ms)
    (h : (bytes : ℚ) ≤ tp * ms * throughputHeadroom) :
    ⌊max (⌈(bytes : ℚ) / tp⌉ : ℚ) 1⌋₊ ≤ ms := by
  have hms' : (1 : ℚ) ≤ ms := by exact_mod_cast hms
  have hshare : tp * ms * throughputHeadroom ≤ tp * ms := by
    have hpos : 0 ≤ tp * ms := by positivity
    rw [throughputHeadroom]
    linarith
  have hdiv : (bytes : ℚ) / tp ≤ ms := by
    rw [div_le_iff₀ htp]
    linarith
  have hceil : ⌈(bytes : ℚ) / tp⌉ ≤ (ms : ℤ) := Int.ceil_le.mpr (by exact_mod_cast hdiv)
  have hceil' : (⌈(bytes : ℚ) / tp⌉ : ℚ) ≤ ms := by exact_mod_cast hceil
  exact Nat.floor_le_of_le (max_le hceil' hms')

/-- The budget of the remaining time: there are whole milliseconds left, and its
    bytes are within the share of them that counts. -/
theorem of_budgetForRemainingTime {budget b : UInt32} {throughput latencyFloorMs : Option ℚ}
    {elapsedMs frameMs : Nat}
    (h : budgetForRemainingTime budget throughput latencyFloorMs elapsedMs frameMs = some b) :
    ∃ ms, 1 ≤ ms ∧ elapsedMs + asU128 (⌊latencyFloorMs.getD 0⌋ : ℚ) + ms = frameMs ∧
      ∀ tp, positive throughput = some tp →
        ((max b.toNat 1 : Nat) : ℚ) ≤ tp * ms * throughputHeadroom := by
  simp only [budgetForRemainingTime] at h
  split at h
  · exact absurd h (by simp)
  · rename_i helapsed
    split at h
    · exact absurd h (by simp)
    · rename_i hfixed
      refine ⟨frameMs - elapsedMs - asU128 (⌊latencyFloorMs.getD 0⌋ : ℚ), by omega, by omega, ?_⟩
      intro tp htp
      have hpos := positive_eq_some htp
      simp only [htp] at h
      generalize frameMs - elapsedMs - asU128 (⌊latencyFloorMs.getD 0⌋ : ℚ) = ms at h ⊢
      have hq : 0 ≤ tp * ms * throughputHeadroom := by
        rw [throughputHeadroom]
        positivity
      generalize tp * ms * throughputHeadroom = q at h hq ⊢
      have hcap : (asU32 (⌊q⌋ : ℚ)).toNat ≤ ⌊q⌋₊ := by
        rw [toNat_asU32, floor_floor]
        exact Nat.min_le_left _ _
      split at h
      · exact absurd h (by simp)
      · rename_i hcapped
        obtain rfl := Option.some.inj h
        have hone : 1 ≤ (asU32 (⌊q⌋ : ℚ)).toNat := by
          by_contra hlt
          exact hcapped (UInt32.toNat_inj.mp (by rw [UInt32.toNat_zero]; omega))
        have hle : max (min budget (max (asU32 (⌊q⌋ : ℚ)) 1)).toNat 1 ≤ ⌊q⌋₊ := by
          rw [U32.toNat_min, U32.toNat_max, UInt32.toNat_one]
          omega
        exact (Nat.le_floor_iff hq).mp hle

/-- The rest of a frame never gets more than the whole of it. -/
theorem le_of_budgetForRemainingTime {budget b : UInt32} {throughput latencyFloorMs : Option ℚ}
    {elapsedMs frameMs : Nat}
    (h : budgetForRemainingTime budget throughput latencyFloorMs elapsedMs frameMs = some b) :
    b ≤ budget := by
  simp only [budgetForRemainingTime] at h
  split at h
  · exact absurd h (by simp)
  · split at h
    · exact absurd h (by simp)
    · split at h
      · obtain rfl := Option.some.inj h
        exact UInt32.le_refl _
      · split at h
        · exact absurd h (by simp)
        · obtain rfl := Option.some.inj h
          rw [UInt32.le_iff_toNat_le, U32.toNat_min]
          exact Nat.min_le_left _ _

/-- What fits the budget of the remaining time is predicted to fit the frame. -/
theorem fits_of_le_budget {budget b bytes : UInt32} {throughput latencyFloorMs : Option ℚ}
    {elapsedMs frameMs : Nat}
    (h : budgetForRemainingTime budget throughput latencyFloorMs elapsedMs frameMs = some b)
    (hbytes : bytes.toNat ≤ max b.toNat 1) :
    batchFitsRemainingTime bytes throughput latencyFloorMs elapsedMs frameMs = true := by
  obtain ⟨ms, hms, hsum, hshare⟩ := of_budgetForRemainingTime h
  cases htp : positive throughput with
  | none => rw [batchFitsRemainingTime, predictedTransferMs, htp]; rfl
  | some tp =>
      have hbytes' : (bytes.toNat : ℚ) ≤ (max b.toNat 1 : Nat) := by exact_mod_cast hbytes
      have hpredicted : asU128 (max (⌈(bytes.toNat : ℚ) / tp⌉ : ℚ) 1) ≤ ms :=
        (asU128_le _).trans (ceil_div_le (positive_eq_some htp) hms
          (hbytes'.trans (hshare tp htp)))
      rw [batchFitsRemainingTime, predictedTransferMs, htp, Option.map_some, Option.map_some,
        Option.getD_some]
      refine decide_eq_true ?_
      unfold saturatingAdd128
      omega

/-- A batch of the drain loop that is larger than its budget is a single watch, or
    a read that fits the budget of one byte that is always tried. -/
theorem bulkBatch_larger (c : CycleCtx) (rs : ReadStates) (done : List WatchId) (cycle : Nat)
    (b : UInt32) :
    (sumBytes (c.bulkBatch rs done cycle b)).toNat ≤ max b.toNat 1 ∨
      ∃ r m, c.bulkBatch rs done cycle b = [r] ∧ r.members = [m] ∧ b < m.size := by
  rcases batchBytes_selectBulk (c.pending rs done b) b rs cycle with hle | ⟨r, hr, -⟩
  · refine Or.inl ?_
    rw [CycleCtx.bulkBatch, toNat_sumBytes (batchBytes_selectBulk_lt _ b rs cycle)]
    exact hle.trans (Nat.le_max_left _ _)
  · have hbatch : c.bulkBatch rs done cycle b = [r] := hr
    have hmem : r ∈ c.bulkBatch rs done cycle b := by
      rw [hbatch]
      exact List.mem_singleton_self r
    have hchunk := (CycleCtx.mem_chunked_of_mem_bulkBatch hmem).1
    rcases withinBudget_splitReadsToBudget _ b r hchunk with hsize | ⟨m, hm, hsize⟩
    · rw [UInt32.le_iff_toNat_le, U32.toNat_max, UInt32.toNat_one] at hsize
      have hsum : sumBytes [r] = r.region.size := UInt32.zero_add _
      exact Or.inl (by rw [hbatch, hsum]; exact hsize)
    · rw [UInt32.lt_iff_toNat_lt, U32.toNat_max] at hsize
      exact Or.inr ⟨r, m, hbatch, hm, UInt32.lt_iff_toNat_lt.mpr (by omega)⟩

/-- **The two time gates agree.**  When the budget of the remaining time is `b`,
    every batch selected for it is within `b` and predicted to fit the frame, or it
    is one read larger than `b`; and a batch of the drain loop that is predicted
    not to fit is a single watch larger than `b`. -/
theorem time_gates_agree {budget b : UInt32} {throughput latencyFloorMs : Option ℚ}
    {elapsedMs frameMs : Nat}
    (h : budgetForRemainingTime budget throughput latencyFloorMs elapsedMs frameMs = some b) :
    (∀ reads rs cycle,
      let selected := (selectBulk reads b rs cycle).reads
      (batchBytes selected ≤ b.toNat ∧
        batchFitsRemainingTime (sumBytes selected) throughput latencyFloorMs elapsedMs frameMs) ∨
      ∃ r, selected = [r] ∧ b < r.region.size) ∧
    ∀ (c : CycleCtx) rs done cycle,
      batchFitsRemainingTime (sumBytes (c.bulkBatch rs done cycle b)) throughput latencyFloorMs
          elapsedMs frameMs = false →
        ∃ r m, c.bulkBatch rs done cycle b = [r] ∧ r.members = [m] ∧ b < m.size := by
  constructor
  · intro reads rs cycle
    rcases batchBytes_selectBulk reads b rs cycle with hle | hlarge
    · have hsum := toNat_sumBytes (batchBytes_selectBulk_lt reads b rs cycle)
      exact Or.inl ⟨hle, fits_of_le_budget h (by rw [hsum]; omega)⟩
    · exact Or.inr hlarge
  · intro c rs done cycle hrejected
    rcases bulkBatch_larger c rs done cycle b with hle | hlarge
    · rw [fits_of_le_budget h hle] at hrejected
      exact absurd hrejected (by simp)
    · exact hlarge

/-- Eight milliseconds are left, 500 bytes each: the budget is 3200 bytes. -/
theorem time_gates_agree_late :
    (batchBytes (selectBulk threeReads 3200 threeStates 5).reads ≤ 3200 ∧
      batchFitsRemainingTime (sumBytes (selectBulk threeReads 3200 threeStates 5).reads) (some 500)
        none 8 16) ∨
      ∃ r, (selectBulk threeReads 3200 threeStates 5).reads = [r] ∧ 3200 < r.region.size := by
  have hbudget : budgetForRemainingTime 6400 (some 500) none 8 16 = some 3200 := by
    have hpositive : positive (some 500) = some 500 := by
      simp [positive, Option.filter]
    have hfixed : asU128 (⌊(none : Option ℚ).getD 0⌋ : ℚ) = 0 := by
      simp [asU128]
    have hcapped :
        asU32 (⌊(500 : ℚ) * ((16 - 8 - 0 : Nat) : ℚ) * throughputHeadroom⌋ : ℚ) = 3200 := by
      rw [asU32, floor_floor, throughputHeadroom]
      norm_num
      rfl
    simp only [budgetForRemainingTime, hpositive, hfixed, hcapped]
    decide
  exact (time_gates_agree hbudget).1 threeReads threeStates 5

-- ============================================================================
-- The budget on a constant link
-- ============================================================================

/-- One step of the budget when the link carries `tp` bytes per millisecond after
    a fixed latency. -/
def budgetStep (cfg : BudgetConfig) (tp : ℚ) (floorMs : Option Nat) (b : UInt32) : UInt32 :=
  nextBudget b ⌈(b.toNat : ℚ) / tp⌉₊ (some tp) (floorMs.map fun ms => (ms : ℚ)) cfg

/-- The budget growth stops at: 80% of what the whole frame carries. -/
def throughputCeiling (cfg : BudgetConfig) (tp : ℚ) : UInt32 :=
  clampU32 (asU32 (tp * cfg.frameBudgetMs.toNat * throughputHeadroom)) cfg.minByteBudget
    cfg.maxByteBudget

/-- The milliseconds a batch may take. -/
def transferTarget (cfg : BudgetConfig) (floorMs : Option Nat) : Nat :=
  cfg.frameBudgetMs.toNat - floorMs.getD 0

theorem toNat_clamp_asU32 {q : ℚ} {lo hi : UInt32} :
    (clampU32 (asU32 q) lo hi).toNat = max lo.toNat (min ⌊q⌋₊ hi.toNat) := by
  have hhi := hi.toNat_lt
  rw [clampU32, U32.toNat_max, U32.toNat_min, toNat_asU32]
  omega

section ConstantLink

variable {cfg : BudgetConfig} {tp : ℚ} {floorMs : Option Nat}

theorem getD_map_natCast (floorMs : Option Nat) :
    (floorMs.map fun ms => (ms : ℚ)).getD 0 = (floorMs.getD 0 : Nat) := by
  cases floorMs <;> simp

theorem targetTransferMs_eq (hfloor : floorMs.getD 0 < cfg.frameBudgetMs.toNat) :
    targetTransferMs (floorMs.map fun ms => (ms : ℚ)) cfg = transferTarget cfg floorMs := by
  have hframe := cfg.frameBudgetMs.toNat_lt
  rw [targetTransferMs, getD_map_natCast, toNat_asU32_natCast (by omega), transferTarget]
  omega

/-- The step does not tell a transfer of no time from one of a millisecond. -/
theorem nextBudget_max_one (budget : UInt32) (transferMs : Nat)
    (throughput latencyFloorMs : Option ℚ) (cfg : BudgetConfig) :
    nextBudget budget (max transferMs 1) throughput latencyFloorMs cfg =
      nextBudget budget transferMs throughput latencyFloorMs cfg := by
  have htarget : 1 ≤ targetTransferMs latencyFloorMs cfg := Nat.le_max_right _ _
  have hover : max transferMs 1 > targetTransferMs latencyFloorMs cfg ↔
      transferMs > targetTransferMs latencyFloorMs cfg := by omega
  have hmax : max (max transferMs 1) 1 = max transferMs 1 := by omega
  simp only [nextBudget, hover, hmax]

/-- The drain loop takes this step when the RTT of a batch is the latency floor plus
    the time its bytes take. -/
theorem nextBudget_budgetedTransferMs (hfloor : floorMs.getD 0 < cfg.frameBudgetMs.toNat)
    {b rttMs : UInt32} (hrtt : rttMs.toNat = floorMs.getD 0 + ⌈(b.toNat : ℚ) / tp⌉₊) :
    nextBudget b (budgetedTransferMs rttMs (floorMs.map fun ms => (ms : ℚ))) (some tp)
      (floorMs.map fun ms => (ms : ℚ)) cfg = budgetStep cfg tp floorMs b := by
  have hframe := cfg.frameBudgetMs.toNat_lt
  have htransfer : rttMs.toNat - floorMs.getD 0 = ⌈(b.toNat : ℚ) / tp⌉₊ := by omega
  rw [budgetedTransferMs, getD_map_natCast, toNat_asU32_natCast (by omega), htransfer,
    nextBudget_max_one, budgetStep]

/-- And the floor stays what it was. -/
theorem observeLatencyFloor_eq {ms : Nat} {rttMs : UInt32} (h : ms ≤ rttMs.toNat) :
    observeLatencyFloor (some (ms : ℚ)) rttMs = some (ms : ℚ) := by
  have hle : (ms : ℚ) ≤ (max rttMs.toNat 1 : Nat) := by exact_mod_cast h.trans (Nat.le_max_left _ _)
  rw [observeLatencyFloor]
  exact congrArg some (min_eq_left hle)

/-- A batch takes longer than the target when it holds more than the target carries. -/
theorem lt_ceil_div_iff (htp : 0 < tp) {bytes ms : Nat} :
    ms < ⌈(bytes : ℚ) / tp⌉₊ ↔ (ms : ℚ) * tp < bytes := by
  rw [Nat.lt_ceil, lt_div_iff₀ htp]

/-- The factor of a cut is at most one half. -/
theorem cut_factor_le {overshoot : ℚ} (h : 1 ≤ overshoot) :
    max (1 / 2 / overshoot) (1 / 5) ≤ 1 / 2 := by
  have hpos : 0 < overshoot := by linarith
  have hhalf : 1 / 2 / overshoot ≤ 1 / 2 := by
    rw [div_le_iff₀ hpos]
    linarith
  exact max_le hhalf (by norm_num)

/-- What a factor of at most one half leaves of some bytes. -/
theorem two_mul_floor_le {bytes : Nat} {factor : ℚ} (h : factor ≤ 1 / 2) :
    2 * ⌊max ((bytes : ℚ) * factor) 0⌋₊ ≤ bytes := by
  have hbytes : (0 : ℚ) ≤ bytes := Nat.cast_nonneg _
  have hmul : (bytes : ℚ) * factor ≤ bytes * (1 / 2) := mul_le_mul_of_nonneg_left h hbytes
  have hnext : max ((bytes : ℚ) * factor) 0 ≤ bytes / 2 := max_le (by linarith) (by linarith)
  have hfloor := Nat.floor_le (le_max_right ((bytes : ℚ) * factor) 0)
  have htwice : (2 * ⌊max ((bytes : ℚ) * factor) 0⌋₊ : ℚ) ≤ bytes := by linarith
  exact_mod_cast htwice

/-- An overrun cuts the budget to at most half. -/
theorem toNat_budgetStep_of_over (hfloor : floorMs.getD 0 < cfg.frameBudgetMs.toNat)
    {b : UInt32} (hover : transferTarget cfg floorMs < ⌈(b.toNat : ℚ) / tp⌉₊) :
    ∃ n, 2 * n ≤ b.toNat ∧
      (budgetStep cfg tp floorMs b).toNat =
        max cfg.minByteBudget.toNat (min n cfg.maxByteBudget.toNat) := by
  simp only [budgetStep, nextBudget, targetTransferMs_eq hfloor]
  rw [if_pos hover, toNat_clamp_asU32]
  refine ⟨_, two_mul_floor_le (cut_factor_le ?_), rfl⟩
  have htarget : 0 < transferTarget cfg floorMs := Nat.sub_pos_of_lt hfloor
  have hms : transferTarget cfg floorMs ≤ max ⌈(b.toNat : ℚ) / tp⌉₊ 1 := by omega
  have htarget' : (0 : ℚ) < transferTarget cfg floorMs := by exact_mod_cast htarget
  have hms' : (transferTarget cfg floorMs : ℚ) ≤ (max ⌈(b.toNat : ℚ) / tp⌉₊ 1 : Nat) := by
    exact_mod_cast hms
  exact le_min ((one_le_div htarget').mpr hms') (by norm_num)

/-- Otherwise it grows, strictly below the ceiling and never past it. -/
theorem toNat_budgetStep_of_not_over (hfloor : floorMs.getD 0 < cfg.frameBudgetMs.toNat)
    {b : UInt32} (hover : ¬ transferTarget cfg floorMs < ⌈(b.toNat : ℚ) / tp⌉₊) :
    ∃ n, b.toNat ≤ n ∧
      n ≤ max ⌊tp * cfg.frameBudgetMs.toNat * throughputHeadroom⌋₊ b.toNat ∧
      (b.toNat < ⌊tp * cfg.frameBudgetMs.toNat * throughputHeadroom⌋₊ → b.toNat < n) ∧
      (budgetStep cfg tp floorMs b).toNat =
        max cfg.minByteBudget.toNat (min n cfg.maxByteBudget.toNat) := by
  have hframe : max cfg.frameBudgetMs.toNat 1 = cfg.frameBudgetMs.toNat := by omega
  simp only [budgetStep, nextBudget, targetTransferMs_eq hfloor, Option.map_some, Option.getD_some,
    hframe]
  rw [if_neg hover, toNat_clamp_asU32]
  generalize tp * cfg.frameBudgetMs.toNat * throughputHeadroom = ceil
  have hstep : 256 ≤ max ((cfg.maxByteBudget.toNat : ℚ) * (1 / 20)) 256 := le_max_right _ _
  generalize max ((cfg.maxByteBudget.toNat : ℚ) * (1 / 20)) 256 = step at hstep
  refine ⟨_, Nat.le_floor (le_min (by linarith) (le_max_right _ _)), ?_, ?_, rfl⟩
  · refine (Nat.floor_le_floor (min_le_right _ _)).trans ?_
    rcases le_total ceil (b.toNat : ℚ) with h | h
    · rw [max_eq_right h, Nat.floor_natCast]
      exact Nat.le_max_right _ _
    · rw [max_eq_left h]
      exact Nat.le_max_left _ _
  · intro hlt
    have hceil : 0 ≤ ceil := by
      by_contra hneg
      rw [Nat.floor_of_nonpos (by linarith)] at hlt
      omega
    have hle : ((b.toNat + 1 : Nat) : ℚ) ≤ ceil := (Nat.le_floor_iff hceil).mp hlt
    refine Nat.le_floor (le_min ?_ (hle.trans (le_max_left _ _)))
    push_cast
    linarith

/-- On a constant link the budget is such a controller. -/
theorem aimd_budgetStep (hcfg : cfg.minByteBudget ≤ cfg.maxByteBudget) (htp : 0 < tp)
    (hfloor : floorMs.getD 0 < cfg.frameBudgetMs.toNat) :
    Aimd UInt32.toNat (fun b => transferTarget cfg floorMs < ⌈(b.toNat : ℚ) / tp⌉₊)
      (fun b => cfg.minByteBudget ≤ b ∧ b ≤ cfg.maxByteBudget) (budgetStep cfg tp floorMs)
      cfg.minByteBudget (throughputCeiling cfg tp) := by
  have hcfg' := UInt32.le_iff_toNat_le.mp hcfg
  have hceil : (throughputCeiling cfg tp).toNat = max cfg.minByteBudget.toNat
      (min ⌊tp * cfg.frameBudgetMs.toNat * throughputHeadroom⌋₊ cfg.maxByteBudget.toNat) :=
    toNat_clamp_asU32
  constructor
  case mono =>
    intro a b hle hover
    rw [lt_ceil_div_iff htp] at hover ⊢
    have hle' : (a.toNat : ℚ) ≤ b.toNat := by exact_mod_cast hle
    linarith
  case maps =>
    intro b hb
    rw [UInt32.le_iff_toNat_le, UInt32.le_iff_toNat_le]
    by_cases hover : transferTarget cfg floorMs < ⌈(b.toNat : ℚ) / tp⌉₊
    · obtain ⟨n, -, hn⟩ := toNat_budgetStep_of_over hfloor hover
      omega
    · obtain ⟨n, -, -, -, hn⟩ := toNat_budgetStep_of_not_over hfloor hover
      omega
  case least => exact fun hb => UInt32.le_iff_toNat_le.mp hb.1
  case bottom =>
    intro hover
    obtain ⟨n, hhalf, hn⟩ := toNat_budgetStep_of_over hfloor hover
    exact UInt32.toNat_inj.mp (by omega)
  case cut =>
    intro b hb hover hne
    obtain ⟨n, hhalf, hn⟩ := toNat_budgetStep_of_over hfloor hover
    have hlo := UInt32.le_iff_toNat_le.mp hb.1
    have hne' : b.toNat ≠ cfg.minByteBudget.toNat := fun h => hne (UInt32.toNat_inj.mp h)
    omega
  case grow =>
    intro b hb hover hlt
    obtain ⟨n, hle, hbound, hgrow, hn⟩ := toNat_budgetStep_of_not_over hfloor hover
    have hlo := UInt32.le_iff_toNat_le.mp hb.1
    rw [hceil] at hlt ⊢
    omega
  case rest =>
    intro b hb hover hle
    obtain ⟨n, hle', hbound, hgrow, hn⟩ := toNat_budgetStep_of_not_over hfloor hover
    have hlo := UInt32.le_iff_toNat_le.mp hb.1
    have hhi := UInt32.le_iff_toNat_le.mp hb.2
    rw [hceil] at hle
    exact UInt32.toNat_inj.mp (by omega)

/-- The budget settles, at the smallest one or at one that does not overrun, if
    and only if the smallest budget overruns its target or the throughput ceiling
    does not.  The starting budget does not matter. -/
theorem budget_settles_iff (hcfg : cfg.minByteBudget ≤ cfg.maxByteBudget) (htp : 0 < tp)
    (hfloor : floorMs.getD 0 < cfg.frameBudgetMs.toNat) {b : UInt32}
    (hlo : cfg.minByteBudget ≤ b) (hhi : b ≤ cfg.maxByteBudget) :
    (∃ k, let b' := (budgetStep cfg tp floorMs)^[k] b
      budgetStep cfg tp floorMs b' = b' ∧
        (b' = cfg.minByteBudget ∨
          ⌈(b'.toNat : ℚ) / tp⌉₊ ≤ cfg.frameBudgetMs.toNat - floorMs.getD 0)) ↔
      ((cfg.frameBudgetMs.toNat - floorMs.getD 0 : Nat) : ℚ) * tp < cfg.minByteBudget.toNat ∨
        ((throughputCeiling cfg tp).toNat : ℚ) ≤
          (cfg.frameBudgetMs.toNat - floorMs.getD 0 : Nat) * tp := by
  have hsettles := (aimd_budgetStep hcfg htp hfloor).settles_iff ⟨hlo, hhi⟩
  rw [lt_ceil_div_iff htp, lt_ceil_div_iff htp, not_lt] at hsettles
  simpa only [not_lt, transferTarget] using hsettles

end ConstantLink

/-- The default configuration. -/
def BudgetConfig.default : BudgetConfig :=
  { frameBudgetMs := 16, minByteBudget := 256, maxByteBudget := 64 * 1024 }

theorem throughputCeiling_default : (throughputCeiling .default 500).toNat = 6400 := by
  have hframe : BudgetConfig.default.frameBudgetMs.toNat = 16 := by decide
  rw [throughputCeiling, toNat_clamp_asU32, throughputHeadroom, hframe]
  norm_num
  decide

theorem default_bounds :
    BudgetConfig.default.minByteBudget ≤ BudgetConfig.default.maxByteBudget := by decide

/-- With a latency of two milliseconds a link of 500 bytes per millisecond settles. -/
theorem budget_settles_fast :
    ∃ k, let b := (budgetStep .default 500 (some 2))^[k] 2048
      budgetStep .default 500 (some 2) b = b ∧
        (b = 256 ∨ ⌈(b.toNat : ℚ) / 500⌉₊ ≤ 16 - 2) := by
  have htp : (0 : ℚ) < 500 := by norm_num
  have hfloor : (some 2).getD 0 < BudgetConfig.default.frameBudgetMs.toNat := by decide
  have htarget : BudgetConfig.default.frameBudgetMs.toNat - (some 2).getD 0 = 14 := by decide
  refine (budget_settles_iff default_bounds htp hfloor (by decide) (by decide)).mpr (Or.inr ?_)
  rw [throughputCeiling_default, htarget]
  norm_num

/-- With a latency of eight milliseconds the target is 4000 bytes and the ceiling
    6400: the budget never settles. -/
theorem budget_never_settles :
    ¬ ∃ k, let b := (budgetStep .default 500 (some 8))^[k] 256
      budgetStep .default 500 (some 8) b = b ∧
        (b = 256 ∨ ⌈(b.toNat : ℚ) / 500⌉₊ ≤ 16 - 8) := by
  have htp : (0 : ℚ) < 500 := by norm_num
  have hfloor : (some 8).getD 0 < BudgetConfig.default.frameBudgetMs.toNat := by decide
  have htarget : transferTarget .default (some 8) = 8 := by decide
  have hmin : BudgetConfig.default.minByteBudget.toNat = 256 := by decide
  have hsettles := (aimd_budgetStep default_bounds htp hfloor).settles_iff (b := 256)
    ⟨by decide, by decide⟩
  rw [lt_ceil_div_iff htp, lt_ceil_div_iff htp, throughputCeiling_default, htarget, hmin]
    at hsettles
  rintro ⟨k, hfix, hend⟩
  rcases hsettles.mp ⟨k, hfix, hend.imp_right not_lt.mpr⟩ with hlt | hlt
  · norm_num at hlt
  · norm_num at hlt

end Cache
end SniLua
