/-
  SniLua.Lib.Ewma

  Exponentially weighted averages over an ordered field.  An average takes in a
  sample with a weight between 0 and 1, so it stays between the smallest and the
  largest sample it has seen, whatever the weights are; with weights strictly
  between 0 and 1 it reaches a bound of the samples only when all of them do.
-/

import Mathlib.Algebra.Order.Field.Basic
import Mathlib.Tactic.Linarith
import Mathlib.Tactic.Ring

namespace SniLua
namespace Lib

/-- The value lies between two of the samples. -/
def Between {K : Type} [LinearOrder K] (samples : List K) (x : K) : Prop :=
  (∃ y ∈ samples, y ≤ x) ∧ ∃ y ∈ samples, x ≤ y

theorem between_concat {K : Type} [LinearOrder K] (samples : List K) (x : K) :
    Between (samples ++ [x]) x :=
  ⟨⟨x, by simp, le_refl x⟩, ⟨x, by simp, le_refl x⟩⟩

section Ewma

variable {K : Type} [Field K] [LinearOrder K] [IsStrictOrderedRing K]

/-- An average takes in a sample. -/
def ewma (alpha sample average : K) : K := alpha * sample + (1 - alpha) * average

/-- The first sample starts the average. -/
def ewmaFrom (alpha sample : K) : Option K → K
  | some average => ewma alpha sample average
  | none => sample

variable {alpha sample average lo hi : K} {samples : List K}

theorem le_ewma (h0 : 0 ≤ alpha) (h1 : alpha ≤ 1) (hs : lo ≤ sample) (ha : lo ≤ average) :
    lo ≤ ewma alpha sample average := by
  have hsample : alpha * lo ≤ alpha * sample := mul_le_mul_of_nonneg_left hs h0
  have haverage : (1 - alpha) * lo ≤ (1 - alpha) * average :=
    mul_le_mul_of_nonneg_left ha (by linarith)
  rw [ewma]
  linarith

theorem ewma_le (h0 : 0 ≤ alpha) (h1 : alpha ≤ 1) (hs : sample ≤ hi) (ha : average ≤ hi) :
    ewma alpha sample average ≤ hi := by
  have hsample : alpha * sample ≤ alpha * hi := mul_le_mul_of_nonneg_left hs h0
  have haverage : (1 - alpha) * average ≤ (1 - alpha) * hi :=
    mul_le_mul_of_nonneg_left ha (by linarith)
  rw [ewma]
  linarith

/-- A lower bound of sample and average is reached when both reach it. -/
theorem ewma_eq_lo_iff (h0 : 0 < alpha) (h1 : alpha < 1) (hs : lo ≤ sample) (ha : lo ≤ average) :
    ewma alpha sample average = lo ↔ sample = lo ∧ average = lo := by
  constructor
  · intro heq
    have hsample : 0 ≤ alpha * (sample - lo) := mul_nonneg h0.le (by linarith)
    have haverage : 0 ≤ (1 - alpha) * (average - lo) := mul_nonneg (by linarith) (by linarith)
    have hsum : alpha * (sample - lo) + (1 - alpha) * (average - lo) = 0 := by
      rw [ewma] at heq
      linarith
    have hs0 : alpha * (sample - lo) = 0 := by linarith
    have ha0 : (1 - alpha) * (average - lo) = 0 := by linarith
    have hs1 := (mul_eq_zero.mp hs0).resolve_left (ne_of_gt h0)
    have ha1 := (mul_eq_zero.mp ha0).resolve_left (by linarith)
    exact ⟨by linarith, by linarith⟩
  · rintro ⟨rfl, rfl⟩
    rw [ewma]
    ring

/-- And an upper bound. -/
theorem ewma_eq_hi_iff (h0 : 0 < alpha) (h1 : alpha < 1) (hs : sample ≤ hi) (ha : average ≤ hi) :
    ewma alpha sample average = hi ↔ sample = hi ∧ average = hi := by
  have hneg : ewma alpha (-sample) (-average) = -hi ↔ -sample = -hi ∧ -average = -hi :=
    ewma_eq_lo_iff h0 h1 (neg_le_neg hs) (neg_le_neg ha)
  have hewma : ewma alpha (-sample) (-average) = -ewma alpha sample average := by
    rw [ewma, ewma]
    ring
  rw [hewma] at hneg
  simpa only [neg_inj] using hneg

/-- Taking in a sample keeps the average between the samples. -/
theorem Between.ewma (h : Between samples average) (h0 : 0 ≤ alpha) (h1 : alpha ≤ 1) (x : K) :
    Between (samples ++ [x]) (ewma alpha x average) := by
  obtain ⟨⟨y, hy, hlo⟩, z, hz, hhi⟩ := h
  constructor
  · rcases le_total x y with hxy | hxy
    · exact ⟨x, by simp, le_ewma h0 h1 (le_refl x) (hxy.trans hlo)⟩
    · exact ⟨y, List.mem_append_left _ hy, le_ewma h0 h1 hxy hlo⟩
  · rcases le_total x z with hxz | hxz
    · exact ⟨z, List.mem_append_left _ hz, ewma_le h0 h1 hxz hhi⟩
    · exact ⟨x, by simp, ewma_le h0 h1 (le_refl x) (hhi.trans hxz)⟩

end Ewma

end Lib
end SniLua
