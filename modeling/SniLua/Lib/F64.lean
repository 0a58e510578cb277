/-
  SniLua.Lib.F64

  Double-precision numbers as far as order, clamping and conversion from
  integers go: the finite ones are rationals, the sign of zero is not kept.
  `minNum` and `maxNum` ignore a NaN operand, comparisons with NaN are false.
-/

import Mathlib.Algebra.Group.Nat.Defs
import Mathlib.Data.Rat.Defs
import Mathlib.Algebra.Order.Ring.Unbundled.Rat

namespace SniLua
namespace Lib

inductive F64 where
  | nan | negInf | fin (x : ℚ) | posInf
deriving DecidableEq

namespace F64

/-- `a < b`. -/
def lt : F64 → F64 → Bool
  | .negInf, .fin _ | .negInf, .posInf | .fin _, .posInf => true
  | .fin x, .fin y => x < y
  | _, _ => false

def isNan : F64 → Bool
  | .nan => true
  | _ => false

/-- `a <= b`. -/
def le (a b : F64) : Bool := !a.isNan && !b.isNan && !lt b a

/-- `f64::min`. -/
def minNum (a b : F64) : F64 := if a.isNan then b else if lt b a then b else a

/-- `f64::max`. -/
def maxNum (a b : F64) : F64 := if a.isNan then b else if lt a b then b else a

/-- `f64::clamp` for bounds it accepts (it panics on NaN bounds). -/
def clamp (x lo hi : F64) : F64 := if lt x lo then lo else if lt hi x then hi else x

/-- A number inside the bounds is not moved. -/
theorem clamp_of_inside {x lo hi : F64} (h₁ : lt x lo = false) (h₂ : lt hi x = false) :
    clamp x lo hi = x := by
  simp [clamp, h₁, h₂]

theorem isNan_eq_false_iff {x : F64} : x.isNan = false ↔ x ≠ .nan := by
  cases x <;> simp [isNan]

theorem le_of_not_lt {a b : F64} (ha : a ≠ .nan) (hb : b ≠ .nan) (h : lt b a = false) :
    le a b = true := by
  rw [le, isNan_eq_false_iff.mpr ha, isNan_eq_false_iff.mpr hb, h]
  rfl

theorem lt_irrefl (a : F64) : lt a a = false := by
  cases a <;> simp [lt]

theorem lt_asymm {a b : F64} (h : lt a b = true) : lt b a = false := by
  cases a <;> cases b <;> simp_all [lt]
  exact le_of_lt h

theorem le_refl {a : F64} (h : a ≠ .nan) : le a a = true := le_of_not_lt h h (lt_irrefl a)

/-- A clamped number lies between the bounds. -/
theorem clamp_between {x lo hi : F64} (hx : x ≠ .nan) (hlo : lo ≠ .nan) (hhi : hi ≠ .nan)
    (h : le lo hi = true) : le lo (clamp x lo hi) = true ∧ le (clamp x lo hi) hi = true := by
  rw [clamp]
  split
  · exact ⟨le_refl hlo, h⟩
  · rename_i hxlo
    split
    · exact ⟨h, le_refl hhi⟩
    · rename_i hhix
      exact ⟨le_of_not_lt hlo hx (by simpa using hxlo), le_of_not_lt hx hhi (by simpa using hhix)⟩

/-- The smaller and the larger of two numbers, as `min` and `max` find them. -/
theorem minNum_maxNum_of_not_nan {a b : F64} (ha : a ≠ .nan) (hb : b ≠ .nan) :
    minNum a b ≠ .nan ∧ maxNum a b ≠ .nan ∧ le (minNum a b) (maxNum a b) = true := by
  have hnan : a.isNan = false := isNan_eq_false_iff.mpr ha
  simp only [minNum, maxNum, hnan, Bool.false_eq_true, if_false]
  cases hba : lt b a with
  | true =>
      have hab := lt_asymm hba
      rw [hab]
      exact ⟨hb, ha, le_of_not_lt hb ha hab⟩
  | false =>
      cases hab : lt a b with
      | true => exact ⟨ha, hb, le_of_not_lt ha hb hba⟩
      | false => exact ⟨ha, ha, le_refl ha⟩

/-- Round to 53 significant bits, ties to even. -/
def roundNat (n : Nat) : Nat :=
  if n < 2 ^ 53 then n
  else
    let shift := n.log2 - 52
    let q := n >>> shift
    let r := n % 2 ^ shift
    let half := 2 ^ (shift - 1)
    (if half < r ∨ (r = half ∧ q % 2 = 1) then q + 1 else q) * 2 ^ shift

/-- `n as f64`. -/
def ofInt (i : Int) : F64 := .fin (i.sign * roundNat i.natAbs)

end F64

end Lib
end SniLua
