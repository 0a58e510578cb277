/-
  SniLua.Lib.LittleEndian

  Fixed-width little-endian codes of natural numbers.  Encoding keeps what fits the
  width, decoding inverts it, and a prefix of a code decodes to the number modulo
  the width of the prefix.
-/

import Mathlib.Data.List.Basic
import Mathlib.Tactic.Ring

namespace SniLua
namespace Lib

/-- The lowest `n` bytes of a number, lowest first. -/
def leBytes : Nat → Nat → List UInt8
  | 0, _ => []
  | n + 1, v => UInt8.ofNat v :: leBytes n (v / 256)

/-- The number of a list of bytes, lowest first. -/
def leNat : List UInt8 → Nat
  | [] => 0
  | b :: bs => b.toNat + 256 * leNat bs

@[simp] theorem length_leBytes (n v : Nat) : (leBytes n v).length = n := by
  induction n generalizing v with
  | zero => rfl
  | succ n ih => rw [leBytes, List.length_cons, ih]

/-- Decoding a code gives the number modulo the width. -/
theorem leNat_leBytes (n v : Nat) : leNat (leBytes n v) = v % 256 ^ n := by
  induction n generalizing v with
  | zero => simp [leBytes, leNat, Nat.mod_one]
  | succ n ih =>
      have hbyte : (UInt8.ofNat v).toNat = v % 256 := UInt8.toNat_ofNat'
      rw [leBytes, leNat, ih, hbyte, Nat.pow_succ', Nat.mod_mul]

/-- A prefix of a code is the code of the shorter width. -/
theorem take_leBytes {k n : Nat} (h : k ≤ n) (v : Nat) : (leBytes n v).take k = leBytes k v := by
  induction k generalizing n v with
  | zero => rfl
  | succ k ih =>
      obtain ⟨n, rfl⟩ : ∃ m, n = m + 1 := ⟨n - 1, by omega⟩
      rw [leBytes, List.take_succ_cons, ih (by omega), leBytes]

theorem leNat_lt (bs : List UInt8) : leNat bs < 256 ^ bs.length := by
  induction bs with
  | nil => simp [leNat]
  | cons b bs ih =>
      have hlt := b.toNat_lt
      rw [List.length_cons, Nat.pow_succ', leNat]
      omega

/-- The bytes shifted out of a number one by one. -/
theorem leBytes_eq_map (n v : Nat) :
    leBytes n v = (List.range n).map fun i => UInt8.ofNat (v / 256 ^ i) := by
  induction n generalizing v with
  | zero => rfl
  | succ n ih =>
      rw [leBytes, ih, List.range_succ_eq_map, List.map_cons, List.map_map]
      congr 1
      · simp
      · refine List.map_congr_left fun i _ => ?_
        simp only [Function.comp_apply, Nat.div_div_eq_div_mul, Nat.pow_succ']

end Lib
end SniLua
