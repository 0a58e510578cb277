/-
  SniLua.LuaApi.SnesMemory

  Memory as a script sees it: the typed readers of the `snes` table and
  `snes.write`.

  A reader answers with the number in the first bytes of a watch, wrapped to its
  type; `snes.write` encodes the low bytes of a number.  `read_of_written` is the
  round trip between the two.
-/

import SniLua.Cache.Accessors

namespace SniLua
namespace LuaApi

open Cache Lib

-- ============================================================================
-- Readers
-- ============================================================================

/-- The readers of the `snes` table, by the accessor they call. -/
inductive Reader where
  | u8 | u16 | u24 | u32 | i8 | i16 | i32
deriving DecidableEq, Repr

namespace Reader

/-- The value of the accessor, `as i64`. -/
def read (r : Reader) (s : Snapshot) (id : WatchId) : Option Int :=
  match r with
  | u8 => (s.u8 id).map fun v => (v.toNat : Int)
  | u16 => (s.u16 id).map fun v => (v.toNat : Int)
  | u24 => (s.u24 id).map fun v => (v.toNat : Int)
  | u32 => (s.u32 id).map fun v => (v.toNat : Int)
  | i8 => (s.i8 id).map (·.toInt)
  | i16 => (s.i16 id).map (·.toInt)
  | i32 => (s.i32 id).map (·.toInt)

/-- The bytes a reader needs. -/
def width : Reader → Nat
  | u8 | i8 => 1
  | u16 | i16 => 2
  | u24 => 3
  | u32 | i32 => 4

def signed : Reader → Bool
  | i8 | i16 | i32 => true
  | u8 | u16 | u24 | u32 => false

/-- The integer of the reader's type that a number is read as. -/
def wrap (r : Reader) (v : Int) : Int :=
  if r.signed then v.bmod (256 ^ r.width) else v % 256 ^ r.width

/-- Every reader wraps the number in its first bytes. -/
theorem read_eq (r : Reader) (s : Snapshot) (id : WatchId) :
    r.read s id = (s.le r.width id).map fun v : Nat => r.wrap (v : Int) := by
  have hwide : ∀ v : Nat, s.le 3 id = some v → v % 2 ^ 32 = v % 256 ^ 3 := by
    intro v hv
    have hlt := Snapshot.le_lt hv
    omega
  cases r with
  | u8 =>
      simp only [read, Snapshot.u8_eq, width, Option.map_map]
      refine congrArg (Option.map · _) (funext fun v => ?_)
      simp [wrap, signed, width]
  | u16 =>
      simp only [read, Snapshot.u16, width, Option.map_map]
      refine congrArg (Option.map · _) (funext fun v => ?_)
      simp [wrap, signed, width]
  | u24 =>
      simp only [read, Snapshot.u24, width, Option.map_map]
      cases hv : s.le 3 id with
      | none => rfl
      | some v =>
          simp only [Option.map_some, Function.comp_apply, wrap, signed, width, Bool.false_eq_true,
            if_false, UInt32.toNat_ofNat', hwide v hv]
          rfl
  | u32 =>
      simp only [read, Snapshot.u32, width, Option.map_map]
      refine congrArg (Option.map · _) (funext fun v => ?_)
      simp [wrap, signed, width]
  | i8 =>
      simp only [read, Snapshot.i8, Snapshot.u8_eq, width, Option.map_map]
      refine congrArg (Option.map · _) (funext fun v => ?_)
      simp [wrap, signed, width, Int8.toInt_ofNat']
  | i16 =>
      simp only [read, Snapshot.i16, Snapshot.u16, width, Option.map_map]
      refine congrArg (Option.map · _) (funext fun v => ?_)
      simp [wrap, signed, width, Int16.toInt_ofNat']
  | i32 =>
      simp only [read, Snapshot.i32, Snapshot.u32, width, Option.map_map]
      refine congrArg (Option.map · _) (funext fun v => ?_)
      simp [wrap, signed, width, Int32.toInt_ofNat']

/-- Wrapping depends on the number modulo the width alone. -/
theorem wrap_emod (r : Reader) (v : Int) {n : Nat} (h : r.width ≤ n) :
    r.wrap (v % 256 ^ n) = r.wrap v := by
  have hdvd : (256 : Int) ^ r.width ∣ 256 ^ n := pow_dvd_pow 256 h
  have hmod : v % 256 ^ n % 256 ^ r.width = v % 256 ^ r.width := Int.emod_emod_of_dvd v hdvd
  unfold wrap
  split
  · have hcast : ((256 ^ r.width : Nat) : Int) = 256 ^ r.width := by norm_cast
    rw [← Int.emod_bmod (v % 256 ^ n), hcast, hmod, ← hcast, Int.emod_bmod]
  · exact hmod

end Reader

-- ============================================================================
-- Writes
-- ============================================================================

/-- The bytes `snes.write` sends: 1 unless the script says, and 1 to 4. -/
def writeSize (size : Option UInt32) : UInt32 := min (max (size.getD 1) 1) 4

/-- `value as u32`. -/
def writeValue (value : Int64) : UInt32 := value.toUInt64.toUInt32

def writeRegion (addr : UInt32) (size : Option UInt32) : MemRegion := .fxpak addr (writeSize size)

def writeData (value : Int64) (size : Option UInt32) : List UInt8 :=
  (List.range (writeSize size).toNat).map fun i =>
    ((writeValue value >>> .ofNat (8 * i)) &&& 0xFF).toUInt8

theorem toNat_writeSize (size : Option UInt32) :
    1 ≤ (writeSize size).toNat ∧ (writeSize size).toNat ≤ 4 := by
  rw [writeSize, U32.toNat_min, U32.toNat_max]
  simp

@[simp] theorem length_writeData (value : Int64) (size : Option UInt32) :
    (writeData value size).length = (writeSize size).toNat := by
  simp [writeData]

/-- The bytes sent are the little-endian code of the value. -/
theorem writeData_eq (value : Int64) (size : Option UInt32) :
    writeData value size = leBytes (writeSize size).toNat (writeValue value).toNat := by
  rw [writeData, leBytes_eq_map]
  refine List.map_congr_left fun i hi => ?_
  have hi : i < 4 := Nat.lt_of_lt_of_le (List.mem_range.mp hi) (toNat_writeSize size).2
  have hshift : (UInt32.ofNat (8 * i)).toNat % 32 = 8 * i := by
    rw [UInt32.toNat_ofNat']
    omega
  have hpow : 256 ^ i = 2 ^ (8 * i) := by rw [Nat.pow_mul]
  have hmask : UInt32.toNat 0xFF = 2 ^ 8 - 1 := rfl
  apply UInt8.toNat_inj.mp
  rw [UInt32.toNat_toUInt8, UInt32.toNat_and, UInt32.toNat_shiftRight, hshift, hmask,
    Nat.and_two_pow_sub_one_eq_mod, Nat.shiftRight_eq_div_pow, UInt8.toNat_ofNat', hpow,
    Nat.mod_mod]

theorem toNat_writeValue (value : Int64) :
    ((writeValue value).toNat : Int) = value.toInt % 256 ^ 4 := by
  have hint : value.toInt = (value.toUInt64.toNat : Int).bmod (2 ^ 64) := by
    rw [← Int64.toInt_toBitVec, BitVec.toInt_eq_toNat_bmod]
    rfl
  have hdvd : (256 : Int) ^ 4 ∣ (2 ^ 64 : Nat) := by decide
  rw [writeValue, UInt64.toNat_toUInt32, hint, ← Int.emod_emod_of_dvd _ hdvd, Int.bmod_emod,
    Int.emod_emod_of_dvd _ hdvd]
  rfl

/-- A watch that begins with the bytes of a write reads as the value written, wrapped
    to the type of the reader, as long as the reader is no wider than either. -/
theorem Reader.read_of_written (r : Reader) {s : Snapshot} {id : WatchId} {bytes : List UInt8}
    {value : Int64} {size : Option UInt32} (hbytes : s.bytes id = some bytes)
    (hwatch : r.width ≤ bytes.length) (hsize : r.width ≤ (writeSize size).toNat)
    (hstart : bytes.take r.width = (writeData value size).take r.width) :
    r.read s id = some (r.wrap value.toInt) := by
  have hfour : r.width ≤ 4 := by cases r <;> decide
  have hnum : (leNat (bytes.take r.width) : Int) = value.toInt % 256 ^ 4 % 256 ^ r.width := by
    rw [hstart, writeData_eq, take_leBytes hsize, leNat_leBytes, ← toNat_writeValue]
    norm_cast
  rw [read_eq, Snapshot.le_eq_some hbytes hwatch, Option.map_some, hnum,
    wrap_emod r _ (Nat.le_refl _), wrap_emod r _ hfour]

end LuaApi
end SniLua
