/-
  SniLua.Client.MemRegion

  The address spaces and memory mappings of the SNI protocol, the memory region
  every read and watch is described by, and the `u32` arithmetic on addresses.

  Addresses and sizes are `UInt32`: `+` and `-` wrap, as they do in a release
  build.  `DeviceMem` is the memory of a device as the reads see it.
-/

import Mathlib.Algebra.Group.Nat.Defs
import Mathlib.Data.List.Basic

namespace SniLua

-- ============================================================================
-- u32 arithmetic
-- ============================================================================

namespace U32

/-- `u32::saturating_add`. -/
def saturatingAdd (a b : UInt32) : UInt32 :=
  if a.toNat + b.toNat < 2 ^ 32 then a + b else 0xFFFFFFFF

theorem toNat_saturatingAdd (a b : UInt32) :
    (saturatingAdd a b).toNat = min (a.toNat + b.toNat) (2 ^ 32 - 1) := by
  rw [saturatingAdd]
  split
  · rw [UInt32.toNat_add]; omega
  · have : (0xFFFFFFFF : UInt32).toNat = 2 ^ 32 - 1 := by decide
    omega

theorem toNat_add_of_lt {a b : UInt32} (h : a.toNat + b.toNat < 2 ^ 32) :
    (a + b).toNat = a.toNat + b.toNat := by
  rw [UInt32.toNat_add, Nat.mod_eq_of_lt h]

theorem toNat_sub_of_le {a b : UInt32} (h : b.toNat ≤ a.toNat) :
    (a - b).toNat = a.toNat - b.toNat :=
  UInt32.toNat_sub_of_le a b (UInt32.le_iff_toNat_le.mpr h)

theorem toNat_max (a b : UInt32) : (max a b).toNat = max a.toNat b.toNat := by
  show (if a ≤ b then b else a).toNat = _
  split
  · rename_i h; rw [Nat.max_eq_right (UInt32.le_iff_toNat_le.mp h)]
  · rename_i h; rw [Nat.max_eq_left (Nat.le_of_lt (Nat.lt_of_not_le
      fun hle => h (UInt32.le_iff_toNat_le.mpr hle)))]

theorem toNat_min (a b : UInt32) : (min a b).toNat = min a.toNat b.toNat := by
  show (if a ≤ b then a else b).toNat = _
  split
  · rename_i h; rw [Nat.min_eq_left (UInt32.le_iff_toNat_le.mp h)]
  · rename_i h; rw [Nat.min_eq_right (Nat.le_of_lt (Nat.lt_of_not_le
      fun hle => h (UInt32.le_iff_toNat_le.mpr hle)))]

end U32

-- ============================================================================
-- Regions
-- ============================================================================

/-- `sni.proto`: enum AddressSpace. -/
inductive AddressSpace where
  | fxPakPro | snesABus | raw
deriving DecidableEq, Repr

/-- `sni.proto`: enum MemoryMapping. -/
inductive MemoryMapping where
  | unknown | hiROM | loROM | exHiROM | sa1
deriving DecidableEq, Repr

/-- The address spaces in the order of their discriminants. -/
def AddressSpace.all : List AddressSpace := [.fxPakPro, .snesABus, .raw]

/-- The mappings in the order of their discriminants. -/
def MemoryMapping.all : List MemoryMapping := [.unknown, .hiROM, .loROM, .exHiROM, .sa1]

theorem AddressSpace.mem_all (a : AddressSpace) : a ∈ AddressSpace.all := by
  cases a <;> decide

theorem MemoryMapping.mem_all (m : MemoryMapping) : m ∈ MemoryMapping.all := by
  cases m <;> decide

/-- A described region of SNES memory to read or write. -/
structure MemRegion where
  address : UInt32
  size : UInt32
  space : AddressSpace
  mapping : MemoryMapping
deriving DecidableEq, Repr

namespace MemRegion

/-- A region in the FxPakPro address space. -/
def fxpak (address size : UInt32) : MemRegion :=
  { address, size, space := .fxPakPro, mapping := .unknown }

/-- A WRAM offset: `$7E0000` maps to FxPakPro `$F5_0000`. -/
def wram (offset size : UInt32) : MemRegion := fxpak (0xF50000 + offset) size

/-- The end of the region is a `u32` address: `address + size ≤ u32::MAX`. -/
def Fits (r : MemRegion) : Prop := r.address.toNat + r.size.toNat < 2 ^ 32

instance (r : MemRegion) : Decidable r.Fits := by unfold Fits; infer_instance

/-- Two regions share a byte. -/
def Overlaps (r q : MemRegion) : Prop :=
  r.space = q.space ∧ r.mapping = q.mapping ∧
    max r.address.toNat q.address.toNat <
      min (r.address.toNat + r.size.toNat) (q.address.toNat + q.size.toNat)

instance (r q : MemRegion) : Decidable (r.Overlaps q) := by unfold Overlaps; infer_instance

end MemRegion

-- ============================================================================
-- Device memory
-- ============================================================================

/-- The bytes a device answers with, by space, mapping and address. -/
def DeviceMem := AddressSpace → MemoryMapping → Nat → UInt8

namespace DeviceMem

/-- The bytes of a region. -/
def read (m : DeviceMem) (r : MemRegion) : List UInt8 :=
  (List.range r.size.toNat).map fun i => m r.space r.mapping (r.address.toNat + i)

@[simp] theorem length_read (m : DeviceMem) (r : MemRegion) :
    (m.read r).length = r.size.toNat := by
  simp [read]

/-- A slice of the bytes of a region is the bytes of the subregion. -/
theorem slice_read (m : DeviceMem) (r q : MemRegion) (off : Nat)
    (h_space : q.space = r.space) (h_map : q.mapping = r.mapping)
    (h_addr : q.address.toNat = r.address.toNat + off)
    (h_size : off + q.size.toNat ≤ r.size.toNat) :
    ((m.read r).drop off).take q.size.toNat = m.read q := by
  apply List.ext_getElem
  · simp only [List.length_take, List.length_drop, length_read]
    omega
  · intro i _ _
    simp only [read, List.getElem_take, List.getElem_drop, List.getElem_map, List.getElem_range,
      h_space, h_map, h_addr, Nat.add_assoc]

/-- Write some bytes, from the start of a region on. -/
def write (m : DeviceMem) (r : MemRegion) (data : List UInt8) : DeviceMem :=
  fun space mapping address =>
    if space = r.space ∧ mapping = r.mapping ∧ r.address.toNat ≤ address then
      data[address - r.address.toNat]?.getD (m space mapping address)
    else m space mapping address

/-- What is written is read back. -/
theorem read_write_self (m : DeviceMem) {r : MemRegion} {data : List UInt8}
    (h : data.length = r.size.toNat) : (m.write r data).read r = data := by
  apply List.ext_getElem
  · rw [length_read, h]
  · intro i _ hi
    simp [read, write, hi]

/-- A write is not seen in a region that shares no byte with it. -/
theorem read_write_of_not_overlaps (m : DeviceMem) {q r : MemRegion} {data : List UInt8}
    (hlen : data.length = q.size.toNat) (h : ¬ q.Overlaps r) :
    (m.write q data).read r = m.read r := by
  refine List.map_congr_left fun i hi => ?_
  have hi : i < r.size.toNat := List.mem_range.mp hi
  simp only [write]
  split
  · rename_i hq
    obtain ⟨hspace, hmapping, hle⟩ := hq
    have hpast : data.length ≤ r.address.toNat + i - q.address.toNat := by
      by_contra hlt
      exact h ⟨hspace.symm, hmapping.symm, by omega⟩
    rw [List.getElem?_eq_none hpast]
    rfl
  · rfl

/-- Two regions with the same start hold the same first bytes. -/
theorem take_read_eq (m : DeviceMem) {r q : MemRegion} (h_space : r.space = q.space)
    (h_map : r.mapping = q.mapping) (h_addr : r.address = q.address) {k : Nat}
    (hr : k ≤ r.size.toNat) (hq : k ≤ q.size.toNat) : (m.read r).take k = (m.read q).take k := by
  simp only [read, ← List.map_take, List.take_range, Nat.min_eq_left hr, Nat.min_eq_left hq,
    h_space, h_map, h_addr]

end DeviceMem

end SniLua
