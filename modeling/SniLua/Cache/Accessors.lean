/-
  SniLua.Cache.Accessors

  The typed little-endian accessors of a snapshot.  All of them read the number in
  the first bytes of a watch, when it has as many, and differ in the width and the
  type they read it at.
-/

import SniLua.Lib.LittleEndian
import SniLua.Cache.Snapshot

namespace SniLua
namespace Cache

open Lib

namespace Snapshot

/-- The number in the first `k` bytes of a watch. -/
def le (s : Snapshot) (k : Nat) (id : WatchId) : Option Nat :=
  ((s.bytes id).filter fun b => k ≤ b.length).map fun b => leNat (b.take k)

def u8 (s : Snapshot) (id : WatchId) : Option UInt8 := (s.bytes id).bind fun b => b.head?

def u16 (s : Snapshot) (id : WatchId) : Option UInt16 := (s.le 2 id).map .ofNat

/-- 24-bit: common for SNES pointers. -/
def u24 (s : Snapshot) (id : WatchId) : Option UInt32 := (s.le 3 id).map .ofNat

def u32 (s : Snapshot) (id : WatchId) : Option UInt32 := (s.le 4 id).map .ofNat

def i8 (s : Snapshot) (id : WatchId) : Option Int8 := (s.u8 id).map (·.toInt8)

def i16 (s : Snapshot) (id : WatchId) : Option Int16 := (s.u16 id).map (·.toInt16)

def i32 (s : Snapshot) (id : WatchId) : Option Int32 := (s.u32 id).map (·.toInt32)

theorem le_eq_some {s : Snapshot} {k : Nat} {id : WatchId} {b : List UInt8}
    (h : s.bytes id = some b) (hk : k ≤ b.length) : s.le k id = some (leNat (b.take k)) := by
  simp [le, h, hk]

/-- A number read is one of its width. -/
theorem le_lt {s : Snapshot} {k : Nat} {id : WatchId} {v : Nat} (h : s.le k id = some v) :
    v < 256 ^ k := by
  obtain ⟨b, hb, rfl⟩ := Option.map_eq_some_iff.mp h
  have hlen := (Option.filter_eq_some_iff.mp hb).2
  have hlt := leNat_lt (b.take k)
  rw [List.length_take, Nat.min_eq_left (by simpa using hlen)] at hlt
  exact hlt

theorem u8_eq (s : Snapshot) (id : WatchId) : s.u8 id = (s.le 1 id).map .ofNat := by
  rw [u8, le]
  cases s.bytes id with
  | none => rfl
  | some b =>
      cases b with
      | nil => rfl
      | cons x b => simp [leNat]

end Snapshot

end Cache
end SniLua
