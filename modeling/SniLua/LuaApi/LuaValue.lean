/-
  SniLua.LuaApi.LuaValue

  Lua values as mlua presents them, and the heap their tables live in.  A number
  that is integral and in the range of `i64` is an `integer`, any other a `number`.

  A table lists its entries in the order of `pairs`, which Lua leaves open.  So is
  its length when it has holes: any border will do (`Heap.Lengths`).
-/

import SniLua.Lib.F64
import Mathlib.Data.List.Nodup
import Mathlib.Data.Set.Finite.Basic

namespace SniLua
namespace LuaApi

open Lib

-- ============================================================================
-- Values
-- ============================================================================

/-- The bytes of a text. -/
def utf8 (s : String) : List UInt8 := s.toByteArray.data.toList

theorem utf8_injective : Function.Injective utf8 := by
  intro s t h
  have hdata : s.toByteArray.data = t.toByteArray.data := Array.toList_inj.mp h
  exact String.toByteArray_inj.mp (ByteArray.ext hdata)

inductive LuaValue where
  | nil
  | boolean (b : Bool)
  | integer (i : Int)
  | number (x : F64)
  /-- Any bytes. -/
  | string (s : List UInt8)
  | table (ref : Nat)
  /-- A function, a userdata or a thread. -/
  | other (typeName : String)
deriving DecidableEq

inductive LuaKey where
  | string (s : List UInt8)
  | integer (i : Int)
  | number (x : F64)
  /-- A boolean, a table or another object. -/
  | other (id : Nat)
deriving DecidableEq

/-- How bytes and floats become text: `to_string_lossy` of mlua and `to_string` of
    `f64`. -/
structure Stringify where
  toStringLossy : List UInt8 → String
  displayF64 : F64 → String
  /-- Valid UTF-8 is kept. -/
  lossy_utf8 : ∀ s, toStringLossy (utf8 s) = s

/-- A string that is not valid UTF-8 comes out empty, and so does a float. -/
def Stringify.plain : Stringify where
  toStringLossy := fun b => (String.fromUTF8? ⟨⟨b⟩⟩).getD ""
  displayF64 := fun _ => ""
  lossy_utf8 := by
    intro s
    have hbytes : (⟨⟨utf8 s⟩⟩ : ByteArray) = s.toByteArray := rfl
    rw [hbytes, String.fromUTF8?, dif_pos s.isValidUTF8]
    rfl

-- ============================================================================
-- Tables
-- ============================================================================

structure LuaTable where
  /-- In the order of `pairs`. -/
  entries : List (LuaKey × LuaValue)
  nodup : (entries.map (·.1)).Nodup
  noNil : ∀ e ∈ entries, e.2 ≠ .nil

/-- The value under a key, nil if there is none. -/
def lookup (k : LuaKey) : List (LuaKey × LuaValue) → LuaValue
  | [] => .nil
  | (k', v) :: entries => if k' = k then v else lookup k entries

theorem mem_of_lookup {k : LuaKey} {v : LuaValue} {entries : List (LuaKey × LuaValue)}
    (h : lookup k entries = v) (hv : v ≠ .nil) : (k, v) ∈ entries := by
  induction entries with
  | nil => exact absurd h.symm hv
  | cons e entries ih =>
      obtain ⟨k', v'⟩ := e
      rw [lookup] at h
      split at h
      · rename_i hk
        subst hk
        subst h
        exact List.mem_cons_self
      · exact List.mem_cons_of_mem _ (ih h)

theorem lookup_of_mem {k : LuaKey} {v : LuaValue} {entries : List (LuaKey × LuaValue)}
    (hnodup : (entries.map (·.1)).Nodup) (h : (k, v) ∈ entries) : lookup k entries = v := by
  induction entries with
  | nil => exact absurd h List.not_mem_nil
  | cons e entries ih =>
      obtain ⟨k', v'⟩ := e
      rw [List.map_cons, List.nodup_cons] at hnodup
      rw [lookup]
      rcases List.mem_cons.mp h with heq | hmem
      · obtain ⟨rfl, rfl⟩ := Prod.mk.inj heq
        rw [if_pos rfl]
      · have hne : k' ≠ k := by
          rintro rfl
          exact hnodup.1 (List.mem_map.mpr ⟨(k', v), hmem, rfl⟩)
        rw [if_neg hne]
        exact ih hnodup.2 hmem

namespace LuaTable

/-- `create_table`. -/
def empty : LuaTable := { entries := [], nodup := List.nodup_nil, noNil := by simp }

def rawGet (t : LuaTable) (k : LuaKey) : LuaValue := lookup k t.entries

/-- Setting nil removes the key. -/
def set (t : LuaTable) (k : LuaKey) (v : LuaValue) : LuaTable where
  entries := t.entries.filter (·.1 ≠ k) ++ if v = .nil then [] else [(k, v)]
  nodup := by
    rw [List.map_append]
    refine List.Nodup.append ?_ ?_ ?_
    · exact t.nodup.sublist (List.filter_sublist.map _)
    · split <;> simp
    · intro k' hk hk'
      obtain ⟨e, he, rfl⟩ := List.mem_map.mp hk
      have hne : e.1 ≠ k := by simpa using (List.mem_filter.mp he).2
      split at hk'
      · simp at hk'
      · exact hne (by simpa using hk')
  noNil := by
    intro e he
    rcases List.mem_append.mp he with he | he
    · exact t.noNil e (List.mem_filter.mp he).1
    · split at he
      · simp at he
      · obtain rfl := List.mem_singleton.mp he
        assumption

/-- The entries are the keys with a value that is not nil. -/
theorem mem_entries_iff {t : LuaTable} {k : LuaKey} {v : LuaValue} :
    (k, v) ∈ t.entries ↔ t.rawGet k = v ∧ v ≠ .nil :=
  ⟨fun h => ⟨lookup_of_mem t.nodup h, t.noNil _ h⟩, fun h => mem_of_lookup h.1 h.2⟩

theorem rawGet_congr {t u : LuaTable} {k : LuaKey}
    (h : ∀ v, (k, v) ∈ t.entries ↔ (k, v) ∈ u.entries) : t.rawGet k = u.rawGet k := by
  by_cases ht : t.rawGet k = .nil
  · by_cases hu : u.rawGet k = .nil
    · rw [ht, hu]
    · exact (mem_entries_iff.mp ((h _).mpr (mem_entries_iff.mpr ⟨rfl, hu⟩))).1
  · exact (mem_entries_iff.mp ((h _).mp (mem_entries_iff.mpr ⟨rfl, ht⟩))).1.symm

theorem rawGet_set (t : LuaTable) (k k' : LuaKey) (v : LuaValue) :
    (t.set k v).rawGet k' = if k' = k then v else t.rawGet k' := by
  split
  · rename_i hk
    subst hk
    by_cases hv : v = .nil
    · by_contra hne
      have hmem := mem_entries_iff.mpr ⟨rfl, fun h => hne (h.trans hv.symm)⟩
      simp [set, hv] at hmem
    · exact (mem_entries_iff.mp (by simp [set, hv])).1
  · rename_i hk
    refine rawGet_congr fun w => ?_
    simp only [set, List.mem_append, List.mem_filter]
    split <;> simp [hk]

@[simp] theorem rawGet_empty (k : LuaKey) : empty.rawGet k = .nil := rfl

/-- A border of a table. -/
def IsBorder (t : LuaTable) (n : Nat) : Prop :=
  (n = 0 ∨ t.rawGet (.integer n) ≠ .nil) ∧ t.rawGet (.integer (n + 1)) = .nil

end LuaTable

-- ============================================================================
-- The heap
-- ============================================================================

structure Heap where
  tables : List LuaTable

namespace Heap

/-- The table of a reference; one that was never created counts as empty. -/
def table (h : Heap) (r : Nat) : LuaTable := h.tables.getD r .empty

theorem table_of_le {h : Heap} {r : Nat} (hr : h.tables.length ≤ r) : h.table r = .empty := by
  simp [table, hr]

/-- The references to tables that were created. -/
def refs (h : Heap) : Set LuaValue := Set.image LuaValue.table {r | r < h.tables.length}

theorem finite_refs (h : Heap) : h.refs.Finite := (Set.finite_lt_nat _).image _

/-- Only a table that was created has entries. -/
theorem mem_refs {h : Heap} {r : Nat} (hne : (h.table r).entries ≠ []) :
    .table r ∈ h.refs := by
  refine ⟨r, ?_, rfl⟩
  by_contra hr
  rw [table_of_le (Nat.le_of_not_lt hr)] at hne
  exact hne rfl

/-- A new table, with its reference. -/
def createTable (h : Heap) : Nat × Heap := (h.tables.length, ⟨h.tables ++ [.empty]⟩)

/-- `t[k] = v`. -/
def set (h : Heap) (r : Nat) (k : LuaKey) (v : LuaValue) : Heap :=
  ⟨h.tables.modify r (·.set k v)⟩

@[simp] theorem length_set (h : Heap) (r : Nat) (k : LuaKey) (v : LuaValue) :
    (h.set r k v).tables.length = h.tables.length := by
  simp [set]

theorem table_set_of_ne (h : Heap) {r r' : Nat} (k : LuaKey) (v : LuaValue) (hne : r' ≠ r) :
    (h.set r k v).table r' = h.table r' := by
  simp [set, table, hne.symm]

theorem table_set_self (h : Heap) {r : Nat} (k : LuaKey) (v : LuaValue)
    (hr : r < h.tables.length) : (h.set r k v).table r = (h.table r).set k v := by
  simp [set, table, hr]

@[simp] theorem length_createTable (h : Heap) :
    h.createTable.2.tables.length = h.tables.length + 1 := by
  simp [createTable]

theorem table_createTable (h : Heap) (r : Nat) : h.createTable.2.table r = h.table r := by
  rcases Nat.lt_trichotomy r h.tables.length with hlt | rfl | hgt
  · simp [createTable, table, List.getElem?_append_left hlt]
  · simp [createTable, table]
  · rw [table_of_le (Nat.le_of_lt hgt), table_of_le (by rw [length_createTable]; exact hgt)]

/-- What `raw_len` may answer: of each table some border. -/
structure Lengths (h : Heap) where
  rawLen : Nat → Nat
  border : ∀ r, (h.table r).IsBorder (rawLen r)

end Heap

end LuaApi
end SniLua
