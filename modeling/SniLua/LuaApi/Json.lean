/-
  SniLua.LuaApi.Json

  The JSON values of the store.  A number is what the source of `serde_json`
  distinguishes: a non-negative integer, a negative one, or a finite float.  An
  object is a list of members, kept in key order by `insert`.

  `Serde` stands for the two functions of `serde_json` the store writes and reads
  its file with.
-/

import SniLua.Lib.F64
import Mathlib.Data.List.Basic

namespace SniLua
namespace LuaApi

open Lib

-- ============================================================================
-- Values
-- ============================================================================

/-- `serde_json::Number`. -/
inductive Number where
  /-- A `u64`. -/
  | posInt (n : Nat)
  /-- A negative `i64`. -/
  | negInt (i : Int)
  /-- A finite `f64`. -/
  | float (x : ℚ)
deriving DecidableEq

inductive Json where
  | null
  | bool (b : Bool)
  | number (n : Number)
  | string (s : String)
  | array (xs : List Json)
  | object (members : List (String × Json))

namespace Json

def asBool : Json → Option Bool
  | .bool b => some b
  | _ => none

def asStr : Json → Option String
  | .string s => some s
  | _ => none

/-- Integers that fit a `u64`. -/
def asU64 : Json → Option Nat
  | .number (.posInt n) => some n
  | _ => none

/-- Any number, an integer rounded. -/
def asF64 : Json → Option F64
  | .number (.posInt n) => some (F64.ofInt n)
  | .number (.negInt i) => some (F64.ofInt i)
  | .number (.float x) => some (.fin x)
  | _ => none

/-- `json!(x)`: a number that is not finite has no JSON form. -/
def ofF64 : F64 → Json
  | .fin x => .number (.float x)
  | _ => .null

end Json

-- ============================================================================
-- Objects
-- ============================================================================

/-- `serde_json::Map<String, Json>`. -/
abbrev JsonMap := List (String × Json)

namespace JsonMap

def get : JsonMap → String → Option Json
  | [], _ => none
  | (k', v) :: m, k => if k = k' then some v else get m k

def insert : JsonMap → String → Json → JsonMap
  | [], k, v => [(k, v)]
  | (k', v') :: m, k, v =>
      if k < k' then (k, v) :: (k', v') :: m
      else if k = k' then (k, v) :: m
      else (k', v') :: insert m k v

def remove (m : JsonMap) (k : String) : JsonMap := m.filter fun p => p.1 ≠ k

@[simp] theorem get_nil (k : String) : get [] k = none := rfl

theorem get_cons (k k' : String) (v : Json) (m : JsonMap) :
    get ((k', v) :: m) k = if k = k' then some v else get m k := rfl

theorem insert_ne_nil (m : JsonMap) (k : String) (v : Json) : insert m k v ≠ [] := by
  cases m with
  | nil => simp [insert]
  | cons kv m =>
      simp only [insert]
      split
      · simp
      · split <;> simp

theorem get_insert (m : JsonMap) (k k' : String) (v : Json) :
    get (insert m k v) k' = if k' = k then some v else get m k' := by
  induction m with
  | nil => rfl
  | cons p m ih =>
      obtain ⟨k₀, v₀⟩ := p
      simp only [insert]
      split
      · rfl
      · split
        · rename_i h
          subst h
          simp only [get_cons]
          split <;> rfl
        · rename_i h
          simp only [get_cons, ih]
          by_cases h₀ : k' = k₀
          · rw [if_pos h₀, if_pos h₀, if_neg (by rw [h₀]; exact Ne.symm h)]
          · rw [if_neg h₀, if_neg h₀]

theorem get_insert_of_ne (m : JsonMap) {k k' : String} (v : Json) (h : k' ≠ k) :
    get (insert m k v) k' = get m k' := by
  rw [get_insert, if_neg h]

theorem get_remove (m : JsonMap) (k k' : String) :
    get (remove m k) k' = if k' = k then none else get m k' := by
  induction m with
  | nil => simp [remove]
  | cons p m ih =>
      obtain ⟨k₀, v₀⟩ := p
      rw [remove] at ih ⊢
      by_cases hk : k₀ = k
      · subst hk
        rw [List.filter_cons_of_neg (by simp), ih, get_cons]
        split <;> rfl
      · rw [List.filter_cons_of_pos (by simpa using hk), get_cons, get_cons, ih]
        by_cases h₀ : k' = k₀
        · rw [if_pos h₀, if_neg (by rw [h₀]; exact hk), if_pos h₀]
        · rw [if_neg h₀, if_neg h₀]

/-- Removing an absent key changes nothing. -/
theorem remove_of_get_none {m : JsonMap} {k : String} (h : get m k = none) : remove m k = m := by
  induction m with
  | nil => rfl
  | cons p m ih =>
      obtain ⟨k₀, v₀⟩ := p
      rw [get_cons] at h
      split at h
      · exact absurd h (by simp)
      · rename_i hne
        rw [remove] at ih ⊢
        rw [List.filter_cons_of_pos (by simpa using Ne.symm hne), ih h]

end JsonMap

-- ============================================================================
-- Printing and parsing
-- ============================================================================

mutual

/-- Change every float of a value. -/
def Json.mapFloats (f : ℚ → ℚ) : Json → Json
  | .number (.float x) => .number (.float (f x))
  | .array xs => .array (mapFloatsList f xs)
  | .object m => .object (mapFloatsMembers f m)
  | .null => .null
  | .bool b => .bool b
  | .number (.posInt n) => .number (.posInt n)
  | .number (.negInt i) => .number (.negInt i)
  | .string s => .string s

def mapFloatsList (f : ℚ → ℚ) : List Json → List Json
  | [] => []
  | x :: xs => x.mapFloats f :: mapFloatsList f xs

def mapFloatsMembers (f : ℚ → ℚ) : List (String × Json) → List (String × Json)
  | [] => []
  | (k, v) :: m => (k, v.mapFloats f) :: mapFloatsMembers f m

end

/-- The members keep their keys. -/
theorem get_mapFloatsMembers (f : ℚ → ℚ) (m : JsonMap) (k : String) :
    JsonMap.get (mapFloatsMembers f m) k = (JsonMap.get m k).map (Json.mapFloats f) := by
  induction m with
  | nil => rfl
  | cons p m ih =>
      obtain ⟨k₀, v₀⟩ := p
      simp only [mapFloatsMembers, JsonMap.get_cons, ih]
      split <;> rfl

/-- The functions of `serde_json` a store file is written and read with. -/
structure Serde (Text : Type) where
  toStringPretty : JsonMap → Text
  fromStr : Text → Option Json

namespace Serde

variable {Text : Type}

/-- What is printed is parsed back. -/
def RoundTrips (c : Serde Text) : Prop := ∀ m, c.fromStr (c.toStringPretty m) = some (.object m)

/-- What is printed is parsed back up to its floats: unless asked for exact floats,
    `serde_json` parses them to the best effort only. -/
def RoundTripsUpTo (c : Serde Text) (reparse : ℚ → ℚ) : Prop :=
  ∀ m, c.fromStr (c.toStringPretty m) = some (.object (mapFloatsMembers reparse m))

end Serde

end LuaApi
end SniLua
