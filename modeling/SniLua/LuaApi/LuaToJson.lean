/-
  SniLua.LuaApi.LuaToJson

  `lua_to_json`, which follows the references of a Lua heap.  Fuel is the room there
  is for nested calls.  Every call holds references to Lua values, and mlua keeps
  these on an auxiliary stack of limited size: some thousand nested tables fill it,
  and mlua panics, which ends the process.

  The code keeps no record of the tables it is in and does not count them.  It ends
  exactly when every chain of values it comes to is shorter than the room there is;
  so it ends with some room exactly when no table is met again inside itself.
-/

import SniLua.Lib.DepthFirst
import SniLua.LuaApi.Json
import SniLua.LuaApi.LuaValue

namespace SniLua
namespace LuaApi

open Lib Lib.Outcome

-- ============================================================================
-- The code
-- ============================================================================

/-- `serde_json::Number` of an `i64`. -/
def Number.ofI64 (i : Int) : Number := if 0 ≤ i then .posInt i.toNat else .negInt i

/-- The text of a key, `none` for one that is skipped. -/
def LuaKey.text (str : Stringify) : LuaKey → Option String
  | .string s => some (str.toStringLossy s)
  | .integer i => some (toString i)
  | .number x => some (str.displayF64 x)
  | .other _ => none

section Code

variable (str : Stringify) {h : Heap} (len : h.Lengths)

/-- The elements `1..=len` of a table. -/
def elements (r : Nat) : List LuaValue :=
  (List.range (len.rawLen r)).map fun (i : Nat) => (h.table r).rawGet (.integer (i + 1))

/-- The scan of `1..=len` for a nil. -/
def isArray (r : Nat) : Bool := 0 < len.rawLen r && (elements len r).all (· ≠ .nil)

/-- The loop over `pairs`. -/
def encodePairs (encode : LuaValue → Outcome String Json) :
    List (LuaKey × LuaValue) → JsonMap → Outcome String JsonMap
  | [], map => .ok map
  | (k, val) :: rest, map =>
      match k.text str with
      | none => encodePairs encode rest map
      | some key => do
          let j ← encode val
          encodePairs encode rest (JsonMap.insert map key j)

def luaToJson : Nat → LuaValue → Outcome String Json
  | 0, _ => .outOfFuel
  | fuel + 1, v =>
      match v with
      | .nil => .ok .null
      | .boolean b => .ok (.bool b)
      | .integer i => .ok (.number (.ofI64 i))
      | .number x => .ok (.ofF64 x)
      | .string s => .ok (.string (str.toStringLossy s))
      | .table r =>
          if isArray len r then do
            let xs ← collect (luaToJson fuel) (elements len r)
            .ok (.array xs)
          else do
            let m ← encodePairs str (luaToJson fuel) (h.table r).entries []
            .ok (.object m)
      | .other typeName => .fail s!"cannot serialize {typeName} to JSON"

end Code

-- ============================================================================
-- As a recursion over a graph
-- ============================================================================

/-- The entries under a key with a text. -/
def namedEntries (str : Stringify) (entries : List (LuaKey × LuaValue)) :
    List (String × LuaValue) :=
  entries.filterMap fun e => (e.1.text str).map (·, e.2)

/-- Insert members from left to right. -/
def insertAll (members : List (String × Json)) (map : JsonMap) : JsonMap :=
  members.foldl (fun m e => JsonMap.insert m e.1 e.2) map

section Graph

variable (str : Stringify) {h : Heap} (len : h.Lengths)

/-- The values `lua_to_json` calls itself with. -/
def parts : LuaValue → List LuaValue
  | .table r =>
      if isArray len r then elements len r else (namedEntries str (h.table r).entries).map (·.2)
  | _ => []

/-- The JSON of a value, from that of its parts. -/
def assemble (v : LuaValue) (js : List Json) : Except String Json :=
  match v with
  | .nil => .ok .null
  | .boolean b => .ok (.bool b)
  | .integer i => .ok (.number (.ofI64 i))
  | .number x => .ok (.ofF64 x)
  | .string s => .ok (.string (str.toStringLossy s))
  | .table r =>
      if isArray len r then .ok (.array js)
      else .ok (.object (insertAll (((namedEntries str (h.table r).entries).map (·.1)).zip js) []))
  | .other typeName => .error s!"cannot serialize {typeName} to JSON"

theorem encodePairs_eq (encode : LuaValue → Outcome String Json)
    (entries : List (LuaKey × LuaValue)) (map : JsonMap) :
    encodePairs str encode entries map =
      collect encode ((namedEntries str entries).map (·.2)) >>= fun js =>
        .ok (insertAll (((namedEntries str entries).map (·.1)).zip js) map) := by
  induction entries generalizing map with
  | nil => rfl
  | cons e entries ih =>
      obtain ⟨k, val⟩ := e
      rw [encodePairs]
      cases hk : k.text str with
      | none => simpa [namedEntries, hk] using ih map
      | some key =>
          have hcons : namedEntries str ((k, val) :: entries) =
              (key, val) :: namedEntries str entries := by
            simp [namedEntries, hk]
          rw [hcons, List.map_cons, collect]
          cases encode val with
          | outOfFuel => rfl
          | fail e => rfl
          | ok j =>
              simp only [ok_bind, ih]
              cases collect encode ((namedEntries str entries).map (·.2)) <;> rfl

/-- `lua_to_json` is a depth-first recursion. -/
theorem luaToJson_eq_eval (fuel : Nat) (v : LuaValue) :
    luaToJson str len fuel v = DepthFirst.eval (parts str len) (assemble str len) fuel v := by
  induction fuel generalizing v with
  | zero => rfl
  | succ fuel ih =>
      have hencode : luaToJson str len fuel =
          DepthFirst.eval (parts str len) (assemble str len) fuel := funext ih
      cases v with
      | table r =>
          simp only [luaToJson, DepthFirst.eval, hencode, parts, assemble, encodePairs_eq]
          split
          · rfl
          · cases collect (DepthFirst.eval (parts str len) (assemble str len) fuel)
              ((namedEntries str (h.table r).entries).map (·.2)) <;> rfl
      | _ => rfl

/-- A table without entries has no parts. -/
theorem parts_of_empty {r : Nat} (hempty : (h.table r).entries = []) :
    parts str len (.table r) = [] := by
  have hlen : len.rawLen r = 0 := by
    have hborder := (len.border r).1
    simpa [LuaTable.rawGet, lookup, hempty] using hborder
  simp [parts, isArray, hlen, namedEntries, hempty]

-- ============================================================================
-- Termination
-- ============================================================================

/-- A finite value without functions and the like, as far as `lua_to_json` looks. -/
inductive JsonAble : LuaValue → Prop
  | nil : JsonAble .nil
  | boolean (b : Bool) : JsonAble (.boolean b)
  | integer (i : Int) : JsonAble (.integer i)
  | number (x : F64) : JsonAble (.number x)
  | string (s : List UInt8) : JsonAble (.string s)
  | table (r : Nat) (hparts : ∀ c ∈ parts str len (.table r), JsonAble c) : JsonAble (.table r)

/-- `lua_to_json` of `v` comes to `c`: all values before it are JSON-able. -/
def ComesTo (v c : LuaValue) : Prop :=
  ∃ pre post, parts str len v = pre ++ c :: post ∧ ∀ y ∈ pre, JsonAble str len y

/-- The result of `lua_to_json`. -/
def Encodes (v : LuaValue) (j : Json) : Prop := ∃ fuel, luaToJson str len fuel v = .ok j

end Graph

section Termination

variable {str : Stringify} {h : Heap} {len : h.Lengths}

theorem encodes_iff_yields {v : LuaValue} {j : Json} :
    Encodes str len v j ↔ DepthFirst.Yields (parts str len) (assemble str len) v j := by
  simp only [Encodes, DepthFirst.Yields, luaToJson_eq_eval]

/-- The result of a value is assembled from those of its parts. -/
theorem encodes_iff {v : LuaValue} {j : Json} :
    Encodes str len v j ↔ ∃ js, List.Forall₂ (Encodes str len) (parts str len v) js ∧
      assemble str len v js = .ok j := by
  have heq : Encodes str len = DepthFirst.Yields (parts str len) (assemble str len) := by
    funext v j
    exact propext encodes_iff_yields
  rw [heq]
  exact DepthFirst.yields_iff

theorem exists_assemble_table (str : Stringify) (len : h.Lengths) (r : Nat) (js : List Json) :
    ∃ j, assemble str len (.table r) js = .ok j := by
  simp only [assemble]
  split
  · exact ⟨_, rfl⟩
  · exact ⟨_, rfl⟩

/-- A value has a result exactly when it is JSON-able. -/
theorem exists_encodes_iff {v : LuaValue} : (∃ j, Encodes str len v j) ↔ JsonAble str len v := by
  constructor
  · rintro ⟨j, fuel, hfuel⟩
    induction fuel generalizing v j with
    | zero => cases hfuel
    | succ fuel ih =>
        cases v with
        | nil => exact .nil
        | boolean b => exact .boolean b
        | integer i => exact .integer i
        | number x => exact .number x
        | string s => exact .string s
        | other typeName => cases hfuel
        | table r =>
            refine .table r fun c hc => ?_
            rw [luaToJson_eq_eval, DepthFirst.eval] at hfuel
            cases hjs : collect (DepthFirst.eval (parts str len) (assemble str len) fuel)
                (parts str len (.table r)) with
            | outOfFuel => simp [hjs] at hfuel
            | fail e => simp [hjs] at hfuel
            | ok js =>
                obtain ⟨i, hi, rfl⟩ := List.getElem_of_mem hc
                have hall := collect_eq_ok_iff.mp hjs
                have hi' : i < js.length := hall.length_eq ▸ hi
                refine ih js[i] ?_
                rw [luaToJson_eq_eval]
                exact List.Forall₂.get hall hi hi'
  · intro hv
    induction hv with
    | nil | boolean | integer | number | string => exact ⟨_, 1, rfl⟩
    | table r _ ih =>
        obtain ⟨js, hjs⟩ := DepthFirst.exists_forall₂ ih
        obtain ⟨j, hj⟩ := exists_assemble_table str len r js
        exact ⟨j, encodes_iff.mpr ⟨js, hjs, hj⟩⟩

theorem comesTo_eq_visits :
    ComesTo str len = DepthFirst.Visits (parts str len) (assemble str len) := by
  funext a c
  simp only [ComesTo, DepthFirst.Visits, ← exists_encodes_iff, encodes_iff_yields]

theorem luaToJson_ne_outOfFuel_iff {depth : Nat} {v : LuaValue} :
    luaToJson str len depth v ≠ .outOfFuel ↔ ChainsBelow (ComesTo str len) depth v := by
  rw [luaToJson_eq_eval, comesTo_eq_visits]
  exact DepthFirst.eval_ne_outOfFuel_iff

/-- A value that is encoded at all is with room for the chains it comes to. -/
theorem Encodes.luaToJson_eq {v : LuaValue} {j : Json} (hj : Encodes str len v j) {depth : Nat}
    (hdepth : ChainsBelow (ComesTo str len) depth v) : luaToJson str len depth v = .ok j := by
  have hne := luaToJson_ne_outOfFuel_iff.mpr hdepth
  rw [luaToJson_eq_eval] at hne ⊢
  exact (encodes_iff_yields.mp hj).eval_eq hne

theorem exists_depth_iff {v : LuaValue} :
    (∃ depth, luaToJson str len depth v ≠ .outOfFuel) ↔ AcyclicFrom (ComesTo str len) v := by
  have hends : (∃ depth, luaToJson str len depth v ≠ .outOfFuel) ↔
      DepthFirst.Ends (parts str len) (assemble str len) v := by
    simp only [DepthFirst.Ends, luaToJson_eq_eval]
  rw [hends, comesTo_eq_visits]
  refine DepthFirst.ends_iff_acyclicFrom h.finite_refs ?_ v
  intro a ha
  cases a with
  | table r => exact Heap.mem_refs fun hempty => ha (parts_of_empty str len hempty)
  | _ => exact absurd rfl ha

/-- **When encoding ends.**  For every heap and every value, and room for any number
    of nested calls: `lua_to_json` returns, with a result or an error, if and only if
    every chain of values it comes to, one inside the other, is shorter than that
    number.  So there is room enough for a value if and only if no value it comes to
    is come to again from itself. -/
theorem luaToJson_ends_iff (v : LuaValue) :
    (∀ depth, luaToJson str len depth v ≠ .outOfFuel ↔
      ∀ path, List.IsChain (ComesTo str len) (v :: path) → path.length < depth) ∧
    ((∃ depth, luaToJson str len depth v ≠ .outOfFuel) ↔ AcyclicFrom (ComesTo str len) v) :=
  ⟨fun _ => luaToJson_ne_outOfFuel_iff, exists_depth_iff⟩

end Termination

/-- `t = {}; t.self = t`. -/
def selfReference : Heap :=
  ⟨[{ entries := [(.string (utf8 "self"), .table 0)], nodup := by simp, noNil := by simp }]⟩

theorem rawGet_selfReference (r : Nat) (i : Int) :
    (selfReference.table r).rawGet (.integer i) = .nil := by
  cases r with
  | zero => simp [selfReference, Heap.table, LuaTable.rawGet, lookup]
  | succ r => simp [selfReference, Heap.table]

def selfReferenceLengths : selfReference.Lengths where
  rawLen := fun _ => 0
  border := fun r => ⟨.inl rfl, rawGet_selfReference r _⟩

/-- No depth is enough for a table that contains itself. -/
theorem not_luaToJson_ends :
    ¬ ∀ (str : Stringify) (h : Heap) (len : h.Lengths) (v : LuaValue),
      ∃ fuel, luaToJson str len fuel v ≠ .outOfFuel := by
  intro hends
  obtain ⟨fuel, hfuel⟩ := hends .plain selfReference selfReferenceLengths (.table 0)
  refine hfuel ?_
  clear hfuel
  induction fuel with
  | zero => rfl
  | succ fuel ih =>
      have hentries : (selfReference.table 0).entries =
          [(.string (utf8 "self"), .table 0)] := rfl
      have harray : isArray selfReferenceLengths 0 = false := rfl
      rw [luaToJson]
      simp only [harray, hentries, encodePairs, LuaKey.text, ih]
      rfl

/-- `n` tables, each the value of the next one's only entry; the last is empty. -/
def nestedTables (n : Nat) : Heap :=
  ⟨(List.range n).map fun i =>
    { entries := [(.string (utf8 "next"), .table (i + 1))], nodup := by simp, noNil := by simp }⟩

theorem entries_nestedTables {n i : Nat} (hi : i < n) :
    ((nestedTables n).table i).entries = [(.string (utf8 "next"), .table (i + 1))] := by
  simp [nestedTables, Heap.table, hi]

theorem rawGet_nestedTables (n r : Nat) (i : Int) :
    ((nestedTables n).table r).rawGet (.integer i) = .nil := by
  by_cases hr : r < n
  · simp [LuaTable.rawGet, entries_nestedTables hr, lookup]
  · simp [Heap.table_of_le (h := nestedTables n) (by simpa [nestedTables] using hr)]

def nestedLengths (n : Nat) : (nestedTables n).Lengths where
  rawLen := fun _ => 0
  border := fun r => ⟨.inl rfl, rawGet_nestedTables n r _⟩

theorem luaToJson_nestedTables {n fuel i : Nat} (hi : i ≤ n) :
    luaToJson .plain (nestedLengths n) fuel (.table i) = .outOfFuel ↔ fuel + i ≤ n := by
  induction fuel generalizing i with
  | zero => simpa [luaToJson] using hi
  | succ fuel ih =>
      have harray : isArray (nestedLengths n) i = false := rfl
      rw [luaToJson]
      rcases Nat.eq_or_lt_of_le hi with rfl | hlt
      · have hempty : ((nestedTables i).table i).entries = [] := by
          rw [Heap.table_of_le (by simp [nestedTables])]
          rfl
        simp only [harray, hempty, encodePairs]
        simp
      · have hnext := ih (Nat.succ_le_of_lt hlt)
        simp only [harray, entries_nestedTables hlt, encodePairs, LuaKey.text]
        cases hj : luaToJson .plain (nestedLengths n) fuel (.table (i + 1)) with
        | outOfFuel => simpa [hj, Nat.add_right_comm, Nat.add_assoc] using hnext
        | fail e => simpa [hj, Nat.add_right_comm, Nat.add_assoc] using hnext
        | ok j => simpa [hj, Nat.add_right_comm, Nat.add_assoc] using hnext

/-- However much room there is, a table without a cycle may be nested too deep. -/
theorem acyclic_outOfFuel (depth : Nat) :
    ∃ (h : Heap) (len : h.Lengths) (v : LuaValue), AcyclicFrom (ComesTo .plain len) v ∧
      luaToJson .plain len depth v = .outOfFuel := by
  refine ⟨nestedTables depth, nestedLengths depth, .table 0, exists_depth_iff.mp ⟨depth + 1, ?_⟩,
    (luaToJson_nestedTables (Nat.zero_le _)).mpr (Nat.le_refl _)⟩
  rw [Ne, luaToJson_nestedTables (Nat.zero_le _)]
  omega

end LuaApi
end SniLua
