/-
  SniLua.LuaApi.Controls

  The script-declared settings panel and the script's own store calls, which
  share one document: the panel lives under the reserved key `__ui_controls`.

  Lua values come from the VM.  `LuaView` is what the bindings read of them; all
  results hold for any such view.
-/

import SniLua.LuaApi.Store

namespace SniLua
namespace LuaApi

open Lib

-- ============================================================================
-- Lua values
-- ============================================================================

/-- What the bindings read of a Lua value of type `V`. -/
structure LuaView (V : Type) where
  isNil : V → Bool
  /-- `lua_to_json`. -/
  toJson : V → Except String Json
  /-- `matches!(value, Value::Boolean(true))`. -/
  isTrue : V → Bool
  asF64 : V → Option F64
  /-- The text of a string value. -/
  asStr : V → Option String
  asU64 : V → Option Nat

-- ============================================================================
-- Controls
-- ============================================================================

/-- Reserved store key holding the `{ id = value }` map of control values. -/
def storeKey : String := "__ui_controls"

/-- One declared control with its live value. -/
inductive Control where
  | header (text : String)
  | label (text : String)
  | checkbox (id label : String) (value : Bool)
  | slider (id label : String) (min max value : F64)
  | text (id label value : String)
  | color (id label : String) (value : UInt32)
  | select (id label : String) (options : List String) (value : Nat)
  | button (id label : String) (pressed : Bool)
deriving DecidableEq

/-- The value a control keeps over a reload. -/
inductive ControlValue where
  | bool (b : Bool)
  | num (x : F64)
  | str (s : String)
  | argb (c : UInt32)
  | index (i : Nat)
deriving DecidableEq

namespace Control

/-- The control's id, or `none` for layout-only items. -/
def id : Control → Option String
  | .header _ | .label _ => none
  | .checkbox id _ _ | .slider id _ _ _ _ | .text id _ _ | .color id _ _ | .select id _ _ _
  | .button id _ _ => some id

/-- Buttons are momentary: nothing to persist. -/
def value : Control → Option ControlValue
  | .checkbox _ _ v => some (.bool v)
  | .slider _ _ _ _ v => some (.num v)
  | .text _ _ v => some (.str v)
  | .color _ _ v => some (.argb v)
  | .select _ _ _ v => some (.index v)
  | .header _ | .label _ | .button .. => none

/-- Change the value in place; a value of another kind changes nothing. -/
def withValue : Control → ControlValue → Control
  | .checkbox id caption _, .bool v => .checkbox id caption v
  | .slider id caption min max _, .num v => .slider id caption min max v
  | .text id caption _, .str v => .text id caption v
  | .color id caption _, .argb v => .color id caption v
  | .select id caption options _, .index v => .select id caption options v
  | c, _ => c

end Control

/-- A value as `persist_controls` writes it. -/
def ControlValue.toJson : ControlValue → Json
  | .bool b => .bool b
  | .num x => .ofF64 x
  | .str s => .string s
  | .argb c => .number (.posInt c.toNat)
  | .index i => .number (.posInt i)

/-- The loop body of `persist_controls`. -/
def mirrorControl (m : JsonMap) (c : Control) : JsonMap :=
  match c.id, c.value with
  | some id, some v => JsonMap.insert m id v.toJson
  | _, _ => m

/-- The map `persist_controls` builds; a later control overwrites an earlier one
    of the same id. -/
def controlsJson (controls : List Control) : JsonMap := controls.foldl mirrorControl []

/-- Mirror the current control values into the store. -/
def persistControls (controls : List Control) (s : Store) : Store :=
  if controlsJson controls = [] then s else s.set storeKey (.object (controlsJson controls))

theorem path_persistControls (controls : List Control) (s : Store) :
    (persistControls controls s).path = s.path := by
  rw [persistControls]
  split <;> rfl

-- ============================================================================
-- Declarations
-- ============================================================================

/-- A call of `ui.header`, `ui.checkbox` and so on, with its arguments. -/
inductive Declaration where
  | header (text : String)
  | label (text : String)
  | checkbox (id label : String) (default : Option Bool)
  | slider (id label : String) (min max : F64) (default : Option F64)
  | text (id label : String) (default : Option String)
  | color (id label : String) (default : Option UInt32)
  /-- The default is a 1-based index. -/
  | select (id label : String) (options : List String) (default : Option Nat)
  | button (id label : String)

/-- The previously persisted value of a control. -/
def seed (doc : JsonMap) (id : String) : Option Json :=
  match JsonMap.get doc storeKey with
  | some (.object m) => JsonMap.get m id
  | _ => none

/-- A number between the bounds of a slider, given in either order. -/
def clampSlider (min max x : F64) : F64 := F64.clamp x (F64.minNum min max) (F64.maxNum min max)

/-- The control a declaration pushes, its value seeded from the store. -/
def Declaration.declare (seed : String → Option Json) : Declaration → Control
  | .header caption => .header caption
  | .label caption => .label caption
  | .checkbox id caption default =>
      .checkbox id caption (((seed id).bind Json.asBool).getD (default.getD false))
  | .slider id caption min max default =>
      .slider id caption min max
        (clampSlider min max (((seed id).bind Json.asF64).getD (default.getD min)))
  | .text id caption default =>
      .text id caption (((seed id).bind Json.asStr).getD (default.getD ""))
  | .color id caption default =>
      .color id caption (((seed id).bind Json.asU64).elim (default.getD 0xFFFFFFFF) UInt32.ofNat)
  | .select id caption options default =>
      .select id caption options
        (min (((seed id).bind Json.asU64).getD (default.getD 1 - 1)) (max options.length 1 - 1))
  | .button id caption => .button id caption false

/-- The id a declaration gives its control. -/
def Declaration.id : Declaration → Option String
  | .header _ | .label _ => none
  | .checkbox id _ _ | .slider id _ _ _ _ | .text id _ _ | .color id _ _ | .select id _ _ _
  | .button id _ => some id

-- ============================================================================
-- ui.set
-- ============================================================================

/-- What `ui.set` makes of a control. -/
def Control.setTo {V : Type} (view : LuaView V) (v : V) : Control → Control
  | .checkbox id caption _ => .checkbox id caption (view.isTrue v)
  | .slider id caption min max value =>
      .slider id caption min max ((view.asF64 v).elim value (clampSlider min max))
  | .text id caption value => .text id caption ((view.asStr v).getD value)
  | .color id caption value => .color id caption ((view.asU64 v).elim value UInt32.ofNat)
  | .select id caption options value =>
      .select id caption options
        ((view.asU64 v).elim value fun n => min (n - 1) (options.length - 1))
  | c => c

/-- `ui.set(id, value)`: the first control with the id. -/
def uiSet {V : Type} (view : LuaView V) (id : String) (v : V) : List Control → List Control
  | [] => []
  | c :: cs => if c.id = some id then c.setTo view v :: cs else c :: uiSet view id v cs

-- ============================================================================
-- The store table
-- ============================================================================

/-- A call of the script that changes its document. -/
inductive StoreCall (V : Type) where
  | set (key : String) (value : V)
  | delete (key : String)
  | save (table : V)

/-- A call that raises an error leaves the store as it was. -/
def StoreCall.run {V : Type} (view : LuaView V) (s : Store) : StoreCall V → Store
  | .set key value =>
      if view.isNil value then s.remove key
      else
        match view.toJson value with
        | .ok j => s.set key j
        | .error _ => s
  | .delete key => s.remove key
  | .save table =>
      match view.toJson table with
      | .ok (.object m) => s.replace m
      | _ => s

/-- A call does what one operation of the store does, or nothing. -/
theorem StoreCall.run_eq {V : Type} (view : LuaView V) (call : StoreCall V) :
    (∀ s, call.run view s = s) ∨ ∃ op : StoreOp, ∀ s, call.run view s = s.apply op := by
  cases call with
  | set key value =>
      by_cases hnil : view.isNil value
      · exact Or.inr ⟨.remove key, fun s => by simp only [run, if_pos hnil, Store.apply]⟩
      · cases hjson : view.toJson value with
        | ok j =>
            refine Or.inr ⟨.set key j, fun s => ?_⟩
            simp only [run, if_neg hnil, hjson, Store.apply]
        | error e =>
            refine Or.inl fun s => ?_
            simp only [run, if_neg hnil, hjson]
  | delete key => exact Or.inr ⟨.remove key, fun s => rfl⟩
  | save table =>
      cases hjson : view.toJson table with
      | ok j =>
          cases j with
          | object m => exact Or.inr ⟨.replace m, fun s => by simp only [run, hjson, Store.apply]⟩
          | _ => exact Or.inl fun s => by simp only [run, hjson]
      | error e => exact Or.inl fun s => by simp only [run, hjson]

-- ============================================================================
-- The reserved entry
-- ============================================================================

/-- The call names other keys only: it sets or deletes another key, or saves a
    table without the reserved one. -/
def StoreCall.Avoids {V : Type} (view : LuaView V) : StoreCall V → Prop
  | .set key _ | .delete key => key ≠ storeKey
  | .save table => ∀ m, view.toJson table = .ok (.object m) → JsonMap.get m storeKey = none

/-- The call replaces the whole document: `store.save` of a table. -/
def StoreCall.Replaces {V : Type} (view : LuaView V) : StoreCall V → Prop
  | .set .. | .delete _ => False
  | .save table => ∃ m, view.toJson table = .ok (.object m)

theorem Store.get_set_of_ne (s : Store) {key key' : String} (value : Json) (h : key' ≠ key) :
    (s.set key value).get key' = s.get key' :=
  JsonMap.get_insert_of_ne _ _ h

theorem Store.get_remove_of_ne (s : Store) {key key' : String} (h : key' ≠ key) :
    (s.remove key).get key' = s.get key' := by
  unfold get remove
  rw [JsonMap.get_remove, if_neg h]

/-- A call that names other keys keeps the reserved entry, or drops it with the
    whole document. -/
theorem get_storeKey_run {V : Type} {view : LuaView V} {call : StoreCall V}
    (h : call.Avoids view) (s : Store) :
    (¬ call.Replaces view ∧ (call.run view s).get storeKey = s.get storeKey) ∨
      (call.Replaces view ∧ (call.run view s).get storeKey = none) := by
  cases call with
  | set key value =>
      refine Or.inl ⟨id, ?_⟩
      simp only [StoreCall.run]
      split
      · exact s.get_remove_of_ne (Ne.symm h)
      · split
        · exact s.get_set_of_ne _ (Ne.symm h)
        · rfl
  | delete key => exact Or.inl ⟨id, s.get_remove_of_ne (Ne.symm h)⟩
  | save table =>
      simp only [StoreCall.run]
      split
      · rename_i m hm
        exact Or.inr ⟨⟨m, hm⟩, h m hm⟩
      · rename_i hno
        exact Or.inl ⟨fun ⟨m, hm⟩ => hno m hm, rfl⟩

/-- A reserved entry that is gone stays gone. -/
theorem get_storeKey_foldl_none {V : Type} {view : LuaView V} {calls : List (StoreCall V)}
    (h : ∀ call ∈ calls, call.Avoids view) {s : Store} (hs : s.get storeKey = none) :
    (calls.foldl (StoreCall.run view) s).get storeKey = none := by
  induction calls generalizing s with
  | nil => exact hs
  | cons call calls ih =>
      refine ih (fun c hc => h c (List.mem_cons_of_mem _ hc)) ?_
      rcases get_storeKey_run (h call (List.mem_cons_self ..)) s with ⟨-, heq⟩ | ⟨-, heq⟩
      · exact heq.trans hs
      · exact heq

/-- The reserved entry after calls that name other keys. -/
theorem get_storeKey_foldl {V : Type} {view : LuaView V} {calls : List (StoreCall V)}
    (h : ∀ call ∈ calls, call.Avoids view) (s : Store) :
    ((∀ call ∈ calls, ¬ call.Replaces view) ∧
      (calls.foldl (StoreCall.run view) s).get storeKey = s.get storeKey) ∨
    ((∃ call ∈ calls, call.Replaces view) ∧
      (calls.foldl (StoreCall.run view) s).get storeKey = none) := by
  induction calls generalizing s with
  | nil => exact Or.inl ⟨by simp, rfl⟩
  | cons call calls ih =>
      have h' : ∀ c ∈ calls, c.Avoids view := fun c hc => h c (List.mem_cons_of_mem _ hc)
      rw [List.foldl_cons]
      rcases get_storeKey_run (h call (List.mem_cons_self ..)) s with ⟨hno, heq⟩ | ⟨hrep, heq⟩
      · rcases ih h' (call.run view s) with ⟨hnone, heq'⟩ | ⟨⟨c, hc, hrep⟩, heq'⟩
        · refine Or.inl ⟨?_, heq'.trans heq⟩
          intro c hc
          rcases List.mem_cons.mp hc with rfl | hc
          · exact hno
          · exact hnone c hc
        · exact Or.inr ⟨⟨c, List.mem_cons_of_mem _ hc, hrep⟩, heq'⟩
      · exact Or.inr ⟨⟨call, List.mem_cons_self .., hrep⟩, get_storeKey_foldl_none h' heq⟩

/-- The same reserved entry seeds every control alike, also once the document has
    been written and read back. -/
theorem declare_seed_congr {doc doc' : JsonMap}
    (h : JsonMap.get doc storeKey = JsonMap.get doc' storeKey) (reparse : ℚ → ℚ)
    (d : Declaration) :
    d.declare (seed doc) = d.declare (seed doc') ∧
      d.declare (seed (mapFloatsMembers reparse doc)) =
        d.declare (seed (mapFloatsMembers reparse doc')) := by
  have hseed : seed doc = seed doc' := by
    funext id
    unfold seed
    rw [h]
  have hseed' : seed (mapFloatsMembers reparse doc) = seed (mapFloatsMembers reparse doc') := by
    funext id
    unfold seed
    rw [get_mapFloatsMembers, get_mapFloatsMembers, h]
  exact ⟨by rw [hseed], by rw [hseed']⟩

/-- **The script's calls and the panel.**  Calls that name other keys leave the
    reserved entry unchanged, and with it the seed of every control, if and only
    if there is no entry to lose or none of them is a `store.save` of a table. -/
theorem reserved_entry_unchanged_iff {V : Type} {view : LuaView V} {calls : List (StoreCall V)}
    (h : ∀ call ∈ calls, call.Avoids view) (s : Store) :
    ((calls.foldl (StoreCall.run view) s).get storeKey = s.get storeKey ↔
      s.get storeKey = none ∨ ∀ call ∈ calls, ¬ call.Replaces view) ∧
    ((s.get storeKey = none ∨ ∀ call ∈ calls, ¬ call.Replaces view) →
      ∀ reparse (d : Declaration),
        d.declare (seed (calls.foldl (StoreCall.run view) s).data) = d.declare (seed s.data) ∧
          d.declare (seed (mapFloatsMembers reparse (calls.foldl (StoreCall.run view) s).data)) =
            d.declare (seed (mapFloatsMembers reparse s.data))) := by
  have hiff : (calls.foldl (StoreCall.run view) s).get storeKey = s.get storeKey ↔
      s.get storeKey = none ∨ ∀ call ∈ calls, ¬ call.Replaces view := by
    rcases get_storeKey_foldl h s with ⟨hnone, heq⟩ | ⟨⟨c, hc, hrep⟩, heq⟩
    · exact ⟨fun _ => Or.inr hnone, fun _ => heq⟩
    · rw [heq]
      refine ⟨fun hs => Or.inl hs.symm, ?_⟩
      rintro (hs | hnone)
      · exact hs.symm
      · exact absurd hrep (hnone c hc)
  exact ⟨hiff, fun hcond reparse d => declare_seed_congr (hiff.mpr hcond) reparse d⟩

/-- A view of the Lua values that are JSON already.  An integer is no float to mlua. -/
def jsonView : LuaView Json where
  isNil := fun j => match j with
    | .null => true
    | _ => false
  toJson := .ok
  isTrue := fun j => j.asBool = some true
  asF64 := fun j => match j with
    | .number (.float x) => some (.fin x)
    | _ => none
  asStr := Json.asStr
  asU64 := Json.asU64

/-- A document with a panel of one checkbox. -/
def panelDoc : Store :=
  { data := [(storeKey, .object [("show", .bool false)])], path := none, dirty := false }

/-- `store.save({ pb = 1 })` drops the panel, and the checkbox falls back to its
    default. -/
theorem not_reserved_entry_unchanged :
    ¬ ∀ (s : Store) (calls : List (StoreCall Json)), (∀ call ∈ calls, call.Avoids jsonView) →
      (calls.foldl (StoreCall.run jsonView) s).get storeKey = s.get storeKey := by
  intro h
  have havoids : ∀ call ∈ [StoreCall.save (.object [("pb", .number (.posInt 1))])],
      call.Avoids jsonView := by
    intro call hcall
    obtain rfl := List.mem_singleton.mp hcall
    intro m hm
    obtain rfl : [("pb", Json.number (.posInt 1))] = m := by simpa [jsonView] using hm
    rfl
  have hget := h panelDoc _ havoids
  exact absurd hget (by simp [StoreCall.run, jsonView, Store.replace, Store.get, panelDoc,
    JsonMap.get, storeKey])

/-- Calls without a `store.save` keep it. -/
theorem reserved_entry_unchanged_set :
    ([StoreCall.set "pb" (.number (.posInt 1)), .delete "old"].foldl (StoreCall.run jsonView)
      panelDoc).get storeKey = panelDoc.get storeKey := by
  refine (reserved_entry_unchanged_iff ?_ panelDoc).1.mpr (Or.inr ?_)
  · intro call hcall
    rcases List.mem_pair.mp hcall with rfl | rfl
    · exact (by decide : "pb" ≠ storeKey)
    · exact (by decide : "old" ≠ storeKey)
  · intro call hcall
    rcases List.mem_pair.mp hcall with rfl | rfl <;> exact id

end LuaApi
end SniLua
