/-
  SniLua.LuaApi.Encoding

  What `lua_to_json` is for: `Represents` says which JSON value stands for a Lua
  value, entry by entry.  A table whose keys are exactly `1..=n` is an array, any
  other an object with a member for every key that has a text.

  The code looks at the keys `1..=len` only before it makes an array, so it keeps
  every entry exactly when no table has others beside them.
-/

import SniLua.LuaApi.LuaToJson

namespace SniLua
namespace LuaApi

open Lib Relation

-- ============================================================================
-- Representation
-- ============================================================================

/-- The keys are exactly `1..=n`. -/
def LuaTable.IsSequence (t : LuaTable) (n : Nat) : Prop :=
  ∀ k, t.rawGet k ≠ .nil ↔ ∃ i : Nat, i < n ∧ k = .integer (i + 1)

section Represents

variable (str : Stringify) (h : Heap)

/-- The JSON value stands for the Lua value. -/
inductive Represents : LuaValue → Json → Prop
  | nil : Represents .nil .null
  | boolean (b : Bool) : Represents (.boolean b) (.bool b)
  | integer (i : Int) : Represents (.integer i) (.number (.ofI64 i))
  /-- A number that is not finite is null. -/
  | number (x : F64) : Represents (.number x) (.ofF64 x)
  | string (s : List UInt8) : Represents (.string s) (.string (str.toStringLossy s))
  | array {r : Nat} {xs : List Json} (hpos : 0 < xs.length)
      (hseq : (h.table r).IsSequence xs.length)
      (helems : ∀ (i : Nat) j, xs[i]? = some j →
        Represents ((h.table r).rawGet (.integer (i + 1))) j) :
      Represents (.table r) (.array xs)
  | object {r : Nat} {m : JsonMap} (hseq : ∀ n, 0 < n → ¬ (h.table r).IsSequence n)
      (hkeys : (m.map (·.1)).Perm ((namedEntries str (h.table r).entries).map (·.1)))
      (hmembers : ∀ k v j, (k, v) ∈ namedEntries str (h.table r).entries → (k, j) ∈ m →
        Represents v j) :
      Represents (.table r) (.object m)

/-- `c` is the value of an entry of `v` under a string or number key. -/
def Holds (v c : LuaValue) : Prop :=
  ∃ r k, v = .table r ∧ (k, c) ∈ namedEntries str (h.table r).entries

/-- A value the script may hand over: acyclic, JSON-able, and with keys of distinct
    text in every table. -/
structure Storable (v : LuaValue) : Prop where
  acyclic : AcyclicFrom (Holds str h) v
  jsonAble : ∀ typeName, ¬ ReflTransGen (Holds str h) v (.other typeName)
  distinct : ∀ r, ReflTransGen (Holds str h) v (.table r) →
    ((namedEntries str (h.table r).entries).map (·.1)).Nodup

variable {str h}

theorem Storable.child {v c : LuaValue} (hv : Storable str h v) (hc : Holds str h v c) :
    Storable str h c where
  acyclic := hv.acyclic.child hc
  jsonAble := fun typeName hreach => hv.jsonAble typeName (.head hc hreach)
  distinct := fun r hreach => hv.distinct r (.head hc hreach)

theorem Storable.endsFrom {v : LuaValue} (hv : Storable str h v) : EndsFrom (Holds str h) v := by
  refine endsFrom_of_acyclicFrom h.finite_refs ?_ hv.acyclic
  rintro v c ⟨r, k, rfl, hk⟩
  refine Heap.mem_refs fun hempty => ?_
  simp [hempty, namedEntries] at hk

end Represents

-- ============================================================================
-- Arrays and sequences
-- ============================================================================

section Arrays

variable {h : Heap} (len : h.Lengths)

theorem mem_elements_iff {r : Nat} {c : LuaValue} :
    c ∈ elements len r ↔
      ∃ i : Nat, i < len.rawLen r ∧ (h.table r).rawGet (.integer (i + 1)) = c := by
  simp [elements]

section Forall₂

variable {len} {P : LuaValue → Json → Prop} {r : Nat} {js : List Json}

theorem length_of_elements (hjs : List.Forall₂ P (elements len r) js) :
    js.length = len.rawLen r := by
  rw [← hjs.length_eq, elements, List.length_map, List.length_range]

/-- Each comes from the element at its index. -/
theorem getElem_of_elements (hjs : List.Forall₂ P (elements len r) js) {i : Nat} {j : Json}
    (hj : js[i]? = some j) : P ((h.table r).rawGet (.integer (i + 1))) j := by
  obtain ⟨hi, rfl⟩ := List.getElem?_eq_some_iff.mp hj
  have hi' : i < (elements len r).length := hjs.length_eq ▸ hi
  have hget := List.Forall₂.get hjs hi' hi
  simpa [elements] using hget

end Forall₂

theorem isArray_iff {r : Nat} :
    isArray len r = true ↔ 0 < len.rawLen r ∧
      ∀ i : Nat, i < len.rawLen r → (h.table r).rawGet (.integer (i + 1)) ≠ .nil := by
  simp [isArray, elements]

/-- The only border of a sequence is its length. -/
theorem rawLen_of_isSequence {r n : Nat} (hseq : (h.table r).IsSequence n) :
    len.rawLen r = n := by
  obtain ⟨hlast, hnext⟩ := len.border r
  have hge : n ≤ len.rawLen r := by
    by_contra hlt
    exact (hseq _).mpr ⟨len.rawLen r, Nat.lt_of_not_le hlt, rfl⟩ hnext
  have hle : len.rawLen r ≤ n := by
    rcases hlast with hzero | hlast
    · omega
    · obtain ⟨i, hi, hk⟩ := (hseq _).mp hlast
      have heq : (len.rawLen r : Int) = i + 1 := by simpa using hk
      omega
  exact Nat.le_antisymm hle hge

/-- A sequence passes the scan. -/
theorem isArray_of_isSequence {r n : Nat} (hpos : 0 < n) (hseq : (h.table r).IsSequence n) :
    isArray len r = true := by
  rw [isArray_iff, rawLen_of_isSequence len hseq]
  exact ⟨hpos, fun i hi => (hseq _).mpr ⟨i, hi, rfl⟩⟩

end Arrays

-- ============================================================================
-- Objects
-- ============================================================================

/-- A new key makes one more member. -/
theorem JsonMap.perm_insert {m : JsonMap} {k : String} (j : Json) (hk : k ∉ m.map (·.1)) :
    (JsonMap.insert m k j).Perm ((k, j) :: m) := by
  induction m with
  | nil => exact List.Perm.refl _
  | cons e m ih =>
      obtain ⟨k', j'⟩ := e
      rw [List.map_cons, List.mem_cons, not_or] at hk
      rw [JsonMap.insert]
      split
      · exact List.Perm.refl _
      · rw [if_neg hk.1]
        exact ((ih hk.2).cons _).trans (List.Perm.swap _ _ _)

/-- Distinct keys all become members. -/
theorem perm_insertAll (members : List (String × Json)) (map : JsonMap)
    (hnodup : ((members ++ map).map (·.1)).Nodup) :
    (insertAll members map).Perm (members ++ map) := by
  induction members generalizing map with
  | nil => exact List.Perm.refl _
  | cons e members ih =>
      rw [List.cons_append, List.map_cons, List.nodup_cons] at hnodup
      have hmap : e.1 ∉ map.map (·.1) := fun hmem => hnodup.1 (by simp_all)
      have hperm := JsonMap.perm_insert e.2 hmap
      have hall : (members ++ JsonMap.insert map e.1 e.2).Perm (e :: (members ++ map)) :=
        (hperm.append_left members).trans List.perm_middle
      refine (ih _ ?_).trans hall
      rw [(hall.map (·.1)).nodup_iff, List.map_cons, List.nodup_cons]
      exact hnodup

section Zip

variable {P : String × LuaValue → Json → Prop} {named : List (String × LuaValue)}
  {js : List Json}

theorem map_fst_zip_named (hall : List.Forall₂ P named js) :
    (((named.map (·.1)).zip js).map (·.1)) = named.map (·.1) := by
  rw [List.map_fst_zip]
  simp [hall.length_eq]

/-- The members of an object are those of its entries, and so are the keys. -/
theorem perm_object (hall : List.Forall₂ P named js) (hnodup : (named.map (·.1)).Nodup) :
    (insertAll ((named.map (·.1)).zip js) []).Perm ((named.map (·.1)).zip js) := by
  have hperm := perm_insertAll ((named.map (·.1)).zip js) []
    (by rw [List.append_nil, map_fst_zip_named hall]; exact hnodup)
  rwa [List.append_nil] at hperm

theorem perm_keys_object (hall : List.Forall₂ P named js) (hnodup : (named.map (·.1)).Nodup) :
    ((insertAll ((named.map (·.1)).zip js) []).map (·.1)).Perm (named.map (·.1)) :=
  ((perm_object hall hnodup).map _).trans (List.Perm.of_eq (map_fst_zip_named hall))

/-- A member comes from an entry. -/
theorem exists_of_mem_zip (hall : List.Forall₂ P named js) {k : String} {j : Json}
    (hmem : (k, j) ∈ (named.map (·.1)).zip js) : ∃ v, (k, v) ∈ named ∧ P (k, v) j := by
  induction hall with
  | nil => simp at hmem
  | @cons e j' named js he _ ih =>
      rw [List.map_cons, List.zip_cons_cons] at hmem
      rcases List.mem_cons.mp hmem with heq | hmem
      · obtain ⟨rfl, rfl⟩ := Prod.mk.inj heq
        exact ⟨e.2, List.mem_cons_self, he⟩
      · obtain ⟨v, hv, hP⟩ := ih hmem
        exact ⟨v, List.mem_cons_of_mem _ hv, hP⟩

/-- An entry has a member. -/
theorem exists_mem_zip (hall : List.Forall₂ P named js) {k : String} {v : LuaValue}
    (hmem : (k, v) ∈ named) : ∃ j, (k, j) ∈ (named.map (·.1)).zip js ∧ P (k, v) j := by
  induction hall with
  | nil => simp at hmem
  | @cons e j' named js he _ ih =>
      rw [List.map_cons, List.zip_cons_cons]
      rcases List.mem_cons.mp hmem with rfl | hmem
      · exact ⟨j', List.mem_cons_self, he⟩
      · obtain ⟨j, hj, hP⟩ := ih hmem
        exact ⟨j, List.mem_cons_of_mem _ hj, hP⟩

end Zip

/-- Distinct keys have one value each. -/
theorem eq_of_mem_of_nodup {α β : Type} {l : List (α × β)} (hnodup : (l.map (·.1)).Nodup) {k : α}
    {v w : β} (hv : (k, v) ∈ l) (hw : (k, w) ∈ l) : v = w :=
  congrArg Prod.snd (List.inj_on_of_nodup_map hnodup hv hw rfl)

-- ============================================================================
-- Tables
-- ============================================================================

section Tables

variable {str : Stringify} {h : Heap} {len : h.Lengths} {r : Nat}

theorem encodes_array_iff (harray : isArray len r = true) {j : Json} :
    Encodes str len (.table r) j ↔
      ∃ js, List.Forall₂ (Encodes str len) (elements len r) js ∧ j = .array js := by
  rw [encodes_iff]
  simp [parts, assemble, harray, eq_comm]

theorem encodes_object_iff (hobject : isArray len r = false) {j : Json} :
    Encodes str len (.table r) j ↔
      ∃ js, List.Forall₂ (fun e j => Encodes str len e.2 j) (namedEntries str (h.table r).entries)
          js ∧
        j = .object
          (insertAll (((namedEntries str (h.table r).entries).map (·.1)).zip js) []) := by
  rw [encodes_iff]
  simp [parts, assemble, hobject, eq_comm]

theorem mem_namedEntries_iff {entries : List (LuaKey × LuaValue)} {s : String} {c : LuaValue} :
    (s, c) ∈ namedEntries str entries ↔ ∃ k, (k, c) ∈ entries ∧ k.text str = some s := by
  simp only [namedEntries, List.mem_filterMap, Option.map_eq_some_iff]
  constructor
  · rintro ⟨⟨k, v⟩, hmem, s', hs, heq⟩
    obtain ⟨rfl, rfl⟩ := Prod.mk.inj heq
    exact ⟨k, hmem, hs⟩
  · rintro ⟨k, hmem, hs⟩
    exact ⟨(k, c), hmem, s, hs, rfl⟩

/-- `lua_to_json` calls itself with values of the table. -/
theorem holds_of_mem_parts {c : LuaValue} (hc : c ∈ parts str len (.table r)) :
    Holds str h (.table r) c := by
  rw [parts] at hc
  split at hc
  · rename_i harray
    obtain ⟨i, hi, rfl⟩ := (mem_elements_iff len).mp hc
    have hne := ((isArray_iff len).mp harray).2 i hi
    exact ⟨r, _, rfl, mem_namedEntries_iff.mpr
      ⟨_, LuaTable.mem_entries_iff.mpr ⟨rfl, hne⟩, rfl⟩⟩
  · obtain ⟨⟨s, v⟩, hmem, rfl⟩ := List.mem_map.mp hc
    exact ⟨r, s, rfl, hmem⟩

/-- Where the keys beside `1..=len` are none, it does so with all of them. -/
theorem mem_parts_of_holds
    (hkeep : isArray len r = true → (h.table r).IsSequence (len.rawLen r)) {c : LuaValue}
    (hc : Holds str h (.table r) c) : c ∈ parts str len (.table r) := by
  obtain ⟨r', s, heq, hmem⟩ := hc
  obtain rfl : r = r' := by simpa using heq
  cases harray : isArray len r with
  | false =>
      rw [parts, if_neg (by simp [harray])]
      exact List.mem_map.mpr ⟨(s, c), hmem, rfl⟩
  | true =>
      rw [parts, if_pos harray, mem_elements_iff]
      obtain ⟨k, hentry, -⟩ := mem_namedEntries_iff.mp hmem
      obtain ⟨hget, hne⟩ := LuaTable.mem_entries_iff.mp hentry
      obtain ⟨i, hi, rfl⟩ := (hkeep harray k).mp (hget ▸ hne)
      exact ⟨i, hi, hget⟩

/-- An array of representations represents a sequence. -/
theorem represents_array (harray : isArray len r = true)
    (hseq : (h.table r).IsSequence (len.rawLen r)) {js : List Json}
    (hjs : List.Forall₂ (Represents str h) (elements len r) js) :
    Represents str h (.table r) (.array js) := by
  rw [← length_of_elements hjs] at hseq
  refine .array ?_ hseq fun i j hj => getElem_of_elements hjs hj
  rw [length_of_elements hjs]
  exact ((isArray_iff len).mp harray).1

/-- An object of representations represents a table that is no sequence. -/
theorem represents_object (hobject : isArray len r = false)
    (hnodup : ((namedEntries str (h.table r).entries).map (·.1)).Nodup) {js : List Json}
    (hjs : List.Forall₂ (fun e j => Represents str h e.2 j)
      (namedEntries str (h.table r).entries) js) :
    Represents str h (.table r) (.object
      (insertAll (((namedEntries str (h.table r).entries).map (·.1)).zip js) [])) := by
  refine .object (fun n hpos hseq => ?_) (perm_keys_object hjs hnodup) fun k v j hv hj => ?_
  · rw [isArray_of_isSequence len hpos hseq] at hobject
    cases hobject
  · obtain ⟨w, hw, hrep⟩ := exists_of_mem_zip hjs ((perm_object hjs hnodup).mem_iff.mp hj)
    obtain rfl := eq_of_mem_of_nodup hnodup hv hw
    exact hrep

end Tables

-- ============================================================================
-- Keeping every entry
-- ============================================================================

section Keeps

variable {str : Stringify} {h : Heap} {len : h.Lengths}

/-- Without other keys beside an array part, every entry is kept. -/
theorem exists_represents {v : LuaValue} (hv : Storable str h v)
    (hkeep : ∀ r, ReflTransGen (Holds str h) v (.table r) → isArray len r = true →
      (h.table r).IsSequence (len.rawLen r)) :
    ∃ j, Encodes str len v j ∧ Represents str h v j := by
  have hends := hv.endsFrom
  induction hends with
  | intro v _ ih =>
      cases v with
      | nil => exact ⟨_, ⟨1, rfl⟩, .nil⟩
      | boolean b => exact ⟨_, ⟨1, rfl⟩, .boolean b⟩
      | integer i => exact ⟨_, ⟨1, rfl⟩, .integer i⟩
      | number x => exact ⟨_, ⟨1, rfl⟩, .number x⟩
      | string s => exact ⟨_, ⟨1, rfl⟩, .string s⟩
      | other typeName => exact absurd .refl (hv.jsonAble typeName)
      | table r =>
          have hparts : ∀ c ∈ parts str len (.table r),
              ∃ j, Encodes str len c j ∧ Represents str h c j := fun c hc =>
            have hholds := holds_of_mem_parts hc
            ih c hholds (hv.child hholds) fun r' hr' => hkeep r' (.head hholds hr')
          obtain ⟨js, hjs⟩ := DepthFirst.exists_forall₂ hparts
          cases harray : isArray len r with
          | true =>
              rw [parts, if_pos harray] at hjs
              exact ⟨_, (encodes_array_iff harray).mpr ⟨js, hjs.imp fun _ _ hj => hj.1, rfl⟩,
                represents_array harray (hkeep r .refl harray) (hjs.imp fun _ _ hj => hj.2)⟩
          | false =>
              rw [parts, if_neg (by simp [harray]), List.forall₂_map_left_iff] at hjs
              exact ⟨_, (encodes_object_iff harray).mpr ⟨js, hjs.imp fun _ _ hj => hj.1, rfl⟩,
                represents_object harray (hv.distinct r .refl) (hjs.imp fun _ _ hj => hj.2)⟩

/-- A represented array has no other keys. -/
theorem isSequence_of_represents {r : Nat} {j : Json} (henc : Encodes str len (.table r) j)
    (hrep : Represents str h (.table r) j) (harray : isArray len r = true) :
    (h.table r).IsSequence (len.rawLen r) := by
  obtain ⟨js, hjs, rfl⟩ := (encodes_array_iff harray).mp henc
  cases hrep with
  | array hpos hseq helems => rwa [length_of_elements hjs] at hseq

/-- What a represented table holds is represented. -/
theorem exists_represents_of_holds {v c : LuaValue} {j : Json} (hv : Storable str h v)
    (henc : Encodes str len v j) (hrep : Represents str h v j) (hc : Holds str h v c) :
    ∃ j', Encodes str len c j' ∧ Represents str h c j' := by
  obtain ⟨r, k, rfl, hmem⟩ := hc
  cases harray : isArray len r with
  | true =>
      have hseq := isSequence_of_represents henc hrep harray
      have hpart := mem_parts_of_holds (fun _ => hseq) ⟨r, k, rfl, hmem⟩
      rw [parts, if_pos harray, mem_elements_iff] at hpart
      obtain ⟨i, hi, rfl⟩ := hpart
      obtain ⟨js, hjs, rfl⟩ := (encodes_array_iff harray).mp henc
      rw [← length_of_elements hjs] at hi
      have hj := List.getElem?_eq_getElem hi
      refine ⟨js[i], getElem_of_elements hjs hj, ?_⟩
      cases hrep with
      | array hpos hseq helems => exact helems i js[i] hj
  | false =>
      obtain ⟨js, hjs, rfl⟩ := (encodes_object_iff harray).mp henc
      obtain ⟨j', hzip, henc'⟩ := exists_mem_zip hjs hmem
      refine ⟨j', henc', ?_⟩
      have hperm := perm_object hjs (hv.distinct r .refl)
      cases hrep with
      | object hseq hkeys hmembers => exact hmembers k c j' hmem (hperm.mem_iff.mpr hzip)

/-- **No entry is lost.**  For every acyclic, JSON-able value with keys of distinct
    text: `lua_to_json` ends with a result that represents it, if and only if no table
    reached from it that passes the scan of `1..=len` has other keys besides. -/
theorem keeps_entries_iff {v : LuaValue} (hv : Storable str h v) :
    (∃ j, Encodes str len v j ∧ Represents str h v j) ↔
      ∀ r, ReflTransGen (Holds str h) v (.table r) → isArray len r = true →
        (h.table r).IsSequence (len.rawLen r) := by
  refine ⟨?_, exists_represents hv⟩
  rintro ⟨j, henc, hrep⟩ r hreach harray
  induction hreach using ReflTransGen.head_induction_on generalizing j with
  | refl => exact isSequence_of_represents henc hrep harray
  | head hc _ ih =>
      obtain ⟨j', henc', hrep'⟩ := exists_represents_of_holds hv henc hrep hc
      exact ih (hv.child hc) j' henc' hrep'

end Keeps

/-- A table of integers. -/
theorem storable_of_integers {str : Stringify} {h : Heap} {r : Nat}
    (hints : ∀ k c, (k, c) ∈ namedEntries str (h.table r).entries → ∃ i, c = .integer i)
    (hnodup : ((namedEntries str (h.table r).entries).map (·.1)).Nodup) :
    Storable str h (.table r) := by
  have hholds : ∀ c, Holds str h (.table r) c → ∃ i, c = .integer i := by
    rintro c ⟨r', k, heq, hmem⟩
    obtain rfl : r = r' := by simpa using heq
    exact hints k c hmem
  have hreach : ∀ v, ReflTransGen (Holds str h) (.table r) v →
      v = .table r ∨ ∃ i, v = .integer i := by
    intro v hv
    induction hv with
    | refl => exact .inl rfl
    | tail _ hc ih =>
        rcases ih with rfl | ⟨i, rfl⟩
        · exact .inr (hholds _ hc)
        · obtain ⟨r', k, heq, -⟩ := hc
          cases heq
  refine ⟨?_, ?_, ?_⟩
  · refine acyclicFrom_of_endsFrom (Acc.intro _ fun c hc => ?_)
    obtain ⟨i, rfl⟩ := hholds c hc
    refine Acc.intro _ fun d hd => ?_
    obtain ⟨r', k, heq, -⟩ := hd
    cases heq
  · intro typeName hother
    rcases hreach _ hother with heq | ⟨i, heq⟩ <;> cases heq
  · intro r' hr'
    rcases hreach _ hr' with heq | ⟨i, heq⟩
    · cases heq
      exact hnodup
    · cases heq

/-- `{ 7, x = 5 }`. -/
def mixedTable : Heap :=
  ⟨[{ entries := [(.integer 1, .integer 7), (.string (utf8 "x"), .integer 5)]
      nodup := by simp
      noNil := by simp }]⟩

/-- Its only border is 1. -/
def mixedTableLengths : mixedTable.Lengths where
  rawLen := fun r => if r = 0 then 1 else 0
  border := by
    intro r
    cases r with
    | zero => simp [mixedTable, Heap.table, LuaTable.IsBorder, LuaTable.rawGet, lookup]
    | succ r => simp [mixedTable, Heap.table, LuaTable.IsBorder]

theorem storable_mixedTable : Storable .plain mixedTable (.table 0) := by
  have hnamed : namedEntries .plain (mixedTable.table 0).entries =
      [("1", .integer 7), ("x", .integer 5)] := by
    have hx := Stringify.plain.lossy_utf8 "x"
    have hone : Int.repr 1 = "1" := by decide
    simp [namedEntries, mixedTable, Heap.table, LuaKey.text, hx, hone]
  refine storable_of_integers ?_ ?_
  · intro k c hmem
    rw [hnamed] at hmem
    rcases List.mem_pair.mp hmem with heq | heq
    · exact ⟨7, (Prod.mk.inj heq).2⟩
    · exact ⟨5, (Prod.mk.inj heq).2⟩
  · simp [hnamed]

/-- The array made of a mixed table has lost `x`. -/
theorem not_keeps_entries :
    ¬ ∀ (str : Stringify) (h : Heap) (len : h.Lengths) (v : LuaValue), Storable str h v →
      ∃ j, Encodes str len v j ∧ Represents str h v j := by
  intro hkeeps
  obtain ⟨j, henc, hrep⟩ := hkeeps .plain mixedTable mixedTableLengths _ storable_mixedTable
  have hseq := isSequence_of_represents henc hrep (r := 0) (by decide)
  have hx : (mixedTable.table 0).rawGet (.string (utf8 "x")) ≠ .nil := by decide
  obtain ⟨i, -, hi⟩ := (hseq _).mp hx
  cases hi

theorem keeps_entries_iff_mixedTable :
    ¬ ∃ j, Encodes .plain mixedTableLengths (.table 0) j ∧
      Represents .plain mixedTable (.table 0) j := by
  rw [keeps_entries_iff storable_mixedTable]
  intro hkeep
  have hx : (mixedTable.table 0).rawGet (.string (utf8 "x")) ≠ .nil := by decide
  obtain ⟨i, -, hi⟩ := (hkeep 0 .refl (by decide) _).mp hx
  cases hi

end LuaApi
end SniLua
