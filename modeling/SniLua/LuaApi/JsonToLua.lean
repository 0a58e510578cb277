/-
  SniLua.LuaApi.JsonToLua

  `json_to_lua`, which builds its tables in the heap, and the round trip.

  A table is created before its values are, so all that is built for a value lies
  above the heap there was; whatever lies below is left alone.

  Both directions recurse once for each level of nesting, on mlua's auxiliary stack
  of references as `LuaToJson` says.  Encoding needs room for one call more than the
  value is nested deep (`NestedBelow`), and decoding comes no deeper than that.
-/

import SniLua.LuaApi.Encoding
import SniLua.LuaApi.Store

namespace SniLua
namespace LuaApi

open Lib Relation

-- ============================================================================
-- The code
-- ============================================================================

/-- The range of `i64`. -/
def InI64 (i : Int) : Prop := -2 ^ 63 ≤ i ∧ i < 2 ^ 63

instance (i : Int) : Decidable (InI64 i) := inferInstanceAs (Decidable (_ ∧ _))

/-- `as_i64`. -/
def Number.asI64 : Number → Option Int
  | .posInt n => if n < 2 ^ 63 then some n else none
  | .negInt i => some i
  | .float _ => none

/-- A float as Lua hands it back. -/
def LuaValue.ofF64 : F64 → LuaValue
  | .fin x => if x.den = 1 ∧ InI64 x.num then .integer x.num else .number (.fin x)
  | x => .number x

mutual

def jsonToLua : Json → Heap → LuaValue × Heap
  | .null, h => (.nil, h)
  | .bool b, h => (.boolean b, h)
  | .number n, h =>
      match n.asI64 with
      | some i => (.integer i, h)
      | none => (.ofF64 ((Json.number n).asF64.getD (.fin 0)), h)
  | .string s, h => (.string (utf8 s), h)
  | .array a, h =>
      let (t, h) := h.createTable
      (.table t, setElements t 0 a h)
  | .object m, h =>
      let (t, h) := h.createTable
      (.table t, setMembers t m h)

/-- The loop over the elements. -/
def setElements (t i : Nat) : List Json → Heap → Heap
  | [], h => h
  | j :: rest, h =>
      let (v, h) := jsonToLua j h
      setElements t (i + 1) rest (h.set t (.integer (i + 1)) v)

/-- The loop over the members. -/
def setMembers (t : Nat) : List (String × Json) → Heap → Heap
  | [], h => h
  | (k, j) :: rest, h =>
      let (v, h) := jsonToLua j h
      setMembers t rest (h.set t (.string (utf8 k)) v)

end

/-- Both loops set one key after the other. -/
def setAll (t : Nat) (entries : List (LuaKey × Json)) (h : Heap) : Heap :=
  entries.foldl (fun h e => (jsonToLua e.2 h).2.set t e.1 (jsonToLua e.2 h).1) h

theorem setMembers_eq (t : Nat) (m : JsonMap) (h : Heap) :
    setMembers t m h = setAll t (m.map fun e => (.string (utf8 e.1), e.2)) h := by
  induction m generalizing h with
  | nil => rfl
  | cons e m ih => exact ih _

/-- The entries an array is decoded to, from an index on. -/
def arrayEntries (i : Nat) : List Json → List (LuaKey × Json)
  | [] => []
  | j :: rest => (.integer (i + 1), j) :: arrayEntries (i + 1) rest

theorem setElements_eq (t i : Nat) (a : List Json) (h : Heap) :
    setElements t i a h = setAll t (arrayEntries i a) h := by
  induction a generalizing i h with
  | nil => rfl
  | cons j a ih => exact ih _ _

-- ============================================================================
-- Copies
-- ============================================================================

/-- The same value in two heaps. -/
inductive Same (h h' : Heap) : LuaValue → LuaValue → Prop
  | nil : Same h h' .nil .nil
  | boolean (b : Bool) : Same h h' (.boolean b) (.boolean b)
  | integer (i : Int) : Same h h' (.integer i) (.integer i)
  | number (x : F64) : Same h h' (.number x) (.number x)
  | string (s : List UInt8) : Same h h' (.string s) (.string s)
  | table {r r' : Nat}
      (hkeys : ∀ k, (h.table r).rawGet k = .nil ↔ (h'.table r').rawGet k = .nil)
      (hvals : ∀ k, (h.table r).rawGet k ≠ .nil →
        Same h h' ((h.table r).rawGet k) ((h'.table r').rawGet k)) :
      Same h h' (.table r) (.table r')

/-- The same value, its tables in the second heap all created from `lo` on. -/
inductive Copy (h h' : Heap) (lo : Nat) : LuaValue → LuaValue → Prop
  | nil : Copy h h' lo .nil .nil
  | boolean (b : Bool) : Copy h h' lo (.boolean b) (.boolean b)
  | integer (i : Int) : Copy h h' lo (.integer i) (.integer i)
  | number (x : F64) : Copy h h' lo (.number x) (.number x)
  | string (s : List UInt8) : Copy h h' lo (.string s) (.string s)
  | table {r r' : Nat} (hlo : lo ≤ r') (hhi : r' < h'.tables.length)
      (hkeys : ∀ k, (h.table r).rawGet k = .nil ↔ (h'.table r').rawGet k = .nil)
      (hvals : ∀ k, (h.table r).rawGet k ≠ .nil →
        Copy h h' lo ((h.table r).rawGet k) ((h'.table r').rawGet k)) :
      Copy h h' lo (.table r) (.table r')

namespace Copy

variable {h h' : Heap} {lo : Nat} {v w : LuaValue}

theorem same (hc : Copy h h' lo v w) : Same h h' v w := by
  induction hc with
  | nil => exact .nil
  | boolean b => exact .boolean b
  | integer i => exact .integer i
  | number x => exact .number x
  | string s => exact .string s
  | table _ _ hkeys _ ih => exact .table hkeys ih

theorem eq_nil_iff (hc : Copy h h' lo v w) : v = .nil ↔ w = .nil := by
  cases hc <;> simp

/-- What is built later changes nothing of a copy. -/
theorem frame {h'' : Heap} {lo' : Nat} (hc : Copy h h' lo v w) (hlo : lo' ≤ lo)
    (hlength : h'.tables.length ≤ h''.tables.length)
    (hkeep : ∀ r, lo ≤ r → r < h'.tables.length → h''.table r = h'.table r) :
    Copy h h'' lo' v w := by
  induction hc with
  | nil => exact .nil
  | boolean b => exact .boolean b
  | integer i => exact .integer i
  | number x => exact .number x
  | string s => exact .string s
  | @table r r' hlo' hhi hkeys _ ih =>
      refine .table (hlo.trans hlo') (hhi.trans_le hlength) ?_ ?_
      · rw [hkeep r' hlo' hhi]
        exact hkeys
      · rw [hkeep r' hlo' hhi]
        exact ih

end Copy

/-- The first heap is part of the second. -/
structure Extends (h h' : Heap) : Prop where
  length : h.tables.length ≤ h'.tables.length
  keep : ∀ r < h.tables.length, h'.table r = h.table r

/-- Decoding `j` builds a copy of `v`, above whatever heap there is. -/
def Rebuilds (h : Heap) (v : LuaValue) (j : Json) : Prop :=
  ∀ h₀, Extends h₀ (jsonToLua j h₀).2 ∧
    Copy h (jsonToLua j h₀).2 h₀.tables.length v (jsonToLua j h₀).1

-- ============================================================================
-- Decoding a table
-- ============================================================================

section SetAll

variable {h : Heap} {src : LuaKey → LuaValue} {t : Nat}

/-- The heap after the keys are set one after the other. -/
structure FilledFrom (h : Heap) (src : LuaKey → LuaValue) (t : Nat) (entries : List (LuaKey × Json))
    (h₁ h₂ : Heap) : Prop where
  length : h₁.tables.length ≤ h₂.tables.length
  /-- Other tables are left alone. -/
  keep : ∀ r < h₁.tables.length, r ≠ t → h₂.table r = h₁.table r
  copies : ∀ e ∈ entries, Copy h h₂ (t + 1) (src e.1) ((h₂.table t).rawGet e.1)
  /-- So are other keys. -/
  others : ∀ k ∉ entries.map (·.1), (h₂.table t).rawGet k = (h₁.table t).rawGet k

theorem filledFrom_setAll {entries : List (LuaKey × Json)} (hnodup : (entries.map (·.1)).Nodup)
    (hreb : ∀ e ∈ entries, Rebuilds h (src e.1) e.2) (h₁ : Heap) (ht : t < h₁.tables.length) :
    FilledFrom h src t entries h₁ (setAll t entries h₁) := by
  induction entries generalizing h₁ with
  | nil => exact ⟨Nat.le_refl _, fun _ _ _ => rfl, by simp, fun _ _ => rfl⟩
  | cons e entries ih =>
      obtain ⟨hext, hcopy⟩ := hreb e (by simp) h₁
      rw [List.map_cons, List.nodup_cons] at hnodup
      have hset : setAll t (e :: entries) h₁ =
          setAll t entries ((jsonToLua e.2 h₁).2.set t e.1 (jsonToLua e.2 h₁).1) := rfl
      rw [hset]
      generalize (jsonToLua e.2 h₁).2 = ha at hext hcopy ⊢
      generalize (jsonToLua e.2 h₁).1 = v at hcopy ⊢
      have hta : t < ha.tables.length := ht.trans_le hext.length
      have hrest := ih hnodup.2 (fun e he => hreb e (by simp [he])) (ha.set t e.1 v)
        (by simpa using hta)
      generalize setAll t entries (ha.set t e.1 v) = h₂ at hrest ⊢
      have hlength : ha.tables.length ≤ h₂.tables.length := by simpa using hrest.length
      have hkeep : ∀ r < ha.tables.length, r ≠ t → h₂.table r = ha.table r := fun r hr hne =>
        (hrest.keep r (by simpa using hr) hne).trans (ha.table_set_of_ne e.1 v hne)
      have htable : (ha.set t e.1 v).table t = (h₁.table t).set e.1 v := by
        rw [ha.table_set_self e.1 v hta, hext.keep t ht]
      refine ⟨hext.length.trans hlength, fun r hr hne => ?_, fun x hx => ?_, fun k hk => ?_⟩
      · exact (hkeep r (hr.trans_le hext.length) hne).trans (hext.keep r hr)
      · rcases List.mem_cons.mp hx with rfl | hx
        · rw [hrest.others x.1 hnodup.1, htable, LuaTable.rawGet_set, if_pos rfl]
          exact hcopy.frame ht hlength fun r hlo hr => hkeep r hr (by omega)
        · exact hrest.copies x hx
      · rw [List.map_cons, List.mem_cons, not_or] at hk
        rw [hrest.others k hk.2, htable, LuaTable.rawGet_set, if_neg hk.1]

/-- A table whose keys are set one by one to copies of their values is a copy. -/
theorem rebuilds_of_setAll {r : Nat} {j : Json} (entries : List (LuaKey × Json))
    (hj : ∀ h₀ : Heap, jsonToLua j h₀ =
      (.table h₀.tables.length, setAll h₀.tables.length entries h₀.createTable.2))
    (hnodup : (entries.map (·.1)).Nodup)
    (hkeys : ∀ k, (h.table r).rawGet k ≠ .nil ↔ k ∈ entries.map (·.1))
    (hreb : ∀ e ∈ entries, Rebuilds h ((h.table r).rawGet e.1) e.2) :
    Rebuilds h (.table r) j := by
  intro h₀
  have hfresh : h₀.tables.length < h₀.createTable.2.tables.length := by simp
  have hfill := filledFrom_setAll hnodup hreb h₀.createTable.2 hfresh
  rw [hj]
  dsimp only
  generalize setAll h₀.tables.length entries h₀.createTable.2 = h₂ at hfill ⊢
  have hlength : h₀.tables.length + 1 ≤ h₂.tables.length := by simpa using hfill.length
  have hcopies : ∀ k, (h.table r).rawGet k ≠ .nil →
      Copy h h₂ (h₀.tables.length + 1) ((h.table r).rawGet k)
        ((h₂.table h₀.tables.length).rawGet k) := by
    intro k hk
    obtain ⟨e, he, rfl⟩ := List.mem_map.mp ((hkeys k).mp hk)
    exact hfill.copies e he
  refine ⟨⟨by omega, fun r' hr' => ?_⟩, .table (Nat.le_refl _) hlength (fun k => ?_) fun k hk => ?_⟩
  · rw [hfill.keep r' (by simp; omega) (by omega), h₀.table_createTable]
  · by_cases hk : (h.table r).rawGet k = .nil
    · have hnotin : k ∉ entries.map (·.1) := fun hmem => (hkeys k).mpr hmem hk
      rw [hfill.others k hnotin, h₀.table_createTable, Heap.table_of_le (Nat.le_refl _)]
      simpa using hk
    · exact (hcopies k hk).eq_nil_iff
  · exact (hcopies k hk).frame (Nat.le_succ _) (Nat.le_refl _) fun _ _ _ => rfl

end SetAll

theorem mem_arrayEntries_iff {i : Nat} {a : List Json} {e : LuaKey × Json} :
    e ∈ arrayEntries i a ↔ ∃ m : Nat, a[m]? = some e.2 ∧ e.1 = .integer ((i + m : Nat) + 1) := by
  induction a generalizing i with
  | nil => simp [arrayEntries]
  | cons j a ih =>
      rw [arrayEntries, List.mem_cons, ih]
      constructor
      · rintro (rfl | ⟨m, hm, hk⟩)
        · exact ⟨0, rfl, rfl⟩
        · exact ⟨m + 1, hm, by rw [hk, Nat.add_right_comm, Nat.add_assoc]⟩
      · rintro ⟨m, hm, hk⟩
        cases m with
        | zero => exact .inl (Prod.ext hk (Option.some.inj hm).symm)
        | succ m => exact .inr ⟨m, hm, by rw [hk, Nat.add_right_comm, Nat.add_assoc]⟩

theorem mem_keys_arrayEntries_iff {i : Nat} {a : List Json} {k : LuaKey} :
    k ∈ (arrayEntries i a).map (·.1) ↔
      ∃ m : Nat, m < a.length ∧ k = .integer ((i + m : Nat) + 1) := by
  rw [List.mem_map]
  constructor
  · rintro ⟨e, he, rfl⟩
    obtain ⟨m, hm, hk⟩ := mem_arrayEntries_iff.mp he
    exact ⟨m, (List.getElem?_eq_some_iff.mp hm).1, hk⟩
  · rintro ⟨m, hm, rfl⟩
    exact ⟨(_, a[m]), mem_arrayEntries_iff.mpr ⟨m, List.getElem?_eq_getElem hm, rfl⟩, rfl⟩

theorem nodup_arrayEntries (i : Nat) (a : List Json) : ((arrayEntries i a).map (·.1)).Nodup := by
  induction a generalizing i with
  | nil => exact List.nodup_nil
  | cons j a ih =>
      rw [arrayEntries, List.map_cons, List.nodup_cons]
      refine ⟨fun hmem => ?_, ih (i + 1)⟩
      obtain ⟨m, -, hm⟩ := mem_keys_arrayEntries_iff.mp hmem
      have heq : (i : Int) + 1 = (i + 1 + m : Nat) + 1 := LuaKey.integer.inj hm
      omega

-- ============================================================================
-- The round trip
-- ============================================================================

/-- What JSON can hold without loss: integers of `i64`, finite numbers that are none
    of these, and valid UTF-8. -/
def LuaValue.IsPlain : LuaValue → Prop
  | .nil | .boolean _ | .table _ => True
  | .integer i => InI64 i
  | .number x => (∃ q, x = .fin q) ∧ LuaValue.ofF64 x = .number x
  | .string s => ∃ t, s = utf8 t
  | .other _ => False

/-- `c` is the value of an entry of `v`. -/
def Within (h : Heap) (v c : LuaValue) : Prop :=
  ∃ r k, v = .table r ∧ (k, c) ∈ (h.table r).entries

/-- The keys are valid UTF-8 strings. -/
def LuaTable.IsRecord (t : LuaTable) : Prop :=
  ∀ k, t.rawGet k ≠ .nil → ∃ s : String, k = .string (utf8 s)

/-- An acyclic value of plain values, every table of it a record or a sequence. -/
structure Plain (h : Heap) (v : LuaValue) : Prop where
  acyclic : AcyclicFrom (Within h) v
  values : ∀ c, ReflTransGen (Within h) v c → c.IsPlain
  keys : ∀ r, ReflTransGen (Within h) v (.table r) →
    (h.table r).IsRecord ∨ ∃ n, 0 < n ∧ (h.table r).IsSequence n

/-- The value is nested less than `depth` deep. -/
abbrev NestedBelow (h : Heap) (depth : Nat) (v : LuaValue) : Prop := ChainsBelow (Within h) depth v

section RoundTrip

variable {str : Stringify} {h : Heap} {len : h.Lengths} {r : Nat}

theorem Plain.child {v c : LuaValue} (hv : Plain h v) (hc : Within h v c) : Plain h c where
  acyclic := hv.acyclic.child hc
  values := fun d hd => hv.values d (.head hc hd)
  keys := fun r hr => hv.keys r (.head hc hr)

theorem Plain.endsFrom {v : LuaValue} (hv : Plain h v) : EndsFrom (Within h) v := by
  refine endsFrom_of_acyclicFrom h.finite_refs ?_ hv.acyclic
  rintro v c ⟨r, k, rfl, hk⟩
  exact Heap.mem_refs (List.ne_nil_of_mem hk)

theorem within_of_mem_parts {c : LuaValue} (hc : c ∈ parts str len (.table r)) :
    Within h (.table r) c := by
  obtain ⟨r', s, heq, hmem⟩ := holds_of_mem_parts hc
  obtain ⟨k, hentry, -⟩ := mem_namedEntries_iff.mp hmem
  exact ⟨r', k, heq, hentry⟩

theorem within_of_comesTo {v c : LuaValue} (hc : ComesTo str len v c) : Within h v c := by
  obtain ⟨pre, post, hsplit, -⟩ := hc
  cases v with
  | table r => exact within_of_mem_parts (by rw [hsplit]; simp)
  | _ => simp [parts] at hsplit

/-- Room for one call more than a value is nested deep is enough to encode it. -/
theorem Encodes.luaToJson_of_nestedBelow {v : LuaValue} {j : Json} (hj : Encodes str len v j)
    {depth : Nat} (hdepth : NestedBelow h depth v) : luaToJson str len depth v = .ok j :=
  hj.luaToJson_eq (hdepth.of_imp fun _ _ => within_of_comesTo)

/-- The array of a sequence. -/
theorem rebuilds_array {n : Nat} (hseq : (h.table r).IsSequence n) {js : List Json}
    (hjs : List.Forall₂ (Rebuilds h) (elements len r) js) : Rebuilds h (.table r) (.array js) := by
  have hlength : js.length = n :=
    (length_of_elements hjs).trans (rawLen_of_isSequence len hseq)
  refine rebuilds_of_setAll (arrayEntries 0 js) ?_ (nodup_arrayEntries 0 js) ?_ ?_
  · intro h₀
    simp only [jsonToLua, setElements_eq]
    rfl
  · intro k
    rw [hseq k, mem_keys_arrayEntries_iff, hlength]
    simp
  · intro e he
    obtain ⟨m, hm, hk⟩ := mem_arrayEntries_iff.mp he
    have hreb := getElem_of_elements hjs hm
    rw [hk]
    simpa using hreb

/-- The text of a key of a record is the key. -/
theorem mem_namedEntries_of_isRecord (str : Stringify) (hrecord : (h.table r).IsRecord) {s : String}
    {c : LuaValue} :
    (s, c) ∈ namedEntries str (h.table r).entries ↔
      (.string (utf8 s), c) ∈ (h.table r).entries := by
  rw [mem_namedEntries_iff]
  constructor
  · rintro ⟨k, hmem, htext⟩
    obtain ⟨hget, hne⟩ := LuaTable.mem_entries_iff.mp hmem
    obtain ⟨s', rfl⟩ := hrecord k (hget ▸ hne)
    rw [LuaKey.text, str.lossy_utf8] at htext
    obtain rfl := Option.some.inj htext
    exact hmem
  · intro hmem
    exact ⟨_, hmem, by rw [LuaKey.text, str.lossy_utf8]⟩

theorem nodup_namedEntries_of_isRecord (str : Stringify) (hrecord : (h.table r).IsRecord) :
    ((namedEntries str (h.table r).entries).map (·.1)).Nodup := by
  have hkeys : ∀ e ∈ (h.table r).entries, ∀ s c, (e.1.text str).map (·, e.2) = some (s, c) →
      e.1 = .string (utf8 s) := by
    intro e he s c hs
    obtain ⟨hget, hne⟩ := LuaTable.mem_entries_iff.mp he
    obtain ⟨s', hk⟩ := hrecord e.1 (hget ▸ hne)
    rw [hk, LuaKey.text, str.lossy_utf8] at hs
    obtain ⟨rfl, -⟩ := Prod.mk.inj (Option.some.inj hs)
    exact hk
  have hnodup := (h.table r).nodup
  rw [List.Nodup, List.pairwise_map] at hnodup ⊢
  rw [namedEntries, List.pairwise_filterMap]
  refine hnodup.imp_of_mem fun {e e'} he he' hne p hp p' hp' heq => hne ?_
  rw [hkeys e he p.1 p.2 hp, hkeys e' he' p'.1 p'.2 hp', heq]

/-- The keys of a record are those with a text. -/
theorem rawGet_ne_nil_iff_of_isRecord (str : Stringify) (hrecord : (h.table r).IsRecord)
    {k : LuaKey} :
    (h.table r).rawGet k ≠ .nil ↔
      k ∈ ((namedEntries str (h.table r).entries).map (·.1)).map fun s => .string (utf8 s) := by
  constructor
  · intro hk
    obtain ⟨s, rfl⟩ := hrecord k hk
    have hnamed := (mem_namedEntries_of_isRecord str hrecord).mpr
      (LuaTable.mem_entries_iff.mpr ⟨rfl, hk⟩)
    exact List.mem_map.mpr ⟨s, List.mem_map.mpr ⟨_, hnamed, rfl⟩, rfl⟩
  · intro hk
    obtain ⟨s, hs, rfl⟩ := List.mem_map.mp hk
    obtain ⟨⟨s, c⟩, hnamed, rfl⟩ := List.mem_map.mp hs
    obtain ⟨hget, hne⟩ := LuaTable.mem_entries_iff.mp
      ((mem_namedEntries_of_isRecord str hrecord).mp hnamed)
    exact hget ▸ hne

/-- The object of a record. -/
theorem rebuilds_object (hrecord : (h.table r).IsRecord) {js : List Json}
    (hjs : List.Forall₂ (fun e j => Rebuilds h e.2 j) (namedEntries str (h.table r).entries) js) :
    Rebuilds h (.table r) (.object
      (insertAll (((namedEntries str (h.table r).entries).map (·.1)).zip js) [])) := by
  have hnodup := nodup_namedEntries_of_isRecord str hrecord
  have hperm := perm_object hjs hnodup
  have hmkeys := perm_keys_object hjs hnodup
  generalize insertAll (((namedEntries str (h.table r).entries).map (·.1)).zip js) [] = m
    at hperm hmkeys ⊢
  have hekeys : (m.map fun e => (LuaKey.string (utf8 e.1), e.2)).map (·.1) =
      (m.map (·.1)).map fun s => .string (utf8 s) := by
    rw [List.map_map, List.map_map]
    rfl
  refine rebuilds_of_setAll (m.map fun e => (.string (utf8 e.1), e.2)) ?_ ?_ ?_ ?_
  · intro h₀
    simp only [jsonToLua, setMembers_eq]
    rfl
  · have hinj : Function.Injective fun s : String => LuaKey.string (utf8 s) := fun s s' heq =>
      utf8_injective (LuaKey.string.inj heq)
    rw [hekeys]
    exact (hmkeys.nodup_iff.mpr hnodup).map hinj
  · intro k
    rw [hekeys, rawGet_ne_nil_iff_of_isRecord str hrecord]
    exact (hmkeys.map _).mem_iff.symm
  · intro e he
    obtain ⟨⟨s, j⟩, hmem, rfl⟩ := List.mem_map.mp he
    obtain ⟨c, hc, hreb⟩ := exists_of_mem_zip hjs (hperm.mem_iff.mp hmem)
    have hentry := (mem_namedEntries_of_isRecord str hrecord).mp hc
    rw [(LuaTable.mem_entries_iff.mp hentry).1]
    exact hreb

/-- A record has no array part. -/
theorem isArray_of_isRecord (hrecord : (h.table r).IsRecord) : isArray len r = false := by
  have hnil : ∀ i, (h.table r).rawGet (.integer i) = .nil := by
    intro i
    by_contra hne
    obtain ⟨s, hs⟩ := hrecord _ hne
    cases hs
  have hzero : len.rawLen r = 0 := (len.border r).1.resolve_right fun hne => hne (hnil _)
  simp [isArray, hzero]

theorem ofI64_asI64 {i : Int} (hi : InI64 i) : (Number.ofI64 i).asI64 = some i := by
  obtain ⟨hlo, hhi⟩ := hi
  unfold Number.ofI64
  split
  · simp [Number.asI64]
    omega
  · rfl

/-- A value that is no table is decoded to itself. -/
theorem rebuilds_scalar {v : LuaValue} {j : Json} (hj : ∀ h₀, jsonToLua j h₀ = (v, h₀))
    (hcopy : ∀ h' lo, Copy h h' lo v v) : Rebuilds h v j := by
  intro h₀
  rw [hj h₀]
  exact ⟨⟨Nat.le_refl _, fun _ _ => rfl⟩, hcopy h₀ _⟩

theorem exists_rebuilds (str : Stringify) (len : h.Lengths) {v : LuaValue} (hv : Plain h v) :
    ∃ j, Encodes str len v j ∧ Rebuilds h v j := by
  have hends := hv.endsFrom
  induction hends with
  | intro v _ ih =>
      have hplain := hv.values v .refl
      cases v with
      | nil => exact ⟨_, ⟨1, rfl⟩, rebuilds_scalar (fun _ => rfl) fun _ _ => .nil⟩
      | boolean b => exact ⟨_, ⟨1, rfl⟩, rebuilds_scalar (fun _ => rfl) fun _ _ => .boolean b⟩
      | integer i =>
          refine ⟨_, ⟨1, rfl⟩, rebuilds_scalar (fun h₀ => ?_) fun _ _ => .integer i⟩
          rw [jsonToLua, ofI64_asI64 hplain]
      | number x =>
          obtain ⟨⟨q, rfl⟩, hq⟩ := hplain
          refine ⟨_, ⟨1, rfl⟩, rebuilds_scalar (fun h₀ => ?_) fun _ _ => .number (.fin q)⟩
          rw [← hq]
          rfl
      | string s =>
          obtain ⟨t, rfl⟩ := hplain
          refine ⟨_, ⟨1, rfl⟩, rebuilds_scalar (fun h₀ => ?_) fun _ _ => .string (utf8 t)⟩
          rw [str.lossy_utf8]
          rfl
      | other typeName => exact hplain.elim
      | table r =>
          have hparts : ∀ c ∈ parts str len (.table r),
              ∃ j, Encodes str len c j ∧ Rebuilds h c j := fun c hc =>
            ih c (within_of_mem_parts hc) (hv.child (within_of_mem_parts hc))
          obtain ⟨js, hjs⟩ := DepthFirst.exists_forall₂ hparts
          rcases hv.keys r .refl with hrecord | ⟨n, hpos, hseq⟩
          · have harray : isArray len r = false := isArray_of_isRecord hrecord
            rw [parts, if_neg (by simp [harray]), List.forall₂_map_left_iff] at hjs
            exact ⟨_, (encodes_object_iff harray).mpr ⟨js, hjs.imp fun _ _ hj => hj.1, rfl⟩,
              rebuilds_object hrecord (hjs.imp fun _ _ hj => hj.2)⟩
          · have harray := isArray_of_isSequence len hpos hseq
            rw [parts, if_pos harray] at hjs
            exact ⟨_, (encodes_array_iff harray).mpr ⟨js, hjs.imp fun _ _ hj => hj.1, rfl⟩,
              rebuilds_array hseq (hjs.imp fun _ _ hj => hj.2)⟩

/-- **The round trip.**  A plain value is encoded, with room for as many nested calls
    as it is nested deep and one more, and what is decoded from its JSON, into any
    heap, is the same value; the tables there were are left alone. -/
theorem json_round_trip (str : Stringify) (len : h.Lengths) {v : LuaValue} (hv : Plain h v) :
    ∃ j, Encodes str len v j ∧
      (∀ depth, NestedBelow h depth v → luaToJson str len depth v = .ok j) ∧
      ∀ h₀, Same h (jsonToLua j h₀).2 v (jsonToLua j h₀).1 ∧ Extends h₀ (jsonToLua j h₀).2 := by
  obtain ⟨j, henc, hreb⟩ := exists_rebuilds str len hv
  exact ⟨j, henc, fun _ hdepth => henc.luaToJson_of_nestedBelow hdepth,
    fun h₀ => ⟨(hreb h₀).2.same, (hreb h₀).1⟩⟩

end RoundTrip

/-- `{ splits = { 3 } }`. -/
def savedTimes : Heap :=
  ⟨[{ entries := [(.string (utf8 "splits"), .table 1)], nodup := by simp, noNil := by simp },
    { entries := [(.integer 1, .integer 3)], nodup := by simp, noNil := by simp }]⟩

def savedTimesLengths : savedTimes.Lengths where
  rawLen := fun r => if r = 1 then 1 else 0
  border := by
    intro r
    match r with
    | 0 => simp [savedTimes, Heap.table, LuaTable.IsBorder, LuaTable.rawGet, lookup]
    | 1 => simp [savedTimes, Heap.table, LuaTable.IsBorder, LuaTable.rawGet, lookup]
    | r + 2 => simp [savedTimes, Heap.table, LuaTable.IsBorder]

theorem within_savedTimes {v c : LuaValue} (hc : Within savedTimes v c) :
    (v = .table 0 ∧ c = .table 1) ∨ (v = .table 1 ∧ c = .integer 3) := by
  obtain ⟨r, k, rfl, hmem⟩ := hc
  match r, hmem with
  | 0, hmem => simp_all [savedTimes, Heap.table]
  | 1, hmem => simp_all [savedTimes, Heap.table]
  | r + 2, hmem => simp [savedTimes, Heap.table, LuaTable.empty] at hmem

theorem reach_savedTimes {c : LuaValue} (hc : ReflTransGen (Within savedTimes) (.table 0) c) :
    c = .table 0 ∨ c = .table 1 ∨ c = .integer 3 := by
  induction hc with
  | refl => exact .inl rfl
  | tail _ hc _ =>
      rcases within_savedTimes hc with ⟨-, h⟩ | ⟨-, h⟩
      · exact .inr (.inl h)
      · exact .inr (.inr h)

theorem plain_savedTimes : Plain savedTimes (.table 0) where
  acyclic := by
    have hinteger : EndsFrom (Within savedTimes) (.integer 3) := Acc.intro _ fun c hc => by
      rcases within_savedTimes hc with ⟨h, -⟩ | ⟨h, -⟩ <;> cases h
    have hinner : EndsFrom (Within savedTimes) (.table 1) := Acc.intro _ fun c hc => by
      rcases within_savedTimes hc with ⟨h, -⟩ | ⟨-, rfl⟩
      · cases h
      · exact hinteger
    refine acyclicFrom_of_endsFrom (Acc.intro _ fun c hc => ?_)
    rcases within_savedTimes hc with ⟨-, rfl⟩ | ⟨h, -⟩
    · exact hinner
    · cases h
  values := by
    intro c hc
    rcases reach_savedTimes hc with rfl | rfl | rfl
    · trivial
    · trivial
    · exact (by decide : InI64 3)
  keys := by
    intro r hr
    rcases reach_savedTimes hr with h | h | h
    · obtain rfl : r = 0 := by simpa using h
      left
      intro k hk
      obtain rfl : k = .string (utf8 "splits") := by
        by_contra hne
        exact hk (by simp [savedTimes, Heap.table, LuaTable.rawGet, lookup, Ne.symm hne])
      exact ⟨"splits", rfl⟩
    · obtain rfl : r = 1 := by simpa using h
      refine .inr ⟨1, Nat.one_pos, fun k => ?_⟩
      by_cases hk : k = .integer 1
      · simp [savedTimes, Heap.table, LuaTable.rawGet, lookup, hk]
      · simp [savedTimes, Heap.table, LuaTable.rawGet, lookup, hk, Ne.symm hk]
    · cases h

theorem json_round_trip_savedTimes :
    ∃ j, Encodes .plain savedTimesLengths (.table 0) j ∧
      Same savedTimes (jsonToLua j savedTimes).2 (.table 0) (jsonToLua j savedTimes).1 := by
  obtain ⟨j, henc, -, hdec⟩ := json_round_trip .plain savedTimesLengths plain_savedTimes
  exact ⟨j, henc, (hdec savedTimes).1⟩

-- ============================================================================
-- The store
-- ============================================================================

section StoreApi

variable (str : Stringify) {h : Heap} (len : h.Lengths)

/-- `store.set`; nil removes the key. -/
def storeSet (fuel : Nat) (s : Store) (key : String) (value : LuaValue) : Outcome String Store :=
  if value = .nil then .ok (s.remove key)
  else do
    let j ← luaToJson str len fuel value
    .ok (s.set key j)

/-- `store.save`. -/
def storeSave (fuel : Nat) (s : Store) (t : LuaValue) : Outcome String Store := do
  let j ← luaToJson str len fuel t
  match j with
  | .object m => .ok (s.replace m)
  | _ => .fail "store.save expects a table"

/-- `store.get`. -/
def storeGet (s : Store) (key : String) (h₀ : Heap) : LuaValue × Heap :=
  match s.get key with
  | some j => jsonToLua j h₀
  | none => (.nil, h₀)

/-- `store.load`. -/
def storeLoad (s : Store) (h₀ : Heap) : LuaValue × Heap := jsonToLua (.object s.data) h₀

/-- What a script sets it gets back, and the other keys are as they were. -/
theorem storeGet_storeSet (s : Store) (key : String) {v : LuaValue} (hv : Plain h v) :
    ∃ t, (∃ fuel, storeSet str len fuel s key v = .ok t) ∧
      (∀ depth, NestedBelow h depth v → storeSet str len depth s key v = .ok t) ∧
      (∀ h₀, Same h (storeGet t key h₀).2 v (storeGet t key h₀).1) ∧
      ∀ key' ≠ key, ∀ h₀, storeGet t key' h₀ = storeGet s key' h₀ := by
  by_cases hnil : v = .nil
  · subst hnil
    refine ⟨s.remove key, ⟨0, rfl⟩, fun _ _ => rfl, fun h₀ => ?_, fun key' hne h₀ => ?_⟩
    · simp only [storeGet, Store.get, Store.remove, JsonMap.get_remove, if_pos]
      exact .nil
    · simp only [storeGet, Store.get, Store.remove, JsonMap.get_remove, if_neg hne]
  · obtain ⟨j, henc, hreb⟩ := exists_rebuilds str len hv
    have hset : ∀ fuel, luaToJson str len fuel v = .ok j →
        storeSet str len fuel s key v = .ok (s.set key j) := by
      intro fuel hfuel
      rw [storeSet, if_neg hnil, hfuel]
      rfl
    refine ⟨s.set key j, henc.imp hset,
      fun depth hdepth => hset depth (henc.luaToJson_of_nestedBelow hdepth),
      fun h₀ => ?_, fun key' hne h₀ => ?_⟩
    · simp only [storeGet, Store.get, Store.set, JsonMap.get_insert, if_pos]
      exact (hreb h₀).2.same
    · simp only [storeGet, Store.get, Store.set, JsonMap.get_insert, if_neg hne]

/-- A record that is saved is loaded again. -/
theorem storeLoad_storeSave (s : Store) {r : Nat} (hv : Plain h (.table r))
    (hrecord : (h.table r).IsRecord) :
    ∃ t, (∃ fuel, storeSave str len fuel s (.table r) = .ok t) ∧
      (∀ depth, NestedBelow h depth (.table r) →
        storeSave str len depth s (.table r) = .ok t) ∧
      ∀ h₀, Same h (storeLoad t h₀).2 (.table r) (storeLoad t h₀).1 := by
  obtain ⟨j, henc, hreb⟩ := exists_rebuilds str len hv
  obtain ⟨m, rfl⟩ : ∃ m, j = .object m := by
    obtain ⟨js, -, hj⟩ := (encodes_object_iff (isArray_of_isRecord hrecord)).mp henc
    exact ⟨_, hj⟩
  have hsave : ∀ fuel, luaToJson str len fuel (.table r) = .ok (.object m) →
      storeSave str len fuel s (.table r) = .ok (s.replace m) := by
    intro fuel hfuel
    rw [storeSave, hfuel]
    rfl
  exact ⟨s.replace m, henc.imp hsave,
    fun depth hdepth => hsave depth (henc.luaToJson_of_nestedBelow hdepth),
    fun h₀ => (hreb h₀).2.same⟩

end StoreApi

end LuaApi
end SniLua
