/-
  SniLua.LuaApi.Store

  The script-visible document and its file.  The document lives in memory with a
  dirty flag; `bind` reads the file, `flush_if_dirty` writes it through
  `atomic_write`, which replaces the file or leaves it as it was.

  A clean, bound store is meant to hold what its file holds (`Durable`).  The
  flag is cleared before the write is tried and not set again when it fails, so
  this is so exactly as long as no write fails that would have changed the file.
-/

import SniLua.Lib.Run
import SniLua.LuaApi.Json

namespace SniLua
namespace LuaApi

open Lib

abbrev Path := String

-- ============================================================================
-- The store in memory
-- ============================================================================

structure Store where
  /-- Current in-memory document. -/
  data : JsonMap
  /-- Where it persists; `none` disables persistence. -/
  path : Option Path
  /-- Set by any mutation, cleared by a flush. -/
  dirty : Bool

namespace Store

def new : Store := { data := [], path := none, dirty := false }

/-- Drop the binding without writing; the document stays in memory. -/
def unbind (s : Store) : Store := { s with path := none }

def get (s : Store) (key : String) : Option Json := JsonMap.get s.data key

def set (s : Store) (key : String) (value : Json) : Store :=
  { s with data := JsonMap.insert s.data key value, dirty := true }

/-- Only the removal of a present key dirties the store. -/
def remove (s : Store) (key : String) : Store :=
  { s with
    data := JsonMap.remove s.data key
    dirty := s.dirty || (JsonMap.get s.data key).isSome }

/-- Replace the entire document. -/
def replace (s : Store) (obj : JsonMap) : Store := { s with data := obj, dirty := true }

end Store

/-- A change of the document in memory. -/
inductive StoreOp where
  | set (key : String) (value : Json)
  | remove (key : String)
  | replace (obj : JsonMap)

def Store.apply (s : Store) : StoreOp → Store
  | .set key value => s.set key value
  | .remove key => s.remove key
  | .replace obj => s.replace obj

theorem Store.path_apply (s : Store) (op : StoreOp) : (s.apply op).path = s.path := by
  cases op <;> rfl

/-- What a change makes of the document does not depend on path and flag. -/
theorem Store.data_apply_congr (op : StoreOp) {s t : Store} (h : s.data = t.data) :
    (s.apply op).data = (t.apply op).data := by
  cases op with
  | set key value => simp only [apply, set, h]
  | remove key => simp only [apply, remove, h]
  | replace obj => rfl

/-- A store that is clean after a change was clean before it, and the change
    changed nothing. -/
theorem Store.data_apply_of_clean {s : Store} {op : StoreOp} (h : (s.apply op).dirty = false) :
    s.dirty = false ∧ (s.apply op).data = s.data := by
  cases op with
  | set key value => exact absurd h (by simp [apply, set])
  | replace obj => exact absurd h (by simp [apply, replace])
  | remove key =>
      simp only [apply, remove, Bool.or_eq_false_iff] at h
      refine ⟨h.1, JsonMap.remove_of_get_none ?_⟩
      simpa using h.2

-- ============================================================================
-- The store and its file
-- ============================================================================

/-- The store and the files it may be bound to. -/
structure Disk (Text : Type) where
  store : Store
  files : Path → Option Text

namespace Disk

variable {Text : Type} (c : Serde Text)

/-- The document a file holds: one that is missing, unparsable or not an object
    counts as empty. -/
def docOf (files : Path → Option Text) (path : Path) : JsonMap :=
  match files path with
  | some text =>
      match c.fromStr text with
      | some (.object m) => m
      | _ => []
  | none => []

/-- Point the store at a file and load it. -/
def bind (s : Disk Text) (path : Path) : Disk Text :=
  { s with store := { data := docOf c s.files path, path := some path, dirty := false } }

/-- `flush_if_dirty`; `written` is the outcome of `atomic_write`. -/
def flushIfDirty (s : Disk Text) (written : Bool) : Disk Text :=
  if s.store.dirty then
    match s.store.path with
    | none => { s with store := { s.store with dirty := false } }
    | some path =>
        -- the flag is cleared before the write is tried
        { store := { s.store with dirty := false }
          files := if written then
              fun p => if p = path then some (c.toStringPretty s.store.data) else s.files p
            else s.files }
  else s

inductive Op where
  | bind (path : Path)
  | unbind
  | change (op : StoreOp)
  | flush (written : Bool)

def step (s : Disk Text) : Op → Option (Disk Text)
  | .bind path => some (s.bind c path)
  | .unbind => some { s with store := s.store.unbind }
  | .change op => some { s with store := s.store.apply op }
  | .flush written => some (s.flushIfDirty c written)

/-- Nothing bound yet, any files on disk. -/
def start (files : Path → Option Text) : Disk Text := { store := .new, files }

-- ============================================================================
-- Durability
-- ============================================================================

/-- When a path is bound and the store is clean, loading the file gives the
    document in memory. -/
def Durable (s : Disk Text) : Prop :=
  ∀ path, s.store.path = some path → s.store.dirty = false → docOf c s.files path = s.store.data

/-- The step is no failing write of a document its file does not hold. -/
def FlushLands (s : Disk Text) (op : Op) : Prop :=
  op = .flush false → s.store.dirty = true →
    ∀ path, s.store.path = some path → docOf c s.files path = s.store.data

variable {c}

theorem flushIfDirty_of_clean {s : Disk Text} (h : s.store.dirty = false) (written : Bool) :
    s.flushIfDirty c written = s := by
  rw [flushIfDirty, if_neg (by simp [h])]

theorem flushIfDirty_of_unbound {s : Disk Text} (hd : s.store.dirty = true)
    (hp : s.store.path = none) (written : Bool) :
    s.flushIfDirty c written = { s with store := { s.store with dirty := false } } := by
  rw [flushIfDirty, if_pos hd, hp]

/-- Only a write that lands changes the file. -/
theorem flushIfDirty_of_bound {s : Disk Text} {path : Path} (hd : s.store.dirty = true)
    (hp : s.store.path = some path) (written : Bool) :
    s.flushIfDirty c written =
      { store := { s.store with dirty := false }
        files := if written then
            fun p => if p = path then some (c.toStringPretty s.store.data) else s.files p
          else s.files } := by
  rw [flushIfDirty, if_pos hd, hp]

theorem durable_start (files : Path → Option Text) : (start files).Durable c := by
  intro path h
  exact absurd h (by simp [start, Store.new])

/-- The document of a file that has just been written. -/
theorem docOf_written (hc : c.RoundTrips) (files : Path → Option Text) (path : Path)
    (m : JsonMap) :
    docOf c (fun p => if p = path then some (c.toStringPretty m) else files p) path = m := by
  simp [docOf, hc m]

theorem durable_step (hc : c.RoundTrips) {s t : Disk Text} {op : Op} (h : s.Durable c)
    (hlands : s.FlushLands c op) (hs : step c s op = some t) : t.Durable c := by
  cases op with
  | bind path =>
      obtain rfl := Option.some.inj hs
      intro path' hp _
      obtain rfl := Option.some.inj hp
      rfl
  | unbind =>
      obtain rfl := Option.some.inj hs
      intro path' hp
      exact absurd hp (by simp [Store.unbind])
  | change op =>
      obtain rfl := Option.some.inj hs
      intro path hp hclean
      obtain ⟨hclean', hdata⟩ := Store.data_apply_of_clean hclean
      rw [Store.path_apply] at hp
      exact (h path hp hclean').trans hdata.symm
  | flush written =>
      obtain rfl := Option.some.inj hs
      cases hd : s.store.dirty with
      | false =>
          rw [flushIfDirty_of_clean hd]
          exact h
      | true =>
          cases hp : s.store.path with
          | none =>
              rw [flushIfDirty_of_unbound hd hp]
              intro path hp'
              exact absurd (hp.symm.trans hp') (by simp)
          | some path =>
              rw [flushIfDirty_of_bound hd hp]
              intro path' hp' _
              obtain rfl := Option.some.inj (hp.symm.trans hp')
              cases written with
              | true => exact docOf_written hc s.files path s.store.data
              | false => exact hlands rfl hd path hp

/-- A write that fails leaves a clean store over a file without the change. -/
theorem flushLands_of_durable {s : Disk Text} {written : Bool}
    (h : (s.flushIfDirty c written).Durable c) : s.FlushLands c (.flush written) := by
  intro hop hd path hp
  obtain rfl : written = false := by simpa using hop
  rw [flushIfDirty_of_bound hd hp] at h
  exact h path hp rfl

/-- **Durability.**  All states of a run are durable if and only if no write
    fails that would have changed the file. -/
theorem durable_iff_flushLands (hc : c.RoundTrips) {files : Path → Option Text}
    {tr : List (Disk Text × Op)} {t : Disk Text} (hrun : Run (step c) (start files) tr t) :
    ((∀ x ∈ tr, Durable c x.1) ∧ t.Durable c) ↔ ∀ x ∈ tr, FlushLands c x.1 x.2 := by
  constructor
  · rintro ⟨hstates, hlast⟩
    induction hrun with
    | refl => simp
    | @snoc tr u v op hrun hs ih =>
        intro x hx
        rcases List.mem_append.mp hx with hx | hx
        · exact ih (fun y hy => hstates y (List.mem_append_left _ hy)) (hstates (u, op) (by simp))
            x hx
        · obtain rfl := List.mem_singleton.mp hx
          cases op with
          | flush written =>
              obtain rfl := Option.some.inj hs
              exact flushLands_of_durable hlast
          | _ => exact fun hop => absurd hop (by simp)
  · intro hlands
    have hstep : ∀ u op v, FlushLands c u op → u.Durable c → step c u op = some v → v.Durable c :=
      fun _ _ _ hl hu hs => durable_step hc hu hl hs
    refine ⟨?_, hrun.invariant hstep hlands (durable_start files)⟩
    intro x hx
    obtain ⟨pre, post, rfl, hpre⟩ := hrun.prefix_of_mem hx
    exact hpre.invariant hstep (fun y hy => hlands y (List.mem_append_left _ hy))
      (durable_start files)

/-- A codec whose text is the document itself. -/
def plainSerde : Serde JsonMap where
  toStringPretty := fun m => m
  fromStr := fun m => some (.object m)

/-- A write fails once and works when it is tried again: the flag was cleared by
    the first, so the second writes nothing. -/
def transientFailure : List Op :=
  [.bind "a.json", .change (.set "pb" (.bool true)), .flush false, .flush true]

/-- The store ends clean and bound, and its file is still missing. -/
theorem not_durable_transientFailure :
    ¬ ∀ tr s, Run (step plainSerde) (start fun _ => none) tr s → s.Durable plainSerde := by
  intro h
  have hrun : Run (step plainSerde) (start fun _ => none) _ _ :=
    run_final (rfl : (exec (step plainSerde) (start fun _ => none) transientFailure).isSome = true)
  have hdoc := h _ _ hrun "a.json" rfl rfl
  exact absurd hdoc (by simp [final, exec, transientFailure, step, bind, docOf, flushIfDirty,
    Store.apply, Store.set, JsonMap.insert, start])

/-- A run whose writes all succeed. -/
theorem durable_two_flushes :
    (final (step plainSerde) (start fun _ => none)
      [.bind "a.json", .change (.set "pb" (.bool true)), .flush true]).Durable plainSerde :=
  ((durable_iff_flushLands (fun _ => rfl) (run_final rfl)).mpr (by
    intro x hx hop
    exact absurd hop (by
      simp only [trace, step, List.mem_cons, List.not_mem_nil, or_false] at hx
      rcases hx with rfl | rfl | rfl <;> simp))).2

end Disk
end LuaApi
end SniLua
