/-
  SniLua.LuaApi.Panel

  Do settings survive a reload?  A session is a loaded script with its panel: the
  app edits controls and mirrors them into the store, the script calls `ui.set`,
  the store is flushed, and a reload binds the file again and seeds the
  re-declared controls from it.

  `ui.set` changes the live control only; nothing mirrors it into the store until
  the next edit of the app.  What a reload restores is therefore said by a ledger
  of the session's events, which knows neither store nor file: the values of the
  last panel declared or edited before a flush that had something to write.  The
  session follows its ledger (`SessionOk`).
-/

import SniLua.LuaApi.Controls

namespace SniLua
namespace LuaApi

open Lib

-- ============================================================================
-- A control and its declaration
-- ============================================================================

/-- The control is of this declaration, with any value. -/
inductive Declares : Declaration → Control → Prop
  | header (caption : String) : Declares (.header caption) (.header caption)
  | label (caption : String) : Declares (.label caption) (.label caption)
  | checkbox (id caption : String) (default : Option Bool) (v : Bool) :
      Declares (.checkbox id caption default) (.checkbox id caption v)
  | slider (id caption : String) (min max : F64) (default : Option F64) (v : F64) :
      Declares (.slider id caption min max default) (.slider id caption min max v)
  | text (id caption : String) (default : Option String) (v : String) :
      Declares (.text id caption default) (.text id caption v)
  | color (id caption : String) (default : Option UInt32) (v : UInt32) :
      Declares (.color id caption default) (.color id caption v)
  | select (id caption : String) (options : List String) (default : Option Nat) (v : Nat) :
      Declares (.select id caption options default) (.select id caption options v)
  | button (id caption : String) (pressed : Bool) :
      Declares (.button id caption) (.button id caption pressed)

theorem Declares.declare (seed : String → Option Json) (d : Declaration) :
    Declares d (d.declare seed) := by
  cases d <;> constructor

theorem Declares.withValue {d : Declaration} {c : Control} (h : Declares d c) (v : ControlValue) :
    Declares d (c.withValue v) := by
  cases h <;> cases v <;> constructor

theorem Declares.setTo {V : Type} {d : Declaration} {c : Control} (h : Declares d c)
    (view : LuaView V) (v : V) : Declares d (c.setTo view v) := by
  cases h <;> constructor

theorem Declares.id_eq {d : Declaration} {c : Control} (h : Declares d c) : c.id = d.id := by
  cases h <;> rfl

/-- The value a written value is read back as.  Floats come back as the parser
    makes them, a number without JSON form as the default of its slider. -/
def readBack (reparse : ℚ → ℚ) : Declaration → ControlValue → ControlValue
  | .slider _ _ min max default, .num x =>
      .num (clampSlider min max (match x with
        | .fin q => .fin (reparse q)
        | _ => default.getD min))
  | .select _ _ options _, .index i => .index (min i (max options.length 1 - 1))
  | _, v => v

/-- Writing a value and declaring its control again reads it back. -/
theorem value_declare {d : Declaration} {c : Control} (h : Declares d c) (reparse : ℚ → ℚ)
    {seed : String → Option Json}
    (hseed : ∀ id v, c.id = some id → c.value = some v →
      seed id = some (v.toJson.mapFloats reparse)) :
    (d.declare seed).value = c.value.map (readBack reparse d) := by
  cases h with
  | header caption => rfl
  | label caption => rfl
  | button id caption pressed => rfl
  | checkbox id caption default v =>
      simp [Declaration.declare, hseed id _ rfl rfl, Control.value, ControlValue.toJson,
        Json.mapFloats, Json.asBool, readBack]
  | slider id caption min max default v =>
      cases v <;> simp [Declaration.declare, hseed id _ rfl rfl, Control.value,
        ControlValue.toJson, Json.ofF64, Json.mapFloats, Json.asF64, readBack]
  | text id caption default v =>
      simp [Declaration.declare, hseed id _ rfl rfl, Control.value, ControlValue.toJson,
        Json.mapFloats, Json.asStr, readBack]
  | color id caption default v =>
      simp [Declaration.declare, hseed id _ rfl rfl, Control.value, ControlValue.toJson,
        Json.mapFloats, Json.asU64, readBack]
  | select id caption options default v =>
      simp [Declaration.declare, hseed id _ rfl rfl, Control.value, ControlValue.toJson,
        Json.mapFloats, Json.asU64, readBack]

/-- A value inside its bounds that the parser keeps is read back as it is. -/
def Survives (reparse : ℚ → ℚ) : Declaration → ControlValue → Prop
  | .slider _ _ min max _, .num x =>
      x.lt (F64.minNum min max) = false ∧ (F64.maxNum min max).lt x = false ∧
        ∃ q, x = .fin q ∧ reparse q = q
  | .select _ _ options _, .index i => i ≤ max options.length 1 - 1
  | _, _ => True

theorem readBack_of_survives {reparse : ℚ → ℚ} {d : Declaration} {v : ControlValue}
    (h : Survives reparse d v) : readBack reparse d v = v := by
  cases d <;> cases v <;> try rfl
  case slider.num id caption min max default x =>
    obtain ⟨hlo, hhi, q, rfl, hq⟩ := h
    simp only [readBack, hq]
    rw [clampSlider, F64.clamp_of_inside hlo hhi]
  case select.index id caption options default i =>
    simp only [readBack, Nat.min_eq_left h]

-- ============================================================================
-- The mirror in the store
-- ============================================================================

/-- Distinct controls have distinct ids. -/
def DistinctIds (controls : List Control) : Prop := (controls.filterMap Control.id).Nodup

/-- A control of another id leaves the entry alone. -/
theorem get_mirrorControl_of_ne (m : JsonMap) {c : Control} {id : String} (h : c.id ≠ some id) :
    JsonMap.get (mirrorControl m c) id = JsonMap.get m id := by
  rw [mirrorControl]
  split
  · rename_i id' v hid hv
    refine JsonMap.get_insert_of_ne _ _ ?_
    rintro rfl
    exact h hid
  · rfl

theorem get_foldl_mirrorControl_of_ne {controls : List Control} {m : JsonMap} {id : String}
    (h : ∀ c ∈ controls, c.id ≠ some id) :
    JsonMap.get (controls.foldl mirrorControl m) id = JsonMap.get m id := by
  induction controls generalizing m with
  | nil => rfl
  | cons c cs ih =>
      rw [List.foldl_cons, ih fun c hc => h c (List.mem_cons_of_mem _ hc)]
      exact get_mirrorControl_of_ne m (h c (List.mem_cons_self ..))

/-- The mirror holds the value of every control. -/
theorem get_controlsJson {controls : List Control} (hdistinct : DistinctIds controls)
    {c : Control} (hc : c ∈ controls) {id : String} {v : ControlValue} (hid : c.id = some id)
    (hv : c.value = some v) : JsonMap.get (controlsJson controls) id = some v.toJson := by
  rw [controlsJson]
  generalize ([] : JsonMap) = m
  induction controls generalizing m with
  | nil => exact absurd hc (by simp)
  | cons c' cs ih =>
      rw [DistinctIds] at hdistinct ih
      rw [List.foldl_cons]
      rcases List.mem_cons.mp hc with rfl | hmem
      · rw [List.filterMap_cons_some hid, List.nodup_cons] at hdistinct
        have hno : ∀ c' ∈ cs, c'.id ≠ some id := fun c' hc' heq =>
          hdistinct.1 (List.mem_filterMap.mpr ⟨c', hc', heq⟩)
        rw [get_foldl_mirrorControl_of_ne hno]
        simp only [mirrorControl, hid, hv]
        exact (JsonMap.get_insert _ _ _ _).trans (if_pos rfl)
      · refine ih ?_ hmem _
        exact (List.Sublist.filterMap _ (List.sublist_cons_self _ _)).nodup hdistinct

/-- So does the document after `persist_controls`. -/
theorem seed_persistControls {controls : List Control} (hdistinct : DistinctIds controls)
    {c : Control} (hc : c ∈ controls) {id : String} {v : ControlValue} (hid : c.id = some id)
    (hv : c.value = some v) (reparse : ℚ → ℚ) (s : Store) :
    seed (mapFloatsMembers reparse (persistControls controls s).data) id =
      some (v.toJson.mapFloats reparse) := by
  have hget := get_controlsJson hdistinct hc hid hv
  have hne : controlsJson controls ≠ [] := by
    intro hnil
    rw [hnil] at hget
    exact absurd hget (by simp)
  rw [persistControls]
  rw [if_neg hne]
  have hkey : JsonMap.get (s.set storeKey (.object (controlsJson controls))).data storeKey =
      some (.object (controlsJson controls)) := (JsonMap.get_insert _ _ _ _).trans (if_pos rfl)
  rw [seed]
  rw [get_mapFloatsMembers, hkey]
  simp only [Option.map_some, Json.mapFloats]
  rw [get_mapFloatsMembers, hget]
  rfl

-- ============================================================================
-- Sessions
-- ============================================================================

/-- A loaded script with its panel. -/
structure Session (Text : Type) where
  disk : Disk Text
  controls : List Control

def values (controls : List Control) : List (Option ControlValue) := controls.map Control.value

inductive PanelOp (V : Type) where
  /-- The app changes the value of a control in place and calls `persist_controls`. -/
  | edit (i : Nat) (v : ControlValue)
  /-- The script calls `ui.set`. -/
  | uiSet (id : String) (v : V)
  /-- A frame of the script. -/
  | frame
  /-- `flush_if_dirty`, with the outcome of the write. -/
  | flush (written : Bool)

section Session

variable {V Text : Type} (c : Serde Text) (view : LuaView V) (reparse : ℚ → ℚ)
  (decls : List Declaration) (path : Path)

/-- Bind the store, run the declarations, persist what they declared. -/
def Session.load (disk : Disk Text) : Session Text :=
  let disk := disk.bind c path
  let controls := decls.map (·.declare (seed disk.store.data))
  { disk := { disk with store := persistControls controls disk.store }
    controls }

def Session.step (s : Session Text) : PanelOp V → Option (Session Text)
  | .edit i v =>
      let controls := s.controls.modify i (·.withValue v)
      some { disk := { s.disk with store := persistControls controls s.disk.store }
             controls }
  | .uiSet id v => some { s with controls := LuaApi.uiSet view id v s.controls }
  | .frame => some s
  | .flush written => some { s with disk := s.disk.flushIfDirty c written }

/-- `on_unload` of the script, with its calls of `ui.set`. -/
def Session.unload (s : Session Text) (sets : List (String × V)) : Session Text :=
  { s with controls := sets.foldl (fun cs p => LuaApi.uiSet view p.1 p.2 cs) s.controls }

/-- The reload binds the store before the outgoing script is unloaded. -/
def Session.reload (s : Session Text) (sets : List (String × V)) : Session Text :=
  let s := { s with disk := s.disk.bind c path }
  let s := s.unload view sets
  let controls := decls.map (·.declare (seed s.disk.store.data))
  { disk := { s.disk with store := persistControls controls s.disk.store }
    controls }

-- ============================================================================
-- What the events leave
-- ============================================================================

/-- An account of a session kept from its events alone, without store or file. -/
structure Ledger where
  live : List Control
  /-- The panel at the last declaration or edit. -/
  mirrored : List Control
  /-- A value was declared or edited since the last flush. -/
  waiting : Bool
  /-- The values at the last flush that had something to write and did, as they
      are read back; before any the declared ones. -/
  saved : List (Option ControlValue)

/-- Some control of the panel has a value to keep. -/
def hasValues (controls : List Control) : Bool := controls.any fun c => c.value.isSome

/-- The values of a panel after they were written and declared again. -/
def readBackAll (controls : List Control) : List (Option ControlValue) :=
  List.zipWith (fun d v => v.map (readBack reparse d)) decls (values controls)

def Ledger.declared (panel : List Control) : Ledger where
  live := panel
  mirrored := panel
  waiting := hasValues panel
  saved := values panel

def Ledger.note (l : Ledger) : PanelOp V → Ledger
  | .edit i v =>
      let live := l.live.modify i (·.withValue v)
      { l with live, mirrored := live, waiting := l.waiting || hasValues live }
  | .uiSet id v => { l with live := LuaApi.uiSet view id v l.live }
  | .frame => l
  | .flush written =>
      { l with
        waiting := false
        saved := if l.waiting && written then readBackAll reparse decls l.mirrored else l.saved }

/-- The account of a panel after some events. -/
def Ledger.after (panel : List Control) (ops : List (PanelOp V)) : Ledger :=
  ops.foldl (Ledger.note view reparse decls) (Ledger.declared panel)

/-- The calls of `ui.set` that `on_unload` makes. -/
def unloadOps (sets : List (String × V)) : List (PanelOp V) := sets.map fun p => .uiSet p.1 p.2

-- ============================================================================
-- The session follows the ledger
-- ============================================================================

/-- The values the declarations take from a document. -/
def declaredValues (decls : List Declaration) (doc : JsonMap) : List (Option ControlValue) :=
  decls.map fun d => (d.declare (seed doc)).value

/-- The panel is the live one of the ledger, the store mirrors its mirrored
    panel and is dirty while that waits, and the file holds the saved values. -/
structure SessionOk (l : Ledger) (s : Session Text) : Prop where
  shape : List.Forall₂ Declares decls s.controls
  live : s.controls = l.live
  bound : s.disk.store.path = some path
  dirty : s.disk.store.dirty = l.waiting
  mirror : declaredValues decls (mapFloatsMembers reparse s.disk.store.data) =
    readBackAll reparse decls l.mirrored
  file : declaredValues decls (Disk.docOf c s.disk.files path) = l.saved

variable {c view reparse decls path}

/-- The controls of a panel have the ids of their declarations. -/
theorem filterMap_id_eq {controls : List Control} (h : List.Forall₂ Declares decls controls) :
    controls.filterMap Control.id = decls.filterMap Declaration.id := by
  induction h with
  | nil => rfl
  | cons hd _ ih =>
      simp only [List.filterMap_cons, hd.id_eq, ih]

theorem forall₂_modify {controls : List Control} (h : List.Forall₂ Declares decls controls)
    (i : Nat) (v : ControlValue) :
    List.Forall₂ Declares decls (controls.modify i (·.withValue v)) := by
  induction h generalizing i with
  | nil => simp
  | cons hd hl ih =>
      cases i with
      | zero => exact .cons (hd.withValue v) hl
      | succ i => exact .cons hd (ih i)

theorem forall₂_uiSet {controls : List Control} (h : List.Forall₂ Declares decls controls)
    (id : String) (v : V) : List.Forall₂ Declares decls (LuaApi.uiSet view id v controls) := by
  induction h with
  | nil => exact .nil
  | cons hd hl ih =>
      rw [LuaApi.uiSet]
      split
      · exact .cons (hd.setTo view v) hl
      · exact .cons hd ih

theorem forall₂_declare (decls : List Declaration) (seed : String → Option Json) :
    List.Forall₂ Declares decls (decls.map (·.declare seed)) := by
  induction decls with
  | nil => exact .nil
  | cons d ds ih => exact .cons (.declare seed d) ih

/-- Mirroring adds an entry for every control with a value. -/
theorem foldl_mirrorControl_eq_nil_iff {controls : List Control} {m : JsonMap} :
    controls.foldl mirrorControl m = [] ↔ m = [] ∧ hasValues controls = false := by
  induction controls generalizing m with
  | nil => simp [hasValues]
  | cons c cs ih =>
      rw [List.foldl_cons, ih]
      cases hv : c.value with
      | none =>
          have hsame : mirrorControl m c = m := by
            cases hid : c.id <;> simp only [mirrorControl, hid, hv]
          simp [hsame, hasValues, hv]
      | some v =>
          have hne : mirrorControl m c ≠ [] := by
            cases c <;> simp [Control.value] at hv <;>
              exact JsonMap.insert_ne_nil _ _ _
          simp [hne, hasValues, hv]

/-- `persist_controls` dirties the store if and only if there is a value to keep. -/
theorem dirty_persistControls (controls : List Control) (s : Store) :
    (persistControls controls s).dirty = (s.dirty || hasValues controls) := by
  rw [persistControls]
  split
  · rename_i hnil
    rw [(foldl_mirrorControl_eq_nil_iff.mp hnil).2, Bool.or_false]
  · rename_i hne
    have hvalues : hasValues controls = true := by
      by_contra hno
      exact hne (foldl_mirrorControl_eq_nil_iff.mpr ⟨rfl, by simpa using hno⟩)
    rw [hvalues, Bool.or_true]
    rfl

/-- Declaring the panel again from a document that has all values reads them back. -/
theorem declaredValues_of_seed {controls : List Control}
    (h : List.Forall₂ Declares decls controls) {doc : JsonMap}
    (hseed : ∀ c ∈ controls, ∀ id v, c.id = some id → c.value = some v →
      seed doc id = some (v.toJson.mapFloats reparse)) :
    declaredValues decls doc = readBackAll reparse decls controls := by
  induction h with
  | nil => rfl
  | cons hd _ ih =>
      have htail := ih fun c hc => hseed c (List.mem_cons_of_mem _ hc)
      rw [declaredValues, readBackAll, values] at htail ⊢
      simp only [List.map_cons, List.zipWith_cons_cons, htail]
      rw [value_declare hd reparse (hseed _ (List.mem_cons_self ..))]

/-- The document after `persist_controls` mirrors the panel. -/
theorem declaredValues_persistControls (hdistinct : (decls.filterMap Declaration.id).Nodup)
    {controls : List Control} (h : List.Forall₂ Declares decls controls) (s : Store) :
    declaredValues decls (mapFloatsMembers reparse (persistControls controls s).data) =
      readBackAll reparse decls controls := by
  have hids : DistinctIds controls := by
    rw [DistinctIds]
    rw [filterMap_id_eq h]
    exact hdistinct
  exact declaredValues_of_seed h fun c hc id v hid hv =>
    seed_persistControls hids hc hid hv reparse s

theorem sessionOk_load (hdistinct : (decls.filterMap Declaration.id).Nodup) (disk : Disk Text) :
    SessionOk c reparse decls path (Ledger.declared (Session.load c decls path disk).controls)
      (Session.load c decls path disk) where
  shape := forall₂_declare decls _
  live := rfl
  bound := path_persistControls _ _
  dirty := dirty_persistControls _ _
  mirror := declaredValues_persistControls hdistinct (forall₂_declare decls _) _
  file := by simp [declaredValues, Session.load, Ledger.declared, values, Disk.bind]

theorem sessionOk_step (hc : c.RoundTripsUpTo reparse)
    (hdistinct : (decls.filterMap Declaration.id).Nodup) {l : Ledger} {s t : Session Text}
    {op : PanelOp V} (h : SessionOk c reparse decls path l s) (hs : s.step c view op = some t) :
    SessionOk c reparse decls path (l.note view reparse decls op) t := by
  cases op with
  | edit i v =>
      obtain rfl := Option.some.inj hs
      have hshape := forall₂_modify h.shape i v
      refine ⟨hshape, ?_, (path_persistControls _ _).trans h.bound, ?_, ?_, h.file⟩
      · simp only [Ledger.note, h.live]
      · rw [dirty_persistControls, h.dirty, h.live]
        rfl
      · rw [declaredValues_persistControls hdistinct hshape, h.live]
        rfl
  | uiSet id v =>
      obtain rfl := Option.some.inj hs
      refine ⟨forall₂_uiSet h.shape id v, ?_, h.bound, h.dirty, h.mirror, h.file⟩
      simp only [Ledger.note, h.live]
  | frame =>
      obtain rfl := Option.some.inj hs
      exact h
  | flush written =>
      obtain rfl := Option.some.inj hs
      cases hd : s.disk.store.dirty with
      | false =>
          have hwaiting : l.waiting = false := h.dirty.symm.trans hd
          rw [Disk.flushIfDirty_of_clean hd]
          refine ⟨h.shape, h.live, h.bound, hd, h.mirror, ?_⟩
          simpa [Ledger.note, hwaiting] using h.file
      | true =>
          have hwaiting : l.waiting = true := h.dirty.symm.trans hd
          rw [Disk.flushIfDirty_of_bound hd h.bound]
          refine ⟨h.shape, h.live, h.bound, rfl, h.mirror, ?_⟩
          cases written with
          | false => simpa [Ledger.note] using h.file
          | true =>
              -- the file now holds what the document mirrors
              simp only [Ledger.note, hwaiting, Bool.and_self, if_true]
              rw [← h.mirror]
              simp [Disk.docOf, hc s.disk.store.data]

/-- A session keeps to the ledger of its events. -/
theorem sessionOk_run (hc : c.RoundTripsUpTo reparse)
    (hdistinct : (decls.filterMap Declaration.id).Nodup) {disk : Disk Text} {s : Session Text}
    {tr : List (Session Text × PanelOp V)}
    (hrun : Run (Session.step c view) (Session.load c decls path disk) tr s) :
    SessionOk c reparse decls path
      (Ledger.after view reparse decls (Session.load c decls path disk).controls
        (tr.map (·.2))) s := by
  refine hrun.trace_invariant
    (I := fun tr s => SessionOk c reparse decls path
      (Ledger.after view reparse decls (Session.load c decls path disk).controls
        (tr.map (·.2))) s) ?_ (sessionOk_load hdistinct disk)
  intro tr u op v _ hok hs
  rw [List.map_append, Ledger.after, List.foldl_append]
  exact sessionOk_step hc hdistinct hok hs

-- ============================================================================
-- What a reload restores
-- ============================================================================

/-- Calls of `ui.set` change the live panel of the ledger only. -/
theorem foldl_note_unloadOps (l : Ledger) (sets : List (String × V)) :
    (unloadOps sets).foldl (Ledger.note view reparse decls) l =
      { l with live := sets.foldl (fun cs p => LuaApi.uiSet view p.1 p.2 cs) l.live } := by
  induction sets generalizing l with
  | nil => rfl
  | cons p sets ih => exact ih _

/-- A reload restores what is saved, whatever the live values are. -/
theorem values_reload {l : Ledger} {s : Session Text} (h : SessionOk c reparse decls path l s)
    (sets : List (String × V)) :
    values (s.reload c view decls path sets).controls = l.saved := by
  have hfiles : (s.disk.bind c path).store.data = Disk.docOf c s.disk.files path := rfl
  rw [← h.file]
  simp [declaredValues, Session.reload, Session.unload, values, hfiles]

/-- Values that survive are read back as they are. -/
theorem readBackAll_of_survives {controls : List Control}
    (h : List.Forall₂ (fun d v => ∀ x, v = some x → Survives reparse d x) decls
      (values controls)) : readBackAll reparse decls controls = values controls := by
  rw [readBackAll]
  generalize values controls = vs at h ⊢
  induction h with
  | nil => rfl
  | @cons d v ds vs hd _ ih =>
      rw [List.zipWith_cons_cons, ih]
      congr 1
      cases v with
      | none => rfl
      | some x => exact congrArg some (readBack_of_survives (hd x rfl))

/-- **Settings over a reload.**  A script with distinct control ids is loaded,
    runs through any edits, `ui.set` calls, frames and flushes, and is reloaded.
    The ledger of these events and of the `ui.set` calls of `on_unload` says what
    the values are at unload, `live`, and what the reload restores, `saved`: the
    reload restores the values at unload if and only if the two agree.  Mirrored
    values inside their bounds that the parser keeps are saved as they are. -/
theorem settings_survive_iff (hc : c.RoundTripsUpTo reparse)
    (hdistinct : (decls.filterMap Declaration.id).Nodup) {disk : Disk Text} {s : Session Text}
    {tr : List (Session Text × PanelOp V)}
    (hrun : Run (Session.step c view) (Session.load c decls path disk) tr s)
    (sets : List (String × V)) :
    let l := Ledger.after view reparse decls (Session.load c decls path disk).controls
      (tr.map (·.2) ++ unloadOps sets)
    values (s.unload view sets).controls = values l.live ∧
    values (s.reload c view decls path sets).controls = l.saved ∧
    (values (s.reload c view decls path sets).controls = values (s.unload view sets).controls ↔
      values l.live = l.saved) ∧
    (List.Forall₂ (fun d v => ∀ x, v = some x → Survives reparse d x) decls
        (values l.mirrored) →
      readBackAll reparse decls l.mirrored = values l.mirrored) := by
  intro l
  have hok := sessionOk_run hc hdistinct hrun
  have hl : l = { Ledger.after view reparse decls (Session.load c decls path disk).controls
      (tr.map (·.2)) with live := (s.unload view sets).controls } := by
    simp only [l, Ledger.after, List.foldl_append, foldl_note_unloadOps, Session.unload, hok.live]
  have hlive : values (s.unload view sets).controls = values l.live := by rw [hl]
  have hsaved : values (s.reload c view decls path sets).controls = l.saved := by
    rw [values_reload hok, hl]
  refine ⟨hlive, hsaved, ?_, readBackAll_of_survives⟩
  rw [hlive, hsaved]
  exact eq_comm

end Session

/-- A codec whose text is the document with its floats changed. -/
def approxSerde (f : ℚ → ℚ) : Serde JsonMap where
  toStringPretty := mapFloatsMembers f
  fromStr := fun m => some (.object m)

/-- A panel of one checkbox, and no file yet. -/
def showPanel : Session JsonMap :=
  Session.load (approxSerde id) [.checkbox "show" "Show box" (some true)] "a.json"
    (Disk.start fun _ => none)

/-- The script hides the box; the store is flushed. -/
def hideBox : List (PanelOp Json) := [.uiSet "show" (.bool false), .flush true]

/-- The reload shows the box again. -/
theorem not_settings_survive :
    ¬ ∀ (tr : List (Session JsonMap × PanelOp Json)) (s : Session JsonMap)
        (sets : List (String × Json)),
      Run (Session.step (approxSerde id) jsonView) showPanel tr s →
      values (s.reload (approxSerde id) jsonView [.checkbox "show" "Show box" (some true)]
        "a.json" sets).controls = values (s.unload jsonView sets).controls := by
  intro h
  have hvalues := h _ _ [] (run_final (rfl : (exec (Session.step (approxSerde id) jsonView)
    showPanel hideBox).isSome = true))
  exact absurd hvalues (by decide)

/-- An edit that has been flushed is restored. -/
theorem settings_survive_edit :
    let s := final (Session.step (approxSerde id) jsonView) showPanel
      [.edit 0 (.bool false), .flush true]
    values (s.reload (approxSerde id) jsonView [.checkbox "show" "Show box" (some true)] "a.json"
      []).controls = values (s.unload jsonView []).controls :=
  (settings_survive_iff (fun _ => rfl) (by decide) (run_final rfl) []).2.2.1.mpr (by decide)

end LuaApi
end SniLua
