/-
  SniLua.App.ScriptLoad

  Which document do a script's store calls reach?  The app binds the store to the
  new script's file and then loads the script; loading first fires `on_unload` of
  the outgoing script, so its calls work on the store of the incoming one.

  The UI thread runs everything here: a load, a frame, an edit of the panel, a
  flush and the exit are one step each, with the store calls the script code
  makes in it.  `HostOk` is the invariant: a running script is the one the store
  was bound for last, and the store writes to that script's file.
-/

import SniLua.LuaApi.Panel

namespace SniLua
namespace App

open Lib LuaApi

-- ============================================================================
-- The host
-- ============================================================================

/-- The script host and the files of its store. -/
structure Host (Script Text : Type) where
  disk : Disk Text
  /-- The loaded script; `none` before the first load, after a failed one and
      once `on_frame` has raised an error. -/
  running : Option Script
  /-- The script `bind_store` was called for last. -/
  owner : Option Script

/-- What the code of a script does while it is loaded. -/
structure StartRun (V : Type) where
  /-- The store calls of the top level and of `on_init`. -/
  calls : List (StoreCall V)
  /-- Neither raised an error. -/
  ok : Bool
  /-- The panel it declared. -/
  controls : List Control

inductive Event (Script V : Type) where
  /-- `load_script_from_path`, with the calls of the outgoing `on_unload`;
      `none`: the script file cannot be read. -/
  | load (script : Script) (unload : List (StoreCall V)) (code : Option (StartRun V))
  /-- `run_frame`, with the calls of HTTP callbacks and `on_frame`. -/
  | frame (calls : List (StoreCall V)) (ok : Bool)
  /-- The app calls `persist_controls` after an edit of the panel. -/
  | edit (controls : List Control)
  /-- `flush_if_dirty`, with the outcome of the write. -/
  | flush (written : Bool)
  /-- `unload` at exit, with the calls of `on_unload`. -/
  | exit (calls : List (StoreCall V))

section Host

variable {Script V Text : Type} (c : Serde Text) (view : LuaView V)
  (storePath : Script → Option Path)

namespace Host

/-- `bind_store(Config::store_path_for(script))`. -/
def bindStore (script : Script) (s : Host Script Text) : Host Script Text :=
  { s with
    disk := match storePath script with
      | some path => s.disk.bind c path
      | none => { s.disk with store := s.disk.store.unbind }
    owner := some script }

/-- Script code makes its store calls. -/
def runCalls (calls : List (StoreCall V)) (s : Host Script Text) : Host Script Text :=
  { s with disk := { s.disk with store := calls.foldl (StoreCall.run view) s.disk.store } }

/-- Only a loaded script has its `on_unload` fired. -/
def fireUnload (calls : List (StoreCall V)) (s : Host Script Text) : Host Script Text :=
  if s.running.isSome then { s.runCalls view calls with running := none } else s

/-- `load_script` after `fire_unload`: run the code, persist the panel. -/
def startScript (script : Script) (code : StartRun V) (s : Host Script Text) :
    Host Script Text :=
  let s := s.runCalls view code.calls
  if code.ok then
    { s with
      disk := { s.disk with store := persistControls code.controls s.disk.store }
      running := some script }
  else { s with running := none }

def loadScriptFromPath (script : Script) (unload : List (StoreCall V))
    (code : Option (StartRun V)) (s : Host Script Text) : Host Script Text :=
  match code with
  | none => s
  | some code =>
      -- the store is bound before the outgoing script is unloaded
      ((s.bindStore c storePath script).fireUnload view unload).startScript view script code

/-- An error in `on_frame` stops the script. -/
def runFrame (calls : List (StoreCall V)) (ok : Bool) (s : Host Script Text) :
    Host Script Text :=
  if s.running.isSome then
    { s.runCalls view calls with running := if ok then s.running else none }
  else s

def step (s : Host Script Text) : Event Script V → Option (Host Script Text)
  | .load script unload code => some (s.loadScriptFromPath c view storePath script unload code)
  | .frame calls ok => some (s.runFrame view calls ok)
  | .edit controls =>
      some { s with disk := { s.disk with store := persistControls controls s.disk.store } }
  | .flush written => some { s with disk := s.disk.flushIfDirty c written }
  | .exit calls => some (s.fireUnload view calls)

/-- No script loaded yet, any files on disk. -/
def start (files : Path → Option Text) : Host Script Text :=
  { disk := Disk.start files, running := none, owner := none }

-- ============================================================================
-- Store calls
-- ============================================================================

/-- A document after store calls. -/
def docAfter (calls : List (StoreCall V)) (doc : JsonMap) : JsonMap :=
  (calls.foldl (StoreCall.run view) { data := doc, path := none, dirty := false }).data

variable {c view storePath}

theorem data_run (call : StoreCall V) {s t : Store} (h : s.data = t.data) :
    (call.run view s).data = (call.run view t).data := by
  rcases call.run_eq view with hrun | ⟨op, hrun⟩
  · rw [hrun, hrun, h]
  · rw [hrun, hrun]
    exact Store.data_apply_congr op h

theorem data_foldl (calls : List (StoreCall V)) {s t : Store} (h : s.data = t.data) :
    (calls.foldl (StoreCall.run view) s).data = (calls.foldl (StoreCall.run view) t).data := by
  induction calls generalizing s t with
  | nil => exact h
  | cons call calls ih => exact ih (data_run call h)

/-- Calls do not move the binding. -/
theorem path_run (call : StoreCall V) (s : Store) : (call.run view s).path = s.path := by
  rcases call.run_eq view with hrun | ⟨op, hrun⟩
  · rw [hrun]
  · rw [hrun]
    exact Store.path_apply s op

theorem path_foldl (calls : List (StoreCall V)) (s : Store) :
    (calls.foldl (StoreCall.run view) s).path = s.path := by
  induction calls generalizing s with
  | nil => rfl
  | cons call calls ih => exact (ih _).trans (path_run call s)

-- ============================================================================
-- The invariant
-- ============================================================================

/-- A running script owns the store, and the store is bound to its owner's file. -/
structure HostOk (storePath : Script → Option Path) (s : Host Script Text) : Prop where
  owns : ∀ script, s.running = some script → s.owner = some script
  bound : s.disk.store.path = s.owner.bind storePath

theorem hostOk_start (files : Path → Option Text) :
    HostOk storePath (start files : Host Script Text) where
  owns := by simp [start]
  bound := rfl

theorem hostOk_runCalls {s : Host Script Text} (h : HostOk storePath s)
    (calls : List (StoreCall V)) : HostOk storePath (s.runCalls view calls) where
  owns := h.owns
  bound := (path_foldl calls s.disk.store).trans h.bound

/-- Stopping the script keeps the invariant. -/
theorem HostOk.stopped {s : Host Script Text} (h : HostOk storePath s) :
    HostOk storePath { s with running := none } where
  owns := by simp
  bound := h.bound

variable (c storePath) in
theorem path_bindStore (script : Script) (s : Host Script Text) :
    (s.bindStore c storePath script).disk.store.path = storePath script := by
  rw [bindStore]
  cases storePath script <;> rfl

variable (c storePath) in
theorem files_bindStore (script : Script) (s : Host Script Text) :
    (s.bindStore c storePath script).disk.files = s.disk.files := by
  rw [bindStore]
  cases storePath script <;> rfl

variable (c view storePath) in
/-- Binding for a script breaks `owns` until the outgoing script is unloaded. -/
theorem bound_fireUnload_bindStore (script : Script) (unload : List (StoreCall V))
    (s : Host Script Text) :
    let unloaded := (s.bindStore c storePath script).fireUnload view unload
    unloaded.owner = some script ∧ unloaded.disk.store.path = storePath script := by
  have hpath := path_bindStore c storePath script s
  simp only [fireUnload]
  split
  · exact ⟨rfl, (path_foldl unload _).trans hpath⟩
  · exact ⟨rfl, hpath⟩

theorem path_flushIfDirty (disk : Disk Text) (written : Bool) :
    (disk.flushIfDirty c written).store.path = disk.store.path := by
  cases hd : disk.store.dirty with
  | false => rw [Disk.flushIfDirty_of_clean hd]
  | true =>
      cases hp : disk.store.path with
      | none => rw [Disk.flushIfDirty_of_unbound hd hp, hp]
      | some path => rw [Disk.flushIfDirty_of_bound hd hp, hp]

theorem hostOk_step {s t : Host Script Text} {e : Event Script V} (h : HostOk storePath s)
    (hs : s.step c view storePath e = some t) : HostOk storePath t := by
  cases e with
  | load script unload code =>
      obtain rfl := Option.some.inj hs
      cases code with
      | none => exact h
      | some code =>
          obtain ⟨howner, hpath⟩ := bound_fireUnload_bindStore c view storePath script unload s
          have hbound :
              (code.calls.foldl (StoreCall.run view)
                ((s.bindStore c storePath script).fireUnload view unload).disk.store).path =
                storePath script := (path_foldl code.calls _).trans hpath
          simp only [loadScriptFromPath, startScript]
          split
          · refine ⟨fun script' hrun => howner.trans hrun, ?_⟩
            refine (path_persistControls _ _).trans (hbound.trans ?_)
            exact (congrArg (·.bind storePath) howner).symm
          · refine ⟨by simp, hbound.trans ?_⟩
            exact (congrArg (·.bind storePath) howner).symm
  | frame calls ok =>
      obtain rfl := Option.some.inj hs
      rw [runFrame]
      split
      · cases ok with
        | true => exact hostOk_runCalls h calls
        | false => exact (hostOk_runCalls h calls).stopped
      · exact h
  | edit controls =>
      obtain rfl := Option.some.inj hs
      exact ⟨h.owns, (path_persistControls _ _).trans h.bound⟩
  | flush written =>
      obtain rfl := Option.some.inj hs
      exact ⟨h.owns, (path_flushIfDirty _ _).trans h.bound⟩
  | exit calls =>
      obtain rfl := Option.some.inj hs
      rw [fireUnload]
      split
      · exact (hostOk_runCalls h calls).stopped
      · exact h

/-- The document after `bind_store` and `on_unload`. -/
theorem data_fireUnload_bindStore (script : Script) (unload : List (StoreCall V))
    (s : Host Script Text) :
    ((s.bindStore c storePath script).fireUnload view unload).disk.store.data =
      docAfter view (if s.running.isSome then unload else [])
        (match storePath script with
          | some path => Disk.docOf c s.disk.files path
          | none => s.disk.store.data) := by
  have hrunning : (s.bindStore c storePath script).running = s.running := rfl
  have hdata : (s.bindStore c storePath script).disk.store.data =
      match storePath script with
      | some path => Disk.docOf c s.disk.files path
      | none => s.disk.store.data := by
    rw [bindStore]
    cases storePath script <;> rfl
  rw [fireUnload]
  rw [hrunning]
  split
  · exact data_foldl unload hdata
  · exact hdata

-- ============================================================================
-- Isolation
-- ============================================================================

variable (c view storePath)

/-- The file of a script. -/
def fileFor (s : Host Script Text) (script : Script) : Option Text :=
  (storePath script).bind s.disk.files

/-- The document a script's own file holds. -/
def ownDoc (s : Host Script Text) (script : Script) : JsonMap :=
  match storePath script with
  | some path => Disk.docOf c s.disk.files path
  | none => []

/-- Loading writes no file. -/
theorem ownDoc_fireUnload_bindStore (script script' : Script) (unload : List (StoreCall V))
    (s : Host Script Text) :
    ((s.bindStore c storePath script).fireUnload view unload).ownDoc c storePath script' =
      s.ownDoc c storePath script' := by
  have hfiles : ((s.bindStore c storePath script).fireUnload view unload).disk.files =
      s.disk.files := by
    rw [← files_bindStore c storePath script s]
    rw [fireUnload]
    split <;> rfl
  rw [ownDoc, ownDoc, hfiles]

variable [DecidableEq Script]

/-- The document bound for a script, if the store is bound for it. -/
def docFor (s : Host Script Text) (script : Script) : Option JsonMap :=
  if s.owner = some script then some s.disk.store.data else none

/-- A call by the code of `script` reaches its document, and changes no document
    or file of another script. -/
def CallIsolated (script : Script) (call : StoreCall V) (s : Host Script Text) : Prop :=
  (∃ doc, s.docFor script = some doc) ∧
    (s.runCalls view [call]).docFor script = some (call.run view s.disk.store).data ∧
    ∀ other, other ≠ script →
      (s.runCalls view [call]).docFor other = s.docFor other ∧
        (s.runCalls view [call]).fileFor storePath other = s.fileFor storePath other

/-- Every call of a list does. -/
def CallsIsolated (script : Script) : List (StoreCall V) → Host Script Text → Prop
  | [], _ => True
  | call :: calls, s =>
      CallIsolated view storePath script call s ∧
        CallsIsolated script calls (s.runCalls view [call])

/-- The host's own work touches the bound document and its file only. -/
def OthersUnchanged (s t : Host Script Text) : Prop :=
  ∀ other, s.owner ≠ some other →
    t.docFor other = s.docFor other ∧ t.fileFor storePath other = s.fileFor storePath other

/-- All store calls of the step are isolated, and a newly loaded script sees the
    document of its own file when its code starts. -/
def Isolated (s : Host Script Text) : Event Script V → Prop
  | .load script unload code =>
      ∀ run, code = some run →
        let bound := s.bindStore c storePath script
        let unloaded := bound.fireUnload view unload
        (∀ outgoing, s.running = some outgoing →
          CallsIsolated view storePath outgoing unload bound) ∧
        unloaded.disk.store.data = unloaded.ownDoc c storePath script ∧
        CallsIsolated view storePath script run.calls unloaded
  | .frame calls _ | .exit calls =>
      ∀ script, s.running = some script → CallsIsolated view storePath script calls s
  | .edit controls =>
      OthersUnchanged storePath s
        { s with disk := { s.disk with store := persistControls controls s.disk.store } }
  | .flush written =>
      OthersUnchanged storePath s { s with disk := s.disk.flushIfDirty c written }

/-- A load makes store calls in `on_unload` only when it reloads the same script,
    and these leave the document as the file holds it.  A script without a file
    starts from what is left in memory, which has to be empty. -/
def LoadsCleanly (s : Host Script Text) : Event Script V → Prop
  | .load script unload (some _) =>
      (∀ outgoing, s.running = some outgoing → unload ≠ [] → outgoing = script) ∧
      docAfter view (if s.running.isSome then unload else [])
          (match storePath script with
            | some path => Disk.docOf c s.disk.files path
            | none => s.disk.store.data) =
        s.ownDoc c storePath script
  | _ => True

variable {c view storePath}

/-- What happens to the bound document happens to no other script's. -/
theorem docFor_of_ne {s t : Host Script Text} {other : Script} (howner : t.owner = s.owner)
    (h : s.owner ≠ some other) : t.docFor other = s.docFor other := by
  rw [docFor, docFor, howner, if_neg h, if_neg h]

/-- A call is isolated exactly when the store is bound for the caller. -/
theorem callIsolated_iff (script : Script) (call : StoreCall V) (s : Host Script Text) :
    CallIsolated view storePath script call s ↔ s.owner = some script := by
  constructor
  · rintro ⟨⟨doc, hdoc⟩, -, -⟩
    by_contra hno
    rw [docFor, if_neg hno] at hdoc
    exact absurd hdoc (by simp)
  · intro h
    refine ⟨⟨s.disk.store.data, by rw [docFor, if_pos h]⟩, ?_, ?_⟩
    · exact if_pos h
    · intro other hne
      have hother : s.owner ≠ some other := fun heq =>
        hne (Option.some.inj (heq.symm.trans h))
      exact ⟨docFor_of_ne rfl hother, rfl⟩

/-- So are the calls of a list, an empty one apart. -/
theorem callsIsolated_iff (script : Script) (calls : List (StoreCall V))
    (s : Host Script Text) :
    CallsIsolated view storePath script calls s ↔ (calls ≠ [] → s.owner = some script) := by
  induction calls generalizing s with
  | nil => simp [CallsIsolated]
  | cons call calls ih =>
      rw [CallsIsolated, callIsolated_iff, ih]
      constructor
      · rintro ⟨h, -⟩ _
        exact h
      · intro h
        exact ⟨h (by simp), fun _ => h (by simp)⟩

-- ============================================================================
-- The steps
-- ============================================================================

/-- A flush writes no file but the owner's: no two scripts share one. -/
theorem othersUnchanged_flush {s : Host Script Text} (h : HostOk storePath s)
    (hpaths : ∀ a b path, storePath a = some path → storePath b = some path → a = b)
    (written : Bool) :
    OthersUnchanged storePath s { s with disk := s.disk.flushIfDirty c written } := by
  intro other hother
  refine ⟨docFor_of_ne rfl hother, ?_⟩
  unfold fileFor
  cases hfile : storePath other with
  | none => rfl
  | some path' =>
      simp only [Option.bind_some]
      cases hd : s.disk.store.dirty with
      | false => rw [Disk.flushIfDirty_of_clean hd]
      | true =>
          cases hpath : s.disk.store.path with
          | none => rw [Disk.flushIfDirty_of_unbound hd hpath]
          | some path =>
              rw [Disk.flushIfDirty_of_bound hd hpath]
              cases written with
              | false => rfl
              | true =>
                  refine if_neg ?_
                  rintro rfl
                  -- the bound path is the owner's
                  obtain ⟨script, howner, hscript⟩ :=
                    Option.bind_eq_some_iff.mp (h.bound.symm.trans hpath)
                  exact hother (hpaths script other _ hscript hfile ▸ howner)

/-- A step from a state with the invariant is isolated exactly when it loads
    cleanly. -/
theorem isolated_iff {s : Host Script Text} (h : HostOk storePath s)
    (hpaths : ∀ a b path, storePath a = some path → storePath b = some path → a = b)
    (e : Event Script V) :
    Isolated c view storePath s e ↔ LoadsCleanly c view storePath s e := by
  cases e with
  | load script unload code =>
      cases code with
      | none => simp [Isolated, LoadsCleanly]
      | some code =>
          simp only [Isolated, LoadsCleanly, Option.some.injEq, forall_eq', callsIsolated_iff,
            data_fireUnload_bindStore, ownDoc_fireUnload_bindStore]
          have howner := (bound_fireUnload_bindStore c view storePath script unload s).1
          constructor
          · rintro ⟨hcalls, hdoc, -⟩
            refine ⟨fun outgoing hrun hne => ?_, hdoc⟩
            exact (Option.some.inj (hcalls outgoing hrun hne)).symm
          · rintro ⟨hcalls, hdoc⟩
            refine ⟨fun outgoing hrun hne => ?_, hdoc, fun _ => howner⟩
            rw [hcalls outgoing hrun hne]
            rfl
  | frame calls ok =>
      simp only [Isolated, LoadsCleanly, callsIsolated_iff, iff_true]
      exact fun script hrun _ => h.owns script hrun
  | exit calls =>
      simp only [Isolated, LoadsCleanly, callsIsolated_iff, iff_true]
      exact fun script hrun _ => h.owns script hrun
  | edit controls =>
      simp only [Isolated, LoadsCleanly, iff_true]
      intro other hother
      exact ⟨docFor_of_ne rfl hother, rfl⟩
  | flush written =>
      simp only [Isolated, LoadsCleanly, iff_true]
      exact othersUnchanged_flush h hpaths written

/-- **Store isolation.**  With distinct files for distinct scripts, all steps of
    a run are isolated if and only if all its loads are clean. -/
theorem store_isolated_iff
    (hpaths : ∀ a b path, storePath a = some path → storePath b = some path → a = b)
    {files : Path → Option Text} {tr : List (Host Script Text × Event Script V)}
    {t : Host Script Text} (hrun : Run (step c view storePath) (start files) tr t) :
    (∀ x ∈ tr, Isolated c view storePath x.1 x.2) ↔
      ∀ x ∈ tr, LoadsCleanly c view storePath x.1 x.2 := by
  have hstep : ∀ x ∈ tr, (Isolated c view storePath x.1 x.2 ↔
      LoadsCleanly c view storePath x.1 x.2) := by
    intro x hx
    obtain ⟨pre, post, -, hpre⟩ := hrun.prefix_of_mem hx
    have hok : HostOk storePath x.1 :=
      hpre.invariant (P := fun _ _ => True) (fun _ _ _ _ hu hs => hostOk_step hu hs)
        (fun _ _ => trivial) (hostOk_start files)
    exact isolated_iff hok hpaths x.2
  exact ⟨fun h x hx => (hstep x hx).mp (h x hx), fun h x hx => (hstep x hx).mpr (h x hx)⟩

end Host
end Host

/-- Two scripts with a file each: `a` when it holds `true`. -/
def twoPaths (script : Bool) : Option Path := some (if script then "a.json" else "b.json")

theorem twoPaths_injective (a b : Bool) (path : Path) (ha : twoPaths a = some path)
    (hb : twoPaths b = some path) : a = b := by
  cases a <;> cases b
  · rfl
  · exact absurd (ha.trans hb.symm) (by decide)
  · exact absurd (ha.trans hb.symm) (by decide)
  · rfl

/-- A script without store calls and controls. -/
def emptyScript : StartRun Json := { calls := [], ok := true, controls := [] }

/-- One script is loaded, and then the other; the first saves in `on_unload`. -/
def switchScripts : List (Event Bool Json) :=
  [.load true [] (some emptyScript),
   .load false [.set "saved" (.bool true)] (some emptyScript)]

/-- What the first one saves ends in the document of the second. -/
theorem not_store_isolated :
    ¬ ∀ (tr : List (Host Bool JsonMap × Event Bool Json)) (t : Host Bool JsonMap),
      Run (Host.step Disk.plainSerde jsonView twoPaths) (Host.start fun _ => none) tr t →
      ∀ x ∈ tr, Host.Isolated Disk.plainSerde jsonView twoPaths x.1 x.2 := by
  intro h
  have hrun : Run (Host.step Disk.plainSerde jsonView twoPaths) (Host.start fun _ => none) _ _ :=
    run_final (rfl : (exec (Host.step Disk.plainSerde jsonView twoPaths)
      (Host.start fun _ => none) switchScripts).isSome = true)
  obtain ⟨hcalls, -⟩ := h _ _ hrun (_, .load false [.set "saved" (.bool true)] (some emptyScript))
    (List.mem_cons_of_mem _ (List.mem_singleton_self _)) _ rfl
  have howner := (Host.callsIsolated_iff _ _ _).mp (hcalls true rfl) (by simp)
  exact absurd howner (by simp [Host.bindStore])

/-- The first script saves and is flushed, before the second one is loaded. -/
def saveAndSwitch : List (Event Bool Json) :=
  [.load true [] (some emptyScript), .frame [.set "pb" (.bool true)] true, .flush true,
   .load false [] (some emptyScript)]

/-- The second one starts with the empty document of its own missing file. -/
theorem store_isolated_saveAndSwitch :
    Host.Isolated Disk.plainSerde jsonView twoPaths
      (final (Host.step Disk.plainSerde jsonView twoPaths) (Host.start fun _ => none)
        (saveAndSwitch.take 3))
      (.load false [] (some emptyScript)) :=
  (Host.store_isolated_iff twoPaths_injective
    (run_final (rfl : (exec (Host.step Disk.plainSerde jsonView twoPaths)
      (Host.start fun _ => none) saveAndSwitch).isSome = true))).mpr (by
    intro x hx
    simp only [trace, Host.step, saveAndSwitch, List.mem_cons, List.not_mem_nil, or_false] at hx
    rcases hx with rfl | rfl | rfl | rfl
    · exact ⟨by simp, rfl⟩
    · exact trivial
    · exact trivial
    · exact ⟨by simp, rfl⟩) (_, _)
    (List.mem_cons_of_mem _ (List.mem_cons_of_mem _ (List.mem_cons_of_mem _
      (List.mem_singleton_self _))))

end App
end SniLua
