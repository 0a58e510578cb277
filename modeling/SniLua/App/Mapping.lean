/-
  SniLua.App.Mapping

  The memory mapping the UI shows next to the selected device.  The selection
  changes in four places of the actor; the mapping is written by a successful
  `detect_mapping` only, and dropped by a disconnect only.

  `Observed` remembers, beside the actor, what `detect_mapping` has answered on the
  client the actor holds.  A command that changes the selection or the client and
  gets no answer leaves the mapping of another device behind (`Remaps` excludes
  exactly these).
-/

import SniLua.App.SniActor

namespace SniLua
namespace App

variable {Client : Type}

namespace Actor

-- ============================================================================
-- What a command selects and detects
-- ============================================================================

/-- The selection after `list_devices`: a failure keeps it. -/
def relisted (selected : Option String) (o : Outcomes Client) : Option String :=
  match o.listDevices with
  | .ok devices => keepOrFirst selected devices
  | .error _ => selected

/-- The device selected after a command. -/
def selects (a : Actor Client) (o : Outcomes Client) : Cmd → Option String
  | .connect _ =>
      match o.connect with
      | .ok _ => relisted a.state.selectedUri o
      | .error _ => a.state.selectedUri
  | .disconnect => none
  | .refreshDevices =>
      if a.client.isSome then relisted a.state.selectedUri o else a.state.selectedUri
  | .selectDevice uri => some uri
  | .probe _ | .write _ _ => a.state.selectedUri

/-- The device whose mapping a command asks for, if it gets to ask. -/
def asksFor (a : Actor Client) (o : Outcomes Client) : Cmd → Option String
  | .connect _ =>
      match o.connect with
      | .ok _ => relisted a.state.selectedUri o
      | .error _ => none
  | .refreshDevices => if a.client.isSome then relisted a.state.selectedUri o else none
  | .selectDevice uri => if a.client.isSome then some uri else none
  | .disconnect | .probe _ | .write _ _ => none

/-- The successful detection of a command, with its device. -/
def detects (a : Actor Client) (o : Outcomes Client) (cmd : Cmd) :
    Option (String × MemoryMapping) :=
  match a.asksFor o cmd, o.detectMapping with
  | some u, .ok m => some (u, m)
  | _, _ => none

/-- The command replaces or drops the client. -/
def dropsClient (o : Outcomes Client) : Cmd → Bool
  | .connect _ => o.connect.isOk
  | .disconnect => true
  | _ => false

/-- What is detected is the mapping of the device selected then. -/
theorem selects_of_detects {a : Actor Client} {o : Outcomes Client} {cmd : Cmd} {u : String}
    {m : MemoryMapping} (h : a.detects o cmd = some (u, m)) : a.selects o cmd = some u := by
  have hasks : a.asksFor o cmd = some u := by
    rw [detects] at h
    split at h
    · rename_i hasks _
      obtain ⟨rfl, -⟩ := Prod.mk.inj (Option.some.inj h)
      exact hasks
    · exact absurd h (by simp)
  cases cmd with
  | connect endpoint =>
      rw [asksFor] at hasks
      rw [selects]
      split at hasks
      · exact hasks
      · exact absurd hasks (by simp)
  | refreshDevices =>
      rw [asksFor] at hasks
      rw [selects]
      split at hasks
      · rename_i hclient
        rw [if_pos hclient]
        exact hasks
      · exact absurd hasks (by simp)
  | selectDevice uri =>
      rw [asksFor] at hasks
      split at hasks
      · exact hasks
      · exact absurd hasks (by simp)
  | _ => exact absurd hasks (by simp [asksFor])

-- ============================================================================
-- What a command leaves selected and mapped
-- ============================================================================

/-- The mapping after a detection was tried. -/
theorem detectMapping_mapping (a : Actor Client) (o : Outcomes Client) :
    (a.detectMapping o).state.mapping =
      match a.client, o.detectMapping with
      | some _, .ok m => some m
      | _, _ => a.state.mapping := by
  rw [detectMapping]
  cases a.client with
  | none => rfl
  | some c => cases o.detectMapping <;> rfl

/-- Detecting the mapping of the selection, when there is one. -/
theorem detectSelected_state {a : Actor Client} (o : Outcomes Client) (hclient : a.client.isSome) :
    let b := match a.state.selectedUri with
      | some _ => a.detectMapping o
      | none => a
    b.republishSlot.state.selectedUri = a.state.selectedUri ∧
      b.republishSlot.state.mapping =
        match a.state.selectedUri, o.detectMapping with
        | some _, .ok m => some m
        | _, _ => a.state.mapping := by
  obtain ⟨c, hc⟩ := Option.isSome_iff_exists.mp hclient
  cases hsel : a.state.selectedUri with
  | none => exact ⟨hsel, rfl⟩
  | some u =>
      refine ⟨(detectMapping_selectedUri a o).trans hsel, (detectMapping_mapping a o).trans ?_⟩
      rw [hc]
      cases o.detectMapping <;> rfl

/-- A refresh with a client lists and then detects the mapping of the selection. -/
theorem refreshDevices_state {a : Actor Client} (o : Outcomes Client) (hclient : a.client.isSome) :
    (a.refreshDevices o).state.selectedUri = relisted a.state.selectedUri o ∧
      (a.refreshDevices o).state.mapping =
        match relisted a.state.selectedUri o, o.detectMapping with
        | some _, .ok m => some m
        | _, _ => a.state.mapping := by
  obtain ⟨state, client, slot⟩ := a
  obtain ⟨c, rfl⟩ := Option.isSome_iff_exists.mp hclient
  rw [refreshDevices, relisted]
  cases o.listDevices with
  | ok devices =>
      exact detectSelected_state
        (a := ⟨{ state with selectedUri := keepOrFirst state.selectedUri devices, devices },
          some c, slot⟩) o rfl
  | error e =>
      exact detectSelected_state
        (a := (⟨state, some c, slot⟩ : Actor Client).setConn (.error ("list devices: " ++ e))) o rfl

/-- The selection and the mapping after a command. -/
theorem handle_state (a : Actor Client) (o : Outcomes Client) (cmd : Cmd) :
    (a.handle o cmd).state.selectedUri = a.selects o cmd ∧
      (a.handle o cmd).state.mapping =
        if cmd = .disconnect then none
        else ((a.detects o cmd).map (·.2)).or a.state.mapping := by
  cases cmd with
  | connect endpoint =>
      cases hconnect : o.connect with
      | error e =>
          simp [handle, connect, hconnect, selects, detects, asksFor, setConn]
      | ok c =>
          have hrefresh := refreshDevices_state
            (a := { a.setConn .connecting with client := some c }.setConn .connected) o rfl
          simp only [handle, connect, hconnect, selects, detects, asksFor]
          refine ⟨hrefresh.1, hrefresh.2.trans ?_⟩
          simp only [setConn]
          cases relisted a.state.selectedUri o <;> cases o.detectMapping <;> rfl
  | disconnect => exact ⟨rfl, rfl⟩
  | refreshDevices =>
      cases hclient : a.client with
      | none => simp [handle, refreshDevices, hclient, selects, detects, asksFor]
      | some c =>
          have hrefresh := refreshDevices_state (a := a) o (by rw [hclient]; rfl)
          simp only [handle, selects, detects, asksFor, hclient, Option.isSome_some, if_true]
          refine ⟨hrefresh.1, hrefresh.2.trans ?_⟩
          cases relisted a.state.selectedUri o <;> cases o.detectMapping <;> rfl
  | selectDevice uri =>
      simp only [handle, selectDevice, republishSlot, selects, detects, asksFor]
      refine ⟨detectMapping_selectedUri _ _, (detectMapping_mapping _ _).trans ?_⟩
      cases a.client <;> cases o.detectMapping <;> rfl
  | probe region => exact ⟨rfl, rfl⟩
  | write region data => exact ⟨rfl, rfl⟩

end Actor

-- ============================================================================
-- The actor and what it has detected
-- ============================================================================

/-- The actor with the history of its client. -/
structure Observed (Client : Type) where
  actor : Actor Client
  /-- What `detect_mapping` has answered on the client the actor holds, latest first. -/
  detected : List (String × MemoryMapping)

namespace Observed

def spawn : Observed Client := { actor := .spawn, detected := [] }

def handle (w : Observed Client) (e : Cmd × Outcomes Client) : Observed Client :=
  { actor := w.actor.handle e.2 e.1
    detected := (w.actor.detects e.2 e.1).toList ++
      if Actor.dropsClient e.2 e.1 then [] else w.detected }

/-- The actor and its history after a sequence of commands. -/
def run (es : List (Cmd × Outcomes Client)) : Observed Client := es.foldl handle spawn

theorem run_snoc (es : List (Cmd × Outcomes Client)) (e : Cmd × Outcomes Client) :
    run (es ++ [e]) = (run es).handle e := by
  rw [run, List.foldl_append]
  rfl

/-- The history is only looked on. -/
theorem actor_run (es : List (Cmd × Outcomes Client)) :
    (run es).actor = (Actor.spawn : Actor Client).run es := by
  induction es using List.reverseRecOn with
  | nil => rfl
  | append_singleton es e ih =>
      rw [run_snoc, Actor.run_snoc, ← ih]
      rfl

/-- The mapping shown is the latest one detected for the selected device on the
    client the actor holds. -/
def MappingOfSelected (w : Observed Client) : Prop :=
  ∀ m, w.actor.state.mapping = some m →
    ∃ u, w.actor.state.selectedUri = some u ∧ w.detected.lookup u = some m

/-- A command that does not leave the mapping of another device behind: there is
    none to leave, or it is dropped, or it is detected anew, or the client stays and
    the device selected then is the one before, or one whose mapping was last
    detected to be the same. -/
def Remaps (w : Observed Client) (e : Cmd × Outcomes Client) : Prop :=
  w.actor.state.mapping = none ∨ e.1 = .disconnect ∨ (w.actor.detects e.2 e.1).isSome ∨
    (Actor.dropsClient e.2 e.1 = false ∧
      (w.actor.selects e.2 e.1 = w.actor.state.selectedUri ∨
        ∃ u, w.actor.selects e.2 e.1 = some u ∧ w.detected.lookup u = w.actor.state.mapping))

theorem mappingOfSelected_spawn : (spawn : Observed Client).MappingOfSelected := by
  intro m hm
  exact absurd hm (by simp [spawn, Actor.spawn, SniState.default])

/-- What is detected is shown, for the device selected then. -/
theorem mappingOfSelected_of_detects {w : Observed Client} {e : Cmd × Outcomes Client}
    {d : String × MemoryMapping} (h : w.actor.detects e.2 e.1 = some d) :
    (w.handle e).MappingOfSelected := by
  obtain ⟨u, m⟩ := d
  obtain ⟨hsel, hmap⟩ := w.actor.handle_state e.2 e.1
  have hne : e.1 ≠ .disconnect := by
    intro hd
    rw [hd] at h
    exact absurd h (by simp [Actor.detects, Actor.asksFor])
  rw [if_neg hne, h] at hmap
  intro m' hm'
  obtain rfl : m = m' := Option.some.inj (hmap.symm.trans hm')
  refine ⟨u, hsel.trans (Actor.selects_of_detects h), ?_⟩
  simp [handle, h]

/-- A mapping that stays is that of the selected device when the client stays, and so
    does the selection or one detected to have the same mapping. -/
theorem mappingOfSelected_kept_iff {w : Observed Client} (hw : w.MappingOfSelected)
    {e : Cmd × Outcomes Client} {m : MemoryMapping} (hdis : e.1 ≠ .disconnect)
    (hdet : w.actor.detects e.2 e.1 = none) (hold : w.actor.state.mapping = some m) :
    (w.handle e).MappingOfSelected ↔ Actor.dropsClient e.2 e.1 = false ∧
      (w.actor.selects e.2 e.1 = w.actor.state.selectedUri ∨
        ∃ u, w.actor.selects e.2 e.1 = some u ∧ w.detected.lookup u = w.actor.state.mapping) := by
  obtain ⟨hsel, hmap⟩ := w.actor.handle_state e.2 e.1
  rw [if_neg hdis, hdet] at hmap
  have hlog : (w.handle e).detected = if Actor.dropsClient e.2 e.1 then [] else w.detected := by
    simp [handle, hdet]
  have hshown : (w.handle e).actor.state.mapping = some m := hmap.trans hold
  have hselected : (w.handle e).actor.state.selectedUri = w.actor.selects e.2 e.1 := hsel
  constructor
  · intro hafter
    obtain ⟨u, hu, hlook⟩ := hafter m hshown
    rw [hlog] at hlook
    cases hdrop : Actor.dropsClient e.2 e.1 with
    | true => simp [hdrop] at hlook
    | false =>
        rw [if_neg (by simp [hdrop])] at hlook
        exact ⟨rfl, Or.inr ⟨u, hselected.symm.trans hu, hlook.trans hold.symm⟩⟩
  · rintro ⟨hdrop, hkeep⟩ m' hm'
    obtain rfl : m = m' := Option.some.inj (hshown.symm.trans hm')
    rw [hlog, if_neg (by simp [hdrop])]
    rcases hkeep with hsame | ⟨u, hu, hlook⟩
    · obtain ⟨u, hu, hlook⟩ := hw m hold
      exact ⟨u, (hselected.trans hsame).trans hu, hlook⟩
    · exact ⟨u, hselected.trans hu, hlook.trans hold⟩

/-- One command: in a state that shows the mapping of the selected device it does
    so after the command if and only if the command remaps. -/
theorem mappingOfSelected_handle_iff {w : Observed Client} (hw : w.MappingOfSelected)
    (e : Cmd × Outcomes Client) : (w.handle e).MappingOfSelected ↔ w.Remaps e := by
  obtain ⟨-, hmap⟩ := w.actor.handle_state e.2 e.1
  by_cases hdis : e.1 = .disconnect
  · rw [if_pos hdis] at hmap
    refine ⟨fun _ => Or.inr (Or.inl hdis), fun _ m hm => ?_⟩
    exact absurd (hmap.symm.trans hm) (by simp)
  cases hdet : w.actor.detects e.2 e.1 with
  | some d =>
      refine ⟨fun _ => Or.inr (Or.inr (Or.inl (by rw [hdet]; rfl))), fun _ => ?_⟩
      exact mappingOfSelected_of_detects hdet
  | none =>
      rw [if_neg hdis, hdet] at hmap
      cases hold : w.actor.state.mapping with
      | none =>
          refine ⟨fun _ => Or.inl hold, fun _ m hm => ?_⟩
          exact absurd ((hold.symm.trans hmap.symm).trans hm) (by simp)
      | some m =>
          rw [mappingOfSelected_kept_iff hw hdis hdet hold]
          simp only [Remaps, hdis, hdet, hold, Option.isSome_none, reduceCtorEq, false_or,
            Bool.false_eq_true]

/-- **The mapping of the selected device.**  Over every sequence of commands,
    whatever their RPCs answered: the mapping shown is that of the selected device,
    on the client held, in every state reached if and only if every command
    remaps. -/
theorem mapping_of_selected_iff (es : List (Cmd × Outcomes Client)) :
    (∀ pre post, es = pre ++ post → (run pre).MappingOfSelected) ↔
      ∀ pre e post, es = pre ++ e :: post → (run pre).Remaps e := by
  constructor
  · intro hall pre e post hes
    have hbefore := hall pre (e :: post) hes
    have hafter := hall (pre ++ [e]) post (by rw [hes]; simp)
    rw [run_snoc] at hafter
    exact (mappingOfSelected_handle_iff hbefore e).mp hafter
  · intro hall pre
    induction pre using List.reverseRecOn with
    | nil => exact fun _ _ => mappingOfSelected_spawn
    | append_singleton pre e ih =>
        intro post hes
        have hes' : es = pre ++ e :: post := by rw [hes]; simp
        rw [run_snoc]
        exact (mappingOfSelected_handle_iff (ih _ hes') e).mpr (hall pre e post hes')

end Observed

/-- Two devices are listed, and the mapping of the first is detected. -/
def twoDevices (detected : Except String MemoryMapping) : Outcomes Unit :=
  { connect := .ok ()
    listDevices := .ok
      [⟨"a", "A", "fxpakpro", [], .fxPakPro⟩, ⟨"b", "B", "fxpakpro", [], .fxPakPro⟩]
    detectMapping := detected
    singleRead := (.ok [], 0)
    singleWrite := .ok () }

/-- The second device is selected and does not answer: the mapping of the first is
    shown for it. -/
theorem not_mapping_of_selected :
    ¬ ∀ es : List (Cmd × Outcomes Unit), (Observed.run es).MappingOfSelected := by
  intro h
  have hshown := h [(.connect "localhost", twoDevices (.ok .hiROM)),
    (.selectDevice "b", twoDevices (.error "no answer"))] .hiROM (by decide)
  obtain ⟨u, hu, hlook⟩ := hshown
  obtain rfl : "b" = u := Option.some.inj hu
  exact absurd hlook (by decide)

end App
end SniLua
