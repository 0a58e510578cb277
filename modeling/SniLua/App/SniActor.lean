/-
  SniLua.App.SniActor

  The background actor owns the connection; the poll engine reads it from a
  shared slot.  The client, the selected device and the slot are three copies of
  one fact, and every command of the UI or of a script may change one of them.

  A command comes with the outcomes of the RPCs it may make.  What the slot holds
  after a command is `published`: the client and the selected device, when both
  are there.
-/

import Mathlib.Data.List.Induction
import SniLua.Client.MemRegion

namespace SniLua
namespace App

-- ============================================================================
-- State
-- ============================================================================

/-- A connected device as reported by SNI. -/
structure DeviceInfo where
  uri : String
  displayName : String
  kind : String
  capabilities : List Int
  defaultSpace : AddressSpace
deriving DecidableEq, Repr

/-- Connection lifecycle as observed by the UI. -/
inductive ConnState where
  | disconnected
  | connecting
  /-- May or may not have a device selected yet. -/
  | connected
  | error (text : String)
deriving DecidableEq, Repr

/-- A completed probe read. -/
structure ProbeResult where
  region : Option MemRegion
  bytes : List UInt8
  error : Option String
  rttMs : UInt32
deriving DecidableEq, Repr

def ProbeResult.default : ProbeResult := { region := none, bytes := [], error := none, rttMs := 0 }

/-- What the UI reads in every frame. -/
structure SniState where
  conn : ConnState
  devices : List DeviceInfo
  selectedUri : Option String
  mapping : Option MemoryMapping
  lastProbe : ProbeResult

def SniState.default : SniState :=
  { conn := .disconnected, devices := [], selectedUri := none, mapping := none,
    lastProbe := .default }

inductive Cmd where
  | connect (endpoint : String)
  | disconnect
  | refreshDevices
  | selectDevice (uri : String)
  | probe (region : MemRegion)
  | write (region : MemRegion) (data : List UInt8)
deriving DecidableEq, Repr

/-- The outcomes of the RPCs a command makes, at most one of each kind; an error is
    the text it displays. -/
structure Outcomes (Client : Type) where
  connect : Except String Client
  listDevices : Except String (List DeviceInfo)
  detectMapping : Except String MemoryMapping
  /-- The reply of `single_read` and the milliseconds it took. -/
  singleRead : Except String (List UInt8) × UInt32
  singleWrite : Except String Unit

structure Actor (Client : Type) where
  state : SniState
  client : Option Client
  /-- The `(client, uri)` the poll engine reads. -/
  slot : Option (Client × String)

variable {Client : Type}

/-- What the slot is to hold. -/
def published (client : Option Client) (uri : Option String) : Option (Client × String) :=
  match client, uri with
  | some c, some u => some (c, u)
  | _, _ => none

-- ============================================================================
-- Commands
-- ============================================================================

namespace Actor

/-- `spawn`. -/
def spawn : Actor Client := { state := .default, client := none, slot := none }

def setConn (a : Actor Client) (conn : ConnState) : Actor Client :=
  { a with state := { a.state with conn } }

def republishSlot (a : Actor Client) : Actor Client :=
  { a with slot := published a.client a.state.selectedUri }

/-- A failure is only logged. -/
def detectMapping (a : Actor Client) (o : Outcomes Client) : Actor Client :=
  match a.client with
  | none => a
  | some _ =>
      match o.detectMapping with
      | .ok m => { a with state := { a.state with mapping := some m } }
      | .error _ => a

/-- Keep the selection if the device is still present, else pick the first one. -/
def keepOrFirst (selected : Option String) (devices : List DeviceInfo) : Option String :=
  match selected.filter fun u => devices.any (·.uri == u) with
  | some u => some u
  | none => devices.head?.map (·.uri)

def refreshDevices (a : Actor Client) (o : Outcomes Client) : Actor Client :=
  match a.client with
  | none => a
  | some _ =>
      let a := match o.listDevices with
        | .ok devices =>
            { a with state := { a.state with
                selectedUri := keepOrFirst a.state.selectedUri devices
                devices } }
        | .error e => a.setConn (.error ("list devices: " ++ e))
      let a := match a.state.selectedUri with
        | some _ => a.detectMapping o
        | none => a
      a.republishSlot

/-- The client of a failed attempt is none: the one of an earlier connect stays. -/
def connect (a : Actor Client) (o : Outcomes Client) : Actor Client :=
  let a := a.setConn .connecting
  match o.connect with
  | .ok client => ({ a with client := some client }.setConn .connected).refreshDevices o
  | .error e => a.setConn (.error e)

def disconnect (a : Actor Client) : Actor Client :=
  { a with client := none, state := .default }.republishSlot

def selectDevice (a : Actor Client) (uri : String) (o : Outcomes Client) : Actor Client :=
  ({ a with state := { a.state with selectedUri := some uri } }.detectMapping o).republishSlot

def probe (a : Actor Client) (region : MemRegion) (o : Outcomes Client) : Actor Client :=
  let result : ProbeResult := match a.client, a.state.selectedUri with
    | some _, some _ =>
        match o.singleRead with
        | (.ok bytes, rttMs) => { region := some region, bytes, error := none, rttMs }
        | (.error e, rttMs) => { region := some region, bytes := [], error := some e, rttMs }
    | _, _ =>
        { ProbeResult.default with
          region := some region
          error := some "not connected / no device selected" }
  { a with state := { a.state with lastProbe := result } }

/-- What `write` sends, if it sends anything; its outcome is only logged. -/
def writeRequest (a : Actor Client) (region : MemRegion) (data : List UInt8) :
    Option (Client × String × MemRegion × List UInt8) :=
  (published a.client a.state.selectedUri).map fun (c, u) => (c, u, region, data)

/-- The arm of `run` that a command takes. -/
def handle (a : Actor Client) (o : Outcomes Client) : Cmd → Actor Client
  | .connect _ => a.connect o
  | .disconnect => a.disconnect
  | .refreshDevices => a.refreshDevices o
  | .selectDevice uri => a.selectDevice uri o
  | .probe region => a.probe region o
  | .write _ _ => a

/-- The actor after a sequence of commands. -/
def run (a : Actor Client) (es : List (Cmd × Outcomes Client)) : Actor Client :=
  es.foldl (fun a e => a.handle e.2 e.1) a

theorem run_snoc (a : Actor Client) (es : List (Cmd × Outcomes Client))
    (e : Cmd × Outcomes Client) : a.run (es ++ [e]) = (a.run es).handle e.2 e.1 := by
  rw [run, List.foldl_append]
  rfl

-- ============================================================================
-- The slot after each command
-- ============================================================================

/-- The slot is the connection. -/
def InStep (a : Actor Client) : Prop := a.slot = published a.client a.state.selectedUri

theorem inStep_spawn : (spawn : Actor Client).InStep := rfl

theorem inStep_republishSlot (a : Actor Client) : a.republishSlot.InStep := rfl

/-- A change of state that keeps the selection keeps the slot in step. -/
theorem InStep.of_state {a : Actor Client} (h : a.InStep) {state : SniState}
    (hsel : state.selectedUri = a.state.selectedUri) : { a with state := state }.InStep := by
  rw [InStep] at h ⊢
  show a.slot = published a.client state.selectedUri
  rw [hsel]
  exact h

theorem inStep_refreshDevices {a : Actor Client} (h : a.InStep) (o : Outcomes Client) :
    (a.refreshDevices o).InStep := by
  cases hclient : a.client with
  | none =>
      simp only [refreshDevices, hclient]
      exact h
  | some c =>
      simp only [refreshDevices, hclient]
      exact inStep_republishSlot _

/-- Every command leaves the slot in step. -/
theorem inStep_handle {a : Actor Client} (h : a.InStep) (o : Outcomes Client) (cmd : Cmd) :
    (a.handle o cmd).InStep := by
  cases cmd with
  | connect endpoint =>
      have hconnecting : (a.setConn .connecting).InStep := h.of_state rfl
      cases hconnect : o.connect with
      | error e =>
          simp only [handle, connect, hconnect]
          exact hconnecting.of_state rfl
      | ok c =>
          simp only [handle, connect, hconnect, refreshDevices, setConn]
          exact inStep_republishSlot _
  | disconnect => exact inStep_republishSlot _
  | refreshDevices => exact inStep_refreshDevices h o
  | selectDevice uri => exact inStep_republishSlot _
  | probe region => exact h.of_state rfl
  | write region data => exact h

theorem inStep_run {a : Actor Client} (h : a.InStep) (es : List (Cmd × Outcomes Client)) :
    (a.run es).InStep := by
  induction es using List.reverseRecOn with
  | nil => exact h
  | append_singleton es e ih =>
      rw [run_snoc]
      exact inStep_handle ih e.2 e.1

theorem published_eq_some_iff {client : Option Client} {uri : Option String} {c : Client}
    {u : String} : published client uri = some (c, u) ↔ client = some c ∧ uri = some u := by
  cases client <;> cases uri <;> simp [published]

/-- A script writes to the device the engine polls. -/
theorem writeRequest_eq_slot (es : List (Cmd × Outcomes Client)) (region : MemRegion)
    (data : List UInt8) :
    ((spawn : Actor Client).run es).writeRequest region data =
      ((spawn : Actor Client).run es).slot.map fun (c, u) => (c, u, region, data) := by
  have hstep : ((spawn : Actor Client).run es).InStep := inStep_run inStep_spawn es
  rw [writeRequest, ← hstep]

-- ============================================================================
-- The selection after a listing
-- ============================================================================

/-- The devices a command lists, when it gets to a listing that succeeds. -/
def listing (a : Actor Client) (o : Outcomes Client) : Cmd → Option (List DeviceInfo)
  | .connect _ =>
      match o.connect with
      | .ok _ => o.listDevices.toOption
      | .error _ => none
  | .refreshDevices => if a.client.isSome then o.listDevices.toOption else none
  | _ => none

theorem detectMapping_selectedUri (a : Actor Client) (o : Outcomes Client) :
    (a.detectMapping o).state.selectedUri = a.state.selectedUri := by
  simp only [detectMapping]
  split
  · rfl
  · split <;> rfl

theorem refreshDevices_selectedUri {a : Actor Client} {o : Outcomes Client}
    {devices : List DeviceInfo} (hclient : a.client.isSome) (h : o.listDevices = .ok devices) :
    (a.refreshDevices o).state.selectedUri = keepOrFirst a.state.selectedUri devices := by
  obtain ⟨c, hc⟩ := Option.isSome_iff_exists.mp hclient
  simp only [refreshDevices, hc, h]
  show (match keepOrFirst a.state.selectedUri devices with
    | some _ => _
    | none => _ : Actor Client).state.selectedUri = _
  split
  · exact detectMapping_selectedUri _ _
  · rfl

/-- After a successful listing the selection is the rule's. -/
theorem handle_selectedUri {a : Actor Client} {o : Outcomes Client} {cmd : Cmd}
    {devices : List DeviceInfo} (h : a.listing o cmd = some devices) :
    (a.handle o cmd).state.selectedUri = keepOrFirst a.state.selectedUri devices := by
  cases cmd with
  | connect endpoint =>
      cases hconnect : o.connect with
      | error e => simp [listing, hconnect] at h
      | ok c =>
          simp only [listing, hconnect] at h
          cases hlist : o.listDevices with
          | error e => simp [hlist, Except.toOption] at h
          | ok ds =>
              obtain rfl : ds = devices := by simpa [hlist, Except.toOption] using h
              simp only [handle, connect, hconnect]
              exact refreshDevices_selectedUri rfl hlist
  | refreshDevices =>
      simp only [listing] at h
      split at h
      · rename_i hclient
        cases hlist : o.listDevices with
        | error e => simp [hlist, Except.toOption] at h
        | ok ds =>
            obtain rfl : ds = devices := by simpa [hlist, Except.toOption] using h
            exact refreshDevices_selectedUri hclient hlist
      · exact absurd h (by simp)
  | _ => simp [listing] at h

theorem keepOrFirst_of_mem {u : String} {devices : List DeviceInfo}
    (h : u ∈ devices.map (·.uri)) : keepOrFirst (some u) devices = some u := by
  obtain ⟨d, hd, rfl⟩ := List.mem_map.mp h
  have hany : devices.any (·.uri == d.uri) = true :=
    List.any_eq_true.mpr ⟨d, hd, by simp⟩
  simp [keepOrFirst, Option.filter, hany]

theorem keepOrFirst_of_not_mem {selected : Option String} {devices : List DeviceInfo}
    (h : ∀ u, selected = some u → u ∉ devices.map (·.uri)) :
    keepOrFirst selected devices = devices.head?.map (·.uri) := by
  cases selected with
  | none => rfl
  | some u =>
      have hany : devices.any (·.uri == u) = false := by
        rw [List.any_eq_false]
        intro d hd heq
        exact h u rfl (List.mem_map.mpr ⟨d, hd, by simpa using heq⟩)
      simp [keepOrFirst, Option.filter, hany]

/-- So a listing keeps a selection that is still listed, and else takes the first. -/
theorem selection_after_listing {a : Actor Client} {o : Outcomes Client} {cmd : Cmd}
    {devices : List DeviceInfo} (h : a.listing o cmd = some devices) :
    (∀ u, a.state.selectedUri = some u → u ∈ devices.map (·.uri) →
      (a.handle o cmd).state.selectedUri = some u) ∧
    ((∀ u, a.state.selectedUri = some u → u ∉ devices.map (·.uri)) →
      (a.handle o cmd).state.selectedUri = devices.head?.map (·.uri)) := by
  rw [handle_selectedUri h]
  constructor
  · intro u hu hmem
    rw [hu]
    exact keepOrFirst_of_mem hmem
  · exact keepOrFirst_of_not_mem

-- ============================================================================
-- After a disconnect
-- ============================================================================

/-- A connect that succeeds. -/
def ConnectOk (e : Cmd × Outcomes Client) : Prop :=
  ∃ endpoint c, e.1 = .connect endpoint ∧ e.2.connect = .ok c

theorem detectMapping_client (a : Actor Client) (o : Outcomes Client) :
    (a.detectMapping o).client = a.client := by
  simp only [detectMapping]
  split
  · rfl
  · split <;> rfl

/-- Only a successful connect gives the actor a client. -/
theorem handle_client_none {a : Actor Client} {e : Cmd × Outcomes Client}
    (h : a.client = none) (he : ¬ ConnectOk e) : (a.handle e.2 e.1).client = none := by
  obtain ⟨cmd, o⟩ := e
  cases cmd with
  | connect endpoint =>
      cases hconnect : o.connect with
      | ok c => exact absurd ⟨endpoint, c, rfl, hconnect⟩ he
      | error text =>
          simp only [handle, connect, hconnect]
          exact h
  | disconnect => rfl
  | refreshDevices =>
      simp only [handle, refreshDevices, h]
  | selectDevice uri =>
      show (Actor.detectMapping _ o).client = none
      rw [detectMapping_client]
      exact h
  | probe region => exact h
  | write region data => exact h

theorem run_client_none {a : Actor Client} (h : a.client = none)
    {es : List (Cmd × Outcomes Client)} (hes : ∀ e ∈ es, ¬ ConnectOk e) :
    (a.run es).client = none := by
  induction es using List.reverseRecOn with
  | nil => exact h
  | append_singleton es e ih =>
      rw [run_snoc]
      have hold := ih fun e he => hes e (List.mem_append_left _ he)
      exact handle_client_none hold (hes e (by simp))

/-- From a disconnect on the slot is empty until a connect succeeds. -/
theorem slot_none_after_disconnect (a : Actor Client) {later : List (Cmd × Outcomes Client)}
    (hlater : ∀ e ∈ later, ¬ ConnectOk e) : (a.disconnect.run later).slot = none := by
  have hclient : (a.disconnect.run later).client = none := run_client_none rfl hlater
  have hstep : (a.disconnect.run later).InStep := inStep_run (inStep_republishSlot _) later
  rw [hstep, hclient]
  rfl

/-- **The engine polls the connection of the actor.**  After every sequence of
    commands, whatever their RPCs answered: the slot holds the client and the
    selected device, when both are there; a command that lists the devices keeps
    the selection if it is still listed and else selects the first device; and
    from a disconnect on the slot is empty until a connect succeeds. -/
theorem slot_is_connection (es : List (Cmd × Outcomes Client)) :
    let a : Actor Client := spawn.run es
    (∀ c u, a.slot = some (c, u) ↔ a.client = some c ∧ a.state.selectedUri = some u) ∧
    (∀ cmd o devices, a.listing o cmd = some devices →
      let selected := (a.handle o cmd).state.selectedUri
      (∀ u, a.state.selectedUri = some u → u ∈ devices.map (·.uri) → selected = some u) ∧
      ((∀ u, a.state.selectedUri = some u → u ∉ devices.map (·.uri)) →
        selected = devices.head?.map (·.uri))) ∧
    (∀ o later, (∀ e ∈ later, ¬ ConnectOk e) →
      (spawn.run (es ++ (.disconnect, o) :: later) : Actor Client).slot = none) := by
  refine ⟨?_, fun cmd o devices h => selection_after_listing h, ?_⟩
  · intro c u
    have hstep : ((spawn : Actor Client).run es).InStep := inStep_run inStep_spawn es
    rw [hstep]
    exact published_eq_some_iff
  · intro o later hlater
    rw [run, List.foldl_append]
    exact slot_none_after_disconnect (spawn.run es) hlater

end Actor

end App
end SniLua
