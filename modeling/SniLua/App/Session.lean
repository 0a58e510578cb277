/-
  SniLua.App.Session

  A session: the channel on which the UI and the script send commands, the actor that
  handles them, the poll task that reads the slot of the actor, and the devices.

  All of them run side by side.  A step is a command that is sent, the actor handling
  the oldest command, a step of the poll task, a device serving the request that is in
  flight, or the game changing the memory of a device.  What the actor and the poll
  task do by themselves is `Actor.handle` and `PollLoop.step`; a session adds what they
  share: the channel, the slot and the memories.
-/

import SniLua.App.SniActor
import SniLua.Cache.PollRefine
import SniLua.LuaApi.SnesMemory

namespace SniLua

open Lib Cache

namespace App

open LuaApi

variable {Client : Type}

def Cmd.isWrite : Cmd → Bool
  | .write .. => true
  | _ => false

-- ============================================================================
-- State and events
-- ============================================================================

structure SniSession (Client : Type) where
  /-- The commands not yet handled, oldest first. -/
  queue : List Cmd
  actor : Actor Client
  loop : PollLoop
  /-- The device the cycle polls. -/
  target : Option String
  /-- What the device has answered to the request in flight. -/
  served : Option (List (List UInt8))
  /-- The memory of the device at a URI. -/
  mem : String → DeviceMem

inductive SniEvent (Client : Type) where
  /-- A command of the UI. -/
  | send (cmd : Cmd)
  | snesWrite (addr : UInt32) (value : Int64) (size : Option UInt32)
  /-- The actor takes the oldest command. -/
  | handle (o : Outcomes Client)
  | poll (e : LoopEvent)
  | serve
  | game (uri : String) (mem : DeviceMem)

namespace SniEvent

/-- The command an event sends. -/
def sends : SniEvent Client → Option Cmd
  | .send cmd => some cmd
  | .snesWrite addr value size => some (.write (writeRegion addr size) (writeData value size))
  | _ => none

/-- The step of the poll task an event is. -/
def poll? : SniEvent Client → Option LoopEvent
  | .poll e => some e
  | _ => none

/-- The event leaves the request in flight, or no request, as it is. -/
def Waits (e : SniEvent Client) : Prop := ∀ e', e.poll? = some e' → e'.action.isScript = true

/-- A cycle begins. -/
def Begins (e : SniEvent Client) : Prop := ∃ e', e.poll? = some e' ∧ e'.action.begins = true

/-- A snapshot is published. -/
def publishes (e : SniEvent Client) : Bool := e.poll?.any (·.action.isPublish)

theorem poll?_eq_some {ev : SniEvent Client} {e : LoopEvent} (h : ev.poll? = some e) :
    ev = .poll e := by
  cases ev <;> simp only [poll?, Option.some.injEq, reduceCtorEq] at h
  rw [h]

theorem poll?_of_sends {ev : SniEvent Client} {cmd : Cmd} (h : ev.sends = some cmd) :
    ev.poll? = none := by
  cases ev <;> first | rfl | exact absurd h (by simp [sends])

end SniEvent

namespace SniSession

/-- `App::new`: the actor and the poll task are spawned. -/
def spawn (cfg : LoopConfig) (mem : String → DeviceMem) : SniSession Client :=
  { queue := [], actor := .spawn, loop := .spawn cfg, target := none, served := none, mem }

def enqueue (s : SniSession Client) (cmd : Cmd) : SniSession Client :=
  { s with queue := s.queue ++ [cmd] }

/-- The device the slot names. -/
def device (s : SniSession Client) : Option String := s.actor.slot.map (·.2)

/-- The memories after a command: a write that succeeds is in that of the device it
    went to. -/
def written (s : SniSession Client) (cmd : Cmd) (o : Outcomes Client) : String → DeviceMem :=
  match cmd with
  | .write region data =>
      match s.actor.writeRequest region data, o.singleWrite with
      | some (_, uri, region, data), .ok () =>
          Function.update s.mem uri ((s.mem uri).write region data)
      | _, _ => s.mem
  | _ => s.mem

def handled (s : SniSession Client) (cmd : Cmd) (queue : List Cmd) (o : Outcomes Client) :
    SniSession Client :=
  { s with queue, actor := s.actor.handle o cmd, mem := s.written cmd o }

/-- What the session lets the poll task do: a cycle begins when the slot holds a
    connection, and a reply that succeeds is the one the device has served. -/
def Admits (s : SniSession Client) (a : LoopAction) : Prop :=
  match a with
  | .noClient _ => s.device = none
  | .beginCycle _ => s.device.isSome
  | a => ∀ blobs, a.blobs? = some blobs → s.served = some blobs

instance (s : SniSession Client) (a : LoopAction) : Decidable (s.Admits a) :=
  match a with
  | .noClient _ => inferInstanceAs (Decidable (s.device = none))
  | .beginCycle _ => inferInstanceAs (Decidable (s.device.isSome = true))
  | .realtimeReply (.ok blobs) | .bulkReply (.ok blobs) _ =>
      decidable_of_iff (s.served = some blobs) (by simp [Admits, LoopAction.blobs?])
  | .realtimeReply (.error _) | .bulkReply (.error _) _ | .script _ | .readActive | .sendRealtime
  | .drainHead | .publish | .pause => isTrue (by simp [Admits, LoopAction.blobs?])

/-- The poll task has moved: a cycle that begins takes the device of the slot, and a
    call of the script leaves the request in flight. -/
def polled (s : SniSession Client) (a : LoopAction) (loop : PollLoop) : SniSession Client :=
  { s with
    loop
    target := if a.begins then s.device else s.target
    served := if a.isScript then s.served else none }

def answered (s : SniSession Client) (uri : String) (reads : List CoalescedRead) :
    SniSession Client :=
  { s with served := some (deviceReply (s.mem uri) reads) }

@[simp] theorem polled_queue (s : SniSession Client) (a : LoopAction) (loop : PollLoop) :
    (s.polled a loop).queue = s.queue := rfl

@[simp] theorem answered_queue (s : SniSession Client) (uri : String) (reads : List CoalescedRead) :
    (s.answered uri reads).queue = s.queue := rfl

def step (s : SniSession Client) : SniEvent Client → Option (SniSession Client)
  | .send cmd => if cmd.isWrite then none else some (s.enqueue cmd)
  | .snesWrite addr value size =>
      some (s.enqueue (.write (writeRegion addr size) (writeData value size)))
  | .handle o =>
      match s.queue with
      | [] => none
      | cmd :: queue => some (s.handled cmd queue o)
  | .poll e => if s.Admits e.action then (s.loop.step e).map (s.polled e.action) else none
  | .serve =>
      match s.target, s.loop.phase.asked? with
      | some uri, some reads => some (s.answered uri reads)
      | _, _ => none
  | .game uri mem => some { s with mem := Function.update s.mem uri mem }

/-- The effect of an event. -/
inductive Moves (s : SniSession Client) : SniEvent Client → SniSession Client → Prop
  | send (e : SniEvent Client) (cmd : Cmd) (h : e.sends = some cmd)
      (hw : ∀ region data, cmd = .write region data → ∃ addr value size,
        e = .snesWrite addr value size ∧ region = writeRegion addr size ∧
        data = writeData value size) : Moves s e (s.enqueue cmd)
  | handle (o : Outcomes Client) (cmd : Cmd) (queue : List Cmd) (h : s.queue = cmd :: queue) :
      Moves s (.handle o) (s.handled cmd queue o)
  | poll (e : LoopEvent) (loop : PollLoop) (hadmits : s.Admits e.action)
      (h : s.loop.step e = some loop) : Moves s (.poll e) (s.polled e.action loop)
  | serve (uri : String) (reads : List CoalescedRead) (ht : s.target = some uri)
      (h : s.loop.phase.asked? = some reads) : Moves s .serve (s.answered uri reads)
  | game (uri : String) (mem : DeviceMem) :
      Moves s (.game uri mem) { s with mem := Function.update s.mem uri mem }

theorem moves_of_step {s t : SniSession Client} {e : SniEvent Client} (h : s.step e = some t) :
    Moves s e t := by
  cases e with
  | send cmd =>
      simp only [step] at h
      split at h
      · exact absurd h (by simp)
      · rename_i hcmd
        obtain rfl := Option.some.inj h
        refine .send _ cmd rfl fun region data hwrite => ?_
        subst hwrite
        exact absurd rfl hcmd
  | snesWrite addr value size =>
      obtain rfl := Option.some.inj h
      refine .send _ _ rfl fun region data hwrite => ?_
      obtain ⟨rfl, rfl⟩ := Cmd.write.inj hwrite
      exact ⟨addr, value, size, rfl, rfl, rfl⟩
  | handle o =>
      simp only [step] at h
      split at h
      · exact absurd h (by simp)
      · rename_i cmd queue hqueue
        obtain rfl := Option.some.inj h
        exact .handle o cmd queue hqueue
  | poll e =>
      simp only [step] at h
      split at h
      · rename_i hadmits
        obtain ⟨loop, hloop, rfl⟩ := Option.map_eq_some_iff.mp h
        exact .poll e loop hadmits hloop
      · exact absurd h (by simp)
  | serve =>
      simp only [step] at h
      split at h
      · rename_i uri reads ht hreads
        obtain rfl := Option.some.inj h
        exact .serve uri reads ht hreads
      · exact absurd h (by simp)
  | game uri mem =>
      obtain rfl := Option.some.inj h
      exact .game uri mem

-- ============================================================================
-- The machines of a session
-- ============================================================================

/-- The steps of the poll task. -/
def loopTrace (tr : List (SniSession Client × SniEvent Client)) : List (PollLoop × LoopEvent) :=
  tr.filterMap fun x => x.2.poll?.map fun e => (x.1.loop, e)

/-- The commands sent. -/
def sent (tr : List (SniSession Client × SniEvent Client)) : List Cmd :=
  tr.filterMap fun x => x.2.sends

theorem Moves.loop_eq {s t : SniSession Client} {e : SniEvent Client} (h : Moves s e t)
    (he : e.poll? = none) : t.loop = s.loop := by
  cases h with
  | poll e loop hadmits hloop => exact absurd he (by simp [SniEvent.poll?])
  | _ => rfl

/-- The poll task of a session runs as it does alone. -/
theorem loop_run {cfg : LoopConfig} {mem : String → DeviceMem}
    {tr : List (SniSession Client × SniEvent Client)} {s : SniSession Client}
    (hrun : Run step (spawn cfg mem) tr s) :
    Run PollLoop.step (.spawn cfg) (loopTrace tr) s.loop := by
  refine hrun.project loop (fun _ e => e.poll?) ?_ ?_
  · intro u e v e' hs he
    cases moves_of_step hs with
    | poll e loop hadmits hloop =>
        obtain rfl := Option.some.inj he
        exact hloop
    | send e cmd hsend _ =>
        exact absurd ((SniEvent.poll?_of_sends hsend).symm.trans he) (by simp)
    | _ => exact absurd he (by simp [SniEvent.poll?])
  · intro u e v hs he
    exact (moves_of_step hs).loop_eq he

theorem inStep_step {s t : SniSession Client} {e : SniEvent Client} (h : s.actor.InStep)
    (hs : s.step e = some t) : t.actor.InStep := by
  cases moves_of_step hs with
  | handle o cmd queue hqueue => exact Actor.inStep_handle h o cmd
  | _ => exact h

theorem inStep_run {cfg : LoopConfig} {mem : String → DeviceMem}
    {tr : List (SniSession Client × SniEvent Client)} {s : SniSession Client}
    (hrun : Run step (spawn cfg mem) tr s) : s.actor.InStep := by
  exact hrun.invariant (P := fun _ _ => True) (I := fun s => s.actor.InStep)
    (fun _ _ _ _ h hs => inStep_step h hs) (fun _ _ => trivial) Actor.inStep_spawn

-- ============================================================================
-- After a disconnect
-- ============================================================================

/-- The actor handles a connect that succeeds. -/
def Connects (x : SniSession Client × SniEvent Client) : Prop :=
  ∃ o cmd, x.2 = .handle o ∧ x.1.queue.head? = some cmd ∧ Actor.ConnectOk (cmd, o)

theorem client_none_step {s t : SniSession Client} {e : SniEvent Client}
    (h : s.actor.client = none) (he : ¬ Connects (s, e)) (hs : s.step e = some t) :
    t.actor.client = none := by
  cases moves_of_step hs with
  | handle o cmd queue hqueue =>
      exact Actor.handle_client_none (e := (cmd, o)) h
        fun hok => he ⟨o, cmd, rfl, by simp [hqueue], hok⟩
  | _ => exact h

/-- Without a client there is no device to poll. -/
theorem device_none {s : SniSession Client} (hin : s.actor.InStep) (h : s.actor.client = none) :
    s.device = none := by
  rw [device, hin, h]
  rfl

/-- The snapshots the cycle of this phase has still to publish. -/
def unpublished : LoopPhase → Nat
  | .idle _ | .published _ => 0
  | _ => 1

theorem unpublished_step {s t : PollLoop} {e : LoopEvent} (h : s.step e = some t)
    (he : e.action.begins = false) :
    unpublished t.phase + (if e.action.isPublish then 1 else 0) ≤ unpublished s.phase := by
  obtain ⟨after, action⟩ := e
  show unpublished t.phase + (if action.isPublish then 1 else 0) ≤
    unpublished (s.tick after).phase
  cases PollLoop.moves_of_act (s := s.tick after) (a := action) h with
  | beginCycle cfg wake hp hw => exact absurd he (by simp [LoopAction.begins, LoopAction.config?])
  | script op => exact Nat.le_refl _
  | realtimeReply ctx sentAt result hp =>
      cases result <;> simp [hp, unpublished, LoopAction.isPublish, PollLoop.realtimeReply]
  | batchOk ctx done sentAt b reads blobs work phase' hp hphase =>
      subst hphase
      split <;> simp [hp, unpublished, LoopAction.isPublish]
  | publish ctx hp => simp [hp, unpublished, LoopAction.isPublish, PollLoop.publish]
  | pause liveIds hp => simp [hp, unpublished, LoopAction.isPublish, PollLoop.pause]
  | _ => simp [*, unpublished, LoopAction.isPublish]

/-- Between two cycles there is nothing to publish. -/
theorem publishes_le {s t : SniSession Client} {tr : List (SniSession Client × SniEvent Client)}
    (hrun : Run step s tr t) (hbegin : ∀ x ∈ tr, ¬ x.2.Begins) :
    (tr.countP fun x => x.2.publishes) ≤ unpublished s.loop.phase := by
  have hpot := hrun.potential (P := fun _ e => ¬ e.Begins) (fun x => x.2.publishes)
    (fun s => unpublished s.loop.phase) ?_ hbegin
  · omega
  intro u e v hbegin hs
  cases moves_of_step hs with
  | poll e loop hadmits hloop =>
      have hno : e.action.begins = false := by
        cases h : e.action.begins with
        | false => rfl
        | true => exact absurd ⟨e, rfl, h⟩ hbegin
      exact unpublished_step hloop hno
  | send e cmd hsend _ =>
      simp [SniEvent.publishes, SniEvent.poll?_of_sends hsend, enqueue]
  | _ => simp [SniEvent.publishes, SniEvent.poll?, handled, answered]

/-- **A disconnect stops the polling.**  Once the actor has handled a disconnect, and
    until it handles a connect that succeeds: the slot is empty, no cycle begins, and
    the cycle that was under way publishes the last snapshot. -/
theorem disconnect_stops_polling {cfg : LoopConfig} {mem : String → DeviceMem}
    {pre later : List (SniSession Client × SniEvent Client)} {u t s : SniSession Client}
    {o : Outcomes Client} (hpre : Run step (spawn cfg mem) pre u)
    (hhead : u.queue.head? = some .disconnect) (hs : u.step (.handle o) = some t)
    (hrun : Run step t later s) (hlater : ∀ x ∈ later, ¬ Connects x) :
    s.actor.slot = none ∧ (∀ x ∈ later, ¬ x.2.Begins) ∧
      (later.countP fun x => x.2.publishes) ≤ 1 := by
  have hin : t.actor.InStep := inStep_run (hpre.snoc hs)
  have hclient : t.actor.client = none := by
    cases moves_of_step hs with
    | handle o cmd queue hqueue =>
        obtain rfl : cmd = .disconnect := by simpa [hqueue] using hhead
        rfl
    | send _ cmd hsend _ => exact absurd hsend (by simp [SniEvent.sends])
  have hkeep : ∀ {tr v}, Run step t tr v → (∀ x ∈ tr, ¬ Connects x) → v.device = none := by
    intro tr v htr hno
    have hv := htr.invariant (P := fun s e => ¬ Connects (s, e))
      (I := fun s => s.actor.InStep ∧ s.actor.client = none)
      (fun _ _ _ hno h hs => ⟨inStep_step h.1 hs, client_none_step h.2 hno hs⟩) hno ⟨hin, hclient⟩
    exact device_none hv.1 hv.2
  have hbegin : ∀ x ∈ later, ¬ x.2.Begins := by
    rintro ⟨v, ev⟩ hmem ⟨e, he, hbegin⟩
    obtain rfl := SniEvent.poll?_eq_some he
    obtain ⟨before, after, rfl⟩ := List.append_of_mem hmem
    obtain ⟨w, hv, hstep, -⟩ := hrun.split_at
    have hdevice := hkeep hv fun x hx => hlater x (by simp [hx])
    cases moves_of_step hstep with
    | poll e loop hadmits hloop =>
        cases ha : e.action <;> simp [ha, LoopAction.begins, LoopAction.config?] at hbegin
        simp [ha, Admits, hdevice] at hadmits
    | send _ cmd hsend _ => exact absurd hsend (by simp [SniEvent.sends])
  refine ⟨?_, hbegin, Nat.le_trans (publishes_le hrun hbegin) ?_⟩
  · exact Option.map_eq_none_iff.mp (hkeep hrun hlater)
  · cases t.loop.phase <;> simp [unpublished]

def fxpakPro : DeviceInfo :=
  { uri := "fxpakpro://a", displayName := "a", kind := "fxpakpro", capabilities := [],
    defaultSpace := .fxPakPro }

/-- One device, which answers all that it is asked. -/
def connectOk : Outcomes Unit :=
  { connect := .ok ()
    listDevices := .ok [fxpakPro]
    detectMapping := .ok .loROM
    singleRead := (.ok [], 0)
    singleWrite := .ok () }

/-- The user disconnects while the first request is in flight. -/
def disconnectInFlight : List (SniEvent Unit) :=
  [.send (.connect "http://127.0.0.1:8191"), .handle connectOk,
   .poll ⟨0, .script (.register (.wram 0x10 2) .high 0)⟩,
   .poll ⟨fromMillis 1, .beginCycle .default⟩, .poll ⟨0, .readActive⟩, .poll ⟨0, .sendRealtime⟩,
   .poll ⟨0, .drainHead⟩, .send .disconnect]

/-- The cycle ends all the same; the poll task then finds no client. -/
def cycleEnds : List (SniEvent Unit) :=
  [.serve, .poll ⟨fromMillis 3, .bulkReply (.ok [[0x10, 0x11]]) 0⟩, .poll ⟨0, .drainHead⟩,
   .poll ⟨0, .publish⟩, .poll ⟨0, .pause⟩, .poll ⟨fromMillis 16, .noClient .default⟩]

theorem disconnect_stops_polling_inFlight :
    let s : SniSession Unit := spawn .default fun _ => PollLoop.addressMem
    let t := final step s (disconnectInFlight ++ [.handle connectOk])
    (final step t cycleEnds).actor.slot = none ∧ (∀ x ∈ trace step t cycleEnds, ¬ x.2.Begins) ∧
      ((trace step t cycleEnds).countP fun x => x.2.publishes) ≤ 1 :=
  have hsome : (exec step (spawn .default fun _ => PollLoop.addressMem)
      (disconnectInFlight ++ [.handle connectOk])).isSome := by decide +kernel
  have hrun := (run_final_concat hsome).of_snoc
  disconnect_stops_polling hrun.1 (by decide +kernel) hrun.2 (run_final (by decide +kernel))
    fun _ hx ⟨_, _, hhandle, _⟩ => absurd (hhandle ▸ mem_of_mem_trace hx) (by simp [cycleEnds])

end SniSession

end App
end SniLua
