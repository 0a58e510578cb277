/-
  SniLua.App.RoundTrip

  From `snes.write` to the readers of the script: the call queues a command, the actor
  sends the bytes to the selected device, a later cycle of the poll task reads them,
  and the snapshot it publishes answers the readers.

  Until the actor gets to it the command of the call is followed in the channel by
  what was sent after it (`InChannel`); from then on the bytes are in the memory of
  the device (`Keeps`), and a request of a later cycle is answered with them
  (`Fresh`).
-/

import SniLua.App.Provenance

namespace SniLua
namespace App

open Lib Cache LuaApi

variable {Client : Type}

/-- Handling the command puts nothing into the region. -/
def Cmd.Spares (region : MemRegion) : Cmd → Prop
  | .write r data => data.length = r.size.toNat ∧ ¬ r.Overlaps region
  | _ => True

namespace SniSession

/-- The script calls for no write into the region, the game leaves it as it is. -/
def Spares (uri : String) (region : MemRegion) (x : SniSession Client × SniEvent Client) : Prop :=
  match x.2 with
  | .snesWrite addr _ size => ¬ (writeRegion addr size).Overlaps region
  | .game uri' mem => uri' = uri → mem.read region = (x.1.mem uri).read region
  | _ => True

instance (uri : String) (region : MemRegion) (x : SniSession Client × SniEvent Client) :
    Decidable (Spares uri region x) :=
  match x with
  | (_, .snesWrite ..) => inferInstanceAs (Decidable (¬ _))
  | (_, .game uri' _) => inferInstanceAs (Decidable (uri' = uri → _ = _))
  | (_, .send _) | (_, .handle _) | (_, .poll _) | (_, .serve) => isTrue trivial

/-- The device stays selected and takes what is written to it: a write that is handled
    succeeds on it, and a cycle begins with it. -/
def OnDevice (uri : String) (x : SniSession Client × SniEvent Client) : Prop :=
  match x.2 with
  | .handle o => x.1.queue.head?.any Cmd.isWrite →
      x.1.device = some uri ∧ o.singleWrite.toBool = true
  | .poll e => e.action.begins = true → x.1.device = some uri
  | _ => True

instance (uri : String) (x : SniSession Client × SniEvent Client) : Decidable (OnDevice uri x) :=
  match x with
  | (_, .handle _) => inferInstanceAs (Decidable (_ → _ ∧ _))
  | (_, .poll _) => inferInstanceAs (Decidable (_ → _))
  | (_, .send _) | (_, .snesWrite ..) | (_, .game ..) | (_, .serve) => isTrue trivial

-- ============================================================================
-- The memory of the device
-- ============================================================================

/-- A write that succeeds changes the memory of the selected device. -/
theorem written_ok {s : SniSession Client} {o : Outcomes Client} {uri : String}
    (hstep : s.actor.InStep) (hdevice : s.device = some uri) (hok : o.singleWrite.toBool = true)
    (region : MemRegion) (data : List UInt8) : s.written (.write region data) o =
      Function.update s.mem uri ((s.mem uri).write region data) := by
  obtain ⟨⟨c, u⟩, hslot, rfl⟩ := Option.map_eq_some_iff.mp hdevice
  have hpub := hstep.symm.trans hslot
  cases hwrite : o.singleWrite with
  | error e => simp [hwrite, Except.toBool] at hok
  | ok x => simp [written, Actor.writeRequest, hpub, hwrite]

/-- A write changes the memory of one device, by its bytes, or none. -/
theorem written_cases (s : SniSession Client) (o : Outcomes Client) (region : MemRegion)
    (data : List UInt8) : s.written (.write region data) o = s.mem ∨
      ∃ uri, s.written (.write region data) o =
        Function.update s.mem uri ((s.mem uri).write region data) := by
  cases hpub : published s.actor.client s.actor.state.selectedUri with
  | none => exact Or.inl (by simp [written, Actor.writeRequest, hpub])
  | some conn =>
      cases hwrite : o.singleWrite with
      | error e => exact Or.inl (by simp [written, hwrite])
      | ok x => exact Or.inr ⟨conn.2, by simp [written, Actor.writeRequest, hpub, hwrite]⟩

theorem read_written_of_spares (s : SniSession Client) (o : Outcomes Client) {cmd : Cmd}
    {region : MemRegion} (h : cmd.Spares region) (uri : String) :
    (s.written cmd o uri).read region = (s.mem uri).read region := by
  cases cmd with
  | write r data =>
      rcases written_cases s o r data with heq | ⟨uri', heq⟩
      · rw [heq]
      · rw [heq]
        by_cases huri : uri = uri'
        · subst huri
          rw [Function.update_self]
          exact DeviceMem.read_write_of_not_overlaps _ h.1 h.2
        · rw [Function.update_of_ne huri]
  | _ => rfl

-- ============================================================================
-- From the call to the device
-- ============================================================================

/-- What an event that spares the region sends spares it too. -/
theorem Spares.cmd {uri : String} {region : MemRegion} {s t : SniSession Client}
    {e : SniEvent Client} {cmd : Cmd} (h : Spares uri region (s, e)) (hs : s.step e = some t)
    (hsend : e.sends = some cmd) : cmd.Spares region := by
  cases moves_of_step hs with
  | send e cmd' hsend' hw =>
      obtain rfl := Option.some.inj (hsend.symm.trans hsend')
      cases cmd with
      | write r data =>
          obtain ⟨addr, value, size, rfl, rfl, rfl⟩ := hw r data rfl
          exact ⟨length_writeData value size, h⟩
      | _ => trivial
  | _ => exact absurd hsend (by simp [SniEvent.sends])

/-- The device has the bytes, and nothing in the channel overwrites them. -/
structure Keeps (uri : String) (region : MemRegion) (data : List UInt8) (s : SniSession Client) :
    Prop where
  read : (s.mem uri).read region = data
  queue : ∀ cmd ∈ s.queue, cmd.Spares region

theorem keeps_step {uri : String} {region : MemRegion} {data : List UInt8} {s t : SniSession Client}
    {e : SniEvent Client} (h : Keeps uri region data s) (hspares : Spares uri region (s, e))
    (hs : s.step e = some t) : Keeps uri region data t := by
  cases moves_of_step hs with
  | send e cmd hsend _ =>
      refine ⟨h.read, fun cmd' hcmd => ?_⟩
      rcases List.mem_append.mp hcmd with hcmd | hcmd
      · exact h.queue cmd' hcmd
      · obtain rfl := List.mem_singleton.mp hcmd
        exact hspares.cmd hs hsend
  | handle o cmd queue hqueue =>
      have hcmd : cmd.Spares region := h.queue cmd (by simp [hqueue])
      exact ⟨(read_written_of_spares s o hcmd uri).trans h.read,
        fun cmd' hcmd' => h.queue cmd' (hqueue ▸ List.mem_cons_of_mem _ hcmd')⟩
  | game uri' mem =>
      refine ⟨?_, h.queue⟩
      by_cases huri : uri = uri'
      · subst huri
        show (Function.update s.mem uri mem uri).read region = data
        rw [Function.update_self, hspares rfl, h.read]
      · show (Function.update s.mem uri' mem uri).read region = data
        rw [Function.update_of_ne huri, h.read]
  | _ => exact ⟨h.read, h.queue⟩

/-- The command is in the channel, with what was sent after it behind it. -/
def InChannel (cmd : Cmd) (tr : List (SniSession Client × SniEvent Client))
    (s : SniSession Client) : Prop :=
  ∃ before, s.queue = before ++ cmd :: sent tr

theorem sent_concat (tr : List (SniSession Client × SniEvent Client)) (s : SniSession Client)
    (e : SniEvent Client) : sent (tr ++ [(s, e)]) = sent tr ++ e.sends.toList := by
  rw [sent, List.filterMap_append, sent]
  cases hsend : e.sends <;> simp [hsend]

/-- The command moves up in the channel until the actor handles it. -/
theorem inChannel_step {cmd : Cmd} {tr : List (SniSession Client × SniEvent Client)}
    {s t : SniSession Client} {e : SniEvent Client} (h : InChannel cmd tr s)
    (hs : s.step e = some t) : InChannel cmd (tr ++ [(s, e)]) t ∨
      ∃ o, e = .handle o ∧ s.queue = cmd :: sent tr ∧ t = s.handled cmd (sent tr) o := by
  obtain ⟨before, hbefore⟩ := h
  rw [InChannel, sent_concat]
  cases moves_of_step hs with
  | send e cmd' hsend _ =>
      refine Or.inl ⟨before, ?_⟩
      simp [enqueue, hbefore, hsend]
  | handle o cmd' queue hqueue =>
      have hhead : cmd' :: queue = before ++ cmd :: sent tr := hqueue.symm.trans hbefore
      cases before with
      | nil =>
          obtain ⟨rfl, rfl⟩ := List.cons.inj hhead
          exact Or.inr ⟨o, rfl, hqueue, rfl⟩
      | cons first before =>
          obtain ⟨-, rfl⟩ := List.cons.inj hhead
          exact Or.inl ⟨before, by simp [handled, SniEvent.sends]⟩
  | _ => exact Or.inl ⟨before, by simpa [SniEvent.sends] using hbefore⟩

/-- A write that is called for and not overwritten is in the channel or in the memory
    of the device. -/
theorem inChannel_or_keeps {uri : String} {region : MemRegion} {data : List UInt8}
    (hlen : data.length = region.size.toNat) {s t : SniSession Client} (hstep : s.actor.InStep)
    (hqueue : s.queue.getLast? = some (.write region data))
    {tr : List (SniSession Client × SniEvent Client)} (hrun : Run step s tr t)
    (hspares : ∀ x ∈ tr, Spares uri region x) (hdevice : ∀ x ∈ tr, OnDevice uri x) :
    InChannel (.write region data) tr t ∨ Keeps uri region data t := by
  suffices h : t.actor.InStep ∧ (∀ cmd ∈ sent tr, cmd.Spares region) ∧
      (InChannel (.write region data) tr t ∨ Keeps uri region data t) from h.2.2
  induction hrun with
  | refl =>
      obtain ⟨before, hbefore⟩ := List.getLast?_eq_some_iff.mp hqueue
      exact ⟨hstep, by simp [sent], Or.inl ⟨before, hbefore⟩⟩
  | @snoc tr u v e hrun hs ih =>
      obtain ⟨hin, hsent, hcase⟩ := ih (fun x hx => hspares x (List.mem_append_left _ hx))
        (fun x hx => hdevice x (List.mem_append_left _ hx))
      have hsp : Spares uri region (u, e) := hspares (u, e) (by simp)
      have hdev : OnDevice uri (u, e) := hdevice (u, e) (by simp)
      have hsent' : ∀ cmd ∈ sent (tr ++ [(u, e)]), cmd.Spares region := by
        intro cmd hcmd
        rw [sent_concat] at hcmd
        rcases List.mem_append.mp hcmd with hcmd | hcmd
        · exact hsent cmd hcmd
        · exact hsp.cmd hs (Option.mem_toList.mp hcmd)
      refine ⟨inStep_step hin hs, hsent', ?_⟩
      rcases hcase with hchannel | hkeeps
      · refine (inChannel_step hchannel hs).imp_right ?_
        rintro ⟨o, rfl, hhead, rfl⟩
        obtain ⟨hselected, hok⟩ := hdev (by simp [hhead, Cmd.isWrite])
        refine ⟨?_, hsent⟩
        show (u.written (.write region data) o uri).read region = data
        rw [written_ok hin hselected hok, Function.update_self]
        exact DeviceMem.read_write_self _ hlen
      · exact Or.inr (keeps_step hkeeps hsp hs)

-- ============================================================================
-- From the device to the snapshot
-- ============================================================================

/-- The cycle polls the device, and an answer to its request holds the bytes. -/
structure Fresh (uri : String) (region : MemRegion) (data : List UInt8) (s : SniSession Client) :
    Prop where
  keeps : Keeps uri region data s
  target : s.target = some uri
  served : ∀ blobs reads, s.served = some blobs → s.loop.phase.asked? = some reads →
    ∃ m : DeviceMem, m.read region = data ∧ blobs = deviceReply m reads

theorem fresh_step {uri : String} {region : MemRegion} {data : List UInt8} {s t : SniSession Client}
    {e : SniEvent Client} (h : Fresh uri region data s) (hspares : Spares uri region (s, e))
    (hdevice : OnDevice uri (s, e)) (hs : s.step e = some t) : Fresh uri region data t := by
  have hkeeps := keeps_step h.keeps hspares hs
  cases moves_of_step hs with
  | poll e loop hadmits hloop =>
      refine ⟨hkeeps, ?_, ?_⟩
      · simp only [polled]
        split
        · rename_i hbegin
          exact hdevice hbegin
        · exact h.target
      · intro blobs reads hserved hasked
        simp only [polled] at hserved hasked
        split at hserved
        · rename_i hscript
          exact h.served blobs reads hserved (phase_script hloop hscript ▸ hasked)
        · exact absurd hserved (by simp)
  | serve uri' reads htarget hasked =>
      obtain rfl := Option.some.inj (h.target.symm.trans htarget)
      refine ⟨hkeeps, h.target, fun blobs reads' hserved hasked' => ?_⟩
      obtain rfl := Option.some.inj (hasked.symm.trans hasked')
      exact ⟨s.mem uri, h.keeps.read, (Option.some.inj hserved).symm⟩
  | _ => exact ⟨hkeeps, h.target, h.served⟩

/-- A reply to a request of a fresh session holds the bytes. -/
theorem Fresh.holds {uri : String} {region : MemRegion} {data : List UInt8}
    {s t : SniSession Client} {e : LoopEvent} (h : Fresh uri region data s)
    (hs : s.step (.poll e) = some t) {id : WatchId} (hrefresh : s.loop.Refreshes e id) :
    ∃ m : DeviceMem, m.read region = data ∧ PollLoop.Holds (s.loop, e) m := by
  obtain ⟨sentAt, reads, blobs, hr, -⟩ := hrefresh
  obtain ⟨m, hm, heq⟩ := h.served blobs reads (served_of_received hs hr) (asked_of_received hr).2
  exact ⟨m, hm, PollLoop.holds_of_reply hr heq⟩

theorem fresh_run {uri : String} {region : MemRegion} {data : List UInt8} {s t : SniSession Client}
    {tr : List (SniSession Client × SniEvent Client)} (hrun : Run step s tr t)
    (hspares : ∀ x ∈ tr, Spares uri region x) (hdevice : ∀ x ∈ tr, OnDevice uri x)
    (h : Fresh uri region data s) : Fresh uri region data t :=
  hrun.invariant (P := fun s e => Spares uri region (s, e) ∧ OnDevice uri (s, e))
    (fun _ _ _ hP h hs => fresh_step h hP.1 hP.2 hs) (fun x hx => ⟨hspares x hx, hdevice x hx⟩) h

/-- A cycle that begins while the device has the bytes is fresh. -/
theorem fresh_of_begin {uri : String} {region : MemRegion} {data : List UInt8}
    {s t : SniSession Client} {b : LoopEvent} (h : Keeps uri region data s)
    (hdevice : OnDevice uri (s, .poll b)) (hb : b.action.begins = true)
    (hs : s.step (.poll b) = some t) : Fresh uri region data t := by
  have hspares : Spares uri region (s, .poll b) := trivial
  have hkeeps := keeps_step h hspares hs
  have hscript : b.action.isScript = false := by
    cases ha : b.action <;>
      simp [ha, LoopAction.begins, LoopAction.config?, LoopAction.isScript] at hb ⊢
  cases moves_of_step hs with
  | send _ cmd hsend _ => exact absurd hsend (by simp [SniEvent.sends])
  | poll _ loop hadmits hloop =>
      refine ⟨hkeeps, ?_, fun blobs reads hserved => ?_⟩
      · rw [polled, if_pos hb]
        exact hdevice hb
      · exact absurd hserved (by simp [polled, hscript])

-- ============================================================================
-- The round trip
-- ============================================================================

theorem current_of_not_publish {s t : PollLoop} {e : LoopEvent} (hs : s.step e = some t)
    (he : e.action.isPublish = false) : t.current = s.current := by
  obtain ⟨after, action⟩ := e
  cases PollLoop.moves_of_act (s := s.tick after) (a := action) hs with
  | publish ctx h => exact absurd he (by simp [LoopAction.isPublish])
  | realtimeReply ctx sentAt result h => cases result <;> rfl
  | _ => rfl

/-- Until the next publish the snapshot stays. -/
theorem current_run {s t : SniSession Client} {tr : List (SniSession Client × SniEvent Client)}
    (hrun : Run step s tr t) (hlater : ∀ y ∈ loopTrace tr, y.2.action.isPublish = false) :
    t.loop.current = s.loop.current := by
  induction hrun with
  | refl => rfl
  | @snoc tr u v e hrun hs ih =>
      have hsplit : loopTrace (tr ++ [(u, e)]) = loopTrace tr ++ loopTrace [(u, e)] :=
        List.filterMap_append
      rw [← ih fun y hy => hlater y (by rw [hsplit]; exact List.mem_append_left _ hy)]
      cases moves_of_step hs with
      | poll e loop hadmits hloop =>
          refine current_of_not_publish hloop (hlater (u.loop, e) ?_)
          rw [hsplit]
          exact List.mem_append_right _ (by simp [loopTrace, SniEvent.poll?])
      | _ => rfl

/-- The last reply that holds a watch comes from the last part of a run that has one. -/
theorem LastRefresh.mem_of_refreshes {A B : List (PollLoop × LoopEvent)} {id : WatchId} {i : Nat}
    {x : PollLoop × LoopEvent} (h : PollLoop.LastRefresh (A ++ B) id i x)
    (hB : ∃ y ∈ B, y.1.Refreshes y.2 id) : x ∈ B := by
  obtain ⟨y, hy, hrefresh⟩ := hB
  obtain ⟨j, hj⟩ := List.getElem?_of_mem hy
  have hidx : (A ++ B)[A.length + j]? = some y := by
    rw [List.getElem?_append_right (by omega), Nat.add_sub_cancel_left, hj]
  have hle : A.length + j ≤ i := by
    by_contra hlt
    exact h.last _ y (by omega) hidx hrefresh
  have hx := h.step
  rw [List.getElem?_append_right (by omega)] at hx
  exact List.mem_of_getElem? hx

/-- A script declares a watch and writes over its first byte. -/
def watchAndWrite : List (SniEvent Unit) :=
  [.send (.connect "http://127.0.0.1:8191"), .handle connectOk,
   .poll ⟨0, .script (.register (.fxpak 0xF50010 2) .high 0)⟩, .snesWrite 0xF50010 7 none]

/-- A cycle that reads the watch, after its first step. -/
def readBack : List (SniEvent Unit) :=
  [.poll ⟨0, .readActive⟩, .poll ⟨0, .sendRealtime⟩, .poll ⟨0, .drainHead⟩, .serve,
   .poll ⟨fromMillis 3, .bulkReply (.ok [[0xFE, 0xFF]]) 0⟩, .poll ⟨0, .drainHead⟩,
   .poll ⟨0, .publish⟩]

end SniSession

end App
end SniLua
