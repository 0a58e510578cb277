/-
  SniLua.App.Provenance

  Where the bytes on the screen come from.  The user may disconnect, reconnect or
  select another device at any time, also while a request is in flight; the poll task
  keeps the device its cycle began with.

  `Answered` and `Targeted` say in which earlier steps of a session the answer of the
  device and the target of the cycle came about; the loop's own theorem does the rest.
-/

import SniLua.App.Session

namespace SniLua
namespace App

open Lib Cache LuaApi

variable {Client : Type}

namespace SniSession

-- ============================================================================
-- The answer of the device
-- ============================================================================

/-- A call of the script leaves the poll task where it is. -/
theorem phase_script {s t : PollLoop} {e : LoopEvent} (h : s.step e = some t)
    (he : e.action.isScript = true) : t.phase = s.phase := by
  obtain ⟨after, action⟩ := e
  cases action with
  | script op =>
      obtain rfl := Option.some.inj h
      rfl
  | _ => exact absurd he (by simp [LoopAction.isScript])

/-- The device answered when it served the request that is still in flight. -/
def Answered (tr : List (SniSession Client × SniEvent Client)) (s : SniSession Client) : Prop :=
  ∀ blobs, s.served = some blobs → ∃ pre v wait uri reads, tr = pre ++ (v, .serve) :: wait ∧
    v.target = some uri ∧ v.loop.phase.asked? = some reads ∧ s.loop.phase = v.loop.phase ∧
    blobs = deviceReply (v.mem uri) reads ∧ ∀ y ∈ wait, y.2.Waits

theorem Answered.wait {tr : List (SniSession Client × SniEvent Client)} {u t : SniSession Client}
    {e : SniEvent Client} (h : Answered tr u) (hserved : t.served = u.served)
    (hphase : t.loop.phase = u.loop.phase) (he : e.Waits) : Answered (tr ++ [(u, e)]) t := by
  intro blobs hblobs
  obtain ⟨pre, v, wait, uri, reads, rfl, htarget, hasked, hsame, heq, hwait⟩ :=
    h blobs (hserved ▸ hblobs)
  refine ⟨pre, v, wait ++ [(u, e)], uri, reads, by simp, htarget, hasked, hphase.trans hsame, heq,
    ?_⟩
  intro y hy
  rcases List.mem_append.mp hy with hy | hy
  · exact hwait y hy
  · obtain rfl := List.mem_singleton.mp hy
    exact he

theorem answered_step {tr : List (SniSession Client × SniEvent Client)} {u t : SniSession Client}
    {e : SniEvent Client} (h : Answered tr u) (hs : u.step e = some t) :
    Answered (tr ++ [(u, e)]) t := by
  cases moves_of_step hs with
  | send e cmd hsend _ =>
      have hpoll := SniEvent.poll?_of_sends hsend
      exact h.wait rfl rfl fun e' he => absurd (hpoll.symm.trans he) (by simp)
  | handle o cmd queue hqueue =>
      exact h.wait rfl rfl fun e' he => absurd he (by simp [SniEvent.poll?])
  | game uri mem => exact h.wait rfl rfl fun e' he => absurd he (by simp [SniEvent.poll?])
  | poll e loop hadmits hloop =>
      cases hscript : e.action.isScript with
      | true =>
          refine h.wait (by simp [polled, hscript]) (phase_script hloop hscript) fun e' he => ?_
          obtain rfl := Option.some.inj he
          exact hscript
      | false =>
          intro blobs hblobs
          exact absurd hblobs (by simp [polled, hscript])
  | serve uri reads htarget hasked =>
      intro blobs hblobs
      exact ⟨tr, u, [], uri, reads, rfl, htarget, hasked, rfl, (Option.some.inj hblobs).symm,
        by simp⟩

theorem answered_run {cfg : LoopConfig} {mem : String → DeviceMem}
    {tr : List (SniSession Client × SniEvent Client)} {s : SniSession Client}
    (hrun : Run step (spawn cfg mem) tr s) : Answered tr s :=
  hrun.trace_invariant (fun _ _ _ _ _ h hs => answered_step h hs)
    fun _ h => absurd h (by simp [spawn])

-- ============================================================================
-- The target of the cycle
-- ============================================================================

/-- The target was in the slot when the last cycle began. -/
def Targeted (tr : List (SniSession Client × SniEvent Client)) (s : SniSession Client) : Prop :=
  ∀ uri, s.target = some uri → ∃ pre b f mid, tr = pre ++ (b, .poll f) :: mid ∧
    f.action.begins = true ∧ b.device = some uri ∧ ∀ y ∈ mid, ¬ y.2.Begins

theorem Targeted.keep {tr : List (SniSession Client × SniEvent Client)} {u t : SniSession Client}
    {e : SniEvent Client} (h : Targeted tr u) (htarget : t.target = u.target)
    (he : ¬ e.Begins) : Targeted (tr ++ [(u, e)]) t := by
  intro uri huri
  obtain ⟨pre, b, f, mid, rfl, hbegin, hdevice, hmid⟩ := h uri (htarget ▸ huri)
  refine ⟨pre, b, f, mid ++ [(u, e)], by simp, hbegin, hdevice, ?_⟩
  intro y hy
  rcases List.mem_append.mp hy with hy | hy
  · exact hmid y hy
  · obtain rfl := List.mem_singleton.mp hy
    exact he

theorem targeted_step {tr : List (SniSession Client × SniEvent Client)} {u t : SniSession Client}
    {e : SniEvent Client} (h : Targeted tr u) (hs : u.step e = some t) :
    Targeted (tr ++ [(u, e)]) t := by
  cases moves_of_step hs with
  | send e cmd hsend _ =>
      have hpoll := SniEvent.poll?_of_sends hsend
      refine h.keep rfl ?_
      rintro ⟨e', he, -⟩
      exact absurd (hpoll.symm.trans he) (by simp)
  | poll e loop hadmits hloop =>
      cases hbegin : e.action.begins with
      | true =>
          intro uri huri
          exact ⟨tr, u, e, [], rfl, hbegin, by simpa [polled, hbegin] using huri, by simp⟩
      | false =>
          refine h.keep (by simp [polled, hbegin]) ?_
          rintro ⟨e', he, hbegin'⟩
          obtain rfl := Option.some.inj he
          exact absurd hbegin' (by simp [hbegin])
  | _ =>
      refine h.keep rfl ?_
      rintro ⟨e', he, -⟩
      exact absurd he (by simp [SniEvent.poll?])

theorem targeted_run {cfg : LoopConfig} {mem : String → DeviceMem}
    {tr : List (SniSession Client × SniEvent Client)} {s : SniSession Client}
    (hrun : Run step (spawn cfg mem) tr s) : Targeted tr s :=
  hrun.trace_invariant (fun _ _ _ _ _ h hs => targeted_step h hs)
    fun _ h => absurd h (by simp [spawn])

-- ============================================================================
-- The replies of a session
-- ============================================================================

theorem asked_of_received {s : PollLoop} {e : LoopEvent} {sentAt : Nat}
    {reads : List CoalescedRead} {blobs : List (List UInt8)}
    (h : s.received e = some (sentAt, reads, blobs)) :
    e.action.blobs? = some blobs ∧ s.phase.asked? = some reads := by
  simp only [PollLoop.received] at h
  split at h
  · rename_i blobs' ctx sentAt' ha hp
    obtain ⟨rfl, rfl, rfl⟩ : sentAt' = sentAt ∧ ctx.rtReads = reads ∧ blobs' = blobs := by
      simpa using h
    simp [ha, hp, LoopAction.blobs?, LoopPhase.asked?]
  · rename_i blobs' work ctx done sentAt' b reads' ha hp
    obtain ⟨rfl, rfl, rfl⟩ : sentAt' = sentAt ∧ reads' = reads ∧ blobs' = blobs := by
      simpa using h
    simp [ha, hp, LoopAction.blobs?, LoopPhase.asked?]
  · exact absurd h (by simp)

/-- A reply that succeeds is the one the device has served. -/
theorem served_of_received {s t : SniSession Client} {e : LoopEvent}
    (hs : s.step (.poll e) = some t) {sentAt : Nat} {reads : List CoalescedRead}
    {blobs : List (List UInt8)}
    (hr : s.loop.received e = some (sentAt, reads, blobs)) : s.served = some blobs := by
  obtain ⟨hblobs, -⟩ := asked_of_received hr
  cases moves_of_step hs with
  | send _ cmd hsend _ => exact absurd hsend (by simp [SniEvent.sends])
  | poll e loop hadmits hloop =>
      simp only [Admits] at hadmits
      split at hadmits
      · rename_i cfg ha
        exact absurd (ha ▸ hblobs) (by simp [LoopAction.blobs?])
      · rename_i cfg ha
        exact absurd (ha ▸ hblobs) (by simp [LoopAction.blobs?])
      · exact hadmits blobs hblobs

/-- Every reply holds what a device had when it served the request. -/
theorem exists_holds {cfg : LoopConfig} {mem : String → DeviceMem}
    {tr : List (SniSession Client × SniEvent Client)} {s t : SniSession Client} {e : LoopEvent}
    (hrun : Run step (spawn cfg mem) tr s) (hs : s.step (.poll e) = some t) :
    ∃ m, PollLoop.Holds (s.loop, e) m := by
  refine PollLoop.exists_holds_of_reply fun sentAt reads blobs hr => ?_
  obtain ⟨pre, v, wait, uri, reads', -, -, hasked, hphase, heq, -⟩ :=
    answered_run hrun blobs (served_of_received hs hr)
  have hsame : s.loop.phase.asked? = some reads := (asked_of_received hr).2
  obtain rfl := Option.some.inj ((hphase ▸ hsame).symm.trans hasked)
  exact ⟨v.mem uri, heq⟩

theorem exists_of_mem_loopTrace {tr : List (SniSession Client × SniEvent Client)}
    {y : PollLoop × LoopEvent} (h : y ∈ loopTrace tr) :
    ∃ w e, (w, .poll e) ∈ tr ∧ y = (w.loop, e) := by
  obtain ⟨⟨w, ev⟩, hw, hy⟩ := List.mem_filterMap.mp h
  obtain ⟨e, he, rfl⟩ := Option.map_eq_some_iff.mp hy
  obtain rfl := SniEvent.poll?_eq_some he
  exact ⟨w, e, hw, rfl⟩

/-- So the loop's own theorem applies to the loop of a session. -/
theorem loop_holds {cfg : LoopConfig} {mem : String → DeviceMem}
    {tr : List (SniSession Client × SniEvent Client)} {s : SniSession Client}
    (hrun : Run step (spawn cfg mem) tr s) : ∀ y ∈ loopTrace tr, ∃ m, PollLoop.Holds y m := by
  intro y hy
  obtain ⟨w, e, hmem, rfl⟩ := exists_of_mem_loopTrace hy
  obtain ⟨pre, post, rfl⟩ := List.append_of_mem hmem
  obtain ⟨t, hpre, hs, -⟩ := hrun.split_at
  exact exists_holds hpre hs

/-- A user connects, a script declares a watch, and a cycle reads it. -/
def connectAndWatch : List (SniEvent Unit) :=
  [.send (.connect "http://127.0.0.1:8191"), .handle connectOk,
   .poll ⟨0, .script (.register (.wram 0x10 2) .high 0)⟩,
   .poll ⟨fromMillis 1, .beginCycle .default⟩, .poll ⟨0, .readActive⟩, .poll ⟨0, .sendRealtime⟩,
   .poll ⟨0, .drainHead⟩, .serve, .poll ⟨fromMillis 3, .bulkReply (.ok [[0x10, 0x11]]) 0⟩,
   .poll ⟨0, .drainHead⟩, .poll ⟨0, .publish⟩]

end SniSession

end App
end SniLua
