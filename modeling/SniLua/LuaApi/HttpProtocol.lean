/-
  SniLua.LuaApi.HttpProtocol

  What holds in every interleaving of script, worker and host.  Three invariants
  build on each other:

    * `CountOk` — the in-flight count is the number of unfinished requests and the
      slot of a submit under way, and no request is admitted beyond the cap.
    * `FlowOk` — a request or response under way (`flow`) carries the id its call
      was given, and no id is under way twice.
    * `CallbackOk` — a stashed callback is under the id of its own call, belongs
      to the VM in use, and is taken out of the map when it is called.
-/

import Mathlib.Data.List.Nodup
import Mathlib.Data.List.Perm.Basic
import SniLua.LuaApi.Http

namespace SniLua
namespace LuaApi
namespace Http

open Lib

-- ============================================================================
-- The in-flight count
-- ============================================================================

/-- The accepted requests that have not finished. -/
def State.unfinished (s : State) : Nat := s.reqQueue.length + s.tasks.length + s.lost.length

/-- The slots a submit under way holds. -/
def Submit.slots : Submit → Nat
  | .reserved .. | .allocated .. => 1
  | .idle | .sent .. => 0

/-- What `submit` has seen of the number of unfinished requests, which only it
    can raise. -/
def Submit.Room (n : Nat) : Submit → Prop
  | .reserved prev _ _ => n ≤ prev
  | .allocated _ _ => n < httpMaxInFlight
  | .idle | .sent .. => True

theorem Submit.Room.mono {n m : Nat} {sub : Submit} (h : sub.Room n) (hle : m ≤ n) :
    sub.Room m := by
  cases sub with
  | reserved prev req callback => exact Nat.le_trans hle h
  | allocated req callback => exact Nat.lt_of_le_of_lt hle h
  | idle | sent => trivial

structure CountOk (s : State) : Prop where
  count : s.inFlight = s.unfinished + s.submit.slots
  room : s.submit.Room s.unfinished
  cap : s.unfinished ≤ httpMaxInFlight

theorem countOk_start : CountOk .start where
  count := rfl
  room := trivial
  cap := Nat.zero_le _

/-- Neither the callbacks nor the frames touch the count. -/
theorem CountOk.of_eq {s t : State} (h : CountOk s) (hunfinished : t.unfinished = s.unfinished)
    (hsub : t.submit = s.submit) (hcount : t.inFlight = s.inFlight) : CountOk t where
  count := by rw [hunfinished, hsub, hcount]; exact h.count
  room := by rw [hunfinished, hsub]; exact h.room
  cap := by rw [hunfinished]; exact h.cap

theorem deliver_of_none {s : State} {resp : HttpResponse} (hget : s.pending.get resp.id = none)
    (rest : List HttpResponse) : s.deliver resp rest = { s with mode := .pumping rest } := by
  simp only [State.deliver, hget]

theorem deliver_of_some {s : State} {resp : HttpResponse} {cb : Callback}
    (hget : s.pending.get resp.id = some cb) (hvm : cb.vm = s.vm) (rest : List HttpResponse) :
    s.deliver resp rest =
      { s with
        pending := s.pending.retain (· ≠ resp.id)
        mode := .callback rest
        invoked := s.invoked ++
          [{ callback := cb, response := resp, table := resp.table, frame := s.frame
             vm := s.vm }] } := by
  simp only [State.deliver, hget, if_pos hvm]

theorem deliver_of_stale {s : State} {resp : HttpResponse} {cb : Callback}
    (hget : s.pending.get resp.id = some cb) (hvm : cb.vm ≠ s.vm) (rest : List HttpResponse) :
    s.deliver resp rest =
      { s with pending := s.pending.retain (· ≠ resp.id), mode := .pumping rest } := by
  simp only [State.deliver, hget, if_neg hvm]

/-- Walking over a response changes callbacks and mode only. -/
theorem deliver_eq (s : State) (resp : HttpResponse) (rest : List HttpResponse) :
    ∃ pending mode invoked, s.deliver resp rest = { s with pending, mode, invoked } ∧
      (mode = .pumping rest ∨ mode = .callback rest) := by
  cases hget : s.pending.get resp.id with
  | none => exact ⟨_, _, _, deliver_of_none hget rest, Or.inl rfl⟩
  | some cb =>
      by_cases hvm : cb.vm = s.vm
      · exact ⟨_, _, _, deliver_of_some hget hvm rest, Or.inr rfl⟩
      · exact ⟨_, _, _, deliver_of_stale hget hvm rest, Or.inl rfl⟩

theorem countOk_stepped {s t : State} {e : Event} (h : CountOk s) (hs : Stepped s e t) :
    CountOk t := by
  have hcount := h.count
  have hroom := h.room
  have hcap := h.cap
  cases hs with
  | request hsub hlua =>
      rw [hsub] at hcount
      exact ⟨congrArg (· + 1) hcount, Nat.le_of_eq hcount.symm, hcap⟩
  | rejected hsub hfull =>
      rw [hsub] at hcount
      exact ⟨by rw [State.release, hcount]; rfl, trivial, hcap⟩
  | admitted hsub hlt =>
      rw [hsub] at hcount hroom
      exact ⟨hcount, Nat.lt_of_le_of_lt hroom hlt, hcap⟩
  | sendFails hsub =>
      rw [hsub] at hcount
      exact ⟨by rw [State.release, hcount]; rfl, trivial, hcap⟩
  | @sends req callback hsub =>
      -- the slot becomes that of the queued request
      rw [hsub] at hcount hroom
      have hunfinished : (s.send req callback).unfinished = s.unfinished + 1 := by
        simp only [State.unfinished, State.send, List.length_append, List.length_singleton]
        omega
      refine ⟨?_, trivial, ?_⟩
      · rw [hunfinished]
        exact hcount
      · rw [hunfinished]
        exact hroom
  | stash hsub =>
      rw [hsub] at hcount
      exact ⟨hcount, trivial, hcap⟩
  | givesUp =>
      refine h.of_eq ?_ rfl rfl
      simp only [State.unfinished, State.giveUp, List.length_append, List.length_nil]
      omega
  | @recv req rest hqueue =>
      refine h.of_eq ?_ rfl rfl
      simp only [State.unfinished, State.recv, hqueue, List.length_append, List.length_cons,
        List.length_nil]
      omega
  | @finish i req result htask =>
      have hi : i < s.tasks.length := (List.getElem?_eq_some_iff.mp htask).1
      have hunfinished : (s.finish i req result).unfinished + 1 = s.unfinished := by
        simp only [State.unfinished, State.finish, List.length_eraseIdx_of_lt hi]
        omega
      refine ⟨?_, hroom.mono (by omega), by omega⟩
      show s.inFlight - 1 = (s.finish i req result).unfinished + s.submit.slots
      omega
  | @deliver resp rest hmode =>
      obtain ⟨pending, mode, invoked, heq, -⟩ := deliver_eq s resp rest
      rw [heq]
      exact h.of_eq rfl rfl rfl
  | @unloadReturns reload hmode hsub =>
      cases reload <;> exact h.of_eq rfl rfl rfl
  | serves | sendResponse | beginFrame | drain | drainEnd | callbackReturns | pumpEnd
  | frameReturns | beginReload | beginLoad | beginUnload | loadReturns =>
      exact h.of_eq rfl rfl rfl

-- ============================================================================
-- Requests and responses under way
-- ============================================================================

/-- The id of a request with the call that was given it. -/
def HttpRequest.key (req : HttpRequest) : Nat × Nat := (req.id, req.call)

def HttpResponse.key (resp : HttpResponse) : Nat × Nat := (resp.id, resp.call)

/-- Everything under way, from the response that is handled next to the request
    that was queued last. -/
def State.flow (s : State) : List (Nat × Nat) :=
  s.mode.done.map HttpResponse.key ++ s.respQueue.map HttpResponse.key ++
    s.sending.map HttpResponse.key ++ s.tasks.map HttpRequest.key ++
    s.reqQueue.map HttpRequest.key

/-- The id was given to the call. -/
def Issued (s : State) (id call : Nat) : Prop := 0 < id ∧ s.issued[id - 1]? = some call

theorem Issued.append {s t : State} {id call : Nat} (h : Issued s id call) {calls : List Nat}
    (ht : t.issued = s.issued ++ calls) : Issued t id call := by
  refine ⟨h.1, ?_⟩
  have hlt := (List.getElem?_eq_some_iff.mp h.2).1
  rw [ht, List.getElem?_append_left hlt]
  exact h.2

theorem Issued.lt {s : State} {id call : Nat} (h : Issued s id call) :
    id < s.issued.length + 1 := by
  have hpos := h.1
  have hlt := (List.getElem?_eq_some_iff.mp h.2).1
  omega

/-- What is known of the request a submit under way is about. -/
def Submit.Fresh (s : State) : Submit → Prop
  | .idle => True
  | .reserved _ req _ => req.call < s.calls ∧ req.call ∉ s.issued
  | .allocated req _ => Issued s req.id req.call ∧ ∀ x ∈ s.flow, x.1 ≠ req.id
  | .sent req _ => Issued s req.id req.call ∧ ∀ resp ∈ s.mode.done, resp.id ≠ req.id

structure FlowOk (s : State) : Prop where
  next : s.nextId = s.issued.length + 1
  distinct : s.issued.Nodup
  made : ∀ call ∈ s.issued, call < s.calls
  issued : ∀ x ∈ s.flow, Issued s x.1 x.2
  nodup : (s.flow.map Prod.fst).Nodup
  submit : s.submit.Fresh s
  /-- Only script code submits. -/
  lua : s.submit = .idle ∨ s.mode.runsLua = true

theorem flowOk_start : FlowOk .start where
  next := rfl
  distinct := List.nodup_nil
  made := by simp [State.start]
  issued := by simp [State.start, State.flow, Mode.done]
  nodup := by simp [State.start, State.flow, Mode.done]
  submit := trivial
  lua := Or.inl rfl

theorem cons_eraseIdx_perm {α : Type} {l : List α} {i : Nat} {a : α} (h : l[i]? = some a) :
    (a :: l.eraseIdx i).Perm l := by
  obtain ⟨hi, rfl⟩ := List.getElem?_eq_some_iff.mp h
  exact List.getElem_cons_eraseIdx_perm hi

/-- Nothing comes under way but what `submit` sends. -/
theorem flow_stepped {s t : State} {e : Event} (hs : Stepped s e t) :
    t.flow.Subperm s.flow ∨ ∃ req callback, s.submit = .allocated req callback ∧
      t.submit = .sent req callback ∧ t.flow = s.flow ++ [req.key] := by
  cases hs with
  | @sends req callback hsub =>
      refine Or.inr ⟨req, callback, hsub, rfl, ?_⟩
      simp [State.flow, State.send]
  | givesUp =>
      refine Or.inl (List.Sublist.subperm ?_)
      simp [State.flow, State.giveUp]
  | @recv req rest hqueue =>
      refine Or.inl (List.Perm.subperm (List.Perm.of_eq ?_))
      simp [State.flow, State.recv, hqueue]
  | @finish i req result htask =>
      refine Or.inl (List.Perm.subperm ?_)
      have hperm := (cons_eraseIdx_perm htask).map HttpRequest.key
      simp only [State.flow, State.finish, List.map_append, List.map_cons, List.map_nil,
        List.append_assoc, List.singleton_append]
      refine List.Perm.append_left _ (List.Perm.append_left _ (List.Perm.append_left _ ?_))
      exact hperm.append_right _
  | @sendResponse i resp hresp =>
      refine Or.inl (List.Perm.subperm ?_)
      have hperm := (cons_eraseIdx_perm hresp).map HttpResponse.key
      simp only [State.flow, State.sendResponse, List.map_append, List.map_cons, List.map_nil,
        List.append_assoc, List.singleton_append]
      refine List.Perm.append_left _ (List.Perm.append_left _ ?_)
      exact hperm.append_right _
  | @drain done resp rest hmode hqueue =>
      refine Or.inl (List.Perm.subperm (List.Perm.of_eq ?_))
      simp [State.flow, State.drain, hmode, hqueue, Mode.done]
  | @deliver resp rest hmode =>
      refine Or.inl (List.Sublist.subperm ?_)
      obtain ⟨pending, mode, invoked, heq, hnext⟩ := deliver_eq s resp rest
      rw [heq]
      rcases hnext with rfl | rfl <;> simp [State.flow, hmode, Mode.done]
  | @unloadReturns reload hmode hsub =>
      refine Or.inl (List.Perm.subperm (List.Perm.of_eq ?_))
      cases reload <;> simp [State.flow, State.unloaded, State.replaceVm, hmode, Mode.done]
  | beginFrame hmode | beginReload hmode | beginLoad hmode | beginUnload hmode | pumpEnd hmode
  | drainEnd hmode | callbackReturns hmode | frameReturns hmode | loadReturns hmode =>
      refine Or.inl (List.Perm.subperm (List.Perm.of_eq ?_))
      simp [State.flow, State.beginFrame, State.replaceVm, hmode, Mode.done]
  | request | rejected | admitted | sendFails | stash | serves =>
      exact Or.inl (List.Subperm.refl _)

/-- No submit is under way while no script code runs. -/
theorem FlowOk.idle {s : State} (h : FlowOk s) (hmode : s.mode.runsLua = false) :
    s.submit = .idle := by
  rcases h.lua with hidle | hlua
  · exact hidle
  · exact absurd hlua (by simp [hmode])

/-- Script code runs while a submit is under way. -/
theorem FlowOk.runsLua {s : State} (h : FlowOk s) (hsub : s.submit ≠ .idle) :
    s.mode.runsLua = true :=
  h.lua.resolve_left hsub

/-- Less under way, the submit being that of `s` or none. -/
theorem FlowOk.of_subperm {s t : State} (h : FlowOk s) (hflow : t.flow.Subperm s.flow)
    (hnext : t.nextId = s.nextId) (hissued : t.issued = s.issued) (hcalls : t.calls = s.calls)
    (hsub : t.submit.Fresh t) (hlua : t.submit = .idle ∨ t.mode.runsLua = true) :
    FlowOk t where
  next := by rw [hnext, hissued]; exact h.next
  distinct := by rw [hissued]; exact h.distinct
  made := by rw [hissued, hcalls]; exact h.made
  issued := by
    intro x hx
    exact (h.issued x (hflow.subset hx)).append (by rw [hissued, List.append_nil])
  nodup := by
    obtain ⟨l, hperm, hsublist⟩ := hflow
    have hl := (hsublist.map Prod.fst).nodup h.nodup
    exact (hperm.map Prod.fst).nodup_iff.mp hl
  submit := hsub
  lua := hlua

/-- The new id is beyond all issued ones. -/
theorem flowOk_allocate {s : State} (h : FlowOk s) {prev : Nat} {req : HttpRequest}
    {callback : Bool} (hsub : s.submit = .reserved prev req callback) :
    FlowOk (s.allocate req callback) := by
  have hsubmit := h.submit
  rw [hsub] at hsubmit
  obtain ⟨hmade, hnew⟩ := hsubmit
  have hissued : (s.allocate req callback).issued = s.issued ++ [req.call] := rfl
  have hnext := h.next
  refine ⟨?_, ?_, ?_, fun x hx => (h.issued x hx).append hissued, h.nodup, ⟨?_, ?_⟩, ?_⟩
  · rw [hissued, List.length_append]
    exact congrArg (· + 1) hnext
  · rw [hissued]
    refine List.Nodup.append h.distinct (List.nodup_singleton _) ?_
    simpa using hnew
  · rw [hissued]
    intro call hcall
    rcases List.mem_append.mp hcall with hcall | hcall
    · exact h.made call hcall
    · obtain rfl := List.mem_singleton.mp hcall
      exact hmade
  · refine ⟨by simp [hnext], ?_⟩
    rw [hissued]
    simp [hnext]
  · intro x hx heq
    have hlt := (h.issued x hx).lt
    simp only at heq
    omega
  · exact Or.inr (h.runsLua (by simp [hsub]))

/-- The request comes under way at the end of the queue. -/
theorem flowOk_send {s : State} (h : FlowOk s) {req : HttpRequest} {callback : Bool}
    (hsub : s.submit = .allocated req callback) : FlowOk (s.send req callback) := by
  have hsubmit := h.submit
  rw [hsub] at hsubmit
  obtain ⟨hissued, hno⟩ := hsubmit
  have hflow : (s.send req callback).flow = s.flow ++ [req.key] := by
    simp [State.flow, State.send]
  refine ⟨h.next, h.distinct, h.made, ?_, ?_, ⟨hissued, ?_⟩, ?_⟩
  · intro x hx
    rw [hflow] at hx
    rcases List.mem_append.mp hx with hx | hx
    · exact h.issued x hx
    · obtain rfl := List.mem_singleton.mp hx
      exact hissued
  · rw [hflow, List.map_append]
    refine List.Nodup.append h.nodup (List.nodup_singleton _) ?_
    simpa [HttpRequest.key] using fun call hmem => hno (req.id, call) hmem rfl
  · intro resp hresp
    refine hno resp.key ?_
    simp only [State.flow, List.append_assoc]
    exact List.mem_append_left _ (List.mem_map_of_mem hresp)
  · exact Or.inr (h.runsLua (by simp [hsub]))

theorem flowOk_stepped {s t : State} {e : Event} (h : FlowOk s) (hs : Stepped s e t) :
    FlowOk t := by
  -- what is sent comes under way, everything else only moves
  have hsubperm : (∀ req callback, t.submit ≠ .sent req callback) ∨ t.submit = s.submit →
      t.flow.Subperm s.flow := by
    intro hsub
    rcases flow_stepped hs with hflow | ⟨req, callback, hs', ht, -⟩
    · exact hflow
    · rcases hsub with hno | heq
      · exact absurd ht (hno req callback)
      · rw [ht, hs'] at heq
        exact absurd heq (by simp)
  have hidle : t.submit = .idle → t.flow.Subperm s.flow := fun hsub =>
    hsubperm (Or.inl (by simp [hsub]))
  have hsubmit := h.submit
  cases hs with
  | request hsub hlua =>
      refine ⟨h.next, h.distinct, fun call hcall => Nat.lt_succ_of_lt (h.made call hcall),
        h.issued, h.nodup, ⟨Nat.lt_succ_self _, ?_⟩, Or.inr hlua⟩
      exact fun hmem => absurd (h.made _ hmem) (Nat.lt_irrefl _)
  | admitted hsub => exact flowOk_allocate h hsub
  | sends hsub => exact flowOk_send h hsub
  | rejected | sendFails | stash =>
      exact h.of_subperm (hidle rfl) rfl rfl rfl trivial (Or.inl rfl)
  | serves | givesUp | recv | finish | sendResponse =>
      have hflow := hsubperm (Or.inr rfl)
      refine h.of_subperm hflow rfl rfl rfl ?_ h.lua
      show s.submit.Fresh _
      cases hsub : s.submit with
      | idle => trivial
      | reserved prev req callback =>
          rw [hsub] at hsubmit
          exact hsubmit
      | allocated req callback =>
          rw [hsub] at hsubmit
          exact ⟨hsubmit.1, fun x hx => hsubmit.2 x (hflow.subset hx)⟩
      | sent req callback =>
          rw [hsub] at hsubmit
          exact hsubmit
  | @deliver resp rest hmode =>
      have hsub : s.submit = .idle := h.idle (by rw [hmode]; rfl)
      obtain ⟨pending, mode, invoked, heq, -⟩ := deliver_eq s resp rest
      rw [heq] at hidle ⊢
      refine h.of_subperm (hidle hsub) rfl rfl rfl ?_ (Or.inl hsub)
      show s.submit.Fresh _
      rw [hsub]
      trivial
  | @unloadReturns reload hmode hsub =>
      cases reload <;>
        exact h.of_subperm (hidle hsub) rfl rfl rfl (hsub ▸ trivial) (Or.inl hsub)
  | beginFrame hmode | drain hmode | drainEnd hmode | pumpEnd hmode | beginReload hmode
  | beginLoad hmode | beginUnload hmode =>
      have hsub : s.submit = .idle := h.idle (by rw [hmode]; rfl)
      refine h.of_subperm (hidle hsub) rfl rfl rfl ?_ (Or.inl hsub)
      show s.submit.Fresh _
      rw [hsub]
      trivial
  | callbackReturns hmode hsub | frameReturns hmode hsub | loadReturns hmode hsub =>
      refine h.of_subperm (hidle hsub) rfl rfl rfl ?_ (Or.inl hsub)
      show s.submit.Fresh _
      rw [hsub]
      trivial

-- ============================================================================
-- Callbacks
-- ============================================================================

/-- The responses are being drained. -/
def Mode.drains : Mode → Bool
  | .draining _ => true
  | _ => false

/-- The id of a submit under way. -/
def Submit.id : Submit → Option Nat
  | .allocated req _ | .sent req _ => some req.id
  | .idle | .reserved .. => none

/-- The callback of a drained response has been called with it. -/
def Delivered (s : State) (o : Callback × HttpResponse) : Prop :=
  ∃ i ∈ s.invoked, i.callback = o.1 ∧ i.response = o.2

structure CallbackOk (s : State) : Prop where
  pending : ∀ id cb, s.pending.get id = some cb →
    Issued s id cb.call ∧ cb.vm = s.vm ∧ cb.frame ≤ s.frame
  /-- A callback whose response is drained was registered in an earlier frame. -/
  old : ∀ id cb, s.pending.get id = some cb →
    (s.mode.drains = true ∨ ∃ resp ∈ s.mode.done, resp.id = id) → cb.frame < s.frame
  fresh : ∀ id, s.submit.id = some id →
    s.pending.get id = none ∧ ∀ i ∈ s.invoked, i.response.id ≠ id
  invoked : ∀ i ∈ s.invoked,
    Issued s i.response.id i.callback.call ∧ s.pending.get i.response.id = none
  own : ∀ i ∈ s.invoked, i.response.call = i.callback.call ∧ i.callback.frame < i.frame ∧
    i.callback.vm = i.vm
  nodup : (s.invoked.map (·.response.id)).Nodup
  owed : ∀ o ∈ s.owed, Delivered s o ∨ o.2 ∈ s.mode.done ∧ s.pending.get o.2.id = some o.1

theorem callbackOk_start : CallbackOk .start where
  pending := by simp [State.start]
  old := by simp [State.start]
  fresh := by simp [State.start, Submit.id]
  invoked := by simp [State.start]
  own := by simp [State.start]
  nodup := List.nodup_nil
  owed := by simp [State.start]

/-- A step that leaves callbacks, VM and frame alone. -/
theorem CallbackOk.of_eq {s t : State} (h : CallbackOk s) (hissued : t.issued = s.issued)
    (hpending : t.pending = s.pending) (hvm : t.vm = s.vm) (hframe : t.frame = s.frame)
    (hinvoked : t.invoked = s.invoked) (howed : t.owed = s.owed)
    (hdone : t.mode.done = s.mode.done) (hdrains : t.mode.drains = true → s.mode.drains = true)
    (hsub : t.submit.id = none ∨ t.submit.id = s.submit.id) : CallbackOk t where
  pending := by
    rw [hpending, hvm, hframe]
    intro id cb hget
    obtain ⟨hid, hrest⟩ := h.pending id cb hget
    exact ⟨hid.append (by rw [hissued, List.append_nil]), hrest⟩
  old := by
    rw [hpending, hframe, hdone]
    intro id cb hget hdone
    exact h.old id cb hget (hdone.imp_left hdrains)
  fresh := by
    rw [hpending, hinvoked]
    intro id hid
    rcases hsub with hnone | heq
    · exact absurd (hnone.symm.trans hid) (by simp)
    · exact h.fresh id (heq.symm.trans hid)
  invoked := by
    rw [hpending, hinvoked]
    intro i hi
    obtain ⟨hid, hget⟩ := h.invoked i hi
    exact ⟨hid.append (by rw [hissued, List.append_nil]), hget⟩
  own := by rw [hinvoked]; exact h.own
  nodup := by rw [hinvoked]; exact h.nodup
  owed := by
    unfold Delivered
    rw [howed, hinvoked, hpending, hdone]
    exact h.owed

/-- A drained response is that of the call its id was given to. -/
theorem FlowOk.call_eq {s : State} (h : FlowOk s) {resp : HttpResponse} {call : Nat}
    (hresp : resp ∈ s.mode.done) (hid : Issued s resp.id call) : resp.call = call := by
  have hflow : resp.key ∈ s.flow := by
    simp only [State.flow, List.append_assoc]
    exact List.mem_append_left _ (List.mem_map_of_mem hresp)
  exact Option.some.inj ((h.issued _ hflow).2.symm.trans hid.2)

/-- No two drained responses have the same id. -/
theorem FlowOk.id_ne {s : State} (h : FlowOk s) {resp : HttpResponse}
    {rest : List HttpResponse} (hdone : s.mode.done = resp :: rest) :
    ∀ resp' ∈ rest, resp'.id ≠ resp.id := by
  have hnodup := h.nodup
  simp only [State.flow, hdone, List.append_assoc, List.map_append, List.map_cons,
    List.cons_append, List.nodup_cons, List.mem_append, List.map_map] at hnodup
  intro resp' hmem heq
  refine hnodup.1 (Or.inl ?_)
  exact List.mem_map.mpr ⟨resp', hmem, heq⟩

/-- Walking over a response without a callback. -/
theorem callbackOk_skip {s : State} (h : CallbackOk s) {resp : HttpResponse}
    {rest : List HttpResponse} (hdone : s.mode.done = resp :: rest)
    (hget : s.pending.get resp.id = none) : CallbackOk { s with mode := .pumping rest } where
  pending := h.pending
  old := by
    rintro id cb hcb (hdrains | ⟨resp', hresp', hid⟩)
    · exact absurd hdrains (by simp [Mode.drains])
    · refine h.old id cb hcb (Or.inr ⟨resp', ?_, hid⟩)
      rw [hdone]
      exact List.mem_cons_of_mem _ hresp'
  fresh := h.fresh
  invoked := h.invoked
  own := h.own
  nodup := h.nodup
  owed := by
    intro o ho
    refine (h.owed o ho).imp_right ?_
    rintro ⟨hin, hcb⟩
    rw [hdone] at hin
    rcases List.mem_cons.mp hin with heq | hin
    · rw [heq, hget] at hcb
      exact absurd hcb (by simp)
    · exact ⟨hin, hcb⟩

/-- Walking over a response whose callback is registered calls the callback, which
    is that of the response's own call and was registered in an earlier frame. -/
theorem callbackOk_call {s : State} (hflow : FlowOk s) (h : CallbackOk s)
    {resp : HttpResponse} {rest : List HttpResponse} (hdone : s.mode.done = resp :: rest)
    (hsub : s.submit = .idle) {cb : Callback} (hget : s.pending.get resp.id = some cb) :
    CallbackOk
      { s with
        pending := s.pending.retain (· ≠ resp.id)
        mode := .callback rest
        invoked := s.invoked ++
          [{ callback := cb, response := resp, table := resp.table, frame := s.frame
             vm := s.vm }] } := by
  have hmem : resp ∈ s.mode.done := by rw [hdone]; exact List.mem_cons_self ..
  obtain ⟨hid, hvm, -⟩ := h.pending _ _ hget
  have hframe := h.old _ _ hget (Or.inr ⟨resp, hmem, rfl⟩)
  -- what has been called is not pending any more
  have hother : ∀ i ∈ s.invoked, i.response.id ≠ resp.id := by
    intro i hi heq
    have hnone := (h.invoked i hi).2
    rw [heq, hget] at hnone
    exact absurd hnone (by simp)
  refine ⟨fun id cb' hcb' => h.pending id cb' (HashMap.get_of_get_retain hcb'), ?_,
    by simp [hsub, Submit.id], ?_, ?_, ?_, ?_⟩
  · rintro id cb' hcb' (hdrains | ⟨resp', hresp', hid'⟩)
    · exact absurd hdrains (by simp [Mode.drains])
    · refine h.old id cb' (HashMap.get_of_get_retain hcb') (Or.inr ⟨resp', ?_, hid'⟩)
      rw [hdone]
      exact List.mem_cons_of_mem _ hresp'
  · intro i hi
    rcases List.mem_append.mp hi with hi | hi
    · obtain ⟨hissued, hnone⟩ := h.invoked i hi
      refine ⟨hissued, ?_⟩
      rw [HashMap.get_retain_ne_of_ne _ (hother i hi)]
      exact hnone
    · obtain rfl := List.mem_singleton.mp hi
      exact ⟨hid, HashMap.get_retain_ne_self _ _⟩
  · intro i hi
    rcases List.mem_append.mp hi with hi | hi
    · exact h.own i hi
    · obtain rfl := List.mem_singleton.mp hi
      exact ⟨hflow.call_eq hmem hid, hframe, hvm⟩
  · rw [List.map_append]
    refine List.Nodup.append h.nodup (List.nodup_singleton _) ?_
    intro id hin hnew
    obtain rfl := List.mem_singleton.mp hnew
    obtain ⟨i, hi, heq⟩ := List.mem_map.mp hin
    exact hother i hi heq
  · intro o ho
    rcases h.owed o ho with ⟨i, hi, hcb, hresp⟩ | ⟨hin, hcb⟩
    · exact Or.inl ⟨i, List.mem_append_left _ hi, hcb, hresp⟩
    · rw [hdone] at hin
      rcases List.mem_cons.mp hin with heq | hin
      · rw [heq, hget] at hcb
        refine Or.inl ⟨_, List.mem_append_right _ (List.mem_singleton_self _), ?_, heq.symm⟩
        exact Option.some.inj hcb
      · refine Or.inr ⟨hin, ?_⟩
        rw [HashMap.get_retain_ne_of_ne _ (hflow.id_ne hdone _ hin)]
        exact hcb

theorem callbackOk_deliver {s : State} (hflow : FlowOk s) (h : CallbackOk s)
    {resp : HttpResponse} {rest : List HttpResponse} (hmode : s.mode = .pumping (resp :: rest)) :
    CallbackOk (s.deliver resp rest) := by
  have hdone : s.mode.done = resp :: rest := by rw [hmode]; rfl
  cases hget : s.pending.get resp.id with
  | none =>
      rw [deliver_of_none hget]
      exact callbackOk_skip h hdone hget
  | some cb =>
      rw [deliver_of_some hget (h.pending _ _ hget).2.1]
      exact callbackOk_call hflow h hdone (hflow.idle (by rw [hmode]; rfl)) hget

/-- A stashed callback waits for its own response. -/
theorem callbackOk_stash {s : State} (hflow : FlowOk s) (h : CallbackOk s) {req : HttpRequest}
    {callback : Bool} (hsub : s.submit = .sent req callback) :
    CallbackOk (s.stash req callback) := by
  have hsubmit := hflow.submit
  rw [hsub] at hsubmit
  obtain ⟨hissued, hnotDone⟩ := hsubmit
  obtain ⟨hnone, hnotInvoked⟩ := h.fresh req.id (by rw [hsub]; rfl)
  have hlua := hflow.runsLua (by simp [hsub])
  cases callback with
  | false => exact h.of_eq rfl rfl rfl rfl rfl rfl rfl id (Or.inl rfl)
  | true =>
      have hget : ∀ id, (s.stash req true).pending.get id =
          if id = req.id then some { vm := s.vm, call := req.call, frame := s.frame }
          else s.pending.get id := fun id => HashMap.get_insert ..
      refine ⟨?_, ?_, by simp [State.stash, Submit.id], ?_, h.own, h.nodup, ?_⟩
      · intro id cb hcb
        rw [hget] at hcb
        split at hcb
        · rename_i heq
          obtain rfl := Option.some.inj hcb
          exact ⟨heq ▸ hissued, rfl, Nat.le_refl _⟩
        · exact h.pending id cb hcb
      · intro id cb hcb hold
        rw [hget] at hcb
        split at hcb
        · rename_i heq
          rcases hold with hdrains | ⟨resp, hresp, hid⟩
          · have hmode : s.mode.drains = true := hdrains
            cases hm : s.mode <;> simp [hm, Mode.drains, Mode.runsLua] at hmode hlua
          · exact absurd (hid.trans heq) (hnotDone resp hresp)
        · exact h.old id cb hcb hold
      · intro i hi
        obtain ⟨hid, hpending⟩ := h.invoked i hi
        refine ⟨hid, ?_⟩
        rw [hget, if_neg (hnotInvoked i hi)]
        exact hpending
      · intro o ho
        refine (h.owed o ho).imp_right ?_
        rintro ⟨hin, hcb⟩
        refine ⟨hin, ?_⟩
        rw [hget, if_neg (hnotDone _ hin)]
        exact hcb

/-- The new VM starts without callbacks; nothing drained is left to walk over. -/
theorem callbackOk_replaceVm {s : State} (h : CallbackOk s) (hdone : s.mode.done = []) :
    CallbackOk s.replaceVm where
  pending := by simp [State.replaceVm]
  old := by simp [State.replaceVm]
  fresh := fun id hid => ⟨rfl, (h.fresh id hid).2⟩
  invoked := fun i hi => ⟨(h.invoked i hi).1, rfl⟩
  own := h.own
  nodup := h.nodup
  owed := by
    intro o ho
    rcases h.owed o ho with hdel | ⟨hin, -⟩
    · exact Or.inl hdel
    · rw [hdone] at hin
      exact absurd hin (by simp)

theorem callbackOk_stepped {s t : State} {e : Event} (hflow : FlowOk s) (h : CallbackOk s)
    (hs : Stepped s e t) : CallbackOk t := by
  cases hs with
  | @admitted prev req callback hsub hroom =>
      have hissued : (s.allocate req callback).issued = s.issued ++ [req.call] := rfl
      refine ⟨?_, h.old, ?_, ?_, h.own, h.nodup, h.owed⟩
      · intro id cb hcb
        obtain ⟨hid, hrest⟩ := h.pending id cb hcb
        exact ⟨hid.append hissued, hrest⟩
      · intro id hid
        obtain rfl := Option.some.inj hid
        -- the new id is beyond all issued ones
        refine ⟨?_, ?_⟩
        · by_contra hsome
          obtain ⟨cb, hcb⟩ := Option.ne_none_iff_exists'.mp hsome
          have hlt := (h.pending _ _ hcb).1.lt
          have hnext := hflow.next
          simp only at hlt
          omega
        · intro i hi heq
          have hlt := (h.invoked i hi).1.lt
          have hnext := hflow.next
          simp only at heq
          omega
      · intro i hi
        obtain ⟨hid, hnone⟩ := h.invoked i hi
        exact ⟨hid.append hissued, hnone⟩
  | sends hsub =>
      exact h.of_eq rfl rfl rfl rfl rfl rfl rfl id (Or.inr (by rw [hsub]; rfl))
  | stash hsub => exact callbackOk_stash hflow h hsub
  | request | rejected | sendFails =>
      exact h.of_eq rfl rfl rfl rfl rfl rfl rfl id (Or.inl rfl)
  | serves | givesUp | recv | finish | sendResponse =>
      exact h.of_eq rfl rfl rfl rfl rfl rfl rfl id (Or.inr rfl)
  | beginFrame hmode =>
      refine ⟨?_, ?_, h.fresh, h.invoked, h.own, h.nodup, ?_⟩
      · intro id cb hcb
        obtain ⟨hid, hvm, hle⟩ := h.pending id cb hcb
        exact ⟨hid, hvm, Nat.le_succ_of_le hle⟩
      · intro id cb hcb _
        exact Nat.lt_succ_of_le (h.pending id cb hcb).2.2
      · intro o ho
        refine (h.owed o ho).imp_right ?_
        rintro ⟨hin, -⟩
        rw [hmode] at hin
        exact absurd hin (by simp [Mode.done])
  | @drain done resp rest hmode hqueue =>
      refine ⟨h.pending, ?_, h.fresh, h.invoked, h.own, h.nodup, ?_⟩
      · intro id cb hcb _
        exact h.old id cb hcb (Or.inl (by rw [hmode]; rfl))
      · intro o ho
        rcases List.mem_append.mp ho with ho | ho
        · refine (h.owed o ho).imp_right ?_
          rintro ⟨hin, hcb⟩
          rw [hmode] at hin
          exact ⟨List.mem_append_left _ hin, hcb⟩
        · obtain ⟨cb, hcb, rfl⟩ : ∃ cb, s.pending.get resp.id = some cb ∧ (cb, resp) = o := by
            simpa using ho
          exact Or.inr ⟨List.mem_append_right _ (List.mem_singleton_self _), hcb⟩
  | deliver hmode => exact callbackOk_deliver hflow h hmode
  | @unloadReturns reload hmode hsub =>
      have hdone : s.mode.done = [] := by rw [hmode]; rfl
      cases reload with
      | true => exact callbackOk_replaceVm h hdone
      | false =>
          exact h.of_eq rfl rfl rfl rfl rfl rfl hdone.symm
            (by simp [State.unloaded, Mode.drains]) (Or.inr rfl)
  | beginLoad hmode => exact callbackOk_replaceVm h (by rw [hmode]; rfl)
  | drainEnd hmode | callbackReturns hmode | pumpEnd hmode | frameReturns hmode
  | beginReload hmode | beginUnload hmode | loadReturns hmode =>
      exact h.of_eq rfl rfl rfl rfl rfl rfl (by rw [hmode]; rfl) (by simp [Mode.drains])
        (Or.inr rfl)

-- ============================================================================
-- The protocol
-- ============================================================================

structure BridgeOk (s : State) : Prop where
  count : CountOk s
  flow : FlowOk s
  callback : CallbackOk s

theorem bridgeOk_step {s t : State} {e : Event} (h : BridgeOk s) (hs : step s e = some t) :
    BridgeOk t where
  count := countOk_stepped h.count (stepped_of_step hs)
  flow := flowOk_stepped h.flow (stepped_of_step hs)
  callback := callbackOk_stepped h.flow h.callback (stepped_of_step hs)

theorem bridgeOk_run {tr : List (State × Event)} {s : State} (hrun : Run step .start tr s) :
    BridgeOk s :=
  hrun.invariant (P := fun _ _ => True) (fun _ _ _ _ h hs => bridgeOk_step h hs)
    (fun _ _ => trivial) ⟨countOk_start, flowOk_start, callbackOk_start⟩

/-- No callback is called twice: a call has one id, and an id is called once. -/
theorem nodup_invoked {s : State} (hflow : FlowOk s) (h : CallbackOk s) :
    (s.invoked.map (·.callback.call)).Nodup := by
  refine List.Nodup.map_on ?_ (h.nodup.of_map _)
  intro i hi j hj hcall
  refine List.inj_on_of_nodup_map h.nodup hi hj ?_
  obtain ⟨hpos, hget⟩ := (h.invoked i hi).1
  obtain ⟨hpos', hget'⟩ := (h.invoked j hj).1
  have hlt := (List.getElem?_eq_some_iff.mp hget).1
  have heq := (List.getElem?_inj hlt hflow.distinct).mp (hget.trans (hcall ▸ hget'.symm))
  omega

/-- Outside the pump nothing is owed any more. -/
theorem delivered_of_owed {s : State} (h : CallbackOk s) (hmode : s.mode.pumps = false) :
    ∀ o ∈ s.owed, Delivered s o := by
  intro o ho
  rcases h.owed o ho with hdel | ⟨hin, -⟩
  · exact hdel
  · cases hm : s.mode <;> simp [hm, Mode.done, Mode.pumps] at hin hmode

/-- The walk over the drained responses comes to its end. -/
theorem pump_ends {s : State} {done : List HttpResponse} (hmode : s.mode = .pumping done)
    (hsub : s.submit = .idle) :
    ∃ tr t, Run step s tr t ∧ t.mode = .onFrame ∧ t.owed = s.owed := by
  induction done generalizing s with
  | nil =>
      have hstep : step s .pumpEnd = some { s with mode := .onFrame } := by
        simp only [step, hmode]
      exact ⟨_, _, .snoc .refl hstep, rfl, rfl⟩
  | cons resp rest ih =>
      obtain ⟨pending, mode, invoked, heq, hnext⟩ := deliver_eq s resp rest
      have hstep : step s .deliver = some { s with pending, mode, invoked } := by
        simp only [step, hmode, heq]
      have hdeliver : Run step s ([] ++ [(s, .deliver)]) { s with pending, mode, invoked } :=
        .snoc .refl hstep
      rcases hnext with rfl | rfl
      · obtain ⟨tr, t, hrun, hend, howed⟩ :=
          ih (s := { s with pending, mode := .pumping rest, invoked }) rfl hsub
        exact ⟨_, t, hdeliver.trans hrun, hend, howed⟩
      · have hreturn : step { s with pending, mode := .callback rest, invoked } .callbackReturns =
            some { s with pending, mode := .pumping rest, invoked } := by
          simp only [step, hsub]
        obtain ⟨tr, t, hrun, hend, howed⟩ :=
          ih (s := { s with pending, mode := .pumping rest, invoked }) rfl hsub
        exact ⟨_, t, (hdeliver.snoc hreturn).trans hrun, hend, howed⟩

/-- **The HTTP bridge.**  In every state of every run the unfinished requests stay
    within the cap, and the in-flight count is their number whenever no submit is
    under way; no callback is called twice; each is called with the response of
    its own request, in a later frame and in the VM that registered it; and a
    response drained while its callback was registered has been delivered once
    the pump is done, to which the pump can always go on. -/
theorem http_bridge_protocol {tr : List (State × Event)} {s : State}
    (hrun : Run step .start tr s) :
    (s.unfinished ≤ httpMaxInFlight ∧ (s.submit.slots = 0 → s.inFlight = s.unfinished)) ∧
    (s.invoked.map (·.callback.call)).Nodup ∧
    (∀ i ∈ s.invoked, i.response.call = i.callback.call ∧ i.callback.frame < i.frame ∧
      i.callback.vm = i.vm) ∧
    (s.mode.pumps = false → ∀ o ∈ s.owed, Delivered s o) ∧
    (∀ done, s.mode = .pumping done →
      ∃ tr' t, Run step s tr' t ∧ t.mode = .onFrame ∧ ∀ o ∈ s.owed, Delivered t o) := by
  have hok := bridgeOk_run hrun
  refine ⟨⟨hok.count.cap, ?_⟩, nodup_invoked hok.flow hok.callback, hok.callback.own,
    delivered_of_owed hok.callback, ?_⟩
  · intro hslots
    rw [hok.count.count, hslots, Nat.add_zero]
  · intro done hmode
    obtain ⟨tr', t, hrun', hend, howed⟩ := pump_ends hmode (hok.flow.idle (by rw [hmode]; rfl))
    refine ⟨tr', t, hrun', hend, ?_⟩
    rw [← howed]
    exact delivered_of_owed (bridgeOk_run (hrun.trans hrun')).callback (by rw [hend]; rfl)

/-- A script asks for a page and stops; the response comes before the callback is
    stashed, and is delivered in the next frame. -/
def onePage : List Event :=
  [.workerStart true, .beginLoad,
   .request "GET" "http://localhost/"
     (some { headers := [], body := none, timeoutMs := none, callback := true }),
   .submitCheck, .submitSend, .recv, .finish 0 (.error "timed out"), .sendResponse 0, .stash,
   .loadReturns true, .beginFrame, .drain, .drainEnd, .deliver, .callbackReturns, .pumpEnd]

theorem http_bridge_protocol_onePage :
    (∀ o ∈ (final step .start onePage).owed, Delivered (final step .start onePage) o) ∧
      (final step .start onePage).owed.length = 1 :=
  ⟨(http_bridge_protocol (run_final (rfl : (exec step .start onePage).isSome = true))).2.2.2.1 rfl,
    rfl⟩

end Http
end LuaApi
end SniLua
