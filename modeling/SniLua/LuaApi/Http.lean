/-
  SniLua.LuaApi.Http

  The HTTP bridge between the Lua host and the Tokio worker, one atomic action a
  step: the three actions of `submit` and the stashing of the callback, the
  worker and its tasks, and the host with its frames, its pump and its reloads.
  The worker's steps come between any two steps of the host.

  Ids count `u64` numbers up by one a request and are taken not to run out; Lua
  is taken not to run out of memory when it builds a response table.

  A call of `http.request` is told from all others by `call`, which only the
  history uses: the host itself matches a response to its callback by id.
-/

import SniLua.Lib.HashMap
import SniLua.Lib.Run

namespace SniLua
namespace LuaApi
namespace Http

open Lib

-- ============================================================================
-- Requests and responses
-- ============================================================================

/-- Max simultaneous in-flight HTTP requests. -/
def httpMaxInFlight : Nat := 16

structure HttpRequest where
  method : String
  url : String
  headers : List (String × String)
  body : Option ByteArray
  timeoutMs : Nat
  /-- Correlates the response back to the script's callback. -/
  id : Nat
  /-- The call of `http.request`; history only. -/
  call : Nat

structure HttpOk where
  status : UInt16
  headers : List (String × String)
  body : String

structure HttpResponse where
  id : Nat
  /-- An error is a transport failure. -/
  result : Except String HttpOk
  /-- The call of the request this answers; history only. -/
  call : Nat

/-- The options of `http.request` that could be read as what they stand for. -/
structure RequestOpts where
  headers : List (String × String)
  body : Option String
  timeoutMs : Option Nat
  callback : Bool

/-- The request the binding hands to `submit`. -/
def requestOf (method url : String) (opts : Option RequestOpts) (call : Nat) : HttpRequest where
  method
  url
  headers := (opts.map (·.headers)).getD []
  body := (opts.bind (·.body)).map String.toUTF8
  timeoutMs := match opts.bind (·.timeoutMs) with
    | some t => if 0 < t then t else 15000
    | none => 15000
  id := 0  -- assigned by submit
  call

/-- The Lua table a callback is called with. -/
structure ResponseTable where
  ok : Bool
  status : Option UInt16
  body : Option String
  headers : Option (List (String × String))
  error : Option String

def HttpResponse.table (resp : HttpResponse) : ResponseTable :=
  match resp.result with
  | .ok r =>
      { ok := true, status := some r.status, body := some r.body, headers := some r.headers
        error := none }
  | .error e => { ok := false, status := none, body := none, headers := none, error := some e }

-- ============================================================================
-- States
-- ============================================================================

/-- A stashed callback. -/
structure Callback where
  /-- The VM whose registry holds it. -/
  vm : Nat
  /-- The call that registered it; history only. -/
  call : Nat
  /-- The frame of that call; history only. -/
  frame : Nat

inductive Worker where
  /-- The client is being built. -/
  | starting
  | serving
  /-- The client could not be built: the receiver is gone. -/
  | dead
deriving DecidableEq

/-- How far a call of `http.request` has come. -/
inductive Submit where
  | idle
  /-- The slot is reserved; `prev` requests were in flight before. -/
  | reserved (prev : Nat) (req : HttpRequest) (callback : Bool)
  /-- The request has its id. -/
  | allocated (req : HttpRequest) (callback : Bool)
  /-- The request is sent, the callback not stashed yet. -/
  | sent (req : HttpRequest) (callback : Bool)

/-- What the UI thread is doing. -/
inductive Mode where
  | idle
  /-- `pump_http` drains the responses. -/
  | draining (done : List HttpResponse)
  /-- It walks over the drained ones. -/
  | pumping (done : List HttpResponse)
  /-- A callback runs; the rest is still to be walked over. -/
  | callback (done : List HttpResponse)
  | onFrame
  /-- `on_unload` runs, for a reload or at exit. -/
  | unloading (reload : Bool)
  /-- The top level and `on_init` of a new script run. -/
  | loading

/-- Script code runs, and may call `http.request`. -/
def Mode.runsLua : Mode → Bool
  | .callback _ | .onFrame | .unloading _ | .loading => true
  | _ => false

/-- The drained responses still to be walked over. -/
def Mode.done : Mode → List HttpResponse
  | .draining done | .pumping done | .callback done => done
  | _ => []

/-- `pump_http` is running. -/
def Mode.pumps : Mode → Bool
  | .draining _ | .pumping _ | .callback _ => true
  | _ => false

/-- A call of a callback. -/
structure Invocation where
  callback : Callback
  response : HttpResponse
  table : ResponseTable
  frame : Nat
  /-- The VM in use. -/
  vm : Nat

structure State where
  reqQueue : List HttpRequest
  respQueue : List HttpResponse
  nextId : Nat
  inFlight : Nat
  pending : HashMap Nat Callback
  worker : Worker
  /-- The requests being executed. -/
  tasks : List HttpRequest
  /-- The responses of finished tasks that are not sent yet. -/
  sending : List HttpResponse
  /-- The requests that were queued when the worker gave up. -/
  lost : List HttpRequest
  mode : Mode
  submit : Submit
  loaded : Bool
  vm : Nat
  frame : Nat
  /-- Calls of `http.request` so far. -/
  calls : Nat
  /-- The calls that got an id, in order of their ids. -/
  issued : List Nat
  /-- The responses drained while their callback was registered, with it. -/
  owed : List (Callback × HttpResponse)
  invoked : List Invocation

namespace State

/-- A fresh host, the worker not started yet. -/
def start : State where
  reqQueue := []
  respQueue := []
  nextId := 1
  inFlight := 0
  pending := .empty
  worker := .starting
  tasks := []
  sending := []
  lost := []
  mode := .idle
  submit := .idle
  loaded := false
  vm := 0
  frame := 0
  calls := 0
  issued := []
  owed := []
  invoked := []

-- ============================================================================
-- Submitting
-- ============================================================================

/-- `fetch_add` on the in-flight count. -/
def reserve (s : State) (method url : String) (opts : Option RequestOpts) : State :=
  { s with
    inFlight := s.inFlight + 1
    submit := .reserved s.inFlight (requestOf method url opts s.calls)
      ((opts.map (·.callback)).getD false)
    calls := s.calls + 1 }

/-- `fetch_sub`: the request is dropped, its callback never registered. -/
def release (s : State) : State := { s with inFlight := s.inFlight - 1, submit := .idle }

def allocate (s : State) (req : HttpRequest) (callback : Bool) : State :=
  { s with
    nextId := s.nextId + 1
    issued := s.issued ++ [req.call]
    submit := .allocated { req with id := s.nextId } callback }

def send (s : State) (req : HttpRequest) (callback : Bool) : State :=
  { s with reqQueue := s.reqQueue ++ [req], submit := .sent req callback }

/-- The callback goes under the id of its request. -/
def stash (s : State) (req : HttpRequest) (callback : Bool) : State :=
  { s with
    pending := if callback then
        s.pending.insert req.id { vm := s.vm, call := req.call, frame := s.frame }
      else s.pending
    submit := .idle }

-- ============================================================================
-- The worker
-- ============================================================================

/-- The receiver is dropped with the requests in it. -/
def giveUp (s : State) : State :=
  { s with worker := .dead, lost := s.lost ++ s.reqQueue, reqQueue := [] }

def recv (s : State) (req : HttpRequest) (rest : List HttpRequest) : State :=
  { s with reqQueue := rest, tasks := s.tasks ++ [req] }

/-- A task has its result and takes its request off the count. -/
def finish (s : State) (i : Nat) (req : HttpRequest) (result : Except String HttpOk) : State :=
  { s with
    tasks := s.tasks.eraseIdx i
    inFlight := s.inFlight - 1
    sending := s.sending ++ [{ id := req.id, result, call := req.call }] }

def sendResponse (s : State) (i : Nat) (resp : HttpResponse) : State :=
  { s with sending := s.sending.eraseIdx i, respQueue := s.respQueue ++ [resp] }

-- ============================================================================
-- The host
-- ============================================================================

def beginFrame (s : State) : State := { s with frame := s.frame + 1, mode := .draining [] }

/-- `try_recv` gives a response. -/
def drain (s : State) (done : List HttpResponse) (resp : HttpResponse)
    (rest : List HttpResponse) : State :=
  { s with
    respQueue := rest
    mode := .draining (done ++ [resp])
    owed := s.owed ++ ((s.pending.get resp.id).map (·, resp)).toList }

/-- The callback of the first response, if there is one, is taken out of the map
    and called; a key of another VM finds no function. -/
def deliver (s : State) (resp : HttpResponse) (rest : List HttpResponse) : State :=
  match s.pending.get resp.id with
  | none => { s with mode := .pumping rest }
  | some cb =>
      let pending := s.pending.retain (· ≠ resp.id)
      if cb.vm = s.vm then
        { s with
          pending
          mode := .callback rest
          invoked := s.invoked ++
            [{ callback := cb, response := resp, table := resp.table, frame := s.frame
               vm := s.vm }] }
      else { s with pending, mode := .pumping rest }

/-- The VM is replaced and its callbacks are forgotten. -/
def replaceVm (s : State) : State :=
  { s with loaded := false, pending := .empty, vm := s.vm + 1, mode := .loading }

/-- `on_unload` has returned. -/
def unloaded (s : State) (reload : Bool) : State :=
  if reload then s.replaceVm else { s with loaded := false, mode := .idle }

end State

-- ============================================================================
-- Steps
-- ============================================================================

inductive Event where
  /-- Script code calls `http.request`. -/
  | request (method url : String) (opts : Option RequestOpts)
  /-- `submit` looks at the count it reserved the slot with. -/
  | submitCheck
  | submitSend
  | stash
  /-- The client is built, or not. -/
  | workerStart (built : Bool)
  | recv
  /-- The task at a position finishes. -/
  | finish (i : Nat) (result : Except String HttpOk)
  | sendResponse (i : Nat)
  | beginFrame
  | drain
  /-- `try_recv` finds no response. -/
  | drainEnd
  | deliver
  /-- The callback returns or raises an error. -/
  | callbackReturns
  | pumpEnd
  | frameReturns (ok : Bool)
  | beginLoad
  /-- `unload` at exit. -/
  | beginUnload
  | unloadReturns
  | loadReturns (ok : Bool)

def step (s : State) : Event → Option State
  | .request method url opts =>
      match s.submit with
      | .idle => if s.mode.runsLua then some (s.reserve method url opts) else none
      | _ => none
  | .submitCheck =>
      match s.submit with
      | .reserved prev req callback =>
          if httpMaxInFlight ≤ prev then some s.release else some (s.allocate req callback)
      | _ => none
  | .submitSend =>
      match s.submit with
      | .allocated req callback =>
          if s.worker = .dead then some s.release else some (s.send req callback)
      | _ => none
  | .stash =>
      match s.submit with
      | .sent req callback => some (s.stash req callback)
      | _ => none
  | .workerStart built =>
      if s.worker = .starting then
        some (if built then { s with worker := .serving } else s.giveUp)
      else none
  | .recv =>
      match s.reqQueue with
      | req :: rest => if s.worker = .serving then some (s.recv req rest) else none
      | [] => none
  | .finish i result => s.tasks[i]?.map (s.finish i · result)
  | .sendResponse i => s.sending[i]?.map (s.sendResponse i ·)
  | .beginFrame =>
      match s.mode with
      | .idle => if s.loaded then some s.beginFrame else none
      | _ => none
  | .drain =>
      match s.mode, s.respQueue with
      | .draining done, resp :: rest => some (s.drain done resp rest)
      | _, _ => none
  | .drainEnd =>
      match s.mode, s.respQueue with
      | .draining done, [] => some { s with mode := .pumping done }
      | _, _ => none
  | .deliver =>
      match s.mode with
      | .pumping (resp :: rest) => some (s.deliver resp rest)
      | _ => none
  | .callbackReturns =>
      match s.mode, s.submit with
      | .callback rest, .idle => some { s with mode := .pumping rest }
      | _, _ => none
  | .pumpEnd =>
      match s.mode with
      | .pumping [] => some { s with mode := .onFrame }
      | _ => none
  | .frameReturns ok =>
      match s.mode, s.submit with
      -- an error stops the script
      | .onFrame, .idle => some { s with mode := .idle, loaded := ok }
      | _, _ => none
  | .beginLoad =>
      match s.mode with
      | .idle => some (if s.loaded then { s with mode := .unloading true } else s.replaceVm)
      | _ => none
  | .beginUnload =>
      match s.mode with
      | .idle => if s.loaded then some { s with mode := .unloading false } else none
      | _ => none
  | .unloadReturns =>
      match s.mode, s.submit with
      | .unloading reload, .idle => some (s.unloaded reload)
      | _, _ => none
  | .loadReturns ok =>
      match s.mode, s.submit with
      | .loading, .idle => some { s with mode := .idle, loaded := ok }
      | _, _ => none

/-- What a step does, and when it can be taken. -/
inductive Stepped (s : State) : Event → State → Prop
  | request {method url : String} {opts : Option RequestOpts} (hsub : s.submit = .idle)
      (hlua : s.mode.runsLua = true) :
      Stepped s (.request method url opts) (s.reserve method url opts)
  | rejected {prev : Nat} {req : HttpRequest} {callback : Bool}
      (hsub : s.submit = .reserved prev req callback) (hfull : httpMaxInFlight ≤ prev) :
      Stepped s .submitCheck s.release
  | admitted {prev : Nat} {req : HttpRequest} {callback : Bool}
      (hsub : s.submit = .reserved prev req callback) (hroom : prev < httpMaxInFlight) :
      Stepped s .submitCheck (s.allocate req callback)
  | sendFails {req : HttpRequest} {callback : Bool} (hsub : s.submit = .allocated req callback) :
      Stepped s .submitSend s.release
  | sends {req : HttpRequest} {callback : Bool} (hsub : s.submit = .allocated req callback) :
      Stepped s .submitSend (s.send req callback)
  | stash {req : HttpRequest} {callback : Bool} (hsub : s.submit = .sent req callback) :
      Stepped s .stash (s.stash req callback)
  | serves : Stepped s (.workerStart true) { s with worker := .serving }
  | givesUp : Stepped s (.workerStart false) s.giveUp
  | recv {req : HttpRequest} {rest : List HttpRequest} (hqueue : s.reqQueue = req :: rest) :
      Stepped s .recv (s.recv req rest)
  | finish {i : Nat} {req : HttpRequest} {result : Except String HttpOk}
      (htask : s.tasks[i]? = some req) : Stepped s (.finish i result) (s.finish i req result)
  | sendResponse {i : Nat} {resp : HttpResponse} (hresp : s.sending[i]? = some resp) :
      Stepped s (.sendResponse i) (s.sendResponse i resp)
  | beginFrame (hmode : s.mode = .idle) : Stepped s .beginFrame s.beginFrame
  | drain {done : List HttpResponse} {resp : HttpResponse} {rest : List HttpResponse}
      (hmode : s.mode = .draining done) (hqueue : s.respQueue = resp :: rest) :
      Stepped s .drain (s.drain done resp rest)
  | drainEnd {done : List HttpResponse} (hmode : s.mode = .draining done) :
      Stepped s .drainEnd { s with mode := .pumping done }
  | deliver {resp : HttpResponse} {rest : List HttpResponse}
      (hmode : s.mode = .pumping (resp :: rest)) : Stepped s .deliver (s.deliver resp rest)
  | callbackReturns {rest : List HttpResponse} (hmode : s.mode = .callback rest)
      (hsub : s.submit = .idle) : Stepped s .callbackReturns { s with mode := .pumping rest }
  | pumpEnd (hmode : s.mode = .pumping []) : Stepped s .pumpEnd { s with mode := .onFrame }
  | frameReturns {ok : Bool} (hmode : s.mode = .onFrame) (hsub : s.submit = .idle) :
      Stepped s (.frameReturns ok) { s with mode := .idle, loaded := ok }
  | beginReload (hmode : s.mode = .idle) :
      Stepped s .beginLoad { s with mode := .unloading true }
  | beginLoad (hmode : s.mode = .idle) : Stepped s .beginLoad s.replaceVm
  | beginUnload (hmode : s.mode = .idle) :
      Stepped s .beginUnload { s with mode := .unloading false }
  | unloadReturns {reload : Bool} (hmode : s.mode = .unloading reload) (hsub : s.submit = .idle) :
      Stepped s .unloadReturns (s.unloaded reload)
  | loadReturns {ok : Bool} (hmode : s.mode = .loading) (hsub : s.submit = .idle) :
      Stepped s (.loadReturns ok) { s with mode := .idle, loaded := ok }

theorem stepped_of_step {s t : State} {e : Event} (h : step s e = some t) : Stepped s e t := by
  cases e with
  | request method url opts =>
      simp only [step] at h
      split at h
      · rename_i hsub
        split at h
        · rename_i hlua
          obtain rfl := Option.some.inj h
          exact .request hsub hlua
        · exact absurd h (by simp)
      · exact absurd h (by simp)
  | submitCheck =>
      simp only [step] at h
      split at h
      · rename_i prev req callback hsub
        split at h
        · rename_i hfull
          obtain rfl := Option.some.inj h
          exact .rejected hsub hfull
        · rename_i hroom
          obtain rfl := Option.some.inj h
          exact .admitted hsub (Nat.lt_of_not_le hroom)
      · exact absurd h (by simp)
  | submitSend =>
      simp only [step] at h
      split at h
      · rename_i req callback hsub
        split at h
        · obtain rfl := Option.some.inj h
          exact .sendFails hsub
        · obtain rfl := Option.some.inj h
          exact .sends hsub
      · exact absurd h (by simp)
  | stash =>
      simp only [step] at h
      split at h
      · rename_i req callback hsub
        obtain rfl := Option.some.inj h
        exact .stash hsub
      · exact absurd h (by simp)
  | workerStart built =>
      simp only [step] at h
      split at h
      · obtain rfl := Option.some.inj h
        cases built with
        | true => exact .serves
        | false => exact .givesUp
      · exact absurd h (by simp)
  | recv =>
      simp only [step] at h
      split at h
      · rename_i req rest hqueue
        split at h
        · obtain rfl := Option.some.inj h
          exact .recv hqueue
        · exact absurd h (by simp)
      · exact absurd h (by simp)
  | finish i result =>
      obtain ⟨req, htask, rfl⟩ := Option.map_eq_some_iff.mp h
      exact .finish htask
  | sendResponse i =>
      obtain ⟨resp, hresp, rfl⟩ := Option.map_eq_some_iff.mp h
      exact .sendResponse hresp
  | beginFrame =>
      simp only [step] at h
      split at h
      · rename_i hmode
        split at h
        · obtain rfl := Option.some.inj h
          exact .beginFrame hmode
        · exact absurd h (by simp)
      · exact absurd h (by simp)
  | drain =>
      simp only [step] at h
      split at h
      · rename_i done resp rest hmode hqueue
        obtain rfl := Option.some.inj h
        exact .drain hmode hqueue
      · exact absurd h (by simp)
  | drainEnd =>
      simp only [step] at h
      split at h
      · rename_i done hmode _
        obtain rfl := Option.some.inj h
        exact .drainEnd hmode
      · exact absurd h (by simp)
  | deliver =>
      simp only [step] at h
      split at h
      · rename_i resp rest hmode
        obtain rfl := Option.some.inj h
        exact .deliver hmode
      · exact absurd h (by simp)
  | callbackReturns =>
      simp only [step] at h
      split at h
      · rename_i rest hmode hsub
        obtain rfl := Option.some.inj h
        exact .callbackReturns hmode hsub
      · exact absurd h (by simp)
  | pumpEnd =>
      simp only [step] at h
      split at h
      · rename_i hmode
        obtain rfl := Option.some.inj h
        exact .pumpEnd hmode
      · exact absurd h (by simp)
  | frameReturns ok =>
      simp only [step] at h
      split at h
      · rename_i hmode hsub
        obtain rfl := Option.some.inj h
        exact .frameReturns hmode hsub
      · exact absurd h (by simp)
  | beginLoad =>
      simp only [step] at h
      split at h
      · rename_i hmode
        obtain rfl := Option.some.inj h
        split
        · exact .beginReload hmode
        · exact .beginLoad hmode
      · exact absurd h (by simp)
  | beginUnload =>
      simp only [step] at h
      split at h
      · rename_i hmode
        split at h
        · obtain rfl := Option.some.inj h
          exact .beginUnload hmode
        · exact absurd h (by simp)
      · exact absurd h (by simp)
  | unloadReturns =>
      simp only [step] at h
      split at h
      · rename_i reload hmode hsub
        obtain rfl := Option.some.inj h
        exact .unloadReturns hmode hsub
      · exact absurd h (by simp)
  | loadReturns ok =>
      simp only [step] at h
      split at h
      · rename_i hmode hsub
        obtain rfl := Option.some.inj h
        exact .loadReturns hmode hsub
      · exact absurd h (by simp)

end Http
end LuaApi
end SniLua
