/-
  SniLua.Cache.PollLoop

  The poll loop with its clock: the task of `spawn`, cut at the points where it
  looks at the clock, waits for the device or shares the registry with the script
  thread.  Here the byte budget, the time gates and the statistics are computed
  from what the loop has measured; an event only brings the time that has passed
  before it and what comes from outside (a script call, the configuration, the
  reply to a `MultiRead`).

  `Moves` says once what each action does; what holds of the runs of the loop is
  derived from it.

  An instant is in nanoseconds from the start of the task.
-/

import SniLua.Lib.Ewma
import SniLua.Cache.Budget
import SniLua.Cache.Backlog

namespace SniLua
namespace Cache

open Lib

-- ============================================================================
-- Configuration, replies, statistics
-- ============================================================================

/-- `Duration::as_millis`. -/
def asMillis (d : Nat) : Nat := d / 1000000

/-- `Duration::from_millis`. -/
def fromMillis (ms : Nat) : Nat := ms * 1000000

/-- `as_millis() as u32`. -/
def asMillisU32 (d : Nat) : UInt32 := .ofNat (asMillis d)

/-- The whole `PollConfig`.  `u32::clamp` asks for byte budgets in order, and
    `rtt_alpha` is documented as a weight. -/
structure LoopConfig extends PollConfig, BudgetConfig where
  targetPeriod : Nat
  /-- EWMA smoothing: 0 to 1, higher is snappier. -/
  rttAlpha : ℚ
  ordered : minByteBudget ≤ maxByteBudget
  alpha_nonneg : 0 ≤ rttAlpha
  alpha_le_one : rttAlpha ≤ 1
deriving DecidableEq

/-- `PollConfig::default`. -/
def LoopConfig.default : LoopConfig :=
  { coalesceGap := 16
    demandWindow := fromMillis 1000
    frameBudgetMs := 16
    minByteBudget := 256
    maxByteBudget := 64 * 1024
    targetPeriod := fromMillis 16
    rttAlpha := 1 / 4
    ordered := by decide
    alpha_nonneg := by norm_num
    alpha_le_one := by norm_num }

/-- The window of a cycle: what it leaves of it is slept through. -/
def LoopConfig.window (cfg : LoopConfig) : Nat :=
  min cfg.targetPeriod (fromMillis (max cfg.frameBudgetMs.toNat 1))

/-- The errors of the client, less their payloads. -/
inductive SniError where
  | transport | status | noDevices | deviceNotFound | emptyResponse
deriving DecidableEq, Repr

def classifyErr : SniError → String
  | .transport => "transport"
  | .status => "rpc"
  | .noDevices => "no devices"
  | .deviceNotFound => "device gone"
  | .emptyResponse => "empty response"

/-- What `multi_read` returns. -/
abbrev ReadResult := Except SniError (List (List UInt8))

/-- Live engine stats for the UI. -/
structure PollStats where
  cycle : Nat
  watches : Nat
  watchesTotal : Nat
  readsLastCycle : Nat
  bytesLastCycle : UInt32
  rttMsEwma : ℚ
  lastRttMs : UInt32
  realtimeWatches : Nat
  realtimeRttMs : UInt32
  budgetCapped : Bool
  deferredWatches : Nat
  deferredBytes : UInt32
  deferredOldestCycles : UInt32
  deferredAvgCycles : ℚ
  deferredBytesProcessedLastCycle : UInt32
  deferredDrainBpmsEwma : ℚ
  cycleElapsedMs : UInt32
  frameBudgetMs : UInt32
  frameBudgetOverran : Bool
  frameBudgetOverrunMs : UInt32
  frameBudgetOverruns : Nat
  frameBudgetOverrunRate : ℚ
  byteBudget : UInt32
  throughputBpms : ℚ
  lastError : Option String
deriving DecidableEq

/-- `PollStats::default`. -/
def PollStats.default : PollStats :=
  { cycle := 0, watches := 0, watchesTotal := 0, readsLastCycle := 0, bytesLastCycle := 0
    rttMsEwma := 0, lastRttMs := 0, realtimeWatches := 0, realtimeRttMs := 0
    budgetCapped := false, deferredWatches := 0, deferredBytes := 0, deferredOldestCycles := 0
    deferredAvgCycles := 0, deferredBytesProcessedLastCycle := 0, deferredDrainBpmsEwma := 0
    cycleElapsedMs := 0, frameBudgetMs := 0, frameBudgetOverran := false
    frameBudgetOverrunMs := 0, frameBudgetOverruns := 0, frameBudgetOverrunRate := 0
    byteBudget := 0, throughputBpms := 0, lastError := none }

-- ============================================================================
-- State
-- ============================================================================

/-- The budget state carried across cycles. -/
structure Adaptive where
  budget : UInt32
  /-- EWMA of the bytes per millisecond of transfer. -/
  throughput : Option ℚ
  /-- The best observed fixed latency. -/
  latencyFloorMs : Option ℚ
deriving DecidableEq

namespace Adaptive

def spawn (cfg : LoopConfig) : Adaptive :=
  { budget := min (max cfg.minByteBudget 2048) cfg.maxByteBudget
    throughput := none
    latencyFloorMs := none }

def observe (a : Adaptive) (rttMs : UInt32) : Adaptive :=
  { a with latencyFloorMs := observeLatencyFloor a.latencyFloorMs rttMs }

/-- The rate of a batch, with the latency floor of before it. -/
def sample (a : Adaptive) (bytes rttMs : UInt32) : ℚ :=
  (bytes.toNat : ℚ) / budgetedTransferMs rttMs a.latencyFloorMs

/-- What a batch that succeeded changes. -/
def adapt (a : Adaptive) (cfg : LoopConfig) (bytes rttMs : UInt32) : Adaptive :=
  let floor := observeLatencyFloor a.latencyFloorMs rttMs
  let throughput := ewmaFrom cfg.rttAlpha (a.sample bytes rttMs) a.throughput
  { budget := nextBudget a.budget (budgetedTransferMs rttMs a.latencyFloorMs) (some throughput)
      floor cfg.toBudgetConfig
    throughput := some throughput
    latencyFloorMs := floor }

end Adaptive

/-- The variables of one cycle. -/
structure CycleVars where
  watchesTotal : Nat
  realtimeRtt : UInt32
  bytesRequested : UInt32
  readsIssued : Nat
  budgetCapped : Bool
  worstRtt : UInt32
  lastError : Option String
deriving DecidableEq

def CycleVars.new (watchesTotal : Nat) : CycleVars :=
  { watchesTotal, realtimeRtt := 0, bytesRequested := 0, readsIssued := 0, budgetCapped := false,
    worstRtt := 0, lastError := none }

/-- Where the task is. -/
inductive LoopPhase where
  /-- Asleep, or about to look for a client, not before `wake`. -/
  | idle (wake : Nat)
  /-- `registry.all()` has been taken. -/
  | started (liveIds : List WatchId)
  /-- The active watches have been taken. -/
  | ready (ctx : CycleCtx)
  /-- The realtime sub-poll is in flight. -/
  | awaitRealtime (ctx : CycleCtx) (sentAt : Nat)
  /-- At the head of the drain loop. -/
  | drain (ctx : CycleCtx) (done : List WatchId)
  /-- A batch of the drain loop is in flight. -/
  | awaitBulk (ctx : CycleCtx) (done : List WatchId) (sentAt : Nat) (iterBudget : UInt32)
      (reads : List CoalescedRead)
  /-- The drain loop has ended. -/
  | drained (ctx : CycleCtx)
  /-- Snapshot and statistics have been published. -/
  | published (liveIds : List WatchId)

structure PollLoop where
  registry : WatchRegistry
  current : Snapshot
  stats : PollStats
  clock : Nat
  cycle : Nat
  adaptive : Adaptive
  deferredDrainBpmsEwma : ℚ
  frameBudgetOverruns : Nat
  frameBudgetOverrunRate : ℚ
  readState : ReadStates
  /-- The configuration of the cycle. -/
  cfg : LoopConfig
  cycleStart : Nat
  vars : CycleVars
  phase : LoopPhase

-- ============================================================================
-- Events
-- ============================================================================

inductive LoopAction where
  | script (op : RegistryOp)
  /-- No client: sleep for the target period. -/
  | noClient (cfg : LoopConfig)
  | beginCycle (cfg : LoopConfig)
  | readActive
  /-- Send the realtime sub-poll, when there is one. -/
  | sendRealtime
  | realtimeReply (result : ReadResult)
  /-- The head of the drain loop: send a batch or break. -/
  | drainHead
  /-- A batch has come back; `work` passes before the loop looks at the clock. -/
  | bulkReply (result : ReadResult) (work : Nat)
  | publish
  /-- Collection of `read_state`, then the pause between the cycles. -/
  | pause
deriving DecidableEq

/-- An action, and the time that passes before it. -/
structure LoopEvent where
  after : Nat
  action : LoopAction
deriving DecidableEq

namespace LoopAction

/-- The configuration a cycle begins with. -/
def config? : LoopAction → Option LoopConfig
  | .beginCycle cfg => some cfg
  | _ => none

def begins (a : LoopAction) : Bool := a.config?.isSome

/-- The blobs of a reply. -/
def blobs? : LoopAction → Option (List (List UInt8))
  | .realtimeReply (.ok blobs) | .bulkReply (.ok blobs) _ => some blobs
  | _ => none

def isScript : LoopAction → Bool
  | .script _ => true
  | _ => false

def isBulkReply : LoopAction → Bool
  | .bulkReply .. => true
  | _ => false

def isPublish : LoopAction → Bool
  | .publish => true
  | _ => false

end LoopAction

namespace LoopPhase

/-- The active watches, once they have been taken. -/
def ctx? : LoopPhase → Option CycleCtx
  | .ready ctx | .awaitRealtime ctx _ | .drain ctx _ | .awaitBulk ctx _ _ _ _ | .drained ctx =>
      some ctx
  | .idle _ | .started _ | .published _ => none

/-- When the `MultiRead` in flight was sent. -/
def sentAt? : LoopPhase → Option Nat
  | .awaitRealtime _ sentAt | .awaitBulk _ _ sentAt _ _ => some sentAt
  | _ => none

/-- What the `MultiRead` in flight asks for. -/
def asked? : LoopPhase → Option (List CoalescedRead)
  | .awaitRealtime ctx _ => some ctx.rtReads
  | .awaitBulk _ _ _ _ reads => some reads
  | _ => none

end LoopPhase

/-- A call of the script happens now. -/
def RegistryOp.at (op : RegistryOp) (now : Nat) : RegistryOp :=
  match op with
  | .register region priority _ => .register region priority now
  | .touch id _ => .touch id now
  | .pin id _ => .pin id now
  | .upgradePriority id priority _ => .upgradePriority id priority now
  | .unregister id => .unregister id
  | .clear => .clear

namespace PollLoop

/-- `spawn`. -/
def spawn (cfg : LoopConfig) : PollLoop :=
  { registry := .new
    current := .default
    stats := .default
    clock := 0
    cycle := 0
    adaptive := .spawn cfg
    deferredDrainBpmsEwma := 0
    frameBudgetOverruns := 0
    frameBudgetOverrunRate := 0
    readState := .empty
    cfg
    cycleStart := 0
    vars := .new 0
    phase := .idle 0 }

def tick (s : PollLoop) (d : Nat) : PollLoop := { s with clock := s.clock + d }

/-- `cycle_start.elapsed()`. -/
def elapsed (s : PollLoop) : Nat := s.clock - s.cycleStart

def elapsedMs (s : PollLoop) : Nat := asMillis s.elapsed

/-- `cfg.frame_budget_ms.max(1)`. -/
def frameMs (s : PollLoop) : Nat := max s.cfg.frameBudgetMs.toNat 1

/-- No bulk data has moved this cycle. -/
def forceProgress (s : PollLoop) : Bool := s.vars.readsIssued = 0

def beginCycle (s : PollLoop) (cfg : LoopConfig) : PollLoop :=
  { s with
    cfg
    cycleStart := s.clock
    cycle := s.cycle + 1
    vars := .new s.registry.all.length
    phase := .started (s.registry.all.map (·.id)) }

/-- What `active_with_requests` gives a cycle. -/
def takeActive (s : PollLoop) (liveIds : List WatchId) : CycleCtx :=
  let active := s.registry.activeWithRequests s.cfg.demandWindow s.clock
  { cfg := s.cfg.toPollConfig
    liveIds
    requestSeq := .ofList (active.map fun (w, seq) => (w.id, seq))
    watches := active.map (·.1)
    builder := (SnapshotBuilder.fromPrev s.current).retainOnly liveIds }

def sendRealtime (s : PollLoop) (ctx : CycleCtx) : PollLoop :=
  if ctx.realtime.isEmpty then { s with phase := .drain ctx [] }
  else { s with phase := .awaitRealtime ctx s.clock }

def realtimeReply (s : PollLoop) (ctx : CycleCtx) (sentAt : Nat) (result : ReadResult) :
    PollLoop :=
  let rtt := asMillisU32 (s.clock - sentAt)
  match result with
  | .ok blobs =>
      { s with
        adaptive := s.adaptive.observe rtt
        readState := markFulfilled ctx.rtReads ctx.requestSeq s.cycle s.readState
        vars := { s.vars with realtimeRtt := rtt }
        phase := .drain (ctx.arrived ctx.rtReads blobs) [] }
  | .error e =>
      { s with
        vars := { s.vars with realtimeRtt := rtt, lastError := some (classifyErr e) }
        phase := .drain ctx [] }

/-- The budget of an iteration; `none` breaks. -/
def iterBudget (s : PollLoop) : Option UInt32 :=
  if s.frameMs ≤ s.elapsedMs ∧ !s.forceProgress then none
  else
    match budgetForRemainingTime s.adaptive.budget s.adaptive.throughput
        s.adaptive.latencyFloorMs s.elapsedMs s.frameMs with
    | some b => some b
    | none => if s.forceProgress then some s.adaptive.budget else none

/-- The batch fits what remains of the frame. -/
def fits (s : PollLoop) (reads : List CoalescedRead) : Bool :=
  batchFitsRemainingTime (sumBytes reads) s.adaptive.throughput s.adaptive.latencyFloorMs
    s.elapsedMs s.frameMs

def drainHead (s : PollLoop) (ctx : CycleCtx) (done : List WatchId) : PollLoop :=
  match s.iterBudget with
  | none => { s with phase := .drained ctx }
  | some b =>
      let pending := ctx.pending s.readState done b
      if pending = [] then { s with phase := .drained ctx }
      else
        let sel := selectBulk pending b s.readState s.cycle
        if sel.reads = [] then { s with phase := .drained ctx }
        else
          let vars := { s.vars with budgetCapped := s.vars.budgetCapped || sel.capped }
          if !s.forceProgress && !s.fits sel.reads then { s with vars, phase := .drained ctx }
          else { s with vars, phase := .awaitBulk ctx done s.clock b sel.reads }

/-- A batch has come back: the bytes go to the builder, its watches are fulfilled,
    the budget adapts. -/
def batchArrived (s : PollLoop) (ctx : CycleCtx) (sentAt : Nat) (reads : List CoalescedRead)
    (work : Nat) : PollLoop :=
  let rtt := asMillisU32 (s.clock - sentAt)
  let bytes := sumBytes reads
  { s with
    clock := s.clock + work
    adaptive := s.adaptive.adapt s.cfg bytes rtt
    readState := markFulfilled reads ctx.requestSeq s.cycle s.readState
    vars := { s.vars with
      worstRtt := max s.vars.worstRtt rtt
      bytesRequested := U32.saturatingAdd s.vars.bytesRequested bytes
      readsIssued := s.vars.readsIssued + 1 } }

def batchFailed (s : PollLoop) (sentAt : Nat) (e : SniError) : PollLoop :=
  { s with
    vars := { s.vars with
      worstRtt := max s.vars.worstRtt (asMillisU32 (s.clock - sentAt))
      lastError := some (classifyErr e) } }

/-- Another batch that takes as long as the last one would spend the frame. -/
def spent (s : PollLoop) (rtt : UInt32) : Bool := s.frameMs ≤ s.elapsedMs + rtt.toNat

def bulkReply (s : PollLoop) (ctx : CycleCtx) (done : List WatchId) (sentAt : Nat)
    (reads : List CoalescedRead) (result : ReadResult) (work : Nat) : PollLoop :=
  match result with
  | .ok blobs =>
      let t := s.batchArrived ctx sentAt reads work
      let ctx := ctx.arrived reads blobs
      { t with
        phase := if t.spent (asMillisU32 (s.clock - sentAt)) then .drained ctx
          else .drain ctx (markDone reads done) }
  | .error e => { s.batchFailed sentAt e with phase := .drained ctx }

/-- Publish the snapshot, then the statistics. -/
def publish (s : PollLoop) (ctx : CycleCtx) : PollLoop :=
  let pendingAfter := ctx.backlog s.readState s.cycle s.adaptive.budget
  let elapsedMs := asMillisU32 s.elapsed
  let frameBudgetMs := max s.cfg.frameBudgetMs 1
  let overran : Bool := frameBudgetMs < elapsedMs
  let overruns := if overran then s.frameBudgetOverruns + 1 else s.frameBudgetOverruns
  let overrunSample : ℚ := if overran then 1 else 0
  let overrunRate := if s.cycle ≤ 1 then overrunSample
    else ewma (1 / 20) overrunSample s.frameBudgetOverrunRate
  let drainSample : ℚ := s.vars.bytesRequested.toNat / (max elapsedMs.toNat 1 : Nat)
  let drainEwma := if s.cycle ≤ 1 then drainSample
    else ewma (1 / 5) drainSample s.deferredDrainBpmsEwma
  let rtt := s.vars.worstRtt
  { s with
    frameBudgetOverruns := overruns
    frameBudgetOverrunRate := overrunRate
    deferredDrainBpmsEwma := drainEwma
    current := ctx.builder.build s.cycle rtt rtt
    stats :=
      { cycle := s.cycle
        watches := ctx.watches.length
        watchesTotal := s.vars.watchesTotal
        readsLastCycle := s.vars.readsIssued
        bytesLastCycle := s.vars.bytesRequested
        byteBudget := s.adaptive.budget
        throughputBpms := s.adaptive.throughput.getD 0
        realtimeWatches := ctx.realtime.length
        realtimeRttMs := s.vars.realtimeRtt
        lastRttMs := rtt
        rttMsEwma := if s.stats.rttMsEwma = 0 then rtt.toNat
          else ewma s.cfg.rttAlpha rtt.toNat s.stats.rttMsEwma
        budgetCapped := s.vars.budgetCapped
        deferredWatches := pendingAfter.watches
        deferredBytes := pendingAfter.bytes
        deferredOldestCycles := pendingAfter.oldestCycles
        deferredAvgCycles := pendingAfter.avgCycles
        deferredBytesProcessedLastCycle := s.vars.bytesRequested
        deferredDrainBpmsEwma := drainEwma
        cycleElapsedMs := elapsedMs
        frameBudgetMs
        frameBudgetOverran := overran
        frameBudgetOverrunMs := elapsedMs - min elapsedMs frameBudgetMs
        frameBudgetOverruns := overruns
        frameBudgetOverrunRate := overrunRate
        lastError := s.vars.lastError }
    phase := .published ctx.liveIds }

def pause (s : PollLoop) (liveIds : List WatchId) : PollLoop :=
  { s with
    readState := if s.cycle % 256 = 0 then s.readState.retain fun id => id ∈ liveIds
      else s.readState
    phase := .idle (s.clock + (s.cfg.window - s.elapsed)) }

/-- What an action does in the phase it belongs to. -/
def act (s : PollLoop) : LoopAction → Option PollLoop
  | .script op => some { s with registry := s.registry.apply (op.at s.clock) }
  | .noClient cfg =>
      match s.phase with
      | .idle wake =>
          if wake ≤ s.clock then some { s with phase := .idle (s.clock + cfg.targetPeriod) }
          else none
      | _ => none
  | .beginCycle cfg =>
      match s.phase with
      | .idle wake =>
          if wake ≤ s.clock then some (s.beginCycle cfg) else none
      | _ => none
  | .readActive =>
      match s.phase with
      | .started liveIds => some { s with phase := .ready (s.takeActive liveIds) }
      | _ => none
  | .sendRealtime =>
      match s.phase with
      | .ready ctx => some (s.sendRealtime ctx)
      | _ => none
  | .realtimeReply result =>
      match s.phase with
      | .awaitRealtime ctx sentAt => some (s.realtimeReply ctx sentAt result)
      | _ => none
  | .drainHead =>
      match s.phase with
      | .drain ctx done => some (s.drainHead ctx done)
      | _ => none
  | .bulkReply result work =>
      match s.phase with
      | .awaitBulk ctx done sentAt _ reads => some (s.bulkReply ctx done sentAt reads result work)
      | _ => none
  | .publish =>
      match s.phase with
      | .drained ctx => some (s.publish ctx)
      | _ => none
  | .pause =>
      match s.phase with
      | .published liveIds => some (s.pause liveIds)
      | _ => none

def step (s : PollLoop) (e : LoopEvent) : Option PollLoop := (s.tick e.after).act e.action

-- ============================================================================
-- What each action does
-- ============================================================================

/-- The batch of an iteration with budget `b`. -/
def batch (s : PollLoop) (ctx : CycleCtx) (done : List WatchId) (b : UInt32) :
    List CoalescedRead :=
  ctx.bulkBatch s.readState done s.cycle b

/-- The effect of an action, the outcomes of the drain loop apart. -/
inductive Moves (s : PollLoop) : LoopAction → PollLoop → Prop
  | script (op : RegistryOp) :
      Moves s (.script op) { s with registry := s.registry.apply (op.at s.clock) }
  | noClient (cfg : LoopConfig) (wake : Nat) (h : s.phase = .idle wake) (hw : wake ≤ s.clock) :
      Moves s (.noClient cfg) { s with phase := .idle (s.clock + cfg.targetPeriod) }
  | beginCycle (cfg : LoopConfig) (wake : Nat) (h : s.phase = .idle wake) (hw : wake ≤ s.clock) :
      Moves s (.beginCycle cfg) (s.beginCycle cfg)
  | readActive (liveIds : List WatchId) (h : s.phase = .started liveIds) :
      Moves s .readActive { s with phase := .ready (s.takeActive liveIds) }
  | skipRealtime (ctx : CycleCtx) (h : s.phase = .ready ctx) (hempty : ctx.realtime.isEmpty) :
      Moves s .sendRealtime { s with phase := .drain ctx [] }
  | sendRealtime (ctx : CycleCtx) (h : s.phase = .ready ctx) (hne : ¬ ctx.realtime.isEmpty) :
      Moves s .sendRealtime { s with phase := .awaitRealtime ctx s.clock }
  | realtimeReply (ctx : CycleCtx) (sentAt : Nat) (result : ReadResult)
      (h : s.phase = .awaitRealtime ctx sentAt) :
      Moves s (.realtimeReply result) (s.realtimeReply ctx sentAt result)
  | sendBatch (ctx : CycleCtx) (done : List WatchId) (b : UInt32) (capped : Bool)
      (h : s.phase = .drain ctx done) (hb : s.iterBudget = some b) (hne : s.batch ctx done b ≠ [])
      (hfits : s.forceProgress ∨ s.fits (s.batch ctx done b)) :
      Moves s .drainHead { s with
        vars := { s.vars with budgetCapped := capped }
        phase := .awaitBulk ctx done s.clock b (s.batch ctx done b) }
  | endDrain (ctx : CycleCtx) (done : List WatchId) (capped : Bool)
      (h : s.phase = .drain ctx done)
      (hforce : s.forceProgress → ∃ b, s.iterBudget = some b ∧ s.batch ctx done b = []) :
      Moves s .drainHead { s with
        vars := { s.vars with budgetCapped := capped }
        phase := .drained ctx }
  | batchOk (ctx : CycleCtx) (done : List WatchId) (sentAt : Nat) (b : UInt32)
      (reads : List CoalescedRead) (blobs : List (List UInt8)) (work : Nat) (phase' : LoopPhase)
      (h : s.phase = .awaitBulk ctx done sentAt b reads)
      (hphase : phase' =
        if (s.batchArrived ctx sentAt reads work).spent (asMillisU32 (s.clock - sentAt)) then
          .drained (ctx.arrived reads blobs)
        else .drain (ctx.arrived reads blobs) (markDone reads done)) :
      Moves s (.bulkReply (.ok blobs) work)
        { s.batchArrived ctx sentAt reads work with phase := phase' }
  | batchErr (ctx : CycleCtx) (done : List WatchId) (sentAt : Nat) (b : UInt32)
      (reads : List CoalescedRead) (e : SniError) (work : Nat)
      (h : s.phase = .awaitBulk ctx done sentAt b reads) :
      Moves s (.bulkReply (.error e) work) { s.batchFailed sentAt e with phase := .drained ctx }
  | publish (ctx : CycleCtx) (h : s.phase = .drained ctx) : Moves s .publish (s.publish ctx)
  | pause (liveIds : List WatchId) (h : s.phase = .published liveIds) :
      Moves s .pause (s.pause liveIds)

/-- Without a forced batch an iteration may end for any reason. -/
theorem moves_drainHead (s : PollLoop) {ctx : CycleCtx} {done : List WatchId}
    (h : s.phase = .drain ctx done) : Moves s .drainHead (s.drainHead ctx done) := by
  have hend : ∀ capped, (s.forceProgress → ∃ b, s.iterBudget = some b ∧ s.batch ctx done b = []) →
      Moves s .drainHead { s with
        vars := { s.vars with budgetCapped := capped }
        phase := .drained ctx } := fun capped => .endDrain ctx done capped h
  have hforced : s.forceProgress → s.iterBudget ≠ none := by
    intro hforce hnone
    simp only [iterBudget, hforce, Bool.not_true, Bool.false_eq_true, and_false, if_false,
      if_true] at hnone
    split at hnone <;> exact absurd hnone (by simp)
  simp only [drainHead]
  split
  · rename_i hb
    exact hend s.vars.budgetCapped fun hforce => absurd hb (hforced hforce)
  · rename_i b hb
    split
    · rename_i hempty
      exact hend s.vars.budgetCapped fun _ =>
        ⟨b, hb, by rw [batch, CycleCtx.bulkBatch, hempty]; rfl⟩
    · split
      · rename_i hsel
        exact hend s.vars.budgetCapped fun _ => ⟨b, hb, hsel⟩
      · rename_i hsel
        split
        · rename_i hfit
          refine hend _ fun hforce => ?_
          simp [hforce] at hfit
        · rename_i hfit
          refine .sendBatch ctx done b _ h hb hsel ?_
          by_cases hforce : s.forceProgress
          · exact Or.inl hforce
          · refine Or.inr ?_
            simp only [hforce, Bool.not_false, Bool.true_and, Bool.not_eq_true',
              Bool.not_eq_false] at hfit
            exact hfit

theorem moves_bulkReply (s : PollLoop) {ctx : CycleCtx} {done : List WatchId} {sentAt : Nat}
    {b : UInt32} {reads : List CoalescedRead} (h : s.phase = .awaitBulk ctx done sentAt b reads)
    (result : ReadResult) (work : Nat) :
    Moves s (.bulkReply result work) (s.bulkReply ctx done sentAt reads result work) := by
  cases result with
  | ok blobs => exact .batchOk ctx done sentAt b reads blobs work _ h rfl
  | error e => exact .batchErr ctx done sentAt b reads e work h

theorem moves_of_act {s t : PollLoop} {a : LoopAction} (h : s.act a = some t) : Moves s a t := by
  cases a with
  | script op => obtain rfl := Option.some.inj h; exact .script op
  | noClient cfg =>
      simp only [act] at h
      split at h
      · rename_i wake hp
        split at h
        · rename_i hw
          obtain rfl := Option.some.inj h
          exact .noClient cfg wake hp hw
        · exact absurd h (by simp)
      · exact absurd h (by simp)
  | beginCycle cfg =>
      simp only [act] at h
      split at h
      · rename_i wake hp
        split at h
        · rename_i hw
          obtain rfl := Option.some.inj h
          exact .beginCycle cfg wake hp hw
        · exact absurd h (by simp)
      · exact absurd h (by simp)
  | readActive =>
      simp only [act] at h
      split at h
      · rename_i liveIds hp
        obtain rfl := Option.some.inj h
        exact .readActive liveIds hp
      · exact absurd h (by simp)
  | sendRealtime =>
      simp only [act] at h
      split at h
      · rename_i ctx hp
        obtain rfl := Option.some.inj h
        unfold sendRealtime
        split
        · rename_i hempty
          exact .skipRealtime ctx hp hempty
        · rename_i hne
          exact .sendRealtime ctx hp hne
      · exact absurd h (by simp)
  | realtimeReply result =>
      simp only [act] at h
      split at h
      · rename_i ctx sentAt hp
        obtain rfl := Option.some.inj h
        exact .realtimeReply ctx sentAt result hp
      · exact absurd h (by simp)
  | drainHead =>
      simp only [act] at h
      split at h
      · rename_i ctx done hp
        obtain rfl := Option.some.inj h
        exact moves_drainHead s hp
      · exact absurd h (by simp)
  | bulkReply result work =>
      simp only [act] at h
      split at h
      · rename_i ctx done sentAt b reads hp
        obtain rfl := Option.some.inj h
        exact moves_bulkReply s hp result work
      · exact absurd h (by simp)
  | publish =>
      simp only [act] at h
      split at h
      · rename_i ctx hp
        obtain rfl := Option.some.inj h
        exact .publish ctx hp
      · exact absurd h (by simp)
  | pause =>
      simp only [act] at h
      split at h
      · rename_i liveIds hp
        obtain rfl := Option.some.inj h
        exact .pause liveIds hp
      · exact absurd h (by simp)

theorem moves_of_step {s t : PollLoop} {e : LoopEvent} (h : s.step e = some t) :
    Moves (s.tick e.after) e.action t := moves_of_act h

end PollLoop

end Cache
end SniLua
