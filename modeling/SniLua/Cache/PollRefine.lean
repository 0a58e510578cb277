/-
  SniLua.Cache.PollRefine

  The poll loop refines the machine of `Cache.Engine`.  `PollLoop.engine` forgets
  clock, budget and statistics; `events` are the events of the machine a step of
  the loop is made of.  The machine may end the drain loop for any reason once a
  batch has been issued, and it takes any budget: the time gates of the loop only
  choose among its runs.

  So the loop publishes what the machine publishes, and the memory a watch shows
  is the memory the device had while the watch was last read.
-/

import SniLua.Cache.PollLoop
import SniLua.Cache.SnapshotCorrect

namespace SniLua
namespace Cache

open Lib

-- ============================================================================
-- The machine of the loop
-- ============================================================================

/-- The phase of the machine; `n` batches have been issued. -/
def LoopPhase.phase (cfg : PollConfig) (n : Nat) : LoopPhase → Phase
  | .idle _ => .idle
  | .started liveIds => .started cfg liveIds
  | .ready ctx => if ctx.realtime.isEmpty then .bulk ctx [] n else .realtime ctx
  | .awaitRealtime ctx _ => .realtime ctx
  | .drain ctx done => .bulk ctx done n
  | .awaitBulk ctx done _ _ _ => .bulk ctx done n
  | .drained ctx => .drained ctx
  | .published liveIds => .published liveIds

namespace PollLoop

/-- The loop without clock, budget and statistics. -/
def engine (s : PollLoop) : Engine :=
  { registry := s.registry
    current := s.current
    cycle := s.cycle
    readState := s.readState
    phase := s.phase.phase s.cfg.toPollConfig s.vars.readsIssued }

/-- The drain loop is over. -/
def isDrained (s : PollLoop) : Bool :=
  match s.phase with
  | .drained _ => true
  | _ => false

/-- The snapshot of the cycle has been published. -/
def isPublished (s : PollLoop) : Bool :=
  match s.phase with
  | .published _ => true
  | _ => false

/-- The events of the machine between an action and the state it leads to.  A
    request that is sent is none of them: the machine takes a `MultiRead` when its
    reply has come.  A batch after which the time is up is two. -/
def acted (s : PollLoop) (a : LoopAction) (t : PollLoop) : List Event :=
  match a with
  | .script op => [.script (op.at s.clock)]
  | .noClient _ => [.noClient]
  | .beginCycle cfg => [.beginCycle cfg.toPollConfig]
  | .readActive => [.readActive s.clock]
  | .sendRealtime => []
  | .realtimeReply result => [.realtimePoll result.toOption]
  | .drainHead => if t.isDrained then [.endDrain (s.iterBudget.getD 0)] else []
  | .bulkReply result _ =>
      match s.phase with
      | .awaitBulk _ _ _ b _ =>
          .bulkPoll b result.toOption ::
            if result.toBool && t.isDrained then [.endDrain b] else []
      | _ => []
  | .publish => [.publish s.vars.worstRtt]
  | .pause => [.collect]

/-- The events of the machine a step is made of. -/
def events (s : PollLoop) (e : LoopEvent) : List Event :=
  match s.step e with
  | some t => (s.tick e.after).acted e.action t
  | none => []

-- ============================================================================
-- What is in flight
-- ============================================================================

/-- A batch in flight is the selection of the state its reply will meet, and no
    batch has been issued before the drain loop begins. -/
structure InFlight (s : PollLoop) : Prop where
  selected : ∀ ctx done sentAt b reads, s.phase = .awaitBulk ctx done sentAt b reads →
    reads = s.batch ctx done b ∧ reads ≠ []
  started : ∀ liveIds, s.phase = .started liveIds → s.vars.readsIssued = 0
  ready : ∀ ctx, s.phase = .ready ctx → s.vars.readsIssued = 0
  realtime : ∀ ctx sentAt, s.phase = .awaitRealtime ctx sentAt → s.vars.readsIssued = 0

theorem inFlight_spawn (cfg : LoopConfig) : InFlight (.spawn cfg) := by
  constructor <;> simp [spawn]

theorem InFlight.tick {s : PollLoop} (h : InFlight s) (d : Nat) : InFlight (s.tick d) := by
  exact ⟨h.selected, h.started, h.ready, h.realtime⟩

theorem inFlight_moves {s t : PollLoop} {a : LoopAction} (h : InFlight s) (hm : Moves s a t) :
    InFlight t := by
  cases hm with
  | script op => exact ⟨h.selected, h.started, h.ready, h.realtime⟩
  | noClient cfg wake hp hw => constructor <;> simp
  | beginCycle cfg wake hp hw => constructor <;> simp [beginCycle, CycleVars.new]
  | readActive liveIds hp =>
      have hzero := h.started liveIds hp
      constructor <;> simp [hzero]
  | skipRealtime ctx hp hempty => constructor <;> simp
  | sendRealtime ctx hp hne =>
      have hzero := h.ready ctx hp
      constructor <;> simp [hzero]
  | realtimeReply ctx sentAt result hp =>
      cases result <;> constructor <;> simp [realtimeReply]
  | sendBatch ctx done b capped hp hb hne hfits =>
      refine ⟨?_, by simp, by simp, by simp⟩
      intro ctx' done' sentAt b' reads hphase
      simp only [LoopPhase.awaitBulk.injEq] at hphase
      obtain ⟨rfl, rfl, -, rfl, rfl⟩ := hphase
      exact ⟨rfl, hne⟩
  | endDrain ctx done capped hp hforce => constructor <;> simp
  | batchOk ctx done sentAt b reads blobs work phase' hp hphase =>
      subst hphase
      split <;> constructor <;> simp
  | batchErr ctx done sentAt b reads e work hp => constructor <;> simp
  | publish ctx hp => constructor <;> simp [publish]
  | pause liveIds hp => constructor <;> simp [pause]

theorem inFlight_run {cfg : LoopConfig} {tr : List (PollLoop × LoopEvent)} {s : PollLoop}
    (hrun : Run step (.spawn cfg) tr s) : InFlight s :=
  hrun.invariant (P := fun _ _ => True)
    (fun _ e _ _ hu hs => inFlight_moves (hu.tick e.after) (moves_of_step hs)) (fun _ _ => trivial)
    (inFlight_spawn cfg)

-- ============================================================================
-- Refinement
-- ============================================================================

@[simp] theorem engine_tick (s : PollLoop) (d : Nat) : (s.tick d).engine = s.engine := rfl

/-- The machine makes the same move. -/
theorem exec_acted {s t : PollLoop} {a : LoopAction} (h : InFlight s) (hm : Moves s a t) :
    exec Cache.step s.engine (s.acted a t) = some t.engine := by
  cases hm with
  | script op => rfl
  | noClient cfg wake hp hw => simp [acted, exec, Cache.step, engine, hp, LoopPhase.phase]
  | beginCycle cfg wake hp hw =>
      simp [acted, exec, Cache.step, engine, hp, LoopPhase.phase, beginCycle, Engine.beginCycle]
  | readActive liveIds hp =>
      have hzero := h.started liveIds hp
      have hctx : s.engine.takeActive s.cfg.toPollConfig liveIds s.clock = s.takeActive liveIds :=
        rfl
      have hphase : s.engine.phase = .started s.cfg.toPollConfig liveIds := by
        rw [engine, hp]
        rfl
      simp only [acted, exec_singleton, Cache.step, hphase, hctx]
      simp only [engine, LoopPhase.phase, hzero]
  | skipRealtime ctx hp hempty =>
      simp only [acted, exec, engine, hp, LoopPhase.phase, hempty, if_true]
  | sendRealtime ctx hp hne =>
      have hfalse : ctx.realtime.isEmpty = false := by simpa using hne
      simp only [acted, exec, engine, hp, LoopPhase.phase, hfalse, Bool.false_eq_true, if_false]
  | realtimeReply ctx sentAt result hp =>
      have hzero := h.realtime ctx sentAt hp
      cases result with
      | ok blobs =>
          simp [acted, exec, Cache.step, engine, hp, LoopPhase.phase, realtimeReply, hzero,
            Except.toOption]
      | error e =>
          simp [acted, exec, Cache.step, engine, hp, LoopPhase.phase, realtimeReply, hzero,
            Except.toOption]
  | sendBatch ctx done b capped hp hb hne hfits =>
      simp [acted, exec, engine, hp, LoopPhase.phase, isDrained]
  | endDrain ctx done capped hp hforce =>
      have hphase : s.engine.phase = .bulk ctx done s.vars.readsIssued := by
        rw [engine, hp]
        rfl
      have hopen : ¬ (s.vars.readsIssued = 0 ∧
          ctx.bulkBatch s.engine.readState done s.engine.cycle (s.iterBudget.getD 0) ≠ []) := by
        rintro ⟨hzero, hne⟩
        obtain ⟨b, hb, hempty⟩ := hforce (by simpa [forceProgress] using hzero)
        rw [hb] at hne
        exact hne hempty
      simp only [acted, isDrained, if_true, exec_singleton, Cache.step, hphase, if_neg hopen]
      rfl
  | batchOk ctx done sentAt b reads blobs work phase' hp hphase =>
      obtain ⟨hreads, hne⟩ := h.selected ctx done sentAt b reads hp
      have hphase₀ : s.engine.phase = .bulk ctx done s.vars.readsIssued := by
        rw [engine, hp]
        rfl
      have hbatch : ctx.bulkBatch s.engine.readState done s.engine.cycle b = reads := hreads.symm
      have hpoll : Cache.step s.engine (.bulkPoll b (some blobs)) = some { s.engine with
          readState := markFulfilled reads ctx.requestSeq s.cycle s.readState
          phase := .bulk (ctx.arrived reads blobs) (markDone reads done)
            (s.vars.readsIssued + 1) } := by
        simp only [Cache.step, hphase₀, hbatch, if_neg hne]
        rfl
      subst hphase
      simp only [acted, hp, Except.toOption, Except.toBool, Bool.true_and, exec, hpoll]
      split
      · simp only [isDrained, if_true, exec_singleton, Cache.step, Nat.succ_ne_zero, false_and,
          if_false]
        rfl
      · simp only [isDrained, Bool.false_eq_true, if_false, exec]
        rfl
  | batchErr ctx done sentAt b reads e work hp =>
      obtain ⟨hreads, hne⟩ := h.selected ctx done sentAt b reads hp
      have hphase₀ : s.engine.phase = .bulk ctx done s.vars.readsIssued := by
        rw [engine, hp]
        rfl
      have hbatch : ctx.bulkBatch s.engine.readState done s.engine.cycle b = reads := hreads.symm
      simp only [acted, hp, Except.toOption, Except.toBool, Bool.false_and, Bool.false_eq_true,
        if_false, exec_singleton, Cache.step, hphase₀, hbatch, if_neg hne]
      rfl
  | publish ctx hp => simp [acted, exec, Cache.step, engine, hp, LoopPhase.phase, publish]
  | pause liveIds hp => simp [acted, exec, Cache.step, engine, hp, LoopPhase.phase, pause]

theorem exec_events {s t : PollLoop} {e : LoopEvent} (h : InFlight s) (hs : s.step e = some t) :
    exec Cache.step s.engine (s.events e) = some t.engine := by
  rw [events, hs]
  exact exec_acted (h.tick e.after) (moves_of_step hs)

/-- The events of the machine along a run of the loop. -/
def machineEvents (tr : List (PollLoop × LoopEvent)) : List Event :=
  tr.flatMap fun x => x.1.events x.2

/-- The steps of the machine a step of the loop is made of. -/
def machineSteps (x : PollLoop × LoopEvent) : List (Engine × Event) :=
  trace Cache.step x.1.engine (x.1.events x.2)

theorem run_machine {cfg : LoopConfig} {tr : List (PollLoop × LoopEvent)} {s : PollLoop}
    (hrun : Run step (.spawn cfg) tr s) :
    exec Cache.step .init (machineEvents tr) = some s.engine ∧
      trace Cache.step .init (machineEvents tr) = tr.flatMap machineSteps :=
  hrun.refines engine (I := InFlight)
    (fun _ e _ hu hs => ⟨inFlight_moves (hu.tick e.after) (moves_of_step hs), exec_events hu hs⟩)
    (inFlight_spawn cfg)

/-- **The loop refines the machine.**  Whatever the clock, the replies and the
    configurations are, the events of a run of the loop are executed by the machine
    and lead it to the registry, the snapshot, the cycle and the read state of the
    loop. -/
theorem poll_loop_refines {cfg : LoopConfig} {tr : List (PollLoop × LoopEvent)} {s : PollLoop}
    (hrun : Run step (.spawn cfg) tr s) :
    exec Cache.step .init (tr.flatMap fun x => x.1.events x.2) = some s.engine :=
  (run_machine hrun).1

/-- Byte budgets of one to four bytes. -/
def narrowConfig : LoopConfig :=
  { LoopConfig.default with minByteBudget := 1, maxByteBudget := 4, ordered := by decide }

/-- A cycle that reads two watches in two batches, of 3 and of 5 milliseconds. -/
def twoBatches : List LoopEvent :=
  [⟨0, .script (.register (.wram 0x10 2) .low 0)⟩,
   ⟨0, .script (.register (.wram 0x4000 4) .high 0)⟩,
   ⟨fromMillis 1, .beginCycle narrowConfig⟩, ⟨0, .readActive⟩, ⟨0, .sendRealtime⟩,
   ⟨0, .drainHead⟩, ⟨fromMillis 3, .bulkReply (.ok [[0x00, 0x01, 0x02, 0x03]]) 0⟩,
   ⟨0, .drainHead⟩, ⟨fromMillis 5, .bulkReply (.ok [[0x10, 0x11]]) 0⟩,
   ⟨0, .drainHead⟩, ⟨0, .publish⟩]

/-- The cycle in the machine. -/
theorem poll_loop_refines_two :
    exec Cache.step .init
      ((trace step (.spawn narrowConfig) twoBatches).flatMap fun x => x.1.events x.2) =
      some (final step (.spawn narrowConfig) twoBatches).engine :=
  poll_loop_refines (run_final (by decide +kernel))

-- ============================================================================
-- The memory the loop shows
-- ============================================================================

/-- The reply a step takes in: when it was asked for, what was read, the blobs. -/
def received (s : PollLoop) (e : LoopEvent) :
    Option (Nat × List CoalescedRead × List (List UInt8)) :=
  match e.action, s.phase with
  | .realtimeReply (.ok blobs), .awaitRealtime ctx sentAt => some (sentAt, ctx.rtReads, blobs)
  | .bulkReply (.ok blobs) _, .awaitBulk _ _ sentAt _ reads => some (sentAt, reads, blobs)
  | _, _ => none

/-- The step takes in a reply that holds the watch. -/
def Refreshes (s : PollLoop) (e : LoopEvent) (id : WatchId) : Prop :=
  ∃ sentAt reads blobs, s.received e = some (sentAt, reads, blobs) ∧ id ∈ memberIds reads

instance (s : PollLoop) (e : LoopEvent) (id : WatchId) : Decidable (s.Refreshes e id) :=
  decidable_of_iff ((s.received e).any fun r => id ∈ memberIds r.2.1) (by
    rw [Refreshes, Option.any_eq_true]
    constructor
    · rintro ⟨⟨sentAt, reads, blobs⟩, hr, hid⟩
      exact ⟨sentAt, reads, blobs, hr, by simpa using hid⟩
    · rintro ⟨sentAt, reads, blobs, hr, hid⟩
      exact ⟨(sentAt, reads, blobs), hr, by simpa using hid⟩)

/-- A reply holds the memory of one instant between the sending of the request and
    its own arrival. -/
def HonestAt (dev : Nat → DeviceMem) (tr : List (PollLoop × LoopEvent)) : Prop :=
  ∀ x ∈ tr, ∀ sentAt reads blobs, x.1.received x.2 = some (sentAt, reads, blobs) →
    ∃ t, sentAt ≤ t ∧ t ≤ x.1.clock + x.2.after ∧ blobs = deviceReply (dev t) reads

/-- The only reads of the machine's steps are the replies of the loop. -/
theorem multiRead_acted {s t : PollLoop} {a : LoopAction} {y : Engine × Event}
    (hy : y ∈ trace Cache.step s.engine (s.acted a t)) {reads : List CoalescedRead} {reply : Reply}
    (hread : multiRead y.1 y.2 = some (reads, reply)) :
    y.1 = s.engine ∧
      ((∃ result, a = .realtimeReply result ∧ y.2 = .realtimePoll result.toOption) ∨
        ∃ result work ctx done sentAt b reads', a = .bulkReply result work ∧
          s.phase = .awaitBulk ctx done sentAt b reads' ∧ y.2 = .bulkPoll b result.toOption) := by
  obtain ⟨u, e⟩ := y
  cases a with
  | realtimeReply result =>
      rcases mem_trace_cons hy with heq | hmem
      · obtain ⟨rfl, rfl⟩ := Prod.mk.inj heq
        exact ⟨rfl, Or.inl ⟨result, rfl, rfl⟩⟩
      · exact absurd hmem List.not_mem_nil
  | bulkReply result work =>
      simp only [acted] at hy
      split at hy
      · rename_i ctx done sentAt b reads' hp
        rcases mem_trace_cons hy with heq | hmem
        · obtain ⟨rfl, rfl⟩ := Prod.mk.inj heq
          exact ⟨rfl, Or.inr ⟨result, work, ctx, done, sentAt, b, reads', rfl, hp, rfl⟩⟩
        · split at hmem
          · obtain rfl := List.mem_singleton.mp hmem
            exact absurd hread (by simp [multiRead])
          · exact absurd hmem List.not_mem_nil
      · exact absurd hy List.not_mem_nil
  | drainHead =>
      have hmem := mem_of_mem_trace hy
      simp only [acted] at hmem
      split at hmem
      · obtain rfl := List.mem_singleton.mp hmem
        exact absurd hread (by simp [multiRead])
      · exact absurd hmem List.not_mem_nil
  | sendRealtime => exact absurd hy List.not_mem_nil
  | _ =>
      obtain rfl := List.mem_singleton.mp (mem_of_mem_trace hy)
      exact absurd hread (by simp [multiRead])

/-- Replies that hold the memory of their arrival do. -/
theorem honestAt_of_arrival {dev : Nat → DeviceMem} {tr : List (PollLoop × LoopEvent)}
    (h : ∀ x ∈ tr, ∀ r ∈ x.1.received x.2, r.1 ≤ x.1.clock + x.2.after ∧
      r.2.2 = deviceReply (dev (x.1.clock + x.2.after)) r.2.1) : HonestAt dev tr := by
  intro x hx sentAt reads blobs hr
  obtain ⟨hle, hblobs⟩ := h x hx (sentAt, reads, blobs) hr
  exact ⟨x.1.clock + x.2.after, hle, Nat.le_refl _, hblobs⟩

theorem machineSteps_eq {s t : PollLoop} {e : LoopEvent} (hs : s.step e = some t) :
    machineSteps (s, e) =
      trace Cache.step (s.tick e.after).engine ((s.tick e.after).acted e.action t) := by
  simp only [machineSteps, events, hs]
  rfl

/-- The successful reads among the machine's steps are the replies. -/
theorem received_of_multiRead {s t : PollLoop} {e : LoopEvent} (h : InFlight s)
    (hs : s.step e = some t) {y : Engine × Event} (hy : y ∈ machineSteps (s, e))
    {reads : List CoalescedRead} {blobs : List (List UInt8)}
    (hread : multiRead y.1 y.2 = some (reads, some blobs)) :
    ∃ sentAt, s.received e = some (sentAt, reads, blobs) := by
  rw [machineSteps_eq hs] at hy
  obtain ⟨hy₁, hcases⟩ := multiRead_acted hy hread
  rw [hy₁] at hread
  rcases hcases with ⟨result, ha, hy₂⟩ |
    ⟨result, work, ctx, done, sentAt, b, reads', ha, hp, hy₂⟩
  · rw [hy₂] at hread
    simp only [multiRead] at hread
    have hm := moves_of_step hs
    rw [ha] at hm
    cases hm with
    | realtimeReply ctx sentAt result hp =>
        have hphase : (s.tick e.after).engine.phase = .realtime ctx := by
          rw [engine, hp]
          rfl
        simp only [hphase, Option.some.injEq, Prod.mk.injEq] at hread
        obtain ⟨rfl, hresult⟩ := hread
        cases result with
        | ok blobs' =>
            obtain rfl := Option.some.inj hresult
            refine ⟨sentAt, ?_⟩
            have hp' : s.phase = .awaitRealtime ctx sentAt := hp
            simp only [received, ha, hp']
        | error err => exact absurd hresult (by simp [Except.toOption])
  · have hp' : s.phase = .awaitBulk ctx done sentAt b reads' := hp
    rw [hy₂] at hread
    have hphase : (s.tick e.after).engine.phase = .bulk ctx done s.vars.readsIssued := by
      rw [engine, hp]
      rfl
    simp only [multiRead, hphase, Option.some.injEq, Prod.mk.injEq] at hread
    obtain ⟨hreads, hresult⟩ := hread
    obtain rfl : reads' = reads := (h.selected ctx done sentAt b reads' hp').1.trans hreads
    cases result with
    | ok blobs' =>
        obtain rfl := Option.some.inj hresult
        refine ⟨sentAt, ?_⟩
        simp only [received, ha, hp']
    | error err => exact absurd hresult (by simp [Except.toOption])

/-- And every reply is one of them. -/
theorem multiRead_of_received {s t : PollLoop} {e : LoopEvent} (h : InFlight s)
    (hs : s.step e = some t) {sentAt : Nat} {reads : List CoalescedRead}
    {blobs : List (List UInt8)} (hr : s.received e = some (sentAt, reads, blobs)) :
    ∃ y ∈ machineSteps (s, e), multiRead y.1 y.2 = some (reads, some blobs) := by
  have hexec := exec_events h hs
  rw [events, hs] at hexec
  rw [machineSteps_eq hs, engine_tick]
  simp only [received] at hr
  split at hr
  · rename_i blobs' ctx sentAt' ha hp
    simp only [Option.some.injEq, Prod.mk.injEq] at hr
    obtain ⟨rfl, rfl, rfl⟩ := hr
    simp only [ha, acted] at hexec ⊢
    refine ⟨_, head_mem_trace hexec, ?_⟩
    have hphase : s.engine.phase = .realtime ctx := by
      rw [engine, hp]
      rfl
    simp only [multiRead, hphase, Except.toOption]
  · rename_i blobs' work ctx done sentAt' b reads' ha hp
    simp only [Option.some.injEq, Prod.mk.injEq] at hr
    obtain ⟨rfl, rfl, rfl⟩ := hr
    have hp' : (s.tick e.after).phase = .awaitBulk ctx done sentAt' b reads' := hp
    simp only [ha, acted, hp'] at hexec ⊢
    refine ⟨_, head_mem_trace hexec, ?_⟩
    have hphase : s.engine.phase = .bulk ctx done s.vars.readsIssued := by
      rw [engine, hp]
      rfl
    have hsel : ctx.bulkBatch s.engine.readState done s.engine.cycle b = reads' :=
      (h.selected ctx done sentAt' b reads' hp).1.symm
    simp only [multiRead, hphase, hsel, Except.toOption]
  · exact absurd hr (by simp)

theorem refreshes_iff {s t : PollLoop} {e : LoopEvent} (h : InFlight s) (hs : s.step e = some t)
    (id : WatchId) : s.Refreshes e id ↔ ∃ y ∈ machineSteps (s, e), Fetches y.1 y.2 id := by
  constructor
  · rintro ⟨sentAt, reads, blobs, hr, hid⟩
    obtain ⟨y, hy, hread⟩ := multiRead_of_received h hs hr
    exact ⟨y, hy, reads, blobs, hread, hid⟩
  · rintro ⟨y, hy, reads, blobs, hread, hid⟩
    obtain ⟨sentAt, hr⟩ := received_of_multiRead h hs hy hread
    exact ⟨sentAt, reads, blobs, hr, hid⟩

/-- Every step of a run is taken with a valid batch in flight. -/
theorem inFlight_of_mem {cfg : LoopConfig} {tr : List (PollLoop × LoopEvent)} {s : PollLoop}
    (hrun : Run step (.spawn cfg) tr s) {x : PollLoop × LoopEvent} (hx : x ∈ tr) :
    InFlight x.1 ∧ ∃ t, x.1.step x.2 = some t := by
  obtain ⟨pre, post, rfl⟩ := List.append_of_mem hx
  obtain ⟨t, hpre, hs, -⟩ := hrun.split_at
  exact ⟨inFlight_run hpre, t, hs⟩

/-- The region an action registers. -/
def registers : LoopAction → Option MemRegion
  | .script op => op.registers
  | _ => none

/-- The regions registered along a run, in the order of their ids. -/
def registered (tr : List (PollLoop × LoopEvent)) : List MemRegion :=
  tr.filterMap fun x => registers x.2.action

theorem registrations_trace (s t : PollLoop) (a : LoopAction) :
    (s.acted a t).filterMap (fun e => match e with | .script op => op.registers | _ => none) =
      (registers a).toList := by
  cases a with
  | script op => cases op <;> rfl
  | drainHead =>
      simp only [acted]
      split <;> rfl
  | bulkReply result work =>
      simp only [acted]
      split
      · split <;> rfl
      · rfl
  | _ => rfl

theorem registrations_machine {cfg : LoopConfig} {tr : List (PollLoop × LoopEvent)} {s : PollLoop}
    (hrun : Run step (.spawn cfg) tr s) :
    registrations (trace Cache.step .init (machineEvents tr)) = registered tr := by
  have hsome : (exec Cache.step .init (machineEvents tr)).isSome := by
    rw [(run_machine hrun).1]
    rfl
  have hmap : registrations (trace Cache.step .init (machineEvents tr)) =
      (machineEvents tr).filterMap
        fun e => match e with | .script op => op.registers | _ => none := by
    conv_rhs => rw [← map_snd_trace hsome, List.filterMap_map]
    rfl
  rw [hmap, machineEvents, List.filterMap_flatMap, registered, List.filterMap_eq_flatMap_toList]
  refine List.flatMap_congr fun x hx => ?_
  obtain ⟨-, t, hs⟩ := inFlight_of_mem hrun hx
  rw [events, hs]
  exact registrations_trace _ _ _

/-- A step of the machine belongs to a step of the loop, and the steps of the later
    ones come after it. -/
theorem exists_step_of_machine {tr : List (PollLoop × LoopEvent)} {k : Nat} {y : Engine × Event}
    (hy : (tr.flatMap machineSteps)[k]? = some y) :
    ∃ i x, tr[i]? = some x ∧ y ∈ machineSteps x ∧
      ∀ (j : Nat) z, i < j → tr[j]? = some z → ∀ y' ∈ machineSteps z,
        ∃ l : Nat, k < l ∧ (tr.flatMap machineSteps)[l]? = some y' := by
  obtain ⟨hk, hget⟩ := List.getElem?_eq_some_iff.mp hy
  have hsplit : tr.flatMap machineSteps =
      (tr.flatMap machineSteps).take k ++ y :: (tr.flatMap machineSteps).drop (k + 1) := by
    rw [← hget, ← List.drop_eq_getElem_cons hk, List.take_append_drop]
  obtain ⟨pre, x, post, a, b, htr, hx, -, hpost⟩ := flatMap_eq_append_cons hsplit
  refine ⟨pre.length, x, by simp [htr], by simp [hx], ?_⟩
  intro j z hj hz y' hy'
  have hmem : z ∈ post := by
    obtain ⟨d, rfl⟩ : ∃ d, j = pre.length + (d + 1) := ⟨j - pre.length - 1, by omega⟩
    rw [htr, List.getElem?_append_right (by omega), Nat.add_sub_cancel_left,
      List.getElem?_cons_succ] at hz
    exact List.mem_of_getElem? hz
  have hlater : y' ∈ b ++ post.flatMap machineSteps :=
    List.mem_append_right b (List.mem_flatMap.mpr ⟨z, hmem, hy'⟩)
  obtain ⟨d, hd⟩ := List.getElem?_of_mem (hpost ▸ hlater)
  exact ⟨k + 1 + d, by omega, by rw [← List.getElem?_drop]; exact hd⟩

/-- The step takes in the last reply of the run that holds the watch. -/
structure LastRefresh (tr : List (PollLoop × LoopEvent)) (id : WatchId) (i : Nat)
    (x : PollLoop × LoopEvent) : Prop where
  step : tr[i]? = some x
  refreshes : x.1.Refreshes x.2 id
  last : ∀ (j : Nat) y, i < j → tr[j]? = some y → ¬ y.1.Refreshes y.2 id

theorem LastRefresh.index_unique {tr : List (PollLoop × LoopEvent)} {id : WatchId} {i j : Nat}
    {x y : PollLoop × LoopEvent} (hx : LastRefresh tr id i x) (hy : LastRefresh tr id j y) :
    i = j := by
  rcases Nat.lt_trichotomy i j with hlt | heq | hgt
  · exact absurd hy.refreshes (hx.last j y hlt hy.step)
  · exact heq
  · exact absurd hx.refreshes (hy.last i x hgt hx.step)

theorem LastRefresh.split {tr : List (PollLoop × LoopEvent)} {id : WatchId} {i : Nat}
    {x : PollLoop × LoopEvent} (h : LastRefresh tr id i x) :
    ∃ A B, tr = A ++ x :: B ∧ A.length = i ∧ ∀ y ∈ B, ¬ y.1.Refreshes y.2 id := by
  obtain ⟨hi, hget⟩ := List.getElem?_eq_some_iff.mp h.step
  refine ⟨tr.take i, tr.drop (i + 1), ?_, List.length_take_of_le (by omega), ?_⟩
  · rw [← hget, ← List.drop_eq_getElem_cons hi, List.take_append_drop]
  · intro y hy
    obtain ⟨j, hj⟩ := List.getElem?_of_mem hy
    rw [List.getElem?_drop] at hj
    exact h.last (i + 1 + j) y (by omega) hj

/-- The reply a step takes in, if it takes one in, holds this memory. -/
def Holds (x : PollLoop × LoopEvent) (mem : DeviceMem) : Prop :=
  ∀ sentAt reads blobs, x.1.received x.2 = some (sentAt, reads, blobs) →
    blobs = deviceReply mem reads

/-- A step takes in one reply at most. -/
theorem holds_of_reply {x : PollLoop × LoopEvent} {sentAt : Nat} {reads : List CoalescedRead}
    {blobs : List (List UInt8)} (hr : x.1.received x.2 = some (sentAt, reads, blobs))
    {mem : DeviceMem} (h : blobs = deviceReply mem reads) : Holds x mem := by
  intro sentAt' reads' blobs' hr'
  obtain ⟨rfl, rfl, rfl⟩ : sentAt = sentAt' ∧ reads = reads' ∧ blobs = blobs' := by
    simpa using hr.symm.trans hr'
  exact h

/-- So there is a memory for every step if there is one for every reply. -/
theorem exists_holds_of_reply {x : PollLoop × LoopEvent}
    (h : ∀ sentAt reads blobs, x.1.received x.2 = some (sentAt, reads, blobs) →
      ∃ mem, blobs = deviceReply mem reads) : ∃ mem, Holds x mem := by
  cases hr : x.1.received x.2 with
  | none => exact ⟨fun _ _ _ => 0, fun _ _ _ h => absurd (hr.symm.trans h) (by simp)⟩
  | some reply =>
      obtain ⟨mem, hmem⟩ := h reply.1 reply.2.1 reply.2.2 hr
      exact ⟨mem, holds_of_reply hr hmem⟩

/-- What a watch shows after a publish is its region in the memory of the last reply
    that held it, for a choice of the memories. -/
theorem shows_chosen_reply {mem : Nat → DeviceMem} {cfg : LoopConfig}
    {tr : List (PollLoop × LoopEvent)} {s : PollLoop} (hrun : Run step (.spawn cfg) tr s)
    (hfit : ∀ r ∈ registered tr, r.Fits) (hmem : ∀ i x, tr[i]? = some x → Holds x (mem i))
    (hp : s.isPublished)
    {id : WatchId} {bytes : List UInt8} (hbytes : s.current.bytes id = some bytes) :
    ∃ region i x, LastRefresh tr id i x ∧ (registered tr)[id]? = some region ∧
      s.current.region id = some region ∧ bytes = (mem i).read region := by
  obtain ⟨hexec, htrace⟩ := run_machine hrun
  have hstep : ∀ k : Nat, ∃ i : Nat, ∀ y, (tr.flatMap machineSteps)[k]? = some y →
      ∃ x, tr[i]? = some x ∧ y ∈ machineSteps x ∧
        ∀ (j : Nat) z, i < j → tr[j]? = some z → ∀ y' ∈ machineSteps z,
          ∃ l : Nat, k < l ∧ (tr.flatMap machineSteps)[l]? = some y' := by
    intro k
    cases hk : (tr.flatMap machineSteps)[k]? with
    | none => exact ⟨0, fun y hy => absurd hy (by simp)⟩
    | some y =>
        obtain ⟨i, x, hx⟩ := exists_step_of_machine hk
        refine ⟨i, fun y' hy' => ?_⟩
        obtain rfl := Option.some.inj hy'
        exact ⟨x, hx⟩
  choose loc hloc using hstep
  have hhonest : Honest (fun k => mem (loc k)) (tr.flatMap machineSteps) := by
    intro k hk m hm blobs hb
    obtain ⟨reads, reply⟩ := m
    obtain rfl := Option.mem_def.mp hb
    obtain ⟨x, hx, hy, -⟩ := hloc k _ (List.getElem?_eq_getElem hk)
    obtain ⟨hin, t, hs⟩ := inFlight_of_mem hrun (List.mem_of_getElem? hx)
    obtain ⟨sentAt, hr⟩ := received_of_multiRead hin hs hy (Option.mem_def.mp hm)
    exact hmem (loc k) x hx sentAt reads blobs hr
  have hfaithful : Faithful (fun k => mem (loc k)) (tr.flatMap machineSteps) s.engine := by
    rw [← htrace] at hhonest ⊢
    refine faithful_run (run_of_exec hexec) ?_ hhonest
    rw [registrations_machine hrun]
    exact hfit
  have hctx : s.engine.phase.ctx? = none := by
    simp only [isPublished] at hp
    split at hp
    · rename_i liveIds hphase
      simp only [engine, hphase, LoopPhase.phase, Phase.ctx?]
    · exact absurd hp (by simp)
  rcases hfaithful.current hctx id with hnone | ⟨region, age, k, hreg, hlast, hsome⟩
  · simp only [SnapshotBuilder.entry, Snapshot.maps, Prod.mk.injEq] at hnone
    exact absurd (hbytes.symm.trans hnone.1) (by simp)
  · simp only [SnapshotBuilder.entry, Snapshot.maps, Prod.mk.injEq] at hsome
    obtain ⟨hdata, hregion, -⟩ := hsome
    obtain ⟨y, hy, hfetch⟩ := hlast.fetch
    obtain ⟨x, hx, hyx, hlater⟩ := hloc k y hy
    have hrefresh : ∀ (j : Nat) z, tr[j]? = some z →
        (z.1.Refreshes z.2 id ↔ ∃ y' ∈ machineSteps z, Fetches y'.1 y'.2 id) := by
      intro j z hz
      obtain ⟨hin, t, hs⟩ := inFlight_of_mem hrun (List.mem_of_getElem? hz)
      exact refreshes_iff hin hs id
    refine ⟨region, loc k, x, ⟨hx, (hrefresh _ x hx).mpr ⟨y, hyx, hfetch⟩, ?_⟩, ?_, hregion,
      Option.some.inj (hbytes.symm.trans hdata)⟩
    · intro j z hj hz hr
      obtain ⟨y', hy', hf⟩ := (hrefresh j z hz).mp hr
      obtain ⟨l, hl, hget⟩ := hlater j z hj hz y' hy'
      exact hlast.last l y' hl hget hf
    · rw [← registrations_machine hrun, htrace]
      exact hreg

/-- And for every memory the last reply holds. -/
theorem shows_last_reply {cfg : LoopConfig} {tr : List (PollLoop × LoopEvent)} {s : PollLoop}
    (hrun : Run step (.spawn cfg) tr s) (hfit : ∀ r ∈ registered tr, r.Fits)
    (hmem : ∀ x ∈ tr, ∃ mem, Holds x mem) (hp : s.isPublished) {id : WatchId}
    {bytes : List UInt8} (hbytes : s.current.bytes id = some bytes) :
    ∃ region i x, LastRefresh tr id i x ∧ (registered tr)[id]? = some region ∧
      s.current.region id = some region ∧ ∀ mem, Holds x mem → bytes = mem.read region := by
  have hchoice : ∀ i : Nat, ∃ mem, ∀ x, tr[i]? = some x → Holds x mem := by
    intro i
    cases hi : tr[i]? with
    | none => exact ⟨fun _ _ _ => 0, fun x hx => absurd hx (by simp)⟩
    | some x =>
        obtain ⟨mem, hx⟩ := hmem x (List.mem_of_getElem? hi)
        exact ⟨mem, fun x' hx' => Option.some.inj hx' ▸ hx⟩
  choose chosen hchosen using hchoice
  obtain ⟨region, i, x, hlast, hreg, hregion, -⟩ :=
    shows_chosen_reply hrun hfit hchosen hp hbytes
  refine ⟨region, i, x, hlast, hreg, hregion, fun mem hx => ?_⟩
  have hupdate : ∀ j y, tr[j]? = some y → Holds y (Function.update chosen i mem j) := by
    intro j y hy
    by_cases hj : j = i
    · subst hj
      obtain rfl := Option.some.inj (hlast.step.symm.trans hy)
      rwa [Function.update_self]
    · rw [Function.update_of_ne hj]
      exact hchosen j y hy
  obtain ⟨region', i', x', hlast', hreg', -, heq⟩ :=
    shows_chosen_reply hrun hfit hupdate hp hbytes
  obtain rfl := hlast.index_unique hlast'
  obtain rfl := Option.some.inj (hreg.symm.trans hreg')
  rwa [Function.update_self] at heq

/-- **The loop shows the device's memory.**  Let every reply hold the memory of one
    instant between the sending of its request and its arrival.  Then the bytes a
    watch has in a snapshot that has just been published are the memory of the
    watch's own region at such an instant of the last reply that held the watch. -/
theorem loop_shows_device {dev : Nat → DeviceMem} {cfg : LoopConfig}
    {tr : List (PollLoop × LoopEvent)} {s : PollLoop} (hrun : Run step (.spawn cfg) tr s)
    (hfit : ∀ r ∈ registered tr, r.Fits) (hdev : HonestAt dev tr) (hp : s.isPublished)
    {id : WatchId} {bytes : List UInt8} (hbytes : s.current.bytes id = some bytes) :
    ∃ region i u e sentAt reads blobs t, LastRefresh tr id i (u, e) ∧
      u.received e = some (sentAt, reads, blobs) ∧ id ∈ memberIds reads ∧
      sentAt ≤ t ∧ t ≤ u.clock + e.after ∧
      (registered tr)[id]? = some region ∧ s.current.region id = some region ∧
      bytes = (dev t).read region := by
  have hmem : ∀ x ∈ tr, ∃ mem, Holds x mem := by
    intro x hx
    refine exists_holds_of_reply fun sentAt reads blobs hr => ?_
    obtain ⟨t, -, -, hblobs⟩ := hdev x hx sentAt reads blobs hr
    exact ⟨dev t, hblobs⟩
  obtain ⟨region, i, ⟨u, e⟩, hlast, hreg, hregion, hread⟩ :=
    shows_last_reply hrun hfit hmem hp hbytes
  obtain ⟨sentAt, reads, blobs, hr, hid⟩ := hlast.refreshes
  obtain ⟨t, hlo, hhi, hblobs⟩ :=
    hdev (u, e) (List.mem_of_getElem? hlast.step) sentAt reads blobs hr
  exact ⟨region, i, u, e, sentAt, reads, blobs, t, hlast, hr, hid, hlo, hhi, hreg, hregion,
    hread _ (holds_of_reply hr hblobs)⟩

/-- A memory that holds the low byte of each address. -/
def addressMem : DeviceMem := fun _ _ address => UInt8.ofNat address

/-- The watch of the second batch. -/
theorem loop_shows_device_two :
    ∃ region i u e sentAt reads blobs t,
      LastRefresh (trace step (.spawn narrowConfig) twoBatches) 0 i (u, e) ∧
      u.received e = some (sentAt, reads, blobs) ∧ 0 ∈ memberIds reads ∧
      sentAt ≤ t ∧ t ≤ u.clock + e.after ∧
      (registered (trace step (.spawn narrowConfig) twoBatches))[0]? = some region ∧
      (final step (.spawn narrowConfig) twoBatches).current.region 0 = some region ∧
      [0x10, 0x11] = ((fun _ => addressMem) t).read region :=
  loop_shows_device (run_final (by decide +kernel)) (by decide +kernel)
    (honestAt_of_arrival (by decide +kernel)) (by decide +kernel) (by decide +kernel)

end PollLoop

end Cache
end SniLua
