/-
  SniLua.Cache.Engine

  The poll loop as a state machine that shares the registry with the script
  thread.

  One event is one access to shared state or one finished `MultiRead`: the
  registry calls of the script thread, `registry.all()` at the start of a cycle,
  `registry.active_with_requests()`, the realtime sub-poll, every batch of the
  bulk drain loop, the publication of the snapshot, and the collection of
  `read_state`.  Script calls may come between any two of them.  What the loop
  reads from the outside (the configuration, the clock, the byte budget of an
  iteration, the reply of the device, the measured round trip) is a parameter of
  the event; the time gates, which end the drain loop, show as the freedom to
  take `endDrain` once a batch has been issued.

  `Transition` says once what each event does; every invariant of later modules
  is a case analysis of it, or follows from what a step leaves of the context, the
  live ids and the registry.  The two tiers differ in the reads they issue, not in
  what they do with a reply, so both are `fetchOk`.
-/

import SniLua.Lib.Run
import SniLua.Cache.Select

namespace SniLua
namespace Cache

open Lib

-- ============================================================================
-- State
-- ============================================================================

/-- The part of the configuration the reads depend on. -/
structure PollConfig where
  coalesceGap : UInt32
  demandWindow : Nat
deriving DecidableEq, Repr

/-- What a cycle holds once the active watches have been taken. -/
structure CycleCtx where
  cfg : PollConfig
  /-- Ids of all registered watches at the start of the cycle. -/
  liveIds : List WatchId
  /-- Request markers of the active watches. -/
  requestSeq : HashMap WatchId Nat
  /-- The active watches. -/
  watches : List WatchHandle
  builder : SnapshotBuilder

namespace CycleCtx

def realtime (c : CycleCtx) : List WatchHandle := c.watches.filter (·.priority.isRealtime)

def bulkEligible (c : CycleCtx) : List WatchHandle := c.watches.filter (!·.priority.isRealtime)

/-- The reads of the realtime sub-poll. -/
def rtReads (c : CycleCtx) : List CoalescedRead := coalesce c.realtime c.cfg.coalesceGap

/-- The bulk reads, cut to the budget of an iteration. -/
def chunked (c : CycleCtx) (iterBudget : UInt32) : List CoalescedRead :=
  splitReadsToBudget (coalesce c.bulkEligible c.cfg.coalesceGap) iterBudget

/-- The pending ones among them. -/
def pending (c : CycleCtx) (rs : ReadStates) (done : List WatchId) (iterBudget : UInt32) :
    List CoalescedRead :=
  (c.chunked iterBudget).filter (readIsPending · c.requestSeq rs done)

/-- The batch of a drain iteration; empty when the loop breaks instead. -/
def bulkBatch (c : CycleCtx) (rs : ReadStates) (done : List WatchId) (cycle : Nat)
    (iterBudget : UInt32) : List CoalescedRead :=
  (selectBulk (c.pending rs done iterBudget) iterBudget rs cycle).reads

end CycleCtx

/-- Where the engine is in its cycle. -/
inductive Phase where
  | idle
  /-- `registry.all()` has been taken. -/
  | started (cfg : PollConfig) (liveIds : List WatchId)
  /-- The active watches have been taken, the realtime sub-poll comes next. -/
  | realtime (ctx : CycleCtx)
  /-- In the drain loop: watches done this cycle, batches issued. -/
  | bulk (ctx : CycleCtx) (done : List WatchId) (readsIssued : Nat)
  /-- The drain loop has ended. -/
  | drained (ctx : CycleCtx)
  /-- The snapshot has been published. -/
  | published (liveIds : List WatchId)

/-- The context of a cycle between `active_with_requests` and publication. -/
def Phase.ctx? : Phase → Option CycleCtx
  | .realtime ctx | .bulk ctx _ _ | .drained ctx => some ctx
  | .idle | .started .. | .published .. => none

/-- The ids of all registered watches, as a cycle holds them. -/
def Phase.liveIds? : Phase → Option (List WatchId)
  | .idle => none
  | .started _ liveIds | .published liveIds => some liveIds
  | .realtime ctx | .bulk ctx _ _ | .drained ctx => some ctx.liveIds

/-- Between `registry.all()` and the publication of the snapshot. -/
def Phase.inCycle : Phase → Bool
  | .started .. | .realtime _ | .bulk .. | .drained _ => true
  | .idle | .published _ => false

/-- The watches already refreshed by the drain loop of the cycle. -/
def Phase.done : Phase → List WatchId
  | .bulk _ done _ => done
  | .idle | .started .. | .realtime _ | .drained _ | .published _ => []

theorem Phase.liveIds?_of_ctx? {p : Phase} {c : CycleCtx} (h : p.ctx? = some c) :
    p.liveIds? = some c.liveIds := by
  cases p <;> simp_all [Phase.ctx?, Phase.liveIds?]

theorem Phase.inCycle_of_ctx? {p : Phase} {c : CycleCtx} (h : p.ctx? = some c) :
    p.inCycle = true := by
  cases p <;> simp_all [Phase.ctx?, Phase.inCycle]

/-- With a context the cycle is past its start and its snapshot not published. -/
theorem Phase.ne_started_of_ctx? {p : Phase} {c : CycleCtx} (h : p.ctx? = some c)
    (cfg : PollConfig) (liveIds : List WatchId) : p ≠ .started cfg liveIds := by
  rintro rfl
  exact absurd h (by simp [Phase.ctx?])

theorem Phase.ne_published_of_ctx? {p : Phase} {c : CycleCtx} (h : p.ctx? = some c)
    (liveIds : List WatchId) : p ≠ .published liveIds := by
  rintro rfl
  exact absurd h (by simp [Phase.ctx?])

/-- Without a context there is nothing to show of it. -/
theorem Phase.no_ctx {p : Phase} {P : CycleCtx → Prop} (h : p.ctx? = none) :
    ∀ c, p.ctx? = some c → P c := by
  intro c hc
  exact absurd (h.symm.trans hc) (by simp)

structure Engine where
  registry : WatchRegistry
  current : Snapshot
  cycle : Nat
  readState : ReadStates
  phase : Phase

/-- `spawn`. -/
def Engine.init : Engine :=
  { registry := .new, current := .default, cycle := 0, readState := .empty, phase := .idle }

-- ============================================================================
-- Events
-- ============================================================================

/-- The outcome of a `multi_read`: the blobs of an `Ok` reply, or `none`. -/
abbrev Reply := Option (List (List UInt8))

inductive Event where
  | script (op : RegistryOp)
  /-- `get_client()` is `None`: idle on. -/
  | noClient
  | beginCycle (cfg : PollConfig)
  | readActive (now : Nat)
  | realtimePoll (reply : Reply)
  | bulkPoll (iterBudget : UInt32) (reply : Reply)
  /-- The drain loop breaks: nothing pending, or a time gate. -/
  | endDrain (iterBudget : UInt32)
  | publish (rttMs : UInt32)
  /-- The periodic collection of `read_state`. -/
  | collect
deriving DecidableEq

def Engine.beginCycle (s : Engine) (cfg : PollConfig) : Engine :=
  { s with cycle := s.cycle + 1, phase := .started cfg (s.registry.all.map (·.id)) }

/-- The context `active_with_requests` gives a cycle. -/
def Engine.takeActive (s : Engine) (cfg : PollConfig) (liveIds : List WatchId) (now : Nat) :
    CycleCtx :=
  let active := s.registry.activeWithRequests cfg.demandWindow now
  { cfg
    liveIds
    requestSeq := .ofList (active.map fun (w, seq) => (w.id, seq))
    watches := active.map (·.1)
    builder := (SnapshotBuilder.fromPrev s.current).retainOnly liveIds }

/-- An `Ok` reply: slice it into the builder, mark every member fulfilled. -/
def CycleCtx.arrived (c : CycleCtx) (reads : List CoalescedRead) (blobs : List (List UInt8)) :
    CycleCtx :=
  { c with builder := applyReads reads blobs c.builder }

def step (s : Engine) : Event → Option Engine
  | .script op => some { s with registry := s.registry.apply op }
  | .noClient =>
      match s.phase with
      | .idle => some s
      | _ => none
  | .beginCycle cfg =>
      match s.phase with
      | .idle => some (s.beginCycle cfg)
      | _ => none
  | .readActive now =>
      match s.phase with
      | .started cfg liveIds =>
          let ctx := s.takeActive cfg liveIds now
          some { s with phase := if ctx.realtime.isEmpty then .bulk ctx [] 0 else .realtime ctx }
      | _ => none
  | .realtimePoll reply =>
      match s.phase with
      | .realtime ctx =>
          match reply with
          | some blobs =>
              some { s with
                readState := markFulfilled ctx.rtReads ctx.requestSeq s.cycle s.readState
                phase := .bulk (ctx.arrived ctx.rtReads blobs) [] 0 }
          | none => some { s with phase := .bulk ctx [] 0 }
      | _ => none
  | .bulkPoll iterBudget reply =>
      match s.phase with
      | .bulk ctx done readsIssued =>
          let batch := ctx.bulkBatch s.readState done s.cycle iterBudget
          if batch = [] then none
          else
            match reply with
            | some blobs =>
                some { s with
                  readState := markFulfilled batch ctx.requestSeq s.cycle s.readState
                  phase := .bulk (ctx.arrived batch blobs) (markDone batch done) (readsIssued + 1) }
            | none => some { s with phase := .drained ctx }
      | _ => none
  | .endDrain iterBudget =>
      match s.phase with
      | .bulk ctx done readsIssued =>
          if readsIssued = 0 ∧ ctx.bulkBatch s.readState done s.cycle iterBudget ≠ [] then none
          else some { s with phase := .drained ctx }
      | _ => none
  | .publish rttMs =>
      match s.phase with
      | .drained ctx =>
          some { s with
            current := ctx.builder.build s.cycle rttMs rttMs
            phase := .published ctx.liveIds }
      | _ => none
  | .collect =>
      match s.phase with
      | .published liveIds =>
          some { s with
            readState := if s.cycle % 256 = 0 then s.readState.retain fun id => id ∈ liveIds
              else s.readState
            phase := .idle }
      | _ => none

-- ============================================================================
-- The MultiRead of an event
-- ============================================================================

/-- The reads of the `MultiRead` an event is the outcome of, with its reply. -/
def multiRead (s : Engine) : Event → Option (List CoalescedRead × Reply)
  | .realtimePoll reply =>
      match s.phase with
      | .realtime ctx => some (ctx.rtReads, reply)
      | _ => none
  | .bulkPoll iterBudget reply =>
      match s.phase with
      | .bulk ctx done _ => some (ctx.bulkBatch s.readState done s.cycle iterBudget, reply)
      | _ => none
  | _ => none

/-- The event is a successful `MultiRead` that contained the watch. -/
def Fetches (s : Engine) (e : Event) (id : WatchId) : Prop :=
  ∃ reads blobs, multiRead s e = some (reads, some blobs) ∧ id ∈ memberIds reads

instance (s : Engine) (e : Event) (id : WatchId) : Decidable (Fetches s e id) :=
  decidable_of_iff (∃ m ∈ multiRead s e, m.2.isSome ∧ id ∈ memberIds m.1)
    ⟨fun ⟨(reads, _), hm, hr, hid⟩ =>
      let ⟨blobs, hb⟩ := Option.isSome_iff_exists.mp hr
      ⟨reads, blobs, hm.trans (congrArg (fun r => some (reads, r)) hb), hid⟩,
    fun ⟨reads, blobs, hm, hid⟩ => ⟨(reads, some blobs), hm, rfl, hid⟩⟩

/-- The reads of both tiers: coalesced from active watches, possibly cut. -/
inductive ReadsOf (ctx : CycleCtx) : List CoalescedRead → Prop
  | realtime : ReadsOf ctx ctx.rtReads
  | bulk (rs : ReadStates) (done : List WatchId) (cycle : Nat) (iterBudget : UInt32) :
      ReadsOf ctx (ctx.bulkBatch rs done cycle iterBudget)

theorem CycleCtx.mem_chunked_of_mem_bulkBatch {ctx : CycleCtx} {rs : ReadStates}
    {done : List WatchId} {cycle : Nat} {iterBudget : UInt32} {r : CoalescedRead}
    (h : r ∈ ctx.bulkBatch rs done cycle iterBudget) :
    r ∈ ctx.chunked iterBudget ∧ readIsPending r ctx.requestSeq rs done = true :=
  List.mem_filter.mp (mem_of_mem_selectBulk h)

/-- The members of the reads of a cycle are active watches. -/
theorem ReadsOf.mem_watches {ctx : CycleCtx} {reads : List CoalescedRead} (h : ReadsOf ctx reads)
    {id : WatchId} (hid : id ∈ memberIds reads) : ∃ w ∈ ctx.watches, w.id = id := by
  cases h with
  | realtime =>
      have hmem := (memberIds_coalesce ctx.realtime ctx.cfg.coalesceGap).mem_iff.mp hid
      obtain ⟨w, hw, rfl⟩ := List.mem_map.mp hmem
      exact ⟨w, (List.mem_filter.mp hw).1, rfl⟩
  | bulk rs done cycle iterBudget =>
      obtain ⟨r, hr, hid⟩ := mem_memberIds.mp hid
      have hmem : id ∈ memberIds (ctx.chunked iterBudget) :=
        mem_memberIds.mpr ⟨r, (CycleCtx.mem_chunked_of_mem_bulkBatch hr).1, hid⟩
      have hmem := (memberIds_chunks _ _ _).mem_iff.mp hmem
      obtain ⟨w, hw, rfl⟩ := List.mem_map.mp hmem
      exact ⟨w, (List.mem_filter.mp hw).1, rfl⟩

-- ============================================================================
-- What each event does
-- ============================================================================

/-- The effect of an event, tiers and reasons for leaving the loop merged. -/
inductive Transition (s : Engine) : Event → Engine → Prop
  | script (op : RegistryOp) :
      Transition s (.script op) { s with registry := s.registry.apply op }
  | begin (cfg : PollConfig) (h : s.phase = .idle) :
      Transition s (.beginCycle cfg) (s.beginCycle cfg)
  | active (cfg : PollConfig) (liveIds : List WatchId) (now : Nat) (phase' : Phase)
      (h : s.phase = .started cfg liveIds)
      (h' : phase'.ctx? = some (s.takeActive cfg liveIds now)) (hdone : phase'.done = []) :
      Transition s (.readActive now) { s with phase := phase' }
  | fetchOk (e : Event) (ctx : CycleCtx) (reads : List CoalescedRead)
      (blobs : List (List UInt8)) (phase' : Phase)
      (h : s.phase.ctx? = some ctx) (hfetch : multiRead s e = some (reads, some blobs))
      (hreads : ReadsOf ctx reads)
      (h' : phase'.ctx? = some (ctx.arrived reads blobs))
      (hdone : ∀ id ∈ phase'.done, id ∈ memberIds reads ∨ id ∈ s.phase.done) :
      Transition s e { s with
        readState := markFulfilled reads ctx.requestSeq s.cycle s.readState
        phase := phase' }
  | quiet (e : Event) (phase' : Phase) (hscript : ∀ op, e ≠ .script op)
      (hfetch : ∀ id, ¬ Fetches s e id)
      (hphase : phase' = s.phase ∨
        ∃ ctx, s.phase.ctx? = some ctx ∧ phase'.ctx? = some ctx ∧ phase'.done = []) :
      Transition s e { s with phase := phase' }
  | publish (ctx : CycleCtx) (rttMs : UInt32) (h : s.phase = .drained ctx) :
      Transition s (.publish rttMs) { s with
        current := ctx.builder.build s.cycle rttMs rttMs
        phase := .published ctx.liveIds }
  | collect (liveIds : List WatchId) (h : s.phase = .published liveIds) :
      Transition s .collect { s with
        readState := if s.cycle % 256 = 0 then s.readState.retain fun id => id ∈ liveIds
          else s.readState
        phase := .idle }

theorem not_fetches_of_multiRead_none {s : Engine} {e : Event} (h : multiRead s e = none)
    (id : WatchId) : ¬ Fetches s e id := by
  rintro ⟨reads, blobs, hf, -⟩
  rw [h] at hf
  exact absurd hf (by simp)

theorem not_fetches_of_err {s : Engine} {e : Event} {reads : List CoalescedRead}
    (h : multiRead s e = some (reads, none)) (id : WatchId) : ¬ Fetches s e id := by
  rintro ⟨reads, blobs, hf, -⟩
  rw [h] at hf
  exact absurd hf (by simp)

/-- Collecting `read_state` only drops entries. -/
theorem get_of_get_collect {s : Engine} {liveIds : List WatchId} {id : WatchId} {st : ReadState}
    (h : (if s.cycle % 256 = 0 then s.readState.retain fun id => id ∈ liveIds
      else s.readState).get id = some st) : s.readState.get id = some st := by
  split at h
  · exact HashMap.get_of_get_retain h
  · exact h

/-- It keeps the entries of the live watches. -/
theorem get_collect {s : Engine} {liveIds : List WatchId} {id : WatchId} (h : id ∈ liveIds) :
    (if s.cycle % 256 = 0 then s.readState.retain fun id => id ∈ liveIds
      else s.readState).get id = s.readState.get id := by
  split
  · rw [HashMap.get_retain, if_pos (by simpa using h)]
  · rfl

/-- Every step of the engine is a transition. -/
theorem transition_of_step {s t : Engine} {e : Event} (h : step s e = some t) :
    Transition s e t := by
  cases e with
  | script op =>
      obtain rfl := Option.some.inj h
      exact .script op
  | noClient =>
      simp only [step] at h
      split at h
      · obtain rfl := Option.some.inj h
        exact .quiet _ s.phase (by simp) (not_fetches_of_multiRead_none rfl) (Or.inl rfl)
      · exact absurd h (by simp)
  | beginCycle cfg =>
      simp only [step] at h
      split at h
      · rename_i hp
        obtain rfl := Option.some.inj h
        exact .begin cfg hp
      · exact absurd h (by simp)
  | readActive now =>
      simp only [step] at h
      split at h
      · rename_i cfg liveIds hp
        obtain rfl := Option.some.inj h
        refine .active cfg liveIds now _ hp ?_ ?_
        · split <;> rfl
        · split <;> rfl
      · exact absurd h (by simp)
  | realtimePoll reply =>
      simp only [step] at h
      split at h
      · rename_i ctx hp
        cases reply with
        | some blobs =>
            obtain rfl := Option.some.inj h
            exact .fetchOk _ ctx ctx.rtReads blobs _ (by rw [hp]; rfl)
              (by simp only [multiRead, hp]) .realtime rfl (by simp [Phase.done])
        | none =>
            obtain rfl := Option.some.inj h
            exact .quiet _ _ (by simp) (not_fetches_of_err (by simp only [multiRead, hp]; rfl))
              (Or.inr ⟨ctx, by rw [hp]; rfl, rfl, rfl⟩)
      · exact absurd h (by simp)
  | bulkPoll iterBudget reply =>
      simp only [step] at h
      split at h
      · rename_i ctx done n hp
        split at h
        · exact absurd h (by simp)
        · cases reply with
          | some blobs =>
              obtain rfl := Option.some.inj h
              refine .fetchOk _ ctx _ blobs _ (by rw [hp]; rfl)
                (by simp only [multiRead, hp]) (.bulk ..) rfl ?_
              intro id hid
              rw [hp]
              exact List.mem_append.mp hid
          | none =>
              obtain rfl := Option.some.inj h
              exact .quiet _ _ (by simp) (not_fetches_of_err (by simp only [multiRead, hp]; rfl))
                (Or.inr ⟨ctx, by rw [hp]; rfl, rfl, rfl⟩)
      · exact absurd h (by simp)
  | endDrain iterBudget =>
      simp only [step] at h
      split at h
      · rename_i ctx done n hp
        split at h
        · exact absurd h (by simp)
        · obtain rfl := Option.some.inj h
          exact .quiet _ _ (by simp) (not_fetches_of_multiRead_none rfl)
            (Or.inr ⟨ctx, by rw [hp]; rfl, rfl, rfl⟩)
      · exact absurd h (by simp)
  | publish rttMs =>
      simp only [step] at h
      split at h
      · rename_i ctx hp
        obtain rfl := Option.some.inj h
        exact .publish ctx rttMs hp
      · exact absurd h (by simp)
  | collect =>
      simp only [step] at h
      split at h
      · rename_i liveIds hp
        obtain rfl := Option.some.inj h
        exact .collect liveIds hp
      · exact absurd h (by simp)

-- ============================================================================
-- What a step leaves of the state before it
-- ============================================================================

/-- The context after a step is the one before it, up to the builder, or it has
    just been taken. -/
theorem ctx_of_step {s t : Engine} {e : Event} {c : CycleCtx} (hs : step s e = some t)
    (hc : t.phase.ctx? = some c) :
    (∃ c₀ builder, s.phase.ctx? = some c₀ ∧ c = { c₀ with builder }) ∨
    ∃ cfg liveIds now, e = .readActive now ∧ s.phase = .started cfg liveIds ∧
      c = s.takeActive cfg liveIds now := by
  cases transition_of_step hs with
  | script op => exact Or.inl ⟨c, c.builder, hc, rfl⟩
  | begin cfg hp => exact absurd hc (by simp [Engine.beginCycle, Phase.ctx?])
  | active cfg liveIds now phase' hp hp' hdone =>
      exact Or.inr ⟨cfg, liveIds, now, rfl, hp, Option.some.inj (hc.symm.trans hp')⟩
  | fetchOk e ctx reads blobs phase' hp hfetch hreads hp' hdone =>
      exact Or.inl ⟨ctx, _, hp, Option.some.inj (hc.symm.trans hp')⟩
  | quiet e phase' hscript hfetch hphase =>
      rcases hphase with rfl | ⟨ctx, hp, hp', -⟩
      · exact Or.inl ⟨c, c.builder, hc, rfl⟩
      · exact Or.inl ⟨ctx, ctx.builder, hp, Option.some.inj (hc.symm.trans hp')⟩
  | publish ctx rttMs hp => exact absurd hc (by simp [Phase.ctx?])
  | collect liveIds hp => exact absurd hc (by simp [Phase.ctx?])

/-- Only the start of a cycle takes the ids of the registered watches. -/
theorem liveIds?_of_step {s t : Engine} {e : Event} {liveIds : List WatchId}
    (hs : step s e = some t) (hlive : t.phase.liveIds? = some liveIds) :
    s.phase.liveIds? = some liveIds ∨
      (∃ cfg, e = .beginCycle cfg) ∧ liveIds = s.registry.all.map (·.id) := by
  cases transition_of_step hs with
  | script op => exact Or.inl hlive
  | begin cfg hp => exact Or.inr ⟨⟨cfg, rfl⟩, (Option.some.inj hlive).symm⟩
  | active cfg liveIds' now phase' hp hp' hdone =>
      rw [Phase.liveIds?_of_ctx? hp'] at hlive
      rw [hp]
      exact Or.inl hlive
  | fetchOk e ctx reads blobs phase' hp hfetch hreads hp' hdone =>
      rw [Phase.liveIds?_of_ctx? hp'] at hlive
      rw [Phase.liveIds?_of_ctx? hp]
      exact Or.inl hlive
  | quiet e phase' hscript hfetch hphase =>
      rcases hphase with rfl | ⟨ctx, hp, hp', -⟩
      · exact Or.inl hlive
      · rw [Phase.liveIds?_of_ctx? hp'] at hlive
        rw [Phase.liveIds?_of_ctx? hp]
        exact Or.inl hlive
  | publish ctx rttMs hp =>
      rw [hp]
      exact Or.inl hlive
  | collect liveIds' hp => exact absurd hlive (by simp [Phase.liveIds?])

/-- A registered watch was registered by the step, or before it, with the same
    region and a marker that did not go down. -/
theorem find?_of_step {s t : Engine} {e : Event} {id : WatchId} {en : WatchEntry}
    (hs : step s e = some t) (hen : t.registry.find? id = some en) :
    (id = s.registry.nextId ∧ en.requestSeq = s.registry.nextRequest + 1) ∨
    ∃ en₀, s.registry.find? id = some en₀ ∧ en.handle.region = en₀.handle.region ∧
      en₀.requestSeq ≤ en.requestSeq := by
  cases transition_of_step hs with
  | script op =>
      rcases WatchRegistry.find?_apply hen with ⟨-, hid, hseq⟩ | hold
      · exact Or.inl ⟨hid, hseq⟩
      · exact Or.inr hold
  | _ => exact Or.inr ⟨en, hen, rfl, Nat.le_refl _⟩

/-- The counters of the registry do not go down. -/
theorem nextId_le_step {s t : Engine} {e : Event} (hs : step s e = some t) :
    s.registry.nextId ≤ t.registry.nextId := by
  cases transition_of_step hs with
  | script op => exact WatchRegistry.nextId_le_apply _ _
  | _ => exact Nat.le_refl _

theorem nextRequest_le_step {s t : Engine} {e : Event} (hs : step s e = some t) :
    s.registry.nextRequest ≤ t.registry.nextRequest := by
  cases transition_of_step hs with
  | script op => exact WatchRegistry.nextRequest_le_apply _ _
  | _ => exact Nat.le_refl _

end Cache
end SniLua
