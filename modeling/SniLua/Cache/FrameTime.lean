/-
  SniLua.Cache.FrameTime

  How the poll loop keeps to its frame.  The round trips of a cycle are read off
  the trace; `Timed` is the invariant that ties them to the clock of the loop.

  A batch after the first is only sent when another round trip like the last one
  still fits the frame, and when its bytes are predicted to.  So everything a
  cycle waits for, its last `MultiRead` apart, fits the frame.  The cycles
  themselves are paced: a cycle starts no earlier than the window of the one
  before it is over.
-/

import SniLua.Cache.PollRefine

namespace SniLua
namespace Cache

open Lib

-- ============================================================================
-- Round trips
-- ============================================================================

/-- In the drain loop. -/
def LoopPhase.draining : LoopPhase → Bool
  | .drain .. | .awaitBulk .. => true
  | _ => false

/-- Between the start of a cycle and the end of its drain loop. -/
def LoopPhase.collecting : LoopPhase → Bool
  | .started _ | .ready _ | .awaitRealtime .. | .drain .. | .awaitBulk .. => true
  | _ => false

namespace PollLoop

/-- The whole milliseconds the `MultiRead` took whose reply the action is. -/
def roundTrip (s : PollLoop) (a : LoopAction) : Option Nat :=
  match a with
  | .realtimeReply _ | .bulkReply .. =>
      s.phase.sentAt?.map fun sentAt => asMillis (s.clock - sentAt)
  | _ => none

/-- The steps since the last cycle began. -/
def ofCycle (tr : List (PollLoop × LoopEvent)) : List (PollLoop × LoopEvent) :=
  tr.foldl (fun acc x => if x.2.action.begins then [] else acc ++ [x]) []

/-- The round trips of the cycle so far, in order. -/
def roundTrips (tr : List (PollLoop × LoopEvent)) : List Nat :=
  (ofCycle tr).filterMap fun x => (x.1.tick x.2.after).roundTrip x.2.action

/-- How many batches of the drain loop have come back, or failed, in the cycle. -/
def bulkReplies (tr : List (PollLoop × LoopEvent)) : Nat :=
  (ofCycle tr).countP fun x => x.2.action.isBulkReply

theorem ofCycle_snoc (tr : List (PollLoop × LoopEvent)) (x : PollLoop × LoopEvent) :
    ofCycle (tr ++ [x]) = if x.2.action.begins then [] else ofCycle tr ++ [x] := by
  simp [ofCycle, List.foldl_append]

/-- What an action adds to the round trips. -/
def tripsAfter (trips : List Nat) (s : PollLoop) (a : LoopAction) : List Nat :=
  if a.begins then [] else trips ++ (s.roundTrip a).toList

/-- What it adds to the bulk replies. -/
def repliesAfter (n : Nat) (a : LoopAction) : Nat :=
  if a.begins then 0 else if a.isBulkReply then n + 1 else n

theorem tripsAfter_quiet {trips : List Nat} {s : PollLoop} {a : LoopAction}
    (hbegin : a.begins = false) (htrip : s.roundTrip a = none) : tripsAfter trips s a = trips := by
  simp [tripsAfter, hbegin, htrip]

theorem tripsAfter_reply {trips : List Nat} {s : PollLoop} {a : LoopAction} {ms : Nat}
    (hbegin : a.begins = false) (htrip : s.roundTrip a = some ms) :
    tripsAfter trips s a = trips ++ [ms] := by
  simp [tripsAfter, hbegin, htrip]

theorem repliesAfter_quiet {n : Nat} {a : LoopAction} (hbegin : a.begins = false)
    (hbulk : a.isBulkReply = false) : repliesAfter n a = n := by
  simp [repliesAfter, hbegin, hbulk]

theorem roundTrips_snoc (tr : List (PollLoop × LoopEvent)) (s : PollLoop) (e : LoopEvent) :
    roundTrips (tr ++ [(s, e)]) = tripsAfter (roundTrips tr) (s.tick e.after) e.action := by
  rw [roundTrips, ofCycle_snoc, tripsAfter]
  split
  · rfl
  · rw [List.filterMap_append, roundTrips]
    simp only [List.filterMap_cons, List.filterMap_nil]
    split <;> simp_all

theorem bulkReplies_snoc (tr : List (PollLoop × LoopEvent)) (s : PollLoop) (e : LoopEvent) :
    bulkReplies (tr ++ [(s, e)]) = repliesAfter (bulkReplies tr) e.action := by
  rw [bulkReplies, ofCycle_snoc, repliesAfter]
  split
  · rfl
  · rw [List.countP_append, List.countP_singleton, bulkReplies]
    split <;> rfl

-- ============================================================================
-- The clock of a cycle
-- ============================================================================

/-- The round trips `trips` of the cycle, `n` of them in the drain loop or after the
    realtime sub-poll, agree with the clock. -/
structure Timed (trips : List Nat) (n : Nat) (s : PollLoop) : Prop where
  start : s.cycleStart ≤ s.clock
  total : trips.sum ≤ s.elapsedMs
  sent : ∀ sentAt, s.phase.sentAt? = some sentAt →
    s.cycleStart ≤ sentAt ∧ sentAt ≤ s.clock ∧ trips.sum ≤ asMillis (sentAt - s.cycleStart)
  /-- In the drain loop the last round trip may be repeated. -/
  room : s.phase.draining → 1 ≤ n → ∃ ts t, trips = ts ++ [t] ∧ ts.sum + 2 * t < s.frameMs
  pair : 2 ≤ n → ∃ ts t last, trips = ts ++ [t, last] ∧ ts.sum + 2 * t < s.frameMs
  issued : s.phase.collecting → n = s.vars.readsIssued
  fits : ∀ ctx done sentAt b reads, s.phase = .awaitBulk ctx done sentAt b reads → n ≠ 0 →
    batchFitsRemainingTime (sumBytes reads) s.adaptive.throughput s.adaptive.latencyFloorMs
      (asMillis (sentAt - s.cycleStart)) s.frameMs = true
  /-- The budget of a batch in flight is what the adaptive one leaves for the rest of
      the frame; only the first batch of a cycle may have all of it. -/
  cut : ∀ ctx done sentAt b reads, s.phase = .awaitBulk ctx done sentAt b reads →
    budgetForRemainingTime s.adaptive.budget s.adaptive.throughput s.adaptive.latencyFloorMs
        (asMillis (sentAt - s.cycleStart)) s.frameMs = some b ∨
      (n = 0 ∧ b = s.adaptive.budget)

theorem timed_spawn (cfg : LoopConfig) : Timed [] 0 (.spawn cfg) := by
  constructor <;>
    simp [spawn, LoopPhase.sentAt?, LoopPhase.draining, LoopPhase.collecting]

theorem asMillis_mono {a b : Nat} (h : a ≤ b) : asMillis a ≤ asMillis b := Nat.div_le_div_right h

/-- Milliseconds of two spans add up to no more than those of both. -/
theorem asMillis_add_le (a b : Nat) : asMillis a + asMillis b ≤ asMillis (a + b) := by
  unfold asMillis
  omega

theorem Timed.tick {trips : List Nat} {n : Nat} {s : PollLoop} (h : Timed trips n s) (d : Nat) :
    Timed trips n (s.tick d) where
  start := Nat.le_add_right_of_le h.start
  total := h.total.trans (asMillis_mono (by simp only [PollLoop.elapsed, PollLoop.tick]; omega))
  sent := by
    intro sentAt hsent
    obtain ⟨h₁, h₂, h₃⟩ := h.sent sentAt hsent
    exact ⟨h₁, Nat.le_add_right_of_le h₂, h₃⟩
  room := h.room
  pair := h.pair
  issued := h.issued
  fits := h.fits
  cut := h.cut

/-- With nothing in flight nothing has to be said of a batch. -/
theorem timed_of_landed {trips : List Nat} {n : Nat} {s : PollLoop}
    (hsent : s.phase.sentAt? = none) (hstart : s.cycleStart ≤ s.clock)
    (htotal : trips.sum ≤ s.elapsedMs)
    (hroom : s.phase.draining → 1 ≤ n → ∃ ts t, trips = ts ++ [t] ∧ ts.sum + 2 * t < s.frameMs)
    (hpair : 2 ≤ n → ∃ ts t last, trips = ts ++ [t, last] ∧ ts.sum + 2 * t < s.frameMs)
    (hissued : s.phase.collecting → n = s.vars.readsIssued) : Timed trips n s where
  start := hstart
  total := htotal
  sent := by
    intro sentAt h
    exact absurd (hsent.symm.trans h) (by simp)
  room := hroom
  pair := hpair
  issued := hissued
  fits := by
    intro ctx done sentAt b reads hp
    rw [hp] at hsent
    exact absurd hsent (by simp [LoopPhase.sentAt?])
  cut := by
    intro ctx done sentAt b reads hp
    rw [hp] at hsent
    exact absurd hsent (by simp [LoopPhase.sentAt?])

/-- A state with the same clock, frame and batches, in which nothing is in flight,
    and in the drain loop only if it was there before or has not begun. -/
theorem Timed.quiet {trips : List Nat} {n : Nat} {s t : PollLoop} (h : Timed trips n s)
    (hclock : t.clock = s.clock) (hstart : t.cycleStart = s.cycleStart) (hcfg : t.cfg = s.cfg)
    (hsent : t.phase.sentAt? = none)
    (hdraining : t.phase.draining → s.phase.draining ∨ n = 0)
    (hissued : t.phase.collecting → n = t.vars.readsIssued) : Timed trips n t := by
  refine timed_of_landed hsent ?_ ?_ ?_ ?_ hissued
  · rw [hclock, hstart]
    exact h.start
  · rw [elapsedMs, elapsed, hclock, hstart]
    exact h.total
  · intro hd hn
    rw [frameMs, hcfg]
    exact h.room ((hdraining hd).resolve_right (by omega)) hn
  · rw [frameMs, hcfg]
    exact h.pair

/-- With the reply the round trip is on the clock. -/
theorem Timed.sum_le {trips : List Nat} {n : Nat} {s : PollLoop} (h : Timed trips n s)
    {sentAt : Nat} (hsent : s.phase.sentAt? = some sentAt) :
    (trips ++ [asMillis (s.clock - sentAt)]).sum ≤ s.elapsedMs := by
  obtain ⟨h₁, h₂, h₃⟩ := h.sent sentAt hsent
  have hadd := asMillis_add_le (sentAt - s.cycleStart) (s.clock - sentAt)
  have hspan : sentAt - s.cycleStart + (s.clock - sentAt) = s.clock - s.cycleStart := by omega
  rw [hspan] at hadd
  rw [List.sum_append, List.sum_singleton]
  show _ ≤ asMillis (s.clock - s.cycleStart)
  omega

/-- A second bulk reply comes after one that could be repeated. -/
theorem Timed.pair_snoc {trips : List Nat} {n : Nat} {s : PollLoop} (h : Timed trips n s)
    (hdraining : s.phase.draining) (last : Nat) (hn : 2 ≤ n + 1) :
    ∃ ts t last', trips ++ [last] = ts ++ [t, last'] ∧ ts.sum + 2 * t < s.frameMs := by
  obtain ⟨ts, t, rfl, hlt⟩ := h.room hdraining (by omega)
  exact ⟨ts, t, last, by simp, hlt⟩

/-- When the time is not up, another round trip like the last one fits. -/
theorem room_of_not_spent {s : PollLoop} {trips : List Nat} {span : Nat}
    (hsum : (trips ++ [asMillis span]).sum ≤ s.elapsedMs)
    (hspent : ¬ s.spent (asMillisU32 span)) :
    trips.sum + 2 * asMillis span < s.frameMs := by
  have hframe : s.frameMs < 2 ^ 32 := by
    have hlt := s.cfg.frameBudgetMs.toNat_lt
    rw [frameMs]
    omega
  have hroom : s.elapsedMs + (asMillisU32 span).toNat < s.frameMs := by
    simpa [spent] using hspent
  rw [List.sum_append, List.sum_singleton] at hsum
  have hexact : (asMillisU32 span).toNat = asMillis span :=
    UInt32.toNat_ofNat_of_lt' (by show asMillis span < 2 ^ 32; omega)
  omega

/-- An iteration gets what the budget leaves for the rest of the frame, or is forced
    and gets all of it. -/
theorem budget_of_iterBudget {s : PollLoop} {b : UInt32} (h : s.iterBudget = some b) :
    budgetForRemainingTime s.adaptive.budget s.adaptive.throughput s.adaptive.latencyFloorMs
        s.elapsedMs s.frameMs = some b ∨
      (s.forceProgress ∧ b = s.adaptive.budget) := by
  simp only [iterBudget] at h
  split at h
  · exact absurd h (by simp)
  · split at h
    · rename_i b' hb'
      exact Or.inl (hb'.trans h)
    · split at h
      · rename_i hforce
        exact Or.inr ⟨hforce, (Option.some.inj h).symm⟩
      · exact absurd h (by simp)

/-- A batch is sent at once, in the drain loop as before. -/
theorem Timed.sendBatch {trips : List Nat} {n : Nat} {s : PollLoop} (h : Timed trips n s)
    {ctx : CycleCtx} {done : List WatchId} {b : UInt32} (capped : Bool)
    (hp : s.phase = .drain ctx done) (hb : s.iterBudget = some b)
    (hfits : s.forceProgress ∨ s.fits (s.batch ctx done b)) :
    Timed trips n { s with
      vars := { s.vars with budgetCapped := capped }
      phase := .awaitBulk ctx done s.clock b (s.batch ctx done b) } := by
  have hn := h.issued (by rw [hp]; rfl)
  have hfirst : s.forceProgress → n = 0 := fun hforce =>
    hn.trans (by simpa [forceProgress] using hforce)
  refine ⟨h.start, h.total, ?_, fun _ => h.room (by rw [hp]; rfl), h.pair, fun _ => hn, ?_, ?_⟩
  · intro sentAt hsent
    obtain rfl := Option.some.inj hsent
    exact ⟨h.start, Nat.le_refl _, h.total⟩
  · intro ctx' done' sentAt b' reads hphase hne
    simp only [LoopPhase.awaitBulk.injEq] at hphase
    obtain ⟨rfl, rfl, rfl, rfl, rfl⟩ := hphase
    exact hfits.resolve_left fun hforce => hne (hfirst hforce)
  · intro ctx' done' sentAt b' reads hphase
    simp only [LoopPhase.awaitBulk.injEq] at hphase
    obtain ⟨rfl, rfl, rfl, rfl, rfl⟩ := hphase
    exact (budget_of_iterBudget hb).imp_right (And.imp_left hfirst)

/-- A batch that has arrived leaves room for another like it, or ends the drain loop. -/
theorem Timed.batchOk {trips : List Nat} {n : Nat} {s : PollLoop} (h : Timed trips n s)
    {ctx ctx' : CycleCtx} {done done' : List WatchId} {sentAt : Nat} {b : UInt32}
    {reads : List CoalescedRead} (hp : s.phase = .awaitBulk ctx done sentAt b reads) (work : Nat)
    {phase' : LoopPhase} (hphase : phase' =
      if (s.batchArrived ctx sentAt reads work).spent (asMillisU32 (s.clock - sentAt)) then
        .drained ctx'
      else .drain ctx' done') :
    Timed (trips ++ [asMillis (s.clock - sentAt)]) (n + 1)
      { s.batchArrived ctx sentAt reads work with phase := phase' } := by
  have hsent : s.phase.sentAt? = some sentAt := by rw [hp]; rfl
  have hdraining : s.phase.draining := by rw [hp]; rfl
  have hn := h.issued (by rw [hp]; rfl)
  have hlater : s.elapsedMs ≤ (s.batchArrived ctx sentAt reads work).elapsedMs :=
    asMillis_mono (Nat.sub_le_sub_right (Nat.le_add_right _ _) _)
  have hsum := (h.sum_le hsent).trans hlater
  refine timed_of_landed ?_ (Nat.le_add_right_of_le h.start) hsum ?_ (h.pair_snoc hdraining _)
    fun _ => congrArg (· + 1) hn
  · subst hphase
    split <;> rfl
  · intro hdrain _
    subst hphase
    split at hdrain
    · exact absurd hdrain (by simp [LoopPhase.draining])
    · rename_i hspent
      exact ⟨trips, _, rfl, room_of_not_spent hsum hspent⟩

theorem timed_moves {trips : List Nat} {n : Nat} {s t : PollLoop} {a : LoopAction}
    (hin : InFlight s) (h : Timed trips n s) (hm : Moves s a t) :
    Timed (tripsAfter trips s a) (repliesAfter n a) t := by
  cases hm with
  | script op =>
      rw [tripsAfter_quiet rfl rfl, repliesAfter_quiet rfl rfl]
      exact ⟨h.start, h.total, h.sent, h.room, h.pair, h.issued, h.fits, h.cut⟩
  | noClient cfg wake hp hw =>
      rw [tripsAfter_quiet rfl rfl, repliesAfter_quiet rfl rfl]
      exact h.quiet rfl rfl rfl rfl (by simp [LoopPhase.draining]) (by simp [LoopPhase.collecting])
  | beginCycle cfg wake hp hw =>
      show Timed [] 0 (s.beginCycle cfg)
      constructor <;>
        simp [beginCycle, LoopPhase.sentAt?, LoopPhase.draining, CycleVars.new]
  | readActive liveIds hp =>
      rw [tripsAfter_quiet rfl rfl, repliesAfter_quiet rfl rfl]
      have hn := h.issued (by rw [hp]; rfl)
      exact h.quiet rfl rfl rfl rfl (by simp [LoopPhase.draining]) (fun _ => hn)
  | skipRealtime ctx hp hempty =>
      rw [tripsAfter_quiet rfl rfl, repliesAfter_quiet rfl rfl]
      have hn := h.issued (by rw [hp]; rfl)
      exact h.quiet rfl rfl rfl rfl (fun _ => Or.inr (hn.trans (hin.ready ctx hp))) (fun _ => hn)
  | sendRealtime ctx hp hne =>
      rw [tripsAfter_quiet rfl rfl, repliesAfter_quiet rfl rfl]
      have hn := h.issued (by rw [hp]; rfl)
      refine ⟨h.start, h.total, ?_, by simp [LoopPhase.draining], h.pair, fun _ => hn, by simp,
        by simp⟩
      intro sentAt hsent
      obtain rfl := Option.some.inj hsent
      exact ⟨h.start, Nat.le_refl _, h.total⟩
  | realtimeReply ctx sentAt result hp =>
      have hsent : s.phase.sentAt? = some sentAt := by rw [hp]; rfl
      have hn := h.issued (by rw [hp]; rfl)
      have hzero : n = 0 := hn.trans (hin.realtime ctx sentAt hp)
      rw [tripsAfter_reply rfl (by rw [roundTrip, hsent]; rfl), repliesAfter_quiet rfl rfl]
      have hsum := h.sum_le hsent
      cases result with
      | ok blobs => exact timed_of_landed rfl h.start hsum (by omega) (by omega) fun _ => hn
      | error e => exact timed_of_landed rfl h.start hsum (by omega) (by omega) fun _ => hn
  | sendBatch ctx done b capped hp hb _ hfits =>
      rw [tripsAfter_quiet rfl rfl, repliesAfter_quiet rfl rfl]
      exact h.sendBatch capped hp hb hfits
  | endDrain ctx done capped hp hforce =>
      rw [tripsAfter_quiet rfl rfl, repliesAfter_quiet rfl rfl]
      exact h.quiet rfl rfl rfl rfl (by simp [LoopPhase.draining]) (by simp [LoopPhase.collecting])
  | batchOk ctx done sentAt b reads blobs work phase' hp hphase =>
      rw [tripsAfter_reply rfl (by rw [roundTrip, hp]; rfl)]
      exact h.batchOk hp work hphase
  | batchErr ctx done sentAt b reads e work hp =>
      have hsent : s.phase.sentAt? = some sentAt := by rw [hp]; rfl
      have hdraining : s.phase.draining := by rw [hp]; rfl
      rw [tripsAfter_reply rfl (by rw [roundTrip, hsent]; rfl)]
      exact timed_of_landed rfl h.start (h.sum_le hsent) (by simp [LoopPhase.draining])
        (h.pair_snoc hdraining _) (by simp [LoopPhase.collecting])
  | publish ctx hp =>
      rw [tripsAfter_quiet rfl rfl, repliesAfter_quiet rfl rfl]
      exact h.quiet rfl rfl rfl rfl (by simp [publish, LoopPhase.draining])
        (by simp [publish, LoopPhase.collecting])
  | pause liveIds hp =>
      rw [tripsAfter_quiet rfl rfl, repliesAfter_quiet rfl rfl]
      exact h.quiet rfl rfl rfl rfl (by simp [pause, LoopPhase.draining])
        (by simp [pause, LoopPhase.collecting])

theorem timed_run {cfg : LoopConfig} {tr : List (PollLoop × LoopEvent)} {s : PollLoop}
    (hrun : Run step (.spawn cfg) tr s) : Timed (roundTrips tr) (bulkReplies tr) s := by
  refine hrun.trace_invariant (I := fun tr s => Timed (roundTrips tr) (bulkReplies tr) s) ?_
    (timed_spawn cfg)
  intro tr u e v hrun' h hs
  rw [roundTrips_snoc, bulkReplies_snoc]
  exact timed_moves ((inFlight_run hrun').tick e.after) (h.tick e.after) (moves_of_step hs)

/-- **The frame is kept.**  In every state of every run: once a second batch of a
    cycle has come back, the round trips of the cycle before the last one, with the
    one before the last counted twice, took less than the frame; and a batch in
    flight that is not the first of its cycle was predicted to be back within the
    frame when it was sent, and is a single watch or within what the adaptive budget
    left for the rest of the frame, which is never more than that budget. -/
theorem frame_kept {cfg : LoopConfig} {tr : List (PollLoop × LoopEvent)} {s : PollLoop}
    (hrun : Run step (.spawn cfg) tr s) :
    (2 ≤ bulkReplies tr →
      ∃ ts t last, roundTrips tr = ts ++ [t, last] ∧ ts.sum + 2 * t < s.frameMs) ∧
    ∀ ctx done sentAt b reads, s.phase = .awaitBulk ctx done sentAt b reads →
      bulkReplies tr ≠ 0 →
        batchFitsRemainingTime (sumBytes reads) s.adaptive.throughput s.adaptive.latencyFloorMs
          (asMillis (sentAt - s.cycleStart)) s.frameMs = true ∧
        b ≤ s.adaptive.budget ∧
        budgetForRemainingTime s.adaptive.budget s.adaptive.throughput s.adaptive.latencyFloorMs
          (asMillis (sentAt - s.cycleStart)) s.frameMs = some b ∧
        ((sumBytes reads).toNat ≤ max b.toNat 1 ∨
          ∃ r m, reads = [r] ∧ r.members = [m] ∧ b < m.size) := by
  have htimed := timed_run hrun
  refine ⟨htimed.pair, fun ctx done sentAt b reads hp hne => ?_⟩
  have hcut := (htimed.cut _ _ _ _ _ hp).resolve_right fun h => hne h.1
  refine ⟨htimed.fits _ _ _ _ _ hp hne, le_of_budgetForRemainingTime hcut, hcut, ?_⟩
  obtain ⟨hreads, -⟩ := (inFlight_run hrun).selected ctx done sentAt b reads hp
  rw [hreads]
  exact bulkBatch_larger ctx s.readState done s.cycle b

/-- The two batches took 3 and 5 of 16 milliseconds. -/
theorem frame_kept_two :
    ∃ ts t last, roundTrips (trace step (.spawn narrowConfig) twoBatches) = ts ++ [t, last] ∧
      ts.sum + 2 * t < (final step (.spawn narrowConfig) twoBatches).frameMs :=
  (frame_kept (run_final (by decide +kernel))).1 (by decide +kernel)

-- ============================================================================
-- Pacing
-- ============================================================================

/-- Since the clock showed `t₀` and `c₀` cycles had begun, cycles have begun at least
    `w` apart. -/
structure Paced (w t₀ c₀ : Nat) (s : PollLoop) : Prop where
  le_cycle : c₀ ≤ s.cycle
  le_clock : t₀ ≤ s.clock
  start : c₀ < s.cycle →
    t₀ ≤ s.cycleStart ∧ s.cycleStart ≤ s.clock ∧ (s.cycle - c₀ - 1) * w ≤ s.cycleStart - t₀
  window : c₀ < s.cycle → (∀ wake, s.phase ≠ .idle wake) → w ≤ s.cfg.window
  wake : c₀ < s.cycle → ∀ wake, s.phase = .idle wake → s.cycleStart + w ≤ wake

theorem paced_moves {w t₀ c₀ : Nat} {s t : PollLoop} {a : LoopAction}
    (hw : ∀ cfg ∈ a.config?, w ≤ cfg.window) (h : Paced w t₀ c₀ s) (hm : Moves s a t) :
    Paced w t₀ c₀ t := by
  have hkeep : ∀ t : PollLoop, t.cycle = s.cycle → t.cycleStart = s.cycleStart → t.cfg = s.cfg →
      s.clock ≤ t.clock → (∀ wake, s.phase ≠ .idle wake) → (∀ wake, t.phase ≠ .idle wake) →
      Paced w t₀ c₀ t := by
    intro t hcycle hstart hcfg hclock hbusy hbusy'
    refine ⟨hcycle ▸ h.le_cycle, h.le_clock.trans hclock, ?_, ?_, ?_⟩
    · rw [hcycle, hstart]
      intro hlt
      obtain ⟨h₁, h₂, h₃⟩ := h.start hlt
      exact ⟨h₁, h₂.trans hclock, h₃⟩
    · rw [hcycle, hcfg]
      exact fun hlt _ => h.window hlt hbusy
    · exact fun _ wake hp => absurd hp (hbusy' wake)
  cases hm with
  | script op => exact ⟨h.le_cycle, h.le_clock, h.start, h.window, h.wake⟩
  | noClient cfg wake hp hwake =>
      refine ⟨h.le_cycle, h.le_clock, h.start, fun _ hbusy => absurd rfl (hbusy _), ?_⟩
      intro hlt wake' hp'
      have hold := h.wake hlt wake hp
      simp only [LoopPhase.idle.injEq] at hp'
      show s.cycleStart + w ≤ wake'
      omega
  | beginCycle cfg wake hp hwake =>
      refine ⟨Nat.le_succ_of_le h.le_cycle, h.le_clock, ?_, fun _ _ => hw cfg rfl, ?_⟩
      · intro _
        refine ⟨h.le_clock, Nat.le_refl _, ?_⟩
        show (s.cycle + 1 - c₀ - 1) * w ≤ s.clock - t₀
        rcases Nat.eq_or_lt_of_le h.le_cycle with heq | hlt
        · rw [← heq]
          simp
        · obtain ⟨h₁, h₂, h₃⟩ := h.start hlt
          have hold := h.wake hlt wake hp
          have hcount : s.cycle + 1 - c₀ - 1 = (s.cycle - c₀ - 1) + 1 := by omega
          rw [hcount, Nat.add_mul, Nat.one_mul]
          omega
      · intro _ wake' hp'
        exact absurd hp' (by simp [beginCycle])
  | readActive liveIds hp =>
      exact hkeep _ rfl rfl rfl (Nat.le_refl _) (by simp [hp]) (by simp)
  | skipRealtime ctx hp hempty =>
      exact hkeep _ rfl rfl rfl (Nat.le_refl _) (by simp [hp]) (by simp)
  | sendRealtime ctx hp hne =>
      exact hkeep _ rfl rfl rfl (Nat.le_refl _) (by simp [hp]) (by simp)
  | realtimeReply ctx sentAt result hp =>
      cases result <;>
        exact hkeep _ rfl rfl rfl (Nat.le_refl _) (by simp [hp]) (by simp [realtimeReply])
  | sendBatch ctx done b capped hp hb hne hfits =>
      exact hkeep _ rfl rfl rfl (Nat.le_refl _) (by simp [hp]) (by simp)
  | endDrain ctx done capped hp hforce =>
      exact hkeep _ rfl rfl rfl (Nat.le_refl _) (by simp [hp]) (by simp)
  | batchOk ctx done sentAt b reads blobs work phase' hp hphase =>
      refine hkeep _ rfl rfl rfl (Nat.le_add_right _ _) (by simp [hp]) ?_
      subst hphase
      split <;> simp
  | batchErr ctx done sentAt b reads e work hp =>
      exact hkeep _ rfl rfl rfl (Nat.le_refl _) (by simp [hp]) (by simp)
  | publish ctx hp =>
      exact hkeep _ rfl rfl rfl (Nat.le_refl _) (by simp [hp]) (by simp [publish])
  | pause liveIds hp =>
      refine ⟨h.le_cycle, h.le_clock, h.start, fun _ hbusy => absurd rfl (hbusy _), ?_⟩
      intro hlt wake hp'
      have hwindow := h.window hlt (by simp [hp])
      obtain ⟨-, hstart, -⟩ := h.start hlt
      simp only [pause, LoopPhase.idle.injEq, elapsed] at hp'
      show s.cycleStart + w ≤ wake
      omega

/-- **Cycles are paced.**  In any stretch of a run in which the windows are at least
    `w`, so many cycles begin as `w` goes into the time that passes, and one more. -/
theorem cycles_paced {w : Nat} {s t : PollLoop} {tr : List (PollLoop × LoopEvent)}
    (hrun : Run step s tr t)
    (hw : ∀ x ∈ tr, ∀ cfg ∈ x.2.action.config?, w ≤ cfg.window) :
    (t.cycle - s.cycle - 1) * w ≤ t.clock - s.clock := by
  have hpaced : Paced w s.clock s.cycle t := by
    refine hrun.invariant (P := fun _ e => ∀ cfg ∈ e.action.config?, w ≤ cfg.window)
      ?_ hw ?_
    · intro u e v hwindow hu hs
      refine paced_moves hwindow ?_ (moves_of_step hs)
      refine ⟨hu.le_cycle, Nat.le_add_right_of_le hu.le_clock, ?_, hu.window, hu.wake⟩
      intro hlt
      obtain ⟨h₁, h₂, h₃⟩ := hu.start hlt
      exact ⟨h₁, Nat.le_add_right_of_le h₂, h₃⟩
    · constructor <;> simp
  rcases Nat.eq_or_lt_of_le hpaced.le_cycle with heq | hlt
  · simp [← heq]
  · obtain ⟨h₁, h₂, h₃⟩ := hpaced.start hlt
    omega

/-- A cycle without watches, and the start of the next one. -/
def nextCycle : List LoopEvent :=
  [⟨0, .beginCycle .default⟩, ⟨5, .readActive⟩, ⟨0, .sendRealtime⟩, ⟨0, .drainHead⟩, ⟨0, .publish⟩,
   ⟨0, .pause⟩, ⟨fromMillis 16, .beginCycle .default⟩]

/-- The second cycle waits for the window of the first. -/
theorem cycles_paced_two :
    (2 - 0 - 1) * fromMillis 16 ≤ (final step (.spawn .default) nextCycle).clock - 0 :=
  cycles_paced (s := .spawn .default) (t := final step (.spawn .default) nextCycle)
    (run_final (by decide +kernel)) (by decide +kernel)

end PollLoop

end Cache
end SniLua
