/-
  SniLua.Cache.PollStats

  What the poll loop reports and adapts to.  The budget state is a function of the
  replies the loop has taken in: the latency floor is the shortest round trip of
  the run, the throughput lies between the rates it has seen, the budget between
  the bounds of the configurations.  The statistics are a function of the cycles
  that have been published, and account for the watches of a cycle: each is fetched,
  deferred, realtime or not due.
-/

import SniLua.Cache.FrameTime

namespace SniLua
namespace Cache

open Lib

-- ============================================================================
-- The budget state
-- ============================================================================

namespace PollLoop

/-- What an action observes: the RTT of a successful `MultiRead`, with the bytes of
    a batch of the drain loop. -/
def observation (s : PollLoop) (a : LoopAction) : Option (UInt32 × Option UInt32) :=
  match a, s.phase with
  | .realtimeReply (.ok _), .awaitRealtime _ sentAt => some (asMillisU32 (s.clock - sentAt), none)
  | .bulkReply (.ok _) _, .awaitBulk _ _ sentAt _ reads =>
      some (asMillisU32 (s.clock - sentAt), some (sumBytes reads))
  | _, _ => none

/-- The budget state after an observation. -/
def Adaptive.observed (a : Adaptive) (cfg : LoopConfig) :
    Option (UInt32 × Option UInt32) → Adaptive
  | none => a
  | some (rtt, none) => a.observe rtt
  | some (rtt, some bytes) => a.adapt cfg bytes rtt

/-- Nothing else changes it. -/
theorem adaptive_moves {s t : PollLoop} {a : LoopAction} (hm : Moves s a t) :
    t.adaptive = Adaptive.observed s.adaptive s.cfg (s.observation a) := by
  cases hm with
  | realtimeReply ctx sentAt result hp =>
      cases result <;> simp [realtimeReply, observation, hp, Adaptive.observed]
  | batchOk ctx done sentAt b reads blobs work phase' hp hphase =>
      simp [batchArrived, observation, hp, Adaptive.observed]
  | _ => rfl

/-- The milliseconds of the successful round trips of a run, at least one each. -/
def okTrips (tr : List (PollLoop × LoopEvent)) : List ℚ :=
  tr.filterMap fun x => ((x.1.tick x.2.after).observation x.2.action).map
    fun o => ((max o.1.toNat 1 : Nat) : ℚ)

/-- The rates of its batches. -/
def rates (tr : List (PollLoop × LoopEvent)) : List ℚ :=
  tr.filterMap fun x => ((x.1.tick x.2.after).observation x.2.action).bind
    fun o => o.2.map fun bytes => x.1.adaptive.sample bytes o.1

/-- The budget state of a run. -/
structure Adapted (trips rates : List ℚ) (a : Adaptive) : Prop where
  floor : a.latencyFloorMs = trips.min?
  throughput : a.throughput = none ∧ rates = [] ∨ ∃ tp, a.throughput = some tp ∧ Between rates tp

theorem min?_concat (l : List ℚ) (x : ℚ) :
    (l ++ [x]).min? = some (match l.min? with | some m => min m x | none => x) := by
  cases l with
  | nil => rfl
  | cons y l =>
      rw [List.cons_append, List.min?_cons', List.min?_cons', List.foldl_append]
      rfl

theorem observeLatencyFloor_eq (trips : List ℚ) (rtt : UInt32) :
    observeLatencyFloor trips.min? rtt = (trips ++ [((max rtt.toNat 1 : Nat) : ℚ)]).min? := by
  rw [min?_concat]
  cases trips.min? <;> rfl

theorem Adapted.observed {trips rates : List ℚ} {a : Adaptive} (h : Adapted trips rates a)
    (cfg : LoopConfig) (o : Option (UInt32 × Option UInt32)) :
    Adapted (trips ++ (o.map fun o => ((max o.1.toNat 1 : Nat) : ℚ)).toList)
      (rates ++ (o.bind fun o => o.2.map fun bytes => a.sample bytes o.1).toList)
      (Adaptive.observed a cfg o) := by
  match o with
  | none =>
      simp only [Option.map_none, Option.bind_none, Option.toList_none, List.append_nil]
      exact h
  | some (rtt, none) =>
      simp only [Option.map_some, Option.map_none, Option.bind_some, Option.toList_none,
        Option.toList_some, List.append_nil]
      refine ⟨?_, h.throughput⟩
      show observeLatencyFloor a.latencyFloorMs rtt = _
      rw [h.floor, observeLatencyFloor_eq]
  | some (rtt, some bytes) =>
      refine ⟨?_, Or.inr ⟨_, rfl, ?_⟩⟩
      · show observeLatencyFloor a.latencyFloorMs rtt = _
        rw [h.floor, observeLatencyFloor_eq]
        rfl
      · show Between (rates ++ [a.sample bytes rtt])
          (ewmaFrom cfg.rttAlpha (a.sample bytes rtt) a.throughput)
        rcases h.throughput with ⟨hnone, -⟩ | ⟨tp, htp, hbetween⟩
        · rw [hnone]
          exact between_concat _ _
        · rw [htp]
          exact hbetween.ewma cfg.alpha_nonneg cfg.alpha_le_one _

theorem adapted_run {cfg : LoopConfig} {tr : List (PollLoop × LoopEvent)} {s : PollLoop}
    (hrun : Run step (.spawn cfg) tr s) : Adapted (okTrips tr) (rates tr) s.adaptive := by
  refine hrun.trace_invariant (I := fun tr s => Adapted (okTrips tr) (rates tr) s.adaptive) ?_ ?_
  · intro tr u e v _ h hs
    rw [adaptive_moves (moves_of_step hs), okTrips, rates, List.filterMap_append,
      List.filterMap_append, List.filterMap_eq_flatMap_toList _ [(u, e)],
      List.filterMap_eq_flatMap_toList _ [(u, e)], List.flatMap_singleton, List.flatMap_singleton]
    exact h.observed _ _
  · exact ⟨rfl, Or.inl ⟨rfl, rfl⟩⟩

/-- The configuration is the one of the last cycle that began. -/
theorem cfg_moves {s t : PollLoop} {a : LoopAction} (hm : Moves s a t) :
    t.cfg = s.cfg ∨ a = .beginCycle t.cfg := by
  cases hm with
  | beginCycle cfg wake hp hw => exact Or.inr rfl
  | realtimeReply ctx sentAt result hp => cases result <;> exact Or.inl rfl
  | _ => exact Or.inl rfl

/-- Bounds the configuration keeps are kept by the budget. -/
theorem budget_observed {a : Adaptive} {cfg : LoopConfig} {lo hi : UInt32}
    (hlo : lo ≤ cfg.minByteBudget) (hhi : cfg.maxByteBudget ≤ hi)
    (h : lo ≤ a.budget ∧ a.budget ≤ hi) (o : Option (UInt32 × Option UInt32)) :
    lo ≤ (Adaptive.observed a cfg o).budget ∧ (Adaptive.observed a cfg o).budget ≤ hi := by
  have hclamp : ∀ x, lo ≤ clampU32 x cfg.minByteBudget cfg.maxByteBudget ∧
      clampU32 x cfg.minByteBudget cfg.maxByteBudget ≤ hi := by
    intro x
    have hord := cfg.ordered
    rw [UInt32.le_iff_toNat_le] at hord hlo hhi
    rw [UInt32.le_iff_toNat_le, UInt32.le_iff_toNat_le, clampU32, U32.toNat_max, U32.toNat_min]
    omega
  rcases o with _ | ⟨rtt, _ | bytes⟩
  · exact h
  · exact h
  · exact hclamp _

theorem budget_spawn {cfg : LoopConfig} {lo hi : UInt32} (hlo : lo ≤ cfg.minByteBudget)
    (hhi : cfg.maxByteBudget ≤ hi) :
    lo ≤ (Adaptive.spawn cfg).budget ∧ (Adaptive.spawn cfg).budget ≤ hi := by
  have hord := cfg.ordered
  rw [UInt32.le_iff_toNat_le] at hord hlo hhi
  rw [UInt32.le_iff_toNat_le, UInt32.le_iff_toNat_le, Adaptive.spawn, U32.toNat_min, U32.toNat_max]
  omega

/-- The configurations of a run. -/
def configs (cfg : LoopConfig) (tr : List (PollLoop × LoopEvent)) : List LoopConfig :=
  cfg :: tr.filterMap fun x => x.2.action.config?

end PollLoop

-- ============================================================================
-- The reports of a run
-- ============================================================================

/-- From the start of a cycle until its snapshot is published. -/
def LoopPhase.inCycle : LoopPhase → Bool
  | .drained _ => true
  | p => p.collecting

/-- The sample a report adds to the overrun rate. -/
def PollStats.overrunSample (r : PollStats) : ℚ := if r.frameBudgetOverran then 1 else 0

/-- The sample it adds to the drain rate. -/
def PollStats.drainSample (r : PollStats) : ℚ :=
  r.bytesLastCycle.toNat / (max r.cycleElapsedMs.toNat 1 : Nat)

def PollStats.rttSample (r : PollStats) : ℚ := r.lastRttMs.toNat

namespace PollLoop

/-- The statistics an action publishes. -/
def report (s : PollLoop) (a : LoopAction) : Option PollStats :=
  match a, s.phase with
  | .publish, .drained ctx => some (s.publish ctx).stats
  | _, _ => none

/-- The statistics published in a run, in order. -/
def reports (tr : List (PollLoop × LoopEvent)) : List PollStats :=
  tr.filterMap fun x => (x.1.tick x.2.after).report x.2.action

/-- The averages after `rs` has been published. -/
structure Averaged (rs : List PollStats) (rate drain rtt : ℚ) : Prop where
  rate_between : Between (rs.map (·.overrunSample)) rate
  rate_zero : rate = 0 ↔ ∀ r ∈ rs, r.frameBudgetOverran = false
  rate_one : rate = 1 ↔ ∀ r ∈ rs, r.frameBudgetOverran = true
  drain_between : Between (rs.map (·.drainSample)) drain
  rtt_between : Between (rs.map (·.rttSample)) rtt

theorem overrunSample_mem (r : PollStats) : 0 ≤ r.overrunSample ∧ r.overrunSample ≤ 1 := by
  rw [PollStats.overrunSample]
  split <;> norm_num

theorem Averaged.rate_mem {rs : List PollStats} {rate drain rtt : ℚ}
    (h : Averaged rs rate drain rtt) : 0 ≤ rate ∧ rate ≤ 1 := by
  obtain ⟨⟨x, hx, hlo⟩, y, hy, hhi⟩ := h.rate_between
  obtain ⟨r, -, rfl⟩ := List.mem_map.mp hx
  obtain ⟨q, -, rfl⟩ := List.mem_map.mp hy
  exact ⟨(overrunSample_mem r).1.trans hlo, hhi.trans (overrunSample_mem q).2⟩

theorem overrunSample_eq_zero {r : PollStats} :
    r.overrunSample = 0 ↔ r.frameBudgetOverran = false := by
  rw [PollStats.overrunSample]
  cases r.frameBudgetOverran <;> simp

theorem overrunSample_eq_one {r : PollStats} :
    r.overrunSample = 1 ↔ r.frameBudgetOverran = true := by
  rw [PollStats.overrunSample]
  cases r.frameBudgetOverran <;> simp

/-- The first report starts the averages. -/
theorem averaged_singleton (r : PollStats) :
    Averaged [r] r.overrunSample r.drainSample r.rttSample where
  rate_between := between_concat [] _
  rate_zero := by simp [overrunSample_eq_zero]
  rate_one := by simp [overrunSample_eq_one]
  drain_between := between_concat [] _
  rtt_between := between_concat [] _

/-- A later one is taken in; an average RTT of 0 starts again. -/
theorem Averaged.concat {rs : List PollStats} {rate drain rtt : ℚ}
    (h : Averaged rs rate drain rtt) (r : PollStats) {alpha : ℚ} (h0 : 0 ≤ alpha)
    (h1 : alpha ≤ 1) :
    Averaged (rs ++ [r]) (ewma (1 / 20) r.overrunSample rate) (ewma (1 / 5) r.drainSample drain)
      (if rtt = 0 then r.rttSample else ewma alpha r.rttSample rtt) where
  rate_between := by
    rw [List.map_append]
    exact h.rate_between.ewma (by norm_num) (by norm_num) _
  rate_zero := by
    rw [ewma_eq_lo_iff (by norm_num) (by norm_num) (overrunSample_mem r).1 h.rate_mem.1,
      overrunSample_eq_zero, h.rate_zero]
    simp [or_imp, forall_and, and_comm]
  rate_one := by
    rw [ewma_eq_hi_iff (by norm_num) (by norm_num) (overrunSample_mem r).2 h.rate_mem.2,
      overrunSample_eq_one, h.rate_one]
    simp [or_imp, forall_and, and_comm]
  drain_between := by
    rw [List.map_append]
    exact h.drain_between.ewma (by norm_num) (by norm_num) _
  rtt_between := by
    rw [List.map_append]
    split
    · exact between_concat _ _
    · exact h.rtt_between.ewma h0 h1 _

/-- The reports `rs` of a run, and what the loop carries from cycle to cycle. -/
structure Reported (rs : List PollStats) (s : PollLoop) : Prop where
  cycle : s.cycle = rs.length + if s.phase.inCycle then 1 else 0
  overruns : s.frameBudgetOverruns = rs.countP (·.frameBudgetOverran)
  averaged : rs = [] ∧ s.stats.rttMsEwma = 0 ∨
    Averaged rs s.frameBudgetOverrunRate s.deferredDrainBpmsEwma s.stats.rttMsEwma
  last : ∀ r ∈ rs.getLast?, r = s.stats ∧ r.cycle = rs.length ∧
    r.frameBudgetOverruns = s.frameBudgetOverruns ∧
    r.frameBudgetOverrunRate = s.frameBudgetOverrunRate ∧
    r.deferredDrainBpmsEwma = s.deferredDrainBpmsEwma

theorem reported_spawn (cfg : LoopConfig) : Reported [] (.spawn cfg) where
  cycle := rfl
  overruns := rfl
  averaged := Or.inl ⟨rfl, rfl⟩
  last := by simp

theorem Reported.publish {rs : List PollStats} {s : PollLoop} (h : Reported rs s) {ctx : CycleCtx}
    (hp : s.phase = .drained ctx) : Reported (rs ++ [(s.publish ctx).stats]) (s.publish ctx) where
  cycle := by
    have hcycle := h.cycle
    rw [hp] at hcycle
    rw [List.length_append]
    exact hcycle
  overruns := by
    rw [List.countP_append, List.countP_singleton, ← h.overruns]
    simp only [PollLoop.publish]
    split <;> simp_all
  averaged := by
    have hcycle := h.cycle
    rw [hp] at hcycle
    refine Or.inr ?_
    rcases h.averaged with ⟨rfl, hzero⟩ | havg
    · have hfirst : s.cycle ≤ 1 := hcycle.le
      have hone := averaged_singleton (s.publish ctx).stats
      simp only [PollLoop.publish, hfirst, if_true, hzero] at hone ⊢
      exact hone
    · have hlater : ¬ s.cycle ≤ 1 := by
        have hne : rs ≠ [] := by
          rintro rfl
          obtain ⟨⟨x, hx, -⟩, -⟩ := havg.rate_between
          exact absurd hx (by simp)
        have hpos := List.length_pos_iff.mpr hne
        have heq : s.cycle = rs.length + 1 := hcycle
        omega
      have hnext := havg.concat (s.publish ctx).stats s.cfg.alpha_nonneg s.cfg.alpha_le_one
      simp only [PollLoop.publish, hlater, if_false] at hnext ⊢
      exact hnext
  last := by
    have hcycle := h.cycle
    rw [hp] at hcycle
    intro r hr
    rw [List.getLast?_append] at hr
    obtain rfl := Option.some.inj hr
    exact ⟨rfl, by rw [List.length_append]; exact hcycle, rfl, rfl, rfl⟩

theorem Reported.keep {rs : List PollStats} {s t : PollLoop} (h : Reported rs s)
    (hcycle : t.cycle + (if s.phase.inCycle then 1 else 0) =
      s.cycle + if t.phase.inCycle then 1 else 0)
    (hstats : t.stats = s.stats) (hoverruns : t.frameBudgetOverruns = s.frameBudgetOverruns)
    (hrate : t.frameBudgetOverrunRate = s.frameBudgetOverrunRate)
    (hdrain : t.deferredDrainBpmsEwma = s.deferredDrainBpmsEwma) : Reported rs t where
  cycle := by
    have hold := h.cycle
    omega
  overruns := hoverruns.trans h.overruns
  averaged := by
    rw [hstats, hrate, hdrain]
    exact h.averaged
  last := by
    rw [hstats, hoverruns, hrate, hdrain]
    exact h.last

theorem reported_moves {rs : List PollStats} {s t : PollLoop} {a : LoopAction}
    (h : Reported rs s) (hm : Moves s a t) : Reported (rs ++ (s.report a).toList) t := by
  cases hm with
  | publish ctx hp =>
      have hreport : s.report .publish = some (s.publish ctx).stats := by
        simp only [report, hp]
      rw [hreport]
      exact h.publish hp
  | script op => exact (List.append_nil rs).symm ▸ h.keep rfl rfl rfl rfl rfl
  | noClient cfg wake hp hw =>
      exact (List.append_nil rs).symm ▸ h.keep (by rw [hp]; rfl) rfl rfl rfl rfl
  | beginCycle cfg wake hp hw =>
      exact (List.append_nil rs).symm ▸ h.keep (by rw [hp]; rfl) rfl rfl rfl rfl
  | readActive liveIds hp =>
      exact (List.append_nil rs).symm ▸ h.keep (by rw [hp]; rfl) rfl rfl rfl rfl
  | skipRealtime ctx hp hempty =>
      exact (List.append_nil rs).symm ▸ h.keep (by rw [hp]; rfl) rfl rfl rfl rfl
  | sendRealtime ctx hp hne =>
      exact (List.append_nil rs).symm ▸ h.keep (by rw [hp]; rfl) rfl rfl rfl rfl
  | realtimeReply ctx sentAt result hp =>
      cases result <;>
        exact (List.append_nil rs).symm ▸ h.keep (by rw [hp]; rfl) rfl rfl rfl rfl
  | sendBatch ctx done b capped hp hb hne hfits =>
      exact (List.append_nil rs).symm ▸ h.keep (by rw [hp]; rfl) rfl rfl rfl rfl
  | endDrain ctx done capped hp hforce =>
      exact (List.append_nil rs).symm ▸ h.keep (by rw [hp]; rfl) rfl rfl rfl rfl
  | batchOk ctx done sentAt b reads blobs work phase' hp hphase =>
      refine (List.append_nil rs).symm ▸ h.keep ?_ rfl rfl rfl rfl
      rw [hp, hphase]
      split <;> rfl
  | batchErr ctx done sentAt b reads e work hp =>
      exact (List.append_nil rs).symm ▸ h.keep (by rw [hp]; rfl) rfl rfl rfl rfl
  | pause liveIds hp =>
      exact (List.append_nil rs).symm ▸ h.keep (by rw [hp]; rfl) rfl rfl rfl rfl

theorem reported_run {cfg : LoopConfig} {tr : List (PollLoop × LoopEvent)} {s : PollLoop}
    (hrun : Run step (.spawn cfg) tr s) : Reported (reports tr) s := by
  refine hrun.trace_invariant (I := fun tr s => Reported (reports tr) s) ?_ (reported_spawn cfg)
  intro tr u e v _ h hs
  rw [reports, List.filterMap_append, List.filterMap_eq_flatMap_toList _ [(u, e)],
    List.flatMap_singleton]
  refine reported_moves ?_ (moves_of_step hs)
  exact h.keep rfl rfl rfl rfl rfl

/-- **The statistics describe the run.**  The last report counts the cycles published
    so far and those among them that overran their frame.  Its overrun rate is between
    0 and 1, 0 only when no cycle overran and 1 only when all did, and the average
    drain rate and RTT are between the smallest and the largest of the cycles. -/
theorem stats_describe_run {cfg : LoopConfig} {tr : List (PollLoop × LoopEvent)} {s : PollLoop}
    (hrun : Run step (.spawn cfg) tr s) {r : PollStats} (hr : (reports tr).getLast? = some r) :
    r = s.stats ∧ r.cycle = (reports tr).length ∧
    r.frameBudgetOverruns = (reports tr).countP (·.frameBudgetOverran) ∧
    (0 ≤ r.frameBudgetOverrunRate ∧ r.frameBudgetOverrunRate ≤ 1) ∧
    (r.frameBudgetOverrunRate = 0 ↔ ∀ q ∈ reports tr, q.frameBudgetOverran = false) ∧
    (r.frameBudgetOverrunRate = 1 ↔ ∀ q ∈ reports tr, q.frameBudgetOverran = true) ∧
    Between ((reports tr).map (·.drainSample)) r.deferredDrainBpmsEwma ∧
    Between ((reports tr).map (·.rttSample)) r.rttMsEwma := by
  have h := reported_run hrun
  obtain ⟨hstats, hcycle, hoverruns, hrate, hdrain⟩ := h.last r hr
  rcases h.averaged with ⟨hempty, -⟩ | havg
  · rw [hempty] at hr
    exact absurd hr (by simp)
  · rw [hoverruns, hrate, hdrain]
    refine ⟨hstats, hcycle, h.overruns, havg.rate_mem, havg.rate_zero, havg.rate_one,
      havg.drain_between, ?_⟩
    rw [hstats]
    exact havg.rtt_between

/-- The report of the two batches. -/
theorem stats_describe_run_two : (final step (.spawn narrowConfig) twoBatches).stats.cycle =
    (reports (trace step (.spawn narrowConfig) twoBatches)).length :=
  (stats_describe_run (r := (final step (.spawn narrowConfig) twoBatches).stats)
    (run_final (by decide +kernel)) (by decide +kernel)).2.1

end PollLoop

-- ============================================================================
-- The watches of a cycle
-- ============================================================================

/-- The context and the watches done, in the drain loop. -/
def LoopPhase.drain? : LoopPhase → Option (CycleCtx × List WatchId)
  | .drain ctx done | .awaitBulk ctx done _ _ _ => some (ctx, done)
  | _ => none

theorem LoopPhase.ctx?_of_drain? {p : LoopPhase} {ctx : CycleCtx} {done : List WatchId}
    (h : p.drain? = some (ctx, done)) : p.ctx? = some ctx := by
  cases p <;> simp_all [LoopPhase.drain?, LoopPhase.ctx?]

/-- Every batch of a drain loop takes a watch off those that wait. -/
theorem waiting_add_length_le {c : CycleCtx} {cycle : Nat} {d d' : DrainState}
    {tr : List (DrainState × UInt32)} (hrun : Run (c.drainStep cycle) d tr d') :
    c.waiting d' + tr.length ≤ c.waiting d := by
  have h := hrun.potential (P := fun _ _ => True) (fun _ => true) c.waiting
    (fun _ _ _ _ hs => waiting_lt hs) (fun _ _ => trivial)
  simpa using h

theorem countP_le_add {α : Type} {l : List α} {p q r : α → Bool}
    (h : ∀ x ∈ l, p x → q x ∨ r x) : l.countP p ≤ l.countP q + l.countP r := by
  induction l with
  | nil => simp
  | cons x l ih =>
      have hx := h x (List.mem_cons_self ..)
      have hl := ih fun y hy => h y (List.mem_cons_of_mem _ hy)
      simp only [List.countP_cons]
      split_ifs <;> simp_all <;> omega

/-- A watch that waited at the start of the drain loop still does, or has been done. -/
theorem waiting_le_add_done {c : CycleCtx} {cycle : Nat} {rs : ReadStates} {d : DrainState}
    {tr : List (DrainState × UInt32)} (hrun : Run (c.drainStep cycle) ⟨rs, []⟩ tr d) :
    c.waiting ⟨rs, []⟩ ≤ c.waiting d + c.bulkEligible.countP fun w => w.id ∈ d.done := by
  refine countP_le_add fun w _ hw => ?_
  by_cases hdone : w.id ∈ d.done
  · exact Or.inr (by simpa using hdone)
  · refine Or.inl (decide_eq_true ⟨hdone, ?_⟩)
    rw [ReadStates.fulfilled, get_of_not_done hrun hdone]
    exact (of_decide_eq_true hw).2

/-- Bulk watches are done, due or neither, and no two of these. -/
theorem length_eq_done_add_due {c : CycleCtx} {rs : ReadStates} {done : List WatchId}
    (hdone : ∀ id ∈ done, ¬ Due c.requestSeq rs id) :
    c.bulkEligible.length = c.bulkEligible.countP (fun w => w.id ∈ done) +
      (c.dueWatches rs).length +
      c.bulkEligible.countP fun w => w.id ∉ done ∧ ¬ Due c.requestSeq rs w.id := by
  rw [CycleCtx.dueWatches, ← List.countP_eq_length_filter]
  induction c.bulkEligible with
  | nil => rfl
  | cons w ws ih =>
      rw [List.length_cons, ih]
      simp only [List.countP_cons, decide_eq_true_eq]
      by_cases hin : w.id ∈ done
      · have hnot := hdone w.id hin
        simp only [hin, hnot, if_true, if_false, not_true_eq_false, false_and]
        omega
      · by_cases hdue : Due c.requestSeq rs w.id
        · simp only [hin, hdue, if_true, if_false, not_true_eq_false, and_false]
          omega
        · simp only [hin, hdue, if_true, if_false, not_false_eq_true, and_self]
          omega

namespace PollLoop

/-- The watches a successful batch brings. -/
def fetched (s : PollLoop) (a : LoopAction) : List WatchId :=
  match a, s.phase with
  | .bulkReply (.ok _) _, .awaitBulk _ _ _ _ reads => memberIds reads
  | _, _ => []

/-- The watches that the batches of the cycle have fetched so far. -/
def fetchedIds (tr : List (PollLoop × LoopEvent)) : List WatchId :=
  (ofCycle tr).flatMap fun x => (x.1.tick x.2.after).fetched x.2.action

/-- What an action adds to them. -/
def fetchedAfter (ids : List WatchId) (s : PollLoop) (a : LoopAction) : List WatchId :=
  if a.begins then [] else ids ++ s.fetched a

theorem fetchedIds_snoc (tr : List (PollLoop × LoopEvent)) (s : PollLoop) (e : LoopEvent) :
    fetchedIds (tr ++ [(s, e)]) = fetchedAfter (fetchedIds tr) (s.tick e.after) e.action := by
  rw [fetchedIds, ofCycle_snoc, fetchedAfter]
  split
  · rfl
  · rw [List.flatMap_append, List.flatMap_singleton, fetchedIds]

theorem fetchedAfter_quiet {ids : List WatchId} {s : PollLoop} {a : LoopAction}
    (hbegin : a.begins = false) (hfetched : s.fetched a = []) : fetchedAfter ids s a = ids := by
  simp [fetchedAfter, hbegin, hfetched]

/-- The drain loop of the cycle is a run of `drainStep`, a step for each batch, and
    what it has done is what the batches have fetched. -/
def Drains (s : PollLoop) (ctx : CycleCtx) (done ids : List WatchId) : Prop :=
  ∃ rs tr, Run (ctx.drainStep s.cycle) ⟨rs, []⟩ tr ⟨s.readState, done⟩ ∧
    tr.length = s.vars.readsIssued ∧ ∀ id, id ∈ done ↔ id ∈ ids

/-- The batches of the cycle have fetched `ids`. -/
structure Accounted (ids : List WatchId) (s : PollLoop) : Prop where
  nodup : ∀ ctx, s.phase.ctx? = some ctx → (ctx.watches.map (·.id)).Nodup
  /-- Before the drain loop there are none. -/
  fresh : s.phase.collecting → s.phase.drain? = none → ids = []
  drains : ∀ ctx done, s.phase.drain? = some (ctx, done) → s.Drains ctx done ids
  drained : ∀ ctx, s.phase = .drained ctx → ∃ done, s.Drains ctx done ids ∧
    (s.vars.readsIssued = 0 → s.vars.lastError = none → ctx.waiting ⟨s.readState, done⟩ = 0)

theorem accounted_spawn (cfg : LoopConfig) : Accounted [] (.spawn cfg) where
  nodup := by simp [spawn, LoopPhase.ctx?]
  fresh := fun _ _ => rfl
  drains := by simp [spawn, LoopPhase.drain?]
  drained := by simp [spawn]

/-- The active watches have distinct ids. -/
theorem nodup_takeActive (s : PollLoop) (liveIds : List WatchId) :
    ((s.takeActive liveIds).watches.map (·.id)).Nodup := by
  simp only [takeActive, WatchRegistry.activeWithRequests, List.map_map]
  exact s.registry.nodup_entries.sublist (List.filter_sublist.map _)

theorem drains_nil {s : PollLoop} (h : s.vars.readsIssued = 0) (ctx : CycleCtx) :
    s.Drains ctx [] [] := ⟨s.readState, [], .refl, h.symm, fun _ => Iff.rfl⟩

section Phases

variable {t : PollLoop} {ctx : CycleCtx} {done ids : List WatchId}

/-- Outside of a cycle nothing counts. -/
theorem accounted_of_outside (hp : t.phase.ctx? = none) (hids : t.phase.collecting → ids = []) :
    Accounted ids t := by
  refine ⟨?_, fun hcollecting _ => hids hcollecting, ?_, ?_⟩
  · intro ctx hctx
    exact absurd (hp.symm.trans hctx) (by simp)
  · intro ctx done hdrain
    exact absurd (hp.symm.trans (LoopPhase.ctx?_of_drain? hdrain)) (by simp)
  · intro ctx hctx
    rw [hctx] at hp
    exact absurd hp (by simp [LoopPhase.ctx?])

/-- Before the drain loop the active watches have distinct ids. -/
theorem accounted_of_before (hp : t.phase.ctx? = some ctx) (hdrain : t.phase.drain? = none)
    (hne : t.phase ≠ .drained ctx) (hnodup : (ctx.watches.map (·.id)).Nodup) (hids : ids = []) :
    Accounted ids t := by
  refine ⟨?_, fun _ _ => hids, ?_, ?_⟩
  · intro ctx' hctx
    obtain rfl := Option.some.inj (hp.symm.trans hctx)
    exact hnodup
  · intro ctx' done hdrain'
    exact absurd (hdrain.symm.trans hdrain') (by simp)
  · intro ctx' hctx
    rw [hctx] at hp hne
    obtain rfl := Option.some.inj hp
    exact absurd rfl hne

/-- In the drain loop its steps are those of the batches. -/
theorem accounted_of_drain (hp : t.phase.drain? = some (ctx, done))
    (hnodup : (ctx.watches.map (·.id)).Nodup) (hdrains : t.Drains ctx done ids) :
    Accounted ids t := by
  refine ⟨?_, ?_, ?_, ?_⟩
  · intro ctx' hctx
    obtain rfl := Option.some.inj ((LoopPhase.ctx?_of_drain? hp).symm.trans hctx)
    exact hnodup
  · intro _ hnone
    exact absurd (hp.symm.trans hnone) (by simp)
  · intro ctx' done' hdrain
    obtain ⟨rfl, rfl⟩ := Prod.mk.inj (Option.some.inj (hp.symm.trans hdrain))
    exact hdrains
  · intro ctx' hctx
    rw [hctx] at hp
    exact absurd hp (by simp [LoopPhase.drain?])

/-- After it nothing waits without a reason. -/
theorem accounted_of_drained (hp : t.phase = .drained ctx)
    (hnodup : (ctx.watches.map (·.id)).Nodup) (hdrains : t.Drains ctx done ids)
    (hzero : t.vars.readsIssued = 0 → t.vars.lastError = none →
      ctx.waiting ⟨t.readState, done⟩ = 0) : Accounted ids t := by
  refine ⟨?_, ?_, ?_, ?_⟩
  · intro ctx' hctx
    rw [hp] at hctx
    obtain rfl := Option.some.inj hctx
    exact hnodup
  · intro hcollecting _
    rw [hp] at hcollecting
    exact absurd hcollecting (by simp [LoopPhase.collecting])
  · intro ctx' done' hdrain
    rw [hp] at hdrain
    exact absurd hdrain (by simp [LoopPhase.drain?])
  · intro ctx' hctx
    rw [hp, LoopPhase.drained.injEq] at hctx
    subst hctx
    exact ⟨done, hdrains, hzero⟩

end Phases

/-- An empty batch leaves nothing waiting. -/
theorem waiting_eq_zero_of_batch {ctx : CycleCtx} {cycle : Nat} {s : DrainState} {b : UInt32}
    (h : ctx.drainBatch cycle s b = []) : ctx.waiting s = 0 := by
  by_contra hpos
  have hpending : ctx.pending s.readState s.done b ≠ [] :=
    pending_ne_nil_iff.mpr (Nat.pos_of_ne_zero hpos)
  exact drainBatch_ne_nil hpending h

/-- A batch that arrived is one more step of the drain loop. -/
theorem Drains.arrived {s : PollLoop} {ctx : CycleCtx} {done ids : List WatchId}
    (h : s.Drains ctx done ids) {b : UInt32} {reads : List CoalescedRead}
    (hbatch : ctx.drainBatch s.cycle ⟨s.readState, done⟩ b = reads) (hne : reads ≠ [])
    (sentAt : Nat) (blobs : List (List UInt8)) (work : Nat) :
    (s.batchArrived ctx sentAt reads work).Drains (ctx.arrived reads blobs)
      (markDone reads done) (ids ++ memberIds reads) := by
  obtain ⟨rs, tr, hrun, hlen, hids⟩ := h
  have hstep : ctx.drainStep s.cycle ⟨s.readState, done⟩ b =
      some ⟨markFulfilled reads ctx.requestSeq s.cycle s.readState, markDone reads done⟩ := by
    simp only [CycleCtx.drainStep, hbatch, if_neg hne]
  refine ⟨rs, _, hrun.snoc hstep, by rw [List.length_append, hlen]; rfl, fun id => ?_⟩
  rw [markDone, List.mem_append, List.mem_append, hids id, or_comm]

theorem accounted_moves {ids : List WatchId} {s t : PollLoop} {a : LoopAction} (hin : InFlight s)
    (h : Accounted ids s) (hm : Moves s a t) : Accounted (fetchedAfter ids s a) t := by
  cases hm with
  | script op =>
      rw [fetchedAfter_quiet rfl rfl]
      exact ⟨h.nodup, h.fresh, h.drains, h.drained⟩
  | noClient cfg wake hp hw =>
      exact accounted_of_outside rfl (by simp [LoopPhase.collecting])
  | beginCycle cfg wake hp hw => exact accounted_of_outside rfl fun _ => rfl
  | readActive liveIds hp =>
      rw [fetchedAfter_quiet rfl rfl]
      have hids := h.fresh (by rw [hp]; rfl) (by rw [hp]; rfl)
      exact accounted_of_before rfl rfl (by simp) (nodup_takeActive s liveIds) hids
  | skipRealtime ctx hp hempty =>
      rw [fetchedAfter_quiet rfl rfl, h.fresh (by rw [hp]; rfl) (by rw [hp]; rfl)]
      have hnodup := h.nodup ctx (by rw [hp]; rfl)
      exact accounted_of_drain rfl hnodup (drains_nil (hin.ready ctx hp) ctx)
  | sendRealtime ctx hp hne =>
      rw [fetchedAfter_quiet rfl rfl]
      have hids := h.fresh (by rw [hp]; rfl) (by rw [hp]; rfl)
      exact accounted_of_before rfl rfl (by simp) (h.nodup ctx (by rw [hp]; rfl)) hids
  | realtimeReply ctx sentAt result hp =>
      rw [fetchedAfter_quiet rfl rfl, h.fresh (by rw [hp]; rfl) (by rw [hp]; rfl)]
      have hnodup := h.nodup ctx (by rw [hp]; rfl)
      have hzero := hin.realtime ctx sentAt hp
      cases result with
      | ok blobs =>
          have hdrains := drains_nil (s := s.realtimeReply ctx sentAt (.ok blobs)) hzero
          exact accounted_of_drain rfl hnodup (hdrains _)
      | error e =>
          have hdrains := drains_nil (s := s.realtimeReply ctx sentAt (.error e)) hzero
          exact accounted_of_drain rfl hnodup (hdrains _)
  | sendBatch ctx done b capped hp hb hne hfits =>
      rw [fetchedAfter_quiet rfl rfl]
      have hnodup := h.nodup ctx (by rw [hp]; rfl)
      exact accounted_of_drain rfl hnodup (h.drains ctx done (by rw [hp]; rfl))
  | endDrain ctx done capped hp hforce =>
      rw [fetchedAfter_quiet rfl rfl]
      have hnodup := h.nodup ctx (by rw [hp]; rfl)
      refine accounted_of_drained rfl hnodup (h.drains ctx done (by rw [hp]; rfl)) ?_
      intro hzero _
      obtain ⟨b, -, hempty⟩ := hforce (by simpa [forceProgress] using hzero)
      exact waiting_eq_zero_of_batch hempty
  | batchOk ctx done sentAt b reads blobs work phase' hp hphase =>
      have hfetched : fetchedAfter ids s (.bulkReply (.ok blobs) work) =
          ids ++ memberIds reads := by
        simp [fetchedAfter, fetched, hp, LoopAction.begins, LoopAction.config?]
      obtain ⟨hreads, hne⟩ := hin.selected ctx done sentAt b reads hp
      have hnodup := h.nodup ctx (by rw [hp]; rfl)
      have hdrains :=
        (h.drains ctx done (by rw [hp]; rfl)).arrived hreads.symm hne sentAt blobs work
      rw [hfetched]
      subst hphase
      split
      · exact accounted_of_drained rfl hnodup hdrains
          fun hzero => absurd hzero (Nat.succ_ne_zero _)
      · exact accounted_of_drain rfl hnodup hdrains
  | batchErr ctx done sentAt b reads e work hp =>
      rw [fetchedAfter_quiet rfl (by simp [fetched])]
      have hnodup := h.nodup ctx (by rw [hp]; rfl)
      exact accounted_of_drained rfl hnodup (h.drains ctx done (by rw [hp]; rfl))
        fun _ herr => absurd herr (by simp [batchFailed])
  | publish ctx hp => exact accounted_of_outside rfl (by simp [publish, LoopPhase.collecting])
  | pause liveIds hp => exact accounted_of_outside rfl (by simp [pause, LoopPhase.collecting])

theorem accounted_run {cfg : LoopConfig} {tr : List (PollLoop × LoopEvent)} {s : PollLoop}
    (hrun : Run step (.spawn cfg) tr s) : Accounted (fetchedIds tr) s := by
  refine hrun.trace_invariant (I := fun tr s => Accounted (fetchedIds tr) s) ?_
    (accounted_spawn cfg)
  intro tr u e v hrun' h hs
  rw [fetchedIds_snoc]
  refine accounted_moves ((inFlight_run hrun').tick e.after) ?_ (moves_of_step hs)
  exact ⟨h.nodup, h.fresh, h.drains, h.drained⟩

/-- **Reports account for the watches.**  Whenever a run publishes, each active watch,
    no id twice, is counted once: as a realtime watch, as one that the batches of the
    cycle have fetched, as deferred, or as one that is not due because its last request
    has been fulfilled.  Every batch that arrived fetched a watch of its own; and a
    cycle in which no `MultiRead` failed leaves a backlog only when it read at least
    one batch, however late it was. -/
theorem reports_account {cfg : LoopConfig} {tr : List (PollLoop × LoopEvent)} {s t : PollLoop}
    (hrun : Run step (.spawn cfg) tr s) {after : Nat} (hs : s.step ⟨after, .publish⟩ = some t) :
    ∃ ctx, s.phase = .drained ctx ∧ (ctx.watches.map (·.id)).Nodup ∧
      t.stats.watches = ctx.watches.length ∧
      t.stats.realtimeWatches = ctx.watches.countP (·.priority.isRealtime) ∧
      t.stats.watches = t.stats.realtimeWatches +
        ctx.bulkEligible.countP (fun w => w.id ∈ fetchedIds tr) +
        t.stats.deferredWatches +
        ctx.bulkEligible.countP (fun w => w.id ∉ fetchedIds tr ∧
          (ctx.requestSeq.get w.id).getD 0 ≤ s.readState.fulfilled w.id) ∧
      t.stats.readsLastCycle ≤ ctx.bulkEligible.countP (fun w => w.id ∈ fetchedIds tr) ∧
      (t.stats.readsLastCycle = 0 → t.stats.lastError = none → t.stats.deferredWatches = 0) := by
  obtain ⟨ctx, hp, rfl⟩ : ∃ ctx, s.phase = .drained ctx ∧ t = (s.tick after).publish ctx := by
    cases moves_of_step hs with
    | publish ctx hp => exact ⟨ctx, hp, rfl⟩
  have haccounted := accounted_run hrun
  have hnodup := haccounted.nodup ctx (by rw [hp]; rfl)
  have hbulk : (ctx.bulkEligible.map (·.id)).Nodup := hnodup.sublist (List.filter_sublist.map _)
  obtain ⟨done, ⟨rs, tr', hdrain, hlen, hids⟩, hforce⟩ := haccounted.drained ctx hp
  have hnotDue := not_due_of_done hdrain
  have hdue : (ctx.backlog s.readState s.cycle s.adaptive.budget).watches =
      (ctx.dueWatches s.readState).length := by
    rw [backlog_eq hbulk]
  have hwaiting := waiting_eq_length_dueWatches hnotDue
  have hsplit : ctx.watches.length = ctx.realtime.length + ctx.bulkEligible.length :=
    List.length_eq_length_filter_add _
  have hparts := length_eq_done_add_due hnotDue
  have hbatches := waiting_add_length_le hdrain
  have hfetched := waiting_le_add_done hdrain
  simp only [hids, Due, Nat.not_lt] at hparts hfetched
  refine ⟨ctx, hp, hnodup, rfl, ?_, ?_, ?_, ?_⟩
  · show ctx.realtime.length = _
    rw [CycleCtx.realtime, List.countP_eq_length_filter]
  · show ctx.watches.length = ctx.realtime.length + _ +
      (ctx.backlog s.readState s.cycle s.adaptive.budget).watches + _
    omega
  · show s.vars.readsIssued ≤ _
    omega
  · intro hzero herr
    show (ctx.backlog s.readState s.cycle s.adaptive.budget).watches = 0
    rw [hdue, ← hwaiting]
    exact hforce hzero herr

/-- The report of the two batches. -/
theorem reports_account_two :
    let cycle := twoBatches.dropLast
    let t := final step (.spawn narrowConfig) (cycle ++ [⟨0, .publish⟩])
    ∃ ctx, (final step (.spawn narrowConfig) cycle).phase = .drained ctx ∧
      t.stats.readsLastCycle ≤ ctx.bulkEligible.countP fun w =>
        w.id ∈ fetchedIds (trace step (.spawn narrowConfig) cycle) := by
  intro cycle t
  have hsome : (exec step (.spawn narrowConfig) (cycle ++ [⟨0, .publish⟩])).isSome := by
    decide +kernel
  obtain ⟨hrun, hs⟩ := (run_final_concat hsome).of_snoc
  obtain ⟨ctx, hp, -, -, -, -, hle, -⟩ := reports_account hrun hs
  exact ⟨ctx, hp, hle⟩

end PollLoop

end Cache
end SniLua
