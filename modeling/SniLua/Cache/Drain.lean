/-
  SniLua.Cache.Drain

  The bulk drain loop of one cycle.  As long as its batches succeed the loop only
  carries `read_state` and `done_this_cycle` from one iteration to the next, so
  an iteration is `drainStep`, with the budget of the iteration as its event;
  `exec_bulkPolls` finds these iterations in the engine.

  A watch waits while it is not done and its marker is not fulfilled.  Whatever
  the budget cuts, a read is pending exactly when some watch waits, and a batch
  serves one: the number of waiting watches is the measure of the loop.

  What the loop does not guarantee is that a watch is fetched only once.  A read
  is pending as soon as one member waits; when the budget changes, a chunk can
  join a waiting watch to one that is done, and the batch fetches both.
-/

import Mathlib.Data.List.Pairwise
import SniLua.Lib.RoundRobin
import SniLua.Cache.Engine

namespace SniLua
namespace Cache

open Lib

-- ============================================================================
-- One iteration
-- ============================================================================

/-- What an iteration leaves for the next one. -/
structure DrainState where
  readState : ReadStates
  /-- `done_this_cycle`. -/
  done : List WatchId

namespace CycleCtx

/-- The batch of an iteration. -/
def drainBatch (c : CycleCtx) (cycle : Nat) (s : DrainState) (iterBudget : UInt32) :
    List CoalescedRead :=
  c.bulkBatch s.readState s.done cycle iterBudget

/-- An iteration whose `multi_read` succeeds; `none` when nothing is selected and
    the loop breaks. -/
def drainStep (c : CycleCtx) (cycle : Nat) (s : DrainState) (iterBudget : UInt32) :
    Option DrainState :=
  let batch := c.drainBatch cycle s iterBudget
  if batch = [] then none
  else some
    { readState := markFulfilled batch c.requestSeq cycle s.readState
      done := markDone batch s.done }

/-- The watch is not done and its marker is not fulfilled. -/
def Waits (c : CycleCtx) (s : DrainState) (id : WatchId) : Prop :=
  id ∉ s.done ∧ s.readState.fulfilled id < (c.requestSeq.get id).getD 0

instance (c : CycleCtx) (s : DrainState) (id : WatchId) : Decidable (c.Waits s id) := by
  unfold Waits
  infer_instance

/-- How many bulk watches wait. -/
def waiting (c : CycleCtx) (s : DrainState) : Nat :=
  c.bulkEligible.countP fun w => decide (c.Waits s w.id)

end CycleCtx

/-- A bulk poll whose reply is `Ok` is an iteration of the loop. -/
theorem step_bulkPoll_eq {s : Engine} {ctx : CycleCtx} {done : List WatchId} {n : Nat}
    (hp : s.phase = .bulk ctx done n) (iterBudget : UInt32) (blobs : List (List UInt8)) :
    step s (.bulkPoll iterBudget (some blobs)) =
      (ctx.drainStep s.cycle ⟨s.readState, done⟩ iterBudget).map fun d =>
        { s with
          readState := d.readState
          phase := .bulk (ctx.arrived (ctx.drainBatch s.cycle ⟨s.readState, done⟩ iterBudget) blobs)
            d.done (n + 1) } := by
  simp only [step, hp]
  by_cases hb : ctx.drainBatch s.cycle ⟨s.readState, done⟩ iterBudget = []
  · have hb' : ctx.bulkBatch s.readState done s.cycle iterBudget = [] := hb
    rw [CycleCtx.drainStep, if_pos hb, if_pos hb']
    rfl
  · have hb' : ¬ ctx.bulkBatch s.readState done s.cycle iterBudget = [] := hb
    rw [CycleCtx.drainStep, if_neg hb, if_neg hb']
    rfl

/-- The iterations of the loop in the engine: whatever the replies hold, they
    lead to the same `read_state` and the same watches done. -/
theorem exec_bulkPolls {d : DrainState} (polls : List (UInt32 × List (List UInt8))) {s : Engine}
    {ctx : CycleCtx} {done : List WatchId} {n : Nat} (hp : s.phase = .bulk ctx done n)
    (h : exec (ctx.drainStep s.cycle) ⟨s.readState, done⟩ (polls.map (·.1)) = some d) :
    ∃ t ctx', exec step s (polls.map fun p => .bulkPoll p.1 (some p.2)) = some t ∧
      t.phase = .bulk ctx' d.done (n + polls.length) ∧ t.readState = d.readState ∧
      t.cycle = s.cycle ∧ t.registry = s.registry := by
  induction polls generalizing s ctx done n with
  | nil =>
      obtain rfl := Option.some.inj h
      exact ⟨s, ctx, rfl, hp, rfl, rfl, rfl⟩
  | cons p polls ih =>
      have hstep := step_bulkPoll_eq hp p.1 p.2
      rw [List.map_cons, exec] at h
      cases hd : ctx.drainStep s.cycle ⟨s.readState, done⟩ p.1 with
      | none => simp [hd] at h
      | some e =>
          rw [hd] at h hstep
          obtain ⟨t, ctx', ht, hphase, hread, hcycle, hreg⟩ := ih (s := { s with
            readState := e.readState
            phase := .bulk (ctx.arrived _ p.2) e.done (n + 1) }) rfl h
          refine ⟨t, ctx', ?_, ?_, hread, hcycle, hreg⟩
          · rw [List.map_cons, exec, hstep]
            exact ht
          · rw [hphase, List.length_cons]
            congr 1
            omega

-- ============================================================================
-- What an iteration does
-- ============================================================================

section Iteration

variable {c : CycleCtx} {cycle : Nat} {s t : DrainState} {b : UInt32}

/-- The chunks of any budget hold every bulk watch. -/
theorem exists_chunk {w : WatchHandle} (hw : w ∈ c.bulkEligible) (b : UInt32) :
    ∃ r ∈ c.chunked b, ∃ m ∈ r.members, m.id = w.id := by
  have hmem : w.id ∈ memberIds (c.chunked b) :=
    (memberIds_chunks _ _ _).mem_iff.mpr (List.mem_map_of_mem hw)
  obtain ⟨r, hr, hid⟩ := mem_memberIds.mp hmem
  obtain ⟨m, hm, heq⟩ := List.mem_map.mp hid
  exact ⟨r, hr, m, hm, heq⟩

/-- And only bulk watches. -/
theorem exists_watch_of_chunk {r : CoalescedRead} (hr : r ∈ c.chunked b) {m : Member}
    (hm : m ∈ r.members) : ∃ w ∈ c.bulkEligible, w.id = m.id := by
  have hmem : m.id ∈ memberIds (c.chunked b) :=
    mem_memberIds.mpr ⟨r, hr, List.mem_map_of_mem hm⟩
  exact List.mem_map.mp ((memberIds_chunks _ _ _).mem_iff.mp hmem)

theorem mem_pending_iff {r : CoalescedRead} :
    r ∈ c.pending s.readState s.done b ↔
      r ∈ c.chunked b ∧ ∃ m ∈ r.members, c.Waits s m.id := by
  rw [CycleCtx.pending, List.mem_filter, readIsPending_iff]
  rfl

/-- Whatever the budget is, a read is pending when a watch waits. -/
theorem pending_ne_nil_iff : c.pending s.readState s.done b ≠ [] ↔ 0 < c.waiting s := by
  rw [CycleCtx.waiting, List.countP_pos_iff]
  constructor
  · intro hne
    obtain ⟨r, hr⟩ := List.exists_mem_of_ne_nil _ hne
    obtain ⟨hchunk, m, hm, hwaits⟩ := mem_pending_iff.mp hr
    obtain ⟨w, hw, heq⟩ := exists_watch_of_chunk hchunk hm
    exact ⟨w, hw, by simpa [heq] using hwaits⟩
  · rintro ⟨w, hw, hwaits⟩
    obtain ⟨r, hr, m, hm, heq⟩ := exists_chunk hw b
    have hwaits : c.Waits s m.id := by simpa [heq] using hwaits
    exact List.ne_nil_of_mem (mem_pending_iff.mpr ⟨hr, m, hm, hwaits⟩)

theorem mem_pending_of_mem_drainBatch {r : CoalescedRead} (hr : r ∈ c.drainBatch cycle s b) :
    r ∈ c.pending s.readState s.done b :=
  mem_of_mem_selectBulk hr

/-- Some read is selected when one is pending. -/
theorem drainBatch_ne_nil (hne : c.pending s.readState s.done b ≠ []) :
    c.drainBatch cycle s b ≠ [] := by
  obtain ⟨r, hr, -⟩ := exists_head_selectBulk hne b s.readState cycle
  exact List.ne_nil_of_mem hr

/-- The effect of an iteration. -/
theorem of_drainStep (h : c.drainStep cycle s b = some t) :
    c.drainBatch cycle s b ≠ [] ∧
      t.readState = markFulfilled (c.drainBatch cycle s b) c.requestSeq cycle s.readState ∧
      t.done = memberIds (c.drainBatch cycle s b) ++ s.done := by
  simp only [CycleCtx.drainStep] at h
  split at h
  · exact absurd h (by simp)
  · rename_i hne
    obtain rfl := Option.some.inj h
    exact ⟨hne, rfl, rfl⟩

theorem mem_done_iff (h : c.drainStep cycle s b = some t) {id : WatchId} :
    id ∈ t.done ↔ id ∈ memberIds (c.drainBatch cycle s b) ∨ id ∈ s.done := by
  rw [(of_drainStep h).2.2, List.mem_append]

/-- Outside the batch nothing changes. -/
theorem get_of_drainStep (h : c.drainStep cycle s b = some t) {id : WatchId}
    (hid : id ∉ memberIds (c.drainBatch cycle s b)) :
    t.readState.get id = s.readState.get id := by
  rw [(of_drainStep h).2.1]
  exact get_markFulfilled_of_not_mem hid _ _ _

/-- Nobody starts to wait. -/
theorem waits_of_drainStep (h : c.drainStep cycle s b = some t) {id : WatchId}
    (hwaits : c.Waits t id) : c.Waits s id := by
  have hdone : ¬ (id ∈ memberIds (c.drainBatch cycle s b) ∨ id ∈ s.done) :=
    fun hid => hwaits.1 ((mem_done_iff h).mpr hid)
  rw [not_or] at hdone
  have hget : t.readState.get id = s.readState.get id := get_of_drainStep h hdone.1
  have hfulfilled : t.readState.fulfilled id = s.readState.fulfilled id := fulfilled_congr hget
  exact ⟨hdone.2, hfulfilled ▸ hwaits.2⟩

/-- Every batch serves a watch that waits. -/
theorem waiting_lt (h : c.drainStep cycle s b = some t) : c.waiting t < c.waiting s := by
  obtain ⟨r, hr⟩ := List.exists_mem_of_ne_nil _ (of_drainStep h).1
  obtain ⟨hchunk, m, hm, hwaits⟩ := mem_pending_iff.mp (mem_pending_of_mem_drainBatch hr)
  obtain ⟨w, hw, heq⟩ := exists_watch_of_chunk hchunk hm
  have hmem : w.id ∈ memberIds (c.drainBatch cycle s b) :=
    mem_memberIds.mpr ⟨r, hr, heq ▸ List.mem_map_of_mem hm⟩
  refine countP_lt_of_imp ?_ hw (by simpa [heq] using hwaits) ?_
  · intro v _ hv
    exact decide_eq_true (waits_of_drainStep h (of_decide_eq_true hv))
  · intro hv
    exact (of_decide_eq_true hv).1 ((mem_done_iff h).mpr (Or.inl hmem))

/-- An iteration with something pending goes through and makes progress. -/
theorem exists_drainStep (cycle : Nat) (hne : c.pending s.readState s.done b ≠ []) :
    ∃ t, c.drainStep cycle s b = some t ∧ c.waiting t < c.waiting s := by
  cases h : c.drainStep cycle s b with
  | some t => exact ⟨t, rfl, waiting_lt h⟩
  | none =>
      simp [CycleCtx.drainStep, drainBatch_ne_nil hne] at h

end Iteration

-- ============================================================================
-- The loop drains completely
-- ============================================================================

/-- A watch is as it was at the start of the loop, or holds its marker and the
    cycle if it has one. -/
def Served (c : CycleCtx) (cycle : Nat) (rs : ReadStates) (s : DrainState) (id : WatchId) :
    Prop :=
  (id ∉ s.done ∧ s.readState.get id = rs.get id) ∨
    ∀ seq, c.requestSeq.get id = some seq → s.readState.get id = some ⟨seq, cycle⟩

theorem served_step {c : CycleCtx} {cycle : Nat} {rs : ReadStates} {s t : DrainState} {b : UInt32}
    {id : WatchId} (hserved : Served c cycle rs s id) (h : c.drainStep cycle s b = some t) :
    Served c cycle rs t id := by
  by_cases hid : id ∈ memberIds (c.drainBatch cycle s b)
  · refine Or.inr fun seq hseq => ?_
    rw [(of_drainStep h).2.1, get_markFulfilled, if_pos hid, hseq]
  · have hget := get_of_drainStep h hid
    rcases hserved with ⟨hdone, hsame⟩ | hmarked
    · refine Or.inl ⟨fun hin => ?_, hget.trans hsame⟩
      exact ((mem_done_iff h).mp hin).elim hid hdone
    · exact Or.inr fun seq hseq => hget.trans (hmarked seq hseq)

theorem served_run {c : CycleCtx} {cycle : Nat} {rs : ReadStates} {tr : List (DrainState × UInt32)}
    {t : DrainState} (hrun : Run (c.drainStep cycle) ⟨rs, []⟩ tr t) (id : WatchId) :
    Served c cycle rs t id :=
  hrun.invariant (P := fun _ _ => True) (I := fun s => Served c cycle rs s id)
    (fun _ _ _ _ hserved h => served_step hserved h) (fun _ _ => trivial)
    (Or.inl ⟨List.not_mem_nil, rfl⟩)

/-- What is not done is as it was. -/
theorem get_of_not_done {c : CycleCtx} {cycle : Nat} {rs : ReadStates}
    {tr : List (DrainState × UInt32)} {t : DrainState}
    (hrun : Run (c.drainStep cycle) ⟨rs, []⟩ tr t) {id : WatchId} (hid : id ∉ t.done) :
    t.readState.get id = rs.get id := by
  refine hrun.invariant (P := fun _ _ => True)
    (I := fun s => id ∉ s.done → s.readState.get id = rs.get id) ?_ (fun _ _ => trivial)
    (fun _ => rfl) hid
  intro u b v _ hu hs hnot
  rw [mem_done_iff hs, not_or] at hnot
  exact (get_of_drainStep hs hnot.1).trans (hu hnot.2)

/-- For every sequence of budgets the loop ends, with every marker of its start
    fulfilled in the cycle. -/
theorem exists_drained (c : CycleCtx) (cycle : Nat) (rs : ReadStates) (budgets : Nat → UInt32) :
    ∃ n ≤ c.waiting ⟨rs, []⟩, ∃ t,
      exec (c.drainStep cycle) ⟨rs, []⟩ ((List.range n).map budgets) = some t ∧
      (∀ b, c.pending t.readState t.done b = []) ∧
      ∀ w ∈ c.bulkEligible, ∀ seq, c.requestSeq.get w.id = some seq →
        rs.fulfilled w.id < seq → t.readState.get w.id = some ⟨seq, cycle⟩ := by
  obtain ⟨n, hn, t, hexec, hzero⟩ := exists_exec_measure_zero (m := c.waiting)
    (fun s b hpos => exists_drainStep cycle (pending_ne_nil_iff.mpr hpos)) ⟨rs, []⟩ budgets
  have hnone : ∀ b, c.pending t.readState t.done b = [] := by
    intro b
    by_contra hne
    have hpos := pending_ne_nil_iff.mp hne
    omega
  refine ⟨n, hn, t, hexec, hnone, ?_⟩
  intro w hw seq hseq hlt
  rcases served_run (run_of_exec hexec) w.id with ⟨hdone, hsame⟩ | hmarked
  · have hwaits : c.Waits t w.id := by
      refine ⟨hdone, ?_⟩
      rw [fulfilled_congr hsame, hseq]
      exact hlt
    have hpos : 0 < c.waiting t := List.countP_pos_iff.mpr ⟨w, hw, decide_eq_true hwaits⟩
    omega
  · exact hmarked seq hseq

/-- **The drain loop makes progress and drains completely.**  In every state of
    the loop and for every budget, when something is pending the batch is a
    non-empty part of it, and after the batch fewer watches wait.  So for every
    sequence of budgets the loop ends within as many batches as watches waited at
    its start: then nothing is pending for any budget, and a watch whose marker
    was not fulfilled has it fulfilled in this cycle. -/
theorem drain_completes (c : CycleCtx) (cycle : Nat) (rs : ReadStates) :
    (∀ (s : DrainState) (b : UInt32), c.pending s.readState s.done b ≠ [] →
      c.drainBatch cycle s b ≠ [] ∧
      (c.drainBatch cycle s b).Subperm (c.pending s.readState s.done b) ∧
      ∃ t, c.drainStep cycle s b = some t ∧ c.waiting t < c.waiting s) ∧
    ∀ budgets : Nat → UInt32, ∃ n ≤ c.waiting ⟨rs, []⟩, ∃ t,
      exec (c.drainStep cycle) ⟨rs, []⟩ ((List.range n).map budgets) = some t ∧
      (∀ b, c.pending t.readState t.done b = []) ∧
      ∀ w ∈ c.bulkEligible, ∀ seq, c.requestSeq.get w.id = some seq →
        rs.fulfilled w.id < seq → t.readState.get w.id = some ⟨seq, cycle⟩ := by
  constructor
  · intro s b hne
    exact ⟨drainBatch_ne_nil hne, selectBulk_subperm _ _ _ _, exists_drainStep cycle hne⟩
  · exact exists_drained c cycle rs

/-- The same in the engine, for every sequence of budgets and replies. -/
theorem exists_drained_engine {s : Engine} {ctx : CycleCtx} {n : Nat}
    (hp : s.phase = .bulk ctx [] n) (polls : Nat → UInt32 × List (List UInt8)) :
    ∃ k ≤ ctx.waiting ⟨s.readState, []⟩, ∃ t,
      exec step s (((List.range k).map polls).map fun p => .bulkPoll p.1 (some p.2)) = some t ∧
      ∀ w ∈ ctx.bulkEligible, ∀ seq, ctx.requestSeq.get w.id = some seq →
        s.readState.fulfilled w.id < seq → t.readState.get w.id = some ⟨seq, s.cycle⟩ := by
  obtain ⟨k, hk, d, hexec, -, hserved⟩ :=
    exists_drained ctx s.cycle s.readState fun i => (polls i).1
  have hpolls : exec (ctx.drainStep s.cycle) ⟨s.readState, []⟩
      (((List.range k).map polls).map (·.1)) = some d := by
    rw [List.map_map]
    exact hexec
  obtain ⟨t, ctx', ht, -, hread, -, -⟩ := exec_bulkPolls _ hp hpolls
  refine ⟨k, hk, t, ht, ?_⟩
  rw [hread]
  exact hserved

-- ============================================================================
-- Which watches are fetched again
-- ============================================================================

/-- No two batches of the trace have a watch in common. -/
def NoRefetch (c : CycleCtx) (cycle : Nat) (tr : List (DrainState × UInt32)) : Prop :=
  tr.Pairwise fun x y => ∀ id ∈ memberIds (c.drainBatch cycle x.1 x.2),
    id ∉ memberIds (c.drainBatch cycle y.1 y.2)

/-- No pending chunk joins a waiting watch to one that is done. -/
def Unmixed (c : CycleCtx) (s : DrainState) (iterBudget : UInt32) : Prop :=
  ∀ r ∈ c.pending s.readState s.done iterBudget, ∀ m ∈ r.members, m.id ∉ s.done

instance (c : CycleCtx) (cycle : Nat) (tr : List (DrainState × UInt32)) :
    Decidable (NoRefetch c cycle tr) := by
  unfold NoRefetch
  infer_instance

instance (c : CycleCtx) (s : DrainState) (iterBudget : UInt32) :
    Decidable (Unmixed c s iterBudget) := by
  unfold Unmixed
  infer_instance

section Refetch

variable {c : CycleCtx} {cycle : Nat} {rs : ReadStates} {tr tr' : List (DrainState × UInt32)}
  {s t : DrainState} {b : UInt32}

/-- Done are the watches of the batches so far. -/
theorem mem_done_of_run (hrun : Run (c.drainStep cycle) s tr t) (id : WatchId) :
    id ∈ t.done ↔ id ∈ s.done ∨ ∃ x ∈ tr, id ∈ memberIds (c.drainBatch cycle x.1 x.2) := by
  induction hrun with
  | refl => simp
  | @snoc tr u v e hrun hs ih =>
      rw [mem_done_iff hs, ih]
      constructor
      · rintro (hid | hid | ⟨x, hx, hid⟩)
        · exact Or.inr ⟨(u, e), by simp, hid⟩
        · exact Or.inl hid
        · exact Or.inr ⟨x, List.mem_append_left _ hx, hid⟩
      · rintro (hid | ⟨x, hx, hid⟩)
        · exact Or.inr (Or.inl hid)
        · rcases List.mem_append.mp hx with hx | hx
          · exact Or.inr (Or.inr ⟨x, hx, hid⟩)
          · obtain rfl := List.mem_singleton.mp hx
            exact Or.inl hid

/-- One more batch fetches nothing again when it holds no watch that is done. -/
theorem noRefetch_snoc (hrun : Run (c.drainStep cycle) ⟨rs, []⟩ tr s) :
    NoRefetch c cycle (tr ++ [(s, b)]) ↔
      NoRefetch c cycle tr ∧ ∀ id ∈ memberIds (c.drainBatch cycle s b), id ∉ s.done := by
  rw [NoRefetch, List.pairwise_append]
  constructor
  · rintro ⟨htr, -, hlast⟩
    refine ⟨htr, fun id hid hdone => ?_⟩
    rcases (mem_done_of_run hrun id).mp hdone with hnil | ⟨x, hx, hidx⟩
    · exact absurd hnil List.not_mem_nil
    · exact hlast x hx (s, b) (List.mem_singleton_self _) id hidx hid
  · rintro ⟨htr, hnew⟩
    refine ⟨htr, List.pairwise_singleton _ _, ?_⟩
    intro x hx y hy id hidx hid
    obtain rfl := List.mem_singleton.mp hy
    exact hnew id hid ((mem_done_of_run hrun id).mpr (Or.inr ⟨x, hx, hidx⟩))

/-- Where no pending chunk is mixed, the batch holds no watch that is done. -/
theorem not_mem_done_of_unmixed (h : Unmixed c s b) {id : WatchId}
    (hid : id ∈ memberIds (c.drainBatch cycle s b)) : id ∉ s.done := by
  obtain ⟨r, hr, hmem⟩ := mem_memberIds.mp hid
  obtain ⟨m, hm, rfl⟩ := List.mem_map.mp hmem
  exact h r (mem_pending_of_mem_drainBatch hr) m hm

theorem noRefetch_of_unmixed (hrun : Run (c.drainStep cycle) ⟨rs, []⟩ tr t)
    (h : ∀ x ∈ tr, Unmixed c x.1 x.2) : NoRefetch c cycle tr := by
  induction hrun with
  | refl => exact List.Pairwise.nil
  | @snoc tr u v e hrun hs ih =>
      have hlast : Unmixed c u e := h (u, e) (by simp)
      exact (noRefetch_snoc hrun).mpr
        ⟨ih fun x hx => h x (List.mem_append_left _ hx), fun _ => not_mem_done_of_unmixed hlast⟩

/-- With distinct ids a watch is in one chunk only. -/
theorem chunk_unique (hids : (c.bulkEligible.map (·.id)).Nodup) {r q : CoalescedRead}
    (hr : r ∈ c.chunked b) (hq : q ∈ c.chunked b) {id : WatchId}
    (hidr : id ∈ r.members.map (·.id)) (hidq : id ∈ q.members.map (·.id)) : r = q := by
  have hnodup : (memberIds (c.chunked b)).Nodup := (memberIds_chunks _ _ _).nodup_iff.mpr hids
  have hdisjoint := (List.nodup_flatMap.mp hnodup).2
  by_contra hne
  have hsymm : Std.Symm fun x y : CoalescedRead =>
      List.Disjoint (x.members.map (·.id)) (y.members.map (·.id)) := ⟨fun _ _ h => h.symm⟩
  exact hdisjoint.forall hr hq hne hidr hidq

/-- A pending chunk of which the batch holds a watch is in the batch. -/
theorem mem_drainBatch_of_shared (hids : (c.bulkEligible.map (·.id)).Nodup) {r : CoalescedRead}
    (hr : r ∈ c.chunked b) {id : WatchId} (hidr : id ∈ r.members.map (·.id))
    (hid : id ∈ memberIds (c.drainBatch cycle s b)) : r ∈ c.drainBatch cycle s b := by
  obtain ⟨q, hq, hidq⟩ := mem_memberIds.mp hid
  have hchunk := (CycleCtx.mem_chunked_of_mem_bulkBatch hq).1
  exact chunk_unique hids hr hchunk hidr hidq ▸ hq

/-- As long as the budget stays the same, no chunk becomes mixed. -/
theorem unmixed_step (hids : (c.bulkEligible.map (·.id)).Nodup) (h : Unmixed c s b)
    (hs : c.drainStep cycle s b = some t) : Unmixed c t b := by
  intro r hr m hm hdone
  obtain ⟨hchunk, m', hm', hwaits⟩ := mem_pending_iff.mp hr
  have hpending : r ∈ c.pending s.readState s.done b :=
    mem_pending_iff.mpr ⟨hchunk, m', hm', waits_of_drainStep hs hwaits⟩
  rcases (mem_done_iff hs).mp hdone with hid | hid
  · have hmem := mem_drainBatch_of_shared hids hchunk (List.mem_map_of_mem hm) hid
    exact hwaits.1 ((mem_done_iff hs).mpr
      (Or.inl (mem_memberIds.mpr ⟨r, hmem, List.mem_map_of_mem hm'⟩)))
  · exact h r hpending m hm hid

theorem unmixed_run (hids : (c.bulkEligible.map (·.id)).Nodup) (h : Unmixed c s b)
    (hrun : Run (c.drainStep cycle) s tr t) (hb : ∀ x ∈ tr, x.2 = b) :
    ∀ x ∈ tr, Unmixed c x.1 x.2 := by
  intro x hx
  obtain ⟨pre, post, rfl, hpre⟩ := hrun.prefix_of_mem hx
  rw [hb x hx]
  refine hpre.invariant (P := fun _ e => e = b) (I := fun u => Unmixed c u b) ?_ ?_ h
  · rintro u e v rfl hu hs
    exact unmixed_step hids hu hs
  · exact fun y hy => hb y (List.mem_append_left _ hy)

/-- Who waits keeps waiting until a batch holds it. -/
theorem waits_or_fetched (hrun : Run (c.drainStep cycle) s tr t) {id : WatchId}
    (hwaits : c.Waits s id) :
    c.Waits t id ∨ ∃ x ∈ tr, id ∈ memberIds (c.drainBatch cycle x.1 x.2) := by
  induction hrun with
  | refl => exact Or.inl hwaits
  | @snoc tr u v e hrun hs ih =>
      rcases ih with hu | ⟨x, hx, hid⟩
      · by_cases hid : id ∈ memberIds (c.drainBatch cycle u e)
        · exact Or.inr ⟨(u, e), by simp, hid⟩
        · have hget := get_of_drainStep hs hid
          refine Or.inl ⟨fun hdone => ?_, ?_⟩
          · exact ((mem_done_iff hs).mp hdone).elim hid hu.1
          · rw [fulfilled_congr hget]
            exact hu.2
      · exact Or.inr ⟨x, List.mem_append_left _ hx, hid⟩

/-- A mixed chunk is fetched by going on with the budget that cuts it. -/
theorem exists_refetch (hids : (c.bulkEligible.map (·.id)).Nodup)
    (hrun : Run (c.drainStep cycle) ⟨rs, []⟩ tr s) (h : ¬ Unmixed c s b) :
    ∃ tr' t, Run (c.drainStep cycle) s tr' t ∧ (∀ x ∈ tr', x.2 = b) ∧
      ¬ NoRefetch c cycle (tr ++ tr') := by
  simp only [Unmixed, not_forall, not_not] at h
  obtain ⟨r, hr, m, hm, hdone⟩ := h
  obtain ⟨hchunk, m', hm', hwaits⟩ := mem_pending_iff.mp hr
  obtain ⟨n, -, t, hexec, hzero⟩ := exists_exec_measure_zero (m := c.waiting)
    (fun s b hpos => exists_drainStep cycle (pending_ne_nil_iff.mpr hpos)) s fun _ => b
  have hrun' := run_of_exec hexec
  have hb : ∀ x ∈ trace (c.drainStep cycle) s ((List.range n).map fun _ => b), x.2 = b := by
    intro x hx
    have hmem := List.mem_map_of_mem (f := fun x => x.2) hx
    rw [map_snd_trace (by rw [hexec]; rfl)] at hmem
    obtain ⟨i, -, hi⟩ := List.mem_map.mp hmem
    exact hi.symm
  refine ⟨_, t, hrun', hb, ?_⟩
  obtain ⟨w, hw, heq⟩ := exists_watch_of_chunk hchunk hm'
  rcases waits_or_fetched hrun' hwaits with hstill | ⟨x, hx, hid⟩
  · have hpos : 0 < c.waiting t :=
      List.countP_pos_iff.mpr ⟨w, hw, by simpa [heq] using hstill⟩
    omega
  · obtain ⟨pre, post, htr, hpre⟩ := hrun'.prefix_of_mem hx
    have hxb := hb x hx
    have hmem : r ∈ c.drainBatch cycle x.1 x.2 :=
      mem_drainBatch_of_shared hids (hxb ▸ hchunk) (List.mem_map_of_mem hm') hid
    have hagain : m.id ∈ memberIds (c.drainBatch cycle x.1 x.2) :=
      mem_memberIds.mpr ⟨r, hmem, List.mem_map_of_mem hm⟩
    have hdone' : m.id ∈ x.1.done := (mem_done_of_run hpre m.id).mpr (Or.inl hdone)
    intro hno
    rw [htr, ← List.append_assoc, List.append_cons, NoRefetch, List.pairwise_append] at hno
    exact ((noRefetch_snoc (hrun.trans hpre)).mp hno.1).2 m.id hagain hdone'

/-- In a run whose iterations all meet pending chunks that are not mixed, no watch
    is fetched twice.  After such a run the condition is exact for every budget:
    it holds if and only if going on with that budget fetches nothing again. -/
theorem noRefetch_iff_unmixed (hids : (c.bulkEligible.map (·.id)).Nodup)
    (hrun : Run (c.drainStep cycle) ⟨rs, []⟩ tr s) (hunmixed : ∀ x ∈ tr, Unmixed c x.1 x.2) :
    NoRefetch c cycle tr ∧
    ∀ b, Unmixed c s b ↔ ∀ tr' t, Run (c.drainStep cycle) s tr' t → (∀ x ∈ tr', x.2 = b) →
      NoRefetch c cycle (tr ++ tr') := by
  refine ⟨noRefetch_of_unmixed hrun hunmixed, fun b => ⟨?_, ?_⟩⟩
  · intro h tr' t hrun' hb
    refine noRefetch_of_unmixed (hrun.trans hrun') fun x hx => ?_
    rcases List.mem_append.mp hx with hx | hx
    · exact hunmixed x hx
    · exact unmixed_run hids h hrun' hb x hx
  · intro h
    by_contra hmixed
    obtain ⟨tr', t, hrun', hb, hagain⟩ := exists_refetch hids hrun hmixed
    exact hagain (h tr' t hrun' hb)

end Refetch

/-- Two adjacent watches of 2048 and 1024 bytes, both requested. -/
def adjacentWatches : CycleCtx :=
  { cfg := ⟨64, 60⟩
    liveIds := [0, 1]
    requestSeq := .ofList [(0, 1), (1, 1)]
    watches := [⟨0, .wram 0 2048, .normal⟩, ⟨1, .wram 2048 1024, .normal⟩]
    builder := .fromPrev .default }

/-- At a budget of 2048 bytes the watches are two chunks, fetched one by one. -/
theorem noRefetch_adjacent :
    NoRefetch adjacentWatches 1
      (trace (adjacentWatches.drainStep 1) ⟨.empty, []⟩ [2048, 2048]) :=
  (noRefetch_iff_unmixed (by decide) (run_final (by decide)) (by decide)).1

/-- A budget that grows from 2048 to 5324 bytes joins them, and the second batch
    fetches the first watch again. -/
theorem refetch_adjacent :
    (adjacentWatches.bulkEligible.map (·.id)).Nodup ∧
    (exec (adjacentWatches.drainStep 1) ⟨.empty, []⟩ [2048, 5324]).isSome ∧
    ¬ NoRefetch adjacentWatches 1
      (trace (adjacentWatches.drainStep 1) ⟨.empty, []⟩ [2048, 5324]) := by
  decide

end Cache
end SniLua
