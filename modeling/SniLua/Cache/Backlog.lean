/-
  SniLua.Cache.Backlog

  The report on what a cycle leaves waiting (`pending_summary`).  It walks the
  chunks on its own: a watch without a marker is skipped where `read_is_pending`
  takes its marker for 0, and a set keeps a watch from being counted twice.

  On reads that serve every watch once the set never hits, and the walk counts
  exactly the watches that are due.  Chunks of any budget serve the same watches,
  so only the bytes of the report depend on the budget.
-/

import Mathlib.Data.Rat.Defs
import SniLua.Cache.Drain
import SniLua.Cache.Selection

namespace SniLua
namespace Cache

open Lib

-- ============================================================================
-- pending_summary
-- ============================================================================

/-- `u64::saturating_add`. -/
def saturatingAddU64 (a b : Nat) : Nat := min (a + b) (2 ^ 64 - 1)

structure PendingSummary where
  watches : Nat
  bytes : UInt32
  oldestCycles : UInt32
  avgCycles : ℚ
deriving DecidableEq

/-- The variables of the loops. -/
structure SummaryAcc where
  pendingIds : List WatchId
  bytes : UInt32
  oldest : Nat
  ageSum : Nat
deriving DecidableEq

section Walk

variable (requestSeq : HashMap WatchId Nat) (rs : ReadStates) (cycle : Nat)

/-- The inner loop body; the flag is `read_pending`. -/
def summarizeMember (acc : SummaryAcc × Bool) (m : Member) : SummaryAcc × Bool :=
  match requestSeq.get m.id with
  | none => acc
  | some seq =>
      let state := (rs.get m.id).getD { requestSeq := 0, refreshCycle := 0 }
      if seq ≤ state.requestSeq ∨ m.id ∈ acc.1.pendingIds then acc
      else
        let age := cycle - state.refreshCycle
        ({ acc.1 with
            pendingIds := m.id :: acc.1.pendingIds
            oldest := max acc.1.oldest age
            ageSum := saturatingAddU64 acc.1.ageSum age }, true)

/-- The outer loop body. -/
def summarizeRead (acc : SummaryAcc) (read : CoalescedRead) : SummaryAcc :=
  let (acc, readPending) := read.members.foldl (summarizeMember requestSeq rs cycle) (acc, false)
  if readPending then { acc with bytes := U32.saturatingAdd acc.bytes read.region.size } else acc

def pendingSummary (reads : List CoalescedRead) : PendingSummary :=
  let acc := reads.foldl (summarizeRead requestSeq rs cycle)
    { pendingIds := [], bytes := 0, oldest := 0, ageSum := 0 }
  let watches := acc.pendingIds.length
  { watches
    bytes := acc.bytes
    oldestCycles := UInt32.ofNat (min acc.oldest (2 ^ 32 - 1))
    avgCycles := if watches = 0 then 0 else acc.ageSum / watches }

-- ============================================================================
-- What the walk counts
-- ============================================================================

/-- The marker of the watch is not fulfilled. -/
def Due (id : WatchId) : Prop := rs.fulfilled id < (requestSeq.get id).getD 0

instance (id : WatchId) : Decidable (Due requestSeq rs id) := by
  unfold Due
  infer_instance

/-- Cycles since the watch was last refreshed. -/
def ageOf (id : WatchId) : Nat := cycle - rs.refreshCycle id

/-- Count a watch. -/
def SummaryAcc.count (acc : SummaryAcc) (id : WatchId) : SummaryAcc :=
  { acc with
    pendingIds := id :: acc.pendingIds
    oldest := max acc.oldest (ageOf rs cycle id)
    ageSum := saturatingAddU64 acc.ageSum (ageOf rs cycle id) }

variable {requestSeq rs cycle}

theorem foldl_count (ids : List WatchId) (acc : SummaryAcc) :
    ids.foldl (SummaryAcc.count rs cycle) acc =
      { pendingIds := ids.reverse ++ acc.pendingIds
        bytes := acc.bytes
        oldest := (ids.map (ageOf rs cycle)).foldl max acc.oldest
        ageSum := (ids.map (ageOf rs cycle)).foldl saturatingAddU64 acc.ageSum } := by
  induction ids generalizing acc with
  | nil => rfl
  | cons id ids ih =>
      rw [List.foldl_cons, ih]
      simp [SummaryAcc.count]

/-- A watch that is not counted yet is counted when it is due. -/
theorem summarizeMember_eq {acc : SummaryAcc} {m : Member} (h : m.id ∉ acc.pendingIds)
    (flag : Bool) :
    summarizeMember requestSeq rs cycle (acc, flag) m =
      if Due requestSeq rs m.id then (acc.count rs cycle m.id, true) else (acc, flag) := by
  rw [summarizeMember]
  cases hseq : requestSeq.get m.id with
  | none =>
      have hnot : ¬ Due requestSeq rs m.id := by
        rw [Due, hseq]
        exact Nat.not_lt_zero _
      rw [if_neg hnot]
  | some seq =>
      have hfulfilled : ((rs.get m.id).getD { requestSeq := 0, refreshCycle := 0 }).requestSeq =
          rs.fulfilled m.id := by
        rw [ReadStates.fulfilled]
        cases rs.get m.id <;> rfl
      have hage : cycle - ((rs.get m.id).getD { requestSeq := 0, refreshCycle := 0 }).refreshCycle =
          ageOf rs cycle m.id := by
        rw [ageOf, ReadStates.refreshCycle]
        cases rs.get m.id <;> rfl
      have hdue : Due requestSeq rs m.id ↔ ¬ (seq ≤ rs.fulfilled m.id ∨ m.id ∈ acc.pendingIds) := by
        rw [Due, hseq]
        simp [h]
      simp only [hfulfilled, hage]
      by_cases hskip : seq ≤ rs.fulfilled m.id ∨ m.id ∈ acc.pendingIds
      · rw [if_pos hskip, if_neg (fun hd => hdue.mp hd hskip)]
      · rw [if_neg hskip, if_pos (hdue.mpr hskip)]
        rfl

/-- The members of a read, none of them counted yet. -/
theorem foldl_summarizeMember {ms : List Member} (hnodup : (ms.map (·.id)).Nodup)
    {acc : SummaryAcc} (hnew : ∀ m ∈ ms, m.id ∉ acc.pendingIds) (flag : Bool) :
    ms.foldl (summarizeMember requestSeq rs cycle) (acc, flag) =
      (((ms.map (·.id)).filter (Due requestSeq rs)).foldl (SummaryAcc.count rs cycle) acc,
        flag || ms.any fun m => Due requestSeq rs m.id) := by
  induction ms generalizing acc flag with
  | nil => simp
  | cons m ms ih =>
      rw [List.map_cons, List.nodup_cons] at hnodup
      have hm : m.id ∉ acc.pendingIds := hnew m (List.mem_cons_self ..)
      rw [List.foldl_cons, summarizeMember_eq hm]
      by_cases hdue : Due requestSeq rs m.id
      · have hnew' : ∀ m' ∈ ms, m'.id ∉ (acc.count rs cycle m.id).pendingIds := by
          intro m' hm' hmem
          rcases List.mem_cons.mp hmem with heq | hmem
          · exact hnodup.1 (heq ▸ List.mem_map_of_mem hm')
          · exact hnew m' (List.mem_cons_of_mem _ hm') hmem
        rw [if_pos hdue, ih hnodup.2 hnew', List.map_cons,
          List.filter_cons_of_pos (by simpa using hdue), List.foldl_cons]
        simp [hdue]
      · have hnew' : ∀ m' ∈ ms, m'.id ∉ acc.pendingIds :=
          fun m' hm' => hnew m' (List.mem_cons_of_mem _ hm')
        rw [if_neg hdue, ih hnodup.2 hnew', List.map_cons,
          List.filter_cons_of_neg (by simpa using hdue)]
        simp [hdue]

/-- A read has a watch that is due when `read_is_pending` accepts it. -/
theorem any_due_eq (read : CoalescedRead) :
    (read.members.any fun m => decide (Due requestSeq rs m.id)) =
      readIsPending read requestSeq rs [] := by
  simp [readIsPending, Due]

/-- The walk over reads that serve every watch once. -/
theorem foldl_summarizeRead {reads : List CoalescedRead} (hnodup : (memberIds reads).Nodup)
    {acc : SummaryAcc} (hnew : ∀ id ∈ memberIds reads, id ∉ acc.pendingIds) :
    let due := (memberIds reads).filter (Due requestSeq rs)
    reads.foldl (summarizeRead requestSeq rs cycle) acc =
      { pendingIds := due.reverse ++ acc.pendingIds
        bytes := ((reads.filter (readIsPending · requestSeq rs [])).map (·.region.size)).foldl
          U32.saturatingAdd acc.bytes
        oldest := (due.map (ageOf rs cycle)).foldl max acc.oldest
        ageSum := (due.map (ageOf rs cycle)).foldl saturatingAddU64 acc.ageSum } := by
  induction reads generalizing acc with
  | nil => rfl
  | cons r rs' ih =>
      rw [memberIds_cons, List.nodup_append] at hnodup
      obtain ⟨hhead, htail, hdisjoint⟩ := hnodup
      have hnewhead : ∀ m ∈ r.members, m.id ∉ acc.pendingIds := by
        intro m hm
        refine hnew m.id ?_
        rw [memberIds_cons]
        exact List.mem_append_left _ (List.mem_map_of_mem hm)
      have hmembers := @foldl_summarizeMember requestSeq rs cycle _ hhead _ hnewhead false
      have hnew' : ∀ id ∈ memberIds rs', id ∉
          (((r.members.map (·.id)).filter (Due requestSeq rs)).reverse ++ acc.pendingIds) := by
        intro id hid hmem
        rcases List.mem_append.mp hmem with hmem | hmem
        · have hhere := List.mem_of_mem_filter (List.mem_reverse.mp hmem)
          exact hdisjoint id hhere id hid rfl
        · exact hnew id (by rw [memberIds_cons]; exact List.mem_append_right _ hid) hmem
      rw [List.foldl_cons, summarizeRead, hmembers, foldl_count, Bool.false_or, any_due_eq]
      by_cases hp : readIsPending r requestSeq rs [] = true
      · simp only [hp, if_true]
        rw [ih htail hnew']
        simp [hp]
      · simp only [hp]
        rw [if_neg (by simp), ih htail hnew']
        simp [hp]

end Walk

-- ============================================================================
-- Sums that saturate
-- ============================================================================

theorem toNat_foldl_saturatingAdd (reads : List CoalescedRead) (acc : UInt32) :
    ((reads.map (·.region.size)).foldl U32.saturatingAdd acc).toNat =
      min (acc.toNat + batchBytes reads) (2 ^ 32 - 1) := by
  induction reads generalizing acc with
  | nil =>
      have hlt := acc.toNat_lt
      simp only [List.map_nil, List.foldl_nil, batchBytes, FirstFit.total_nil]
      omega
  | cons r rs ih =>
      rw [List.map_cons, List.foldl_cons, ih, U32.toNat_saturatingAdd, batchBytes, batchBytes,
        FirstFit.total_cons, CoalescedRead.bytes]
      omega

instance : RightCommutative saturatingAddU64 where
  right_comm a b c := by
    simp only [saturatingAddU64]
    omega

-- ============================================================================
-- The report and the scheduler
-- ============================================================================

namespace CycleCtx

/-- The report of a cycle, over the chunks of a budget. -/
def backlog (c : CycleCtx) (rs : ReadStates) (cycle : Nat) (budget : UInt32) : PendingSummary :=
  pendingSummary c.requestSeq rs cycle (c.chunked budget)

/-- The bulk watches that are due. -/
def dueWatches (c : CycleCtx) (rs : ReadStates) : List WatchHandle :=
  c.bulkEligible.filter fun w => Due c.requestSeq rs w.id

/-- The age of the watch that has waited longest. -/
def oldestDue (c : CycleCtx) (rs : ReadStates) (cycle : Nat) : Nat :=
  ((c.dueWatches rs).map fun w => ageOf rs cycle w.id).foldl max 0

end CycleCtx

variable {c : CycleCtx} {rs : ReadStates} {cycle : Nat}

/-- The ids that are due in the chunks are those of the due watches. -/
theorem perm_due_chunked (budget : UInt32) :
    ((memberIds (c.chunked budget)).filter (Due c.requestSeq rs)).Perm
      ((c.dueWatches rs).map (·.id)) := by
  have hperm := (memberIds_chunks c.bulkEligible c.cfg.coalesceGap budget).filter
    (Due c.requestSeq rs)
  rw [List.filter_map] at hperm
  exact hperm

/-- The report in closed form. -/
theorem backlog_eq (hids : (c.bulkEligible.map (·.id)).Nodup) (budget : UInt32) :
    c.backlog rs cycle budget =
      { watches := (c.dueWatches rs).length
        bytes := ((c.pending rs [] budget).map (·.region.size)).foldl U32.saturatingAdd 0
        oldestCycles := UInt32.ofNat (min (c.oldestDue rs cycle) (2 ^ 32 - 1))
        avgCycles := if (c.dueWatches rs).length = 0 then 0
          else (((c.dueWatches rs).map fun w => ageOf rs cycle w.id).foldl saturatingAddU64 0 : Nat) /
            (c.dueWatches rs).length } := by
  have hnodup : (memberIds (c.chunked budget)).Nodup :=
    (memberIds_chunks _ _ _).nodup_iff.mpr hids
  have hperm := @perm_due_chunked c rs budget
  have hages := hperm.map (ageOf rs cycle)
  rw [List.map_map] at hages
  rw [CycleCtx.backlog, pendingSummary, foldl_summarizeRead hnodup (by simp)]
  simp only [List.append_nil, List.length_reverse, hperm.length_eq, List.length_map,
    hages.foldl_eq]
  rfl

/-- A watch that is done and has its marker fulfilled does not wait, so a set of such
    watches does not change what is pending. -/
theorem waiting_eq_length_dueWatches {done : List WatchId}
    (hdone : ∀ id ∈ done, ¬ Due c.requestSeq rs id) :
    c.waiting ⟨rs, done⟩ = (c.dueWatches rs).length := by
  rw [CycleCtx.waiting, CycleCtx.dueWatches, ← List.countP_eq_length_filter]
  refine List.countP_congr ?_
  intro w _
  simp only [decide_eq_true_eq]
  exact ⟨fun h => h.2, fun h => ⟨fun hin => hdone _ hin h, h⟩⟩

/-- What the drain loop has done is fulfilled. -/
theorem not_due_of_done {rs₀ : ReadStates} {tr : List (DrainState × UInt32)} {t : DrainState}
    (hrun : Run (c.drainStep cycle) ⟨rs₀, []⟩ tr t) :
    ∀ id ∈ t.done, ¬ Due c.requestSeq t.readState id := by
  intro id hid hdue
  rcases served_run hrun id with ⟨hnot, -⟩ | hmarked
  · exact hnot hid
  · cases hseq : c.requestSeq.get id with
    | none =>
        rw [Due, hseq] at hdue
        exact absurd hdue (Nat.not_lt_zero _)
    | some seq =>
        rw [Due, hseq, fulfilled_of_get (hmarked seq hseq)] at hdue
        exact absurd hdue (Nat.lt_irrefl _)

/-- **The report agrees with the scheduler.**  For bulk watches with distinct ids the
    report counts the watches whose marker is not fulfilled, and its count and its
    ages are the same for every budget.  Its bytes are those of the reads that
    `read_is_pending` accepts, up to what a `u32` can hold.  It reports no watch
    exactly when nothing is pending, for any budget: at the start of the drain loop,
    and in every state the loop reaches. -/
theorem backlog_agrees (c : CycleCtx) (hids : (c.bulkEligible.map (·.id)).Nodup)
    (rs : ReadStates) (cycle : Nat) (budget : UInt32) :
    let report := c.backlog rs cycle budget
    report.watches =
        c.bulkEligible.countP (fun w => rs.fulfilled w.id < (c.requestSeq.get w.id).getD 0) ∧
      report.oldestCycles.toNat = min (c.oldestDue rs cycle) (2 ^ 32 - 1) ∧
      (∀ b, (c.backlog rs cycle b).watches = report.watches ∧
        (c.backlog rs cycle b).oldestCycles = report.oldestCycles ∧
        (c.backlog rs cycle b).avgCycles = report.avgCycles) ∧
      report.bytes.toNat = min (batchBytes (c.pending rs [] budget)) (2 ^ 32 - 1) ∧
      (∀ b, report.watches = 0 ↔ c.pending rs [] b = []) ∧
      ∀ tr t b, Run (c.drainStep cycle) ⟨rs, []⟩ tr t →
        ((c.backlog t.readState cycle budget).watches = 0 ↔
          c.pending t.readState t.done b = []) := by
  have hzero : ∀ (rs : ReadStates) (done : List WatchId),
      (∀ id ∈ done, ¬ Due c.requestSeq rs id) → ∀ b,
        ((c.backlog rs cycle budget).watches = 0 ↔ c.pending rs done b = []) := by
    intro rs done hdone b
    have hiff := pending_ne_nil_iff (c := c) (s := ⟨rs, done⟩) (b := b)
    rw [waiting_eq_length_dueWatches hdone, Nat.pos_iff_ne_zero] at hiff
    rw [backlog_eq hids]
    exact (not_iff_not.mp hiff).symm
  refine ⟨?_, ?_, ?_, ?_, hzero rs [] (by simp), ?_⟩
  · rw [backlog_eq hids, List.countP_eq_length_filter]
    rfl
  · rw [backlog_eq hids]
    exact UInt32.toNat_ofNat_of_lt' (by show _ < 2 ^ 32; omega)
  · intro b
    rw [backlog_eq hids, backlog_eq hids]
    exact ⟨rfl, rfl, rfl⟩
  · rw [backlog_eq hids]
    show ((List.map _ _).foldl U32.saturatingAdd 0).toNat = _
    rw [toNat_foldl_saturatingAdd, UInt32.toNat_zero, Nat.zero_add]
  · intro tr t b hrun
    exact hzero t.readState t.done (not_due_of_done hrun) b

/-- Two watches that were never read. -/
theorem backlog_agrees_adjacent : (adjacentWatches.backlog .empty 3 2048).watches = 2 :=
  (backlog_agrees adjacentWatches (by decide) .empty 3 2048).1.trans (by decide)

end Cache
end SniLua
