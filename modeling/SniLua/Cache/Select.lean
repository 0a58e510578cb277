/-
  SniLua.Cache.Select

  The fulfilment state of the engine and the choice of one bulk batch: which
  reads are pending (`read_is_pending`), which of them go into the batch
  (`select_bulk`), and what a completed batch writes (`mark_fulfilled`,
  `mark_done`, `apply_reads`).

  The facts the progress arguments use: the read `select_bulk` sorts first is
  always in the selection, and its oldest member is at least as old as the
  oldest member of every other pending read.
-/

import SniLua.Cache.Snapshot
import SniLua.Cache.Coalesce

namespace SniLua
namespace Cache

open Lib

structure ReadState where
  /-- Latest request marker fulfilled by a successful SNI read. -/
  requestSeq : Nat
  /-- Poll cycle when this watch was last refreshed. -/
  refreshCycle : Nat
deriving DecidableEq, Repr

abbrev ReadStates := HashMap WatchId ReadState

/-- The refresh cycle of a watch; never refreshed counts as cycle 0. -/
def ReadStates.refreshCycle (rs : ReadStates) (id : WatchId) : Nat :=
  ((rs.get id).map (·.refreshCycle)).getD 0

/-- The fulfilled marker of a watch; never refreshed counts as marker 0. -/
def ReadStates.fulfilled (rs : ReadStates) (id : WatchId) : Nat :=
  ((rs.get id).map (·.requestSeq)).getD 0

-- ============================================================================
-- select_bulk
-- ============================================================================

/-- The oldest member refresh cycle. -/
def oldestRefresh (rs : ReadStates) (r : CoalescedRead) : Nat :=
  ((r.members.map fun m => rs.refreshCycle m.id).min?).getD 0

def staleness (rs : ReadStates) (cycle : Nat) (r : CoalescedRead) : Nat :=
  cycle - oldestRefresh rs r

/-- Stalest first; priority and address only make ties deterministic. -/
def bulkLe (rs : ReadStates) (cycle : Nat) (a b : CoalescedRead) : Bool :=
  if staleness rs cycle a = staleness rs cycle b then
    if a.priority = b.priority then a.region.address ≤ b.region.address
    else a.priority < b.priority
  else staleness rs cycle b < staleness rs cycle a

/-- The greedy fill: admit what fits, skip what does not, and admit one oversized
    read when nothing has been selected before it. -/
def greedyFill (remaining : UInt32) (selectedEmpty : Bool) :
    List CoalescedRead → List CoalescedRead × Bool
  | [] => ([], false)
  | r :: rs =>
      if r.region.size ≤ remaining then
        let (selected, capped) := greedyFill (remaining - r.region.size) false rs
        (r :: selected, capped)
      else if selectedEmpty then ([r], true)
      else ((greedyFill remaining false rs).1, true)

structure BulkSelection where
  reads : List CoalescedRead
  capped : Bool

/-- Pick the pending reads of one drain iteration. -/
def selectBulk (reads : List CoalescedRead) (budget : UInt32) (rs : ReadStates) (cycle : Nat) :
    BulkSelection :=
  let sorted := reads.insertionSort fun a b => bulkLe rs cycle a b
  let (selected, capped) := greedyFill budget true sorted
  { reads := selected, capped }

-- ============================================================================
-- Pending reads and completed batches
-- ============================================================================

/-- Some member still waits for its marker and was not serviced this cycle. -/
def readIsPending (read : CoalescedRead) (requestSeq : HashMap WatchId Nat) (rs : ReadStates)
    (done : List WatchId) : Bool :=
  read.members.any fun m =>
    m.id ∉ done && rs.fulfilled m.id < (requestSeq.get m.id).getD 0

/-- Write the marker of every member that has one, and the cycle. -/
def markFulfilled (reads : List CoalescedRead) (requestSeq : HashMap WatchId Nat) (cycle : Nat)
    (rs : ReadStates) : ReadStates :=
  (memberIds reads).foldl (fun rs id =>
    match requestSeq.get id with
    | some seq => rs.insert id { requestSeq := seq, refreshCycle := cycle }
    | none => rs) rs

def markDone (reads : List CoalescedRead) (done : List WatchId) : List WatchId :=
  memberIds reads ++ done

/-- What `apply_reads` writes for a reply: the bytes of every member whose blob
    is long enough. -/
def slices (reads : List CoalescedRead) (blobs : List (List UInt8)) :
    List (WatchId × MemRegion × List UInt8) :=
  (reads.zip blobs).flatMap fun (read, blob) =>
    read.members.filterMap fun m =>
      if m.off.toNat + m.size.toNat ≤ blob.length then
        some (m.id, { read.region with address := read.region.address + m.off, size := m.size },
          (blob.drop m.off.toNat).take m.size.toNat)
      else none

/-- Slice each coalesced blob back to its member watches. -/
def applyReads (reads : List CoalescedRead) (blobs : List (List UInt8)) (b : SnapshotBuilder) :
    SnapshotBuilder :=
  (slices reads blobs).foldl (fun b s => b.set s.1 s.2.1 s.2.2) b

-- ============================================================================
-- Lemmas on the fulfilment state
-- ============================================================================

/-- `mark_fulfilled` in one lookup: the members that have a marker are written,
    the others keep their state. -/
theorem get_markFulfilled (reads : List CoalescedRead) (requestSeq : HashMap WatchId Nat)
    (cycle : Nat) (rs : ReadStates) (id : WatchId) :
    (markFulfilled reads requestSeq cycle rs).get id =
      if id ∈ memberIds reads then
        match requestSeq.get id with
        | some seq => some ⟨seq, cycle⟩
        | none => rs.get id
      else rs.get id := by
  rw [markFulfilled]
  induction memberIds reads generalizing rs with
  | nil => simp
  | cons i ids ih =>
      rw [List.foldl_cons, ih]
      by_cases hid : id = i
      · subst hid
        cases hseq : requestSeq.get id <;> simp
      · have hkeep : (match requestSeq.get i with
            | some seq => rs.insert i { requestSeq := seq, refreshCycle := cycle }
            | none => rs).get id = rs.get id := by
          cases requestSeq.get i with
          | none => rfl
          | some seq => exact HashMap.get_insert_of_ne _ _ hid
        simp [hid, hkeep]

/-- A watch outside the batch keeps its state. -/
theorem get_markFulfilled_of_not_mem {reads : List CoalescedRead} {id : WatchId}
    (h : id ∉ memberIds reads) (requestSeq : HashMap WatchId Nat) (cycle : Nat)
    (rs : ReadStates) : (markFulfilled reads requestSeq cycle rs).get id = rs.get id := by
  rw [get_markFulfilled, if_neg h]

theorem refreshCycle_of_get {rs : ReadStates} {id : WatchId} {st : ReadState}
    (h : rs.get id = some st) : rs.refreshCycle id = st.refreshCycle := by
  simp [ReadStates.refreshCycle, h]

theorem fulfilled_of_get {rs : ReadStates} {id : WatchId} {st : ReadState}
    (h : rs.get id = some st) : rs.fulfilled id = st.requestSeq := by
  simp [ReadStates.fulfilled, h]

/-- A watch with a marker in the batch is refreshed. -/
theorem refreshCycle_of_mem {reads : List CoalescedRead} {id : WatchId} {seq : Nat}
    (h : id ∈ memberIds reads) {requestSeq : HashMap WatchId Nat}
    (hseq : requestSeq.get id = some seq) (cycle : Nat) (rs : ReadStates) :
    (markFulfilled reads requestSeq cycle rs).refreshCycle id = cycle := by
  have hget : (markFulfilled reads requestSeq cycle rs).get id = some ⟨seq, cycle⟩ := by
    rw [get_markFulfilled, if_pos h, hseq]
  exact refreshCycle_of_get hget

/-- A lookup-wise equal state has the same refresh cycle and marker. -/
theorem refreshCycle_congr {rs rs' : ReadStates} {id : WatchId} (h : rs.get id = rs'.get id) :
    rs.refreshCycle id = rs'.refreshCycle id := by
  rw [ReadStates.refreshCycle, ReadStates.refreshCycle, h]

theorem fulfilled_congr {rs rs' : ReadStates} {id : WatchId} (h : rs.get id = rs'.get id) :
    rs.fulfilled id = rs'.fulfilled id := by
  rw [ReadStates.fulfilled, ReadStates.fulfilled, h]

/-- No member is older than the oldest. -/
theorem oldestRefresh_le (rs : ReadStates) {r : CoalescedRead} {m : Member} (hm : m ∈ r.members) :
    oldestRefresh rs r ≤ rs.refreshCycle m.id := by
  rw [oldestRefresh]
  have hmem : rs.refreshCycle m.id ∈ r.members.map fun m => rs.refreshCycle m.id :=
    List.mem_map_of_mem hm
  cases hmin : (r.members.map fun m => rs.refreshCycle m.id).min? with
  | none => simp
  | some a => exact (List.min?_eq_some_iff.mp hmin).2 _ hmem

/-- Some member is the oldest. -/
theorem exists_oldestRefresh (rs : ReadStates) {r : CoalescedRead} (h : r.members ≠ []) :
    ∃ m ∈ r.members, rs.refreshCycle m.id = oldestRefresh rs r := by
  rw [oldestRefresh]
  cases hmin : (r.members.map fun m => rs.refreshCycle m.id).min? with
  | none =>
      exact absurd (List.map_eq_nil_iff.mp (List.min?_eq_none_iff.mp hmin)) h
  | some a =>
      obtain ⟨m, hm, heq⟩ := List.mem_map.mp (List.min?_eq_some_iff.mp hmin).1
      exact ⟨m, hm, heq⟩

theorem readIsPending_iff {read : CoalescedRead} {requestSeq : HashMap WatchId Nat}
    {rs : ReadStates} {done : List WatchId} :
    readIsPending read requestSeq rs done = true ↔
      ∃ m ∈ read.members, m.id ∉ done ∧ rs.fulfilled m.id < (requestSeq.get m.id).getD 0 := by
  simp [readIsPending]

-- ============================================================================
-- Lemmas on the selection
-- ============================================================================

/-- The comparator as one lexicographic condition. -/
theorem bulkLe_iff {rs : ReadStates} {cycle : Nat} {a b : CoalescedRead} :
    bulkLe rs cycle a b ↔
      staleness rs cycle b < staleness rs cycle a ∨
      (staleness rs cycle a = staleness rs cycle b ∧
        (a.priority.rank < b.priority.rank ∨
          (a.priority.rank = b.priority.rank ∧
            a.region.address.toNat ≤ b.region.address.toNat))) := by
  have hprio : a.priority = b.priority ↔ a.priority.rank = b.priority.rank :=
    WatchPriority.rank_injective.eq_iff.symm
  have hlt : a.priority < b.priority ↔ a.priority.rank < b.priority.rank := Iff.rfl
  rw [bulkLe]
  by_cases hs : staleness rs cycle a = staleness rs cycle b
  · by_cases hp : a.priority = b.priority
    · simp [hs, hp, UInt32.le_iff_toNat_le]
    · simp [hs, hp, hlt, hprio.not.mp hp]
  · simp [hs]

instance (rs : ReadStates) (cycle : Nat) :
    Std.Total fun a b : CoalescedRead => bulkLe rs cycle a b = true where
  total a b := by
    rw [bulkLe_iff, bulkLe_iff]
    omega

instance (rs : ReadStates) (cycle : Nat) :
    IsTrans CoalescedRead fun a b => bulkLe rs cycle a b = true where
  trans a b c := by
    rw [bulkLe_iff, bulkLe_iff, bulkLe_iff]
    omega

/-- A read sorted before another is at least as stale. -/
theorem staleness_le_of_bulkLe {rs : ReadStates} {cycle : Nat} {a b : CoalescedRead}
    (h : bulkLe rs cycle a b) : staleness rs cycle b ≤ staleness rs cycle a := by
  rw [bulkLe_iff] at h
  omega

/-- The greedy fill keeps the order of its input. -/
theorem greedyFill_sublist (remaining : UInt32) (e : Bool) (reads : List CoalescedRead) :
    (greedyFill remaining e reads).1.Sublist reads := by
  induction reads generalizing remaining e with
  | nil => exact .slnil
  | cons r rs ih =>
      simp only [greedyFill]
      split
      · exact (ih _ _).cons_cons r
      · split
        · exact List.singleton_sublist.mpr (List.mem_cons_self ..)
        · exact (ih _ _).cons r

/-- The first read is admitted, within the budget or as the oversized one. -/
theorem head_mem_greedyFill (remaining : UInt32) (r : CoalescedRead) (rs : List CoalescedRead) :
    r ∈ (greedyFill remaining true (r :: rs)).1 := by
  simp only [greedyFill]
  split
  · exact List.mem_cons_self ..
  · exact List.mem_singleton_self r

theorem selectBulk_subperm (reads : List CoalescedRead) (budget : UInt32) (rs : ReadStates)
    (cycle : Nat) : (selectBulk reads budget rs cycle).reads.Subperm reads :=
  (greedyFill_sublist _ _ _).subperm.trans (List.perm_insertionSort _ _).subperm

theorem mem_of_mem_selectBulk {reads : List CoalescedRead} {budget : UInt32} {rs : ReadStates}
    {cycle : Nat} {r : CoalescedRead} (h : r ∈ (selectBulk reads budget rs cycle).reads) :
    r ∈ reads :=
  (selectBulk_subperm reads budget rs cycle).subset h

/-- The selection contains a read that no other read is sorted before. -/
theorem exists_head_selectBulk {reads : List CoalescedRead} (hne : reads ≠ []) (budget : UInt32)
    (rs : ReadStates) (cycle : Nat) :
    ∃ h ∈ (selectBulk reads budget rs cycle).reads, h ∈ reads ∧
      ∀ r ∈ reads, bulkLe rs cycle h r := by
  have hperm := List.perm_insertionSort (fun a b => bulkLe rs cycle a b = true) reads
  have hsort := List.pairwise_insertionSort (fun a b => bulkLe rs cycle a b = true) reads
  rw [selectBulk]
  cases hs : reads.insertionSort fun a b => bulkLe rs cycle a b with
  | nil =>
      rw [hs] at hperm
      exact absurd hperm.symm.eq_nil hne
  | cons h t =>
      rw [hs] at hperm hsort
      refine ⟨h, head_mem_greedyFill _ _ _, hperm.mem_iff.mp (List.mem_cons_self ..), ?_⟩
      intro r hr
      rcases List.mem_cons.mp (hperm.mem_iff.mpr hr) with rfl | hr
      · exact bulkLe_iff.mpr (Or.inr ⟨rfl, Or.inr ⟨rfl, Nat.le_refl _⟩⟩)
      · exact (List.pairwise_cons.mp hsort).1 r hr

/-- When no refresh lies after the current cycle, some member of the selected
    batch is at least as old as any member of any pending read. -/
theorem exists_oldest_selected {reads : List CoalescedRead} {budget : UInt32} {rs : ReadStates}
    {cycle : Nat} (hmembers : ∀ r ∈ reads, r.members ≠ [])
    (hle : ∀ id, rs.refreshCycle id ≤ cycle)
    {r : CoalescedRead} (hr : r ∈ reads) {m : Member} (hm : m ∈ r.members) :
    ∃ id ∈ memberIds (selectBulk reads budget rs cycle).reads,
      rs.refreshCycle id ≤ rs.refreshCycle m.id := by
  obtain ⟨h, hsel, hmem, hfirst⟩ :=
    exists_head_selectBulk (List.ne_nil_of_mem hr) budget rs cycle
  obtain ⟨o, ho, hold⟩ := exists_oldestRefresh rs (hmembers h hmem)
  refine ⟨o.id, mem_memberIds.mpr ⟨h, hsel, List.mem_map_of_mem ho⟩, ?_⟩
  have hstale := staleness_le_of_bulkLe (hfirst r hr)
  have h₁ := oldestRefresh_le rs hm
  have h₂ := hle o.id
  have h₃ := hle m.id
  unfold staleness at hstale
  omega

end Cache
end SniLua
