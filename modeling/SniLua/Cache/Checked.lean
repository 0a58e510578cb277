/-
  SniLua.Cache.Checked

  The same functions in a build with overflow checks: every `+` and `-` on `u32`
  stops the poll task (`none`) when its exact result is not a `u32`.  The one
  addition that is not checked is the gap of `coalesce`, which saturates.

  When the watches fit the address space no operation stops, and the result is
  the one of the wrapping build.  `coalesce` computes the end of every watch, so
  a watch that does not fit stops it.
-/

import SniLua.Lib.Checked
import SniLua.Cache.ReadOf
import SniLua.Cache.Select

namespace SniLua
namespace Cache
namespace Checked

open Lib

-- ============================================================================
-- coalesce
-- ============================================================================

def finishRun (start end_ : UInt32) (first : WatchHandle) (rest : List WatchHandle) :
    Option CoalescedRead := do
  let size ← checkedSub end_ start
  let members ← (first :: rest).mapM fun w => do
    let off ← checkedSub w.region.address start
    return Member.mk w.id off w.region.size
  return {
    region := { first.region with address := start, size }
    members
    priority := rest.foldl (fun p w => min p w.priority) first.priority }

def mergeRuns (gap : UInt32) (curStart curEnd : UInt32) (first : WatchHandle)
    (rest : List WatchHandle) : List WatchHandle → Option (List CoalescedRead)
  | [] => do return [← finishRun curStart curEnd first rest]
  | w :: ws => do
      let we ← checkedAdd w.region.address w.region.size
      if w.region.address ≤ U32.saturatingAdd curEnd gap then
        mergeRuns gap curStart (max curEnd we) first (rest ++ [w]) ws
      else
        let read ← finishRun curStart curEnd first rest
        let reads ← mergeRuns gap w.region.address we w [] ws
        return read :: reads

def coalesceGroup (gap : UInt32) (group : List WatchHandle) : Option (List CoalescedRead) :=
  match group.insertionSort fun a b => a.region.address ≤ b.region.address with
  | [] => some []
  | w :: ws => do
      let end_ ← checkedAdd w.region.address w.region.size
      mergeRuns gap w.region.address end_ w [] ws

def coalesce (watches : List WatchHandle) (gap : UInt32) : Option (List CoalescedRead) := do
  let groups ← spaceKeys.mapM fun key => coalesceGroup gap (groupOf watches key)
  return groups.flatten

-- ============================================================================
-- split_reads_to_budget
-- ============================================================================

def chunkOf (read : CoalescedRead) (start end_ : UInt32) (members : List Member) :
    Option CoalescedRead := do
  let size ← checkedSub end_ start
  return { region := { read.region with address := start, size }
           members
           priority := read.priority }

def splitChunks (read : CoalescedRead) (budget : UInt32) (start end_ : UInt32)
    (chunk : List Member) : List Member → Option (List CoalescedRead)
  | [] => do return [← chunkOf read start end_ chunk]
  | m :: ms => do
      let memberStart ← checkedAdd read.region.address m.off
      let memberEnd ← checkedAdd memberStart m.size
      let candidateEnd := max end_ memberEnd
      let candidateSize ← checkedSub candidateEnd start
      if budget < candidateSize then
        let done ← chunkOf read start end_ chunk
        let chunks ← splitChunks read budget memberStart memberEnd [⟨m.id, 0, m.size⟩] ms
        return done :: chunks
      else
        let off ← checkedSub memberStart start
        splitChunks read budget start candidateEnd (chunk ++ [⟨m.id, off, m.size⟩]) ms

def splitRead (budget : UInt32) (read : CoalescedRead) : Option (List CoalescedRead) :=
  if read.region.size ≤ budget then some [read]
  else
    match read.members.insertionSort fun a b => a.off ≤ b.off with
    | [] => some []
    | m :: ms => do
        let start ← checkedAdd read.region.address m.off
        let end_ ← checkedAdd start m.size
        splitChunks read budget start end_ [⟨m.id, 0, m.size⟩] ms

def splitReadsToBudget (reads : List CoalescedRead) (budget : UInt32) :
    Option (List CoalescedRead) := do
  let chunks ← reads.mapM (splitRead (max budget 1))
  return chunks.flatten

-- ============================================================================
-- apply_reads
-- ============================================================================

/-- What `apply_reads` writes for one read and its blob. -/
def sliceRead (read : CoalescedRead) (blob : List UInt8) :
    Option (List (WatchId × MemRegion × List UInt8)) := do
  let slices ← (read.members.filter fun m => m.off.toNat + m.size.toNat ≤ blob.length).mapM
    fun m => do
      let address ← checkedAdd read.region.address m.off
      return (m.id, { read.region with address, size := m.size },
        (blob.drop m.off.toNat).take m.size.toNat)
  return slices

def slices (reads : List CoalescedRead) (blobs : List (List UInt8)) :
    Option (List (WatchId × MemRegion × List UInt8)) := do
  let slices ← (reads.zip blobs).mapM fun (read, blob) => sliceRead read blob
  return slices.flatten

-- ============================================================================
-- Watches that fit stop nothing
-- ============================================================================

theorem finishRun_eq {key : AddressSpace × MemoryMapping} {start end_ : UInt32}
    {first : WatchHandle} {rest : List WatchHandle} (h : RunOk key start end_ (first :: rest)) :
    finishRun start end_ first rest = some (Cache.finishRun start end_ first rest) := by
  have hlow := h.lower first (List.mem_cons_self ..)
  have hup := h.upper first (List.mem_cons_self ..)
  have hmembers : ((first :: rest).mapM fun w => do
      let off ← checkedSub w.region.address start
      return Member.mk w.id off w.region.size) =
      some ((first :: rest).map fun w => ⟨w.id, w.region.address - start, w.region.size⟩) := by
    refine mapM_eq_some_map fun w hw => ?_
    rw [checkedSub_of_le (h.lower w hw)]
    rfl
  rw [finishRun]
  rw [checkedSub_of_le (by omega), hmembers]
  rfl

theorem mergeRuns_eq {key : AddressSpace × MemoryMapping} (gap start end_ : UInt32)
    (first : WatchHandle) (rest ws : List WatchHandle) (hrun : RunOk key start end_ (first :: rest))
    (hahead : Ahead key start ws) :
    mergeRuns gap start end_ first rest ws =
      some (Cache.mergeRuns gap start end_ first rest ws) := by
  induction ws generalizing start end_ first rest with
  | nil =>
      rw [mergeRuns, finishRun_eq hrun]
      rfl
  | cons w ws ih =>
      rw [mergeRuns, checkedAdd_of_lt hahead.head_fits]
      simp only [Cache.mergeRuns, Option.bind_eq_bind, Option.bind_some]
      split
      · exact ih _ _ _ _ (hahead.extend hrun) hahead.tail
      · rw [finishRun_eq hrun, ih _ _ w [] hahead.single hahead.next]
        rfl

theorem coalesceGroup_eq {watches : List WatchHandle} (hfit : ∀ w ∈ watches, w.region.Fits)
    (gap : UInt32) (key : AddressSpace × MemoryMapping) :
    coalesceGroup gap (groupOf watches key) =
      some (Cache.coalesceGroup gap (groupOf watches key)) := by
  rw [coalesceGroup, Cache.coalesceGroup]
  cases hsort : (groupOf watches key).insertionSort
      fun a b => a.region.address ≤ b.region.address with
  | nil => rfl
  | cons w ws =>
      obtain ⟨-, hahead⟩ := ahead_of_sortedGroup hfit hsort
      simp only [checkedAdd_of_lt hahead.head_fits, Option.bind_eq_bind, Option.bind_some]
      exact mergeRuns_eq gap _ _ w [] ws hahead.single hahead.tail

/-- Watches that fit are merged as in the wrapping build. -/
theorem coalesce_eq {watches : List WatchHandle} (hfit : ∀ w ∈ watches, w.region.Fits)
    (gap : UInt32) : coalesce watches gap = some (Cache.coalesce watches gap) := by
  rw [coalesce]
  rw [mapM_eq_some_map fun key _ => coalesceGroup_eq hfit gap key]
  rfl

-- ============================================================================
-- Reads that are faithful stop nothing
-- ============================================================================

theorem chunkOf_eq {read : CoalescedRead} {start end_ : UInt32} {chunk : List Member}
    (h : ChunkOk read start end_ chunk) :
    chunkOf read start end_ chunk = some (Cache.chunkOf read start end_ chunk) := by
  rw [chunkOf]
  rw [checkedSub_of_le h.nonempty]
  rfl

theorem splitChunks_eq {watches : List WatchHandle} {read : CoalescedRead}
    (hread : ReadOf watches read) (budget start end_ : UInt32) (chunk ms : List Member)
    (hchunk : ChunkOk read start end_ chunk) (hahead : MembersAhead read start ms) :
    splitChunks read budget start end_ chunk ms =
      some (Cache.splitChunks read budget start end_ chunk ms) := by
  induction ms generalizing start end_ chunk with
  | nil =>
      rw [splitChunks, chunkOf_eq hchunk]
      rfl
  | cons m ms ih =>
      obtain ⟨haddr, hend⟩ := hread.member_fits hahead.head_mem
      have hsum : (read.region.address + m.off).toNat =
          read.region.address.toNat + m.off.toNat := U32.toNat_add_of_lt haddr
      have hnext := hchunk.extend hread hahead.head_mem hahead.head_after
      have hsize : start.toNat ≤ (max end_ (read.region.address + m.off + m.size)).toNat :=
        hnext.nonempty
      have hoff : start.toNat ≤ (read.region.address + m.off).toNat := by
        rw [hsum]
        exact hahead.head_after
      simp only [splitChunks, Cache.splitChunks, checkedAdd_of_lt haddr, checkedAdd_of_lt hend,
        checkedSub_of_le hsize, checkedSub_of_le hoff, Option.bind_eq_bind, Option.bind_some]
      split
      · rw [chunkOf_eq hchunk, ih _ _ _ (ChunkOk.single hread hahead.head_mem) (hahead.next hread)]
        rfl
      · exact ih _ _ _ hnext hahead.tail

theorem splitRead_eq {watches : List WatchHandle} {read : CoalescedRead}
    (hread : ReadOf watches read) (budget : UInt32) :
    splitRead budget read = some (Cache.splitRead budget read) := by
  rw [splitRead, Cache.splitRead]
  split
  · rfl
  · cases hsort : read.members.insertionSort fun a b => a.off ≤ b.off with
    | nil => rfl
    | cons m ms =>
        obtain ⟨hfirst, hahead⟩ := hread.ahead hsort
        obtain ⟨haddr, hend⟩ := hread.member_fits hfirst
        simp only [checkedAdd_of_lt haddr, checkedAdd_of_lt hend, Option.bind_eq_bind,
          Option.bind_some]
        exact splitChunks_eq hread budget _ _ _ ms (ChunkOk.single hread hfirst) hahead

/-- Faithful reads are cut as in the wrapping build. -/
theorem splitReadsToBudget_eq {reads : List CoalescedRead}
    (hreads : ∀ r ∈ reads, ∃ watches, ReadOf watches r) (budget : UInt32) :
    splitReadsToBudget reads budget = some (Cache.splitReadsToBudget reads budget) := by
  rw [splitReadsToBudget]
  have hsplit : ∀ r ∈ reads, splitRead (max budget 1) r =
      some (Cache.splitRead (max budget 1) r) := by
    intro r hr
    obtain ⟨watches, hread⟩ := hreads r hr
    exact splitRead_eq hread _
  rw [mapM_eq_some_map hsplit]
  rfl

theorem sliceRead_eq {watches : List WatchHandle} {read : CoalescedRead}
    (hread : ReadOf watches read) (blob : List UInt8) :
    sliceRead read blob = some (read.members.filterMap fun m =>
      if m.off.toNat + m.size.toNat ≤ blob.length then
        some (m.id, read.memberRegion m, (blob.drop m.off.toNat).take m.size.toNat)
      else none) := by
  have haddr : ∀ m ∈ read.members.filter fun m => m.off.toNat + m.size.toNat ≤ blob.length,
      (do let address ← checkedAdd read.region.address m.off
          return (m.id, { read.region with address, size := m.size },
            (blob.drop m.off.toNat).take m.size.toNat)) =
        some (m.id, read.memberRegion m, (blob.drop m.off.toNat).take m.size.toNat) := by
    intro m hm
    rw [checkedAdd_of_lt (hread.member_fits (List.mem_filter.mp hm).1).1]
    rfl
  rw [sliceRead]
  rw [mapM_eq_some_map haddr, ← List.filterMap_eq_map, List.filterMap_filter]
  simp only [decide_eq_true_eq]
  rfl

/-- The replies to faithful reads are sliced as in the wrapping build. -/
theorem slices_eq {reads : List CoalescedRead}
    (hreads : ∀ r ∈ reads, ∃ watches, ReadOf watches r) (blobs : List (List UInt8)) :
    slices reads blobs = some (Cache.slices reads blobs) := by
  have hslice : ∀ p ∈ reads.zip blobs, sliceRead p.1 p.2 = some (p.1.members.filterMap fun m =>
      if m.off.toNat + m.size.toNat ≤ p.2.length then
        some (m.id, p.1.memberRegion m, (p.2.drop m.off.toNat).take m.size.toNat)
      else none) := by
    intro p hp
    obtain ⟨watches, hread⟩ := hreads p.1 (List.of_mem_zip hp).1
    exact sliceRead_eq hread p.2
  rw [slices]
  rw [mapM_eq_some_map hslice]
  rfl

-- ============================================================================
-- A watch that does not fit stops the merge
-- ============================================================================

theorem fits_of_mergeRuns {gap start end_ : UInt32} {first : WatchHandle}
    {rest ws : List WatchHandle} {reads : List CoalescedRead}
    (h : mergeRuns gap start end_ first rest ws = some reads) : ∀ w ∈ ws, w.region.Fits := by
  induction ws generalizing start end_ first rest reads with
  | nil => simp
  | cons w ws ih =>
      obtain ⟨we, hwe, h⟩ := Option.bind_eq_some_iff.mp h
      have htail : ∀ v ∈ ws, v.region.Fits := by
        split at h
        · exact ih h
        · obtain ⟨read, -, h⟩ := Option.bind_eq_some_iff.mp h
          obtain ⟨reads', hreads', -⟩ := Option.bind_eq_some_iff.mp h
          exact ih hreads'
      intro v hv
      rcases List.mem_cons.mp hv with rfl | hv
      · exact lt_of_checkedAdd hwe
      · exact htail v hv

theorem fits_of_coalesceGroup {gap : UInt32} {group : List WatchHandle}
    {reads : List CoalescedRead} (h : coalesceGroup gap group = some reads) :
    ∀ w ∈ group, w.region.Fits := by
  have hperm := List.perm_insertionSort
    (fun a b : WatchHandle => a.region.address ≤ b.region.address) group
  intro v hv
  rw [← hperm.mem_iff] at hv
  rw [coalesceGroup] at h
  cases hsort : group.insertionSort fun a b => a.region.address ≤ b.region.address with
  | nil =>
      rw [hsort] at hv
      exact absurd hv (by simp)
  | cons w ws =>
      rw [hsort] at hv h
      obtain ⟨end_, hend, h⟩ := Option.bind_eq_some_iff.mp h
      rcases List.mem_cons.mp hv with rfl | hv
      · exact lt_of_checkedAdd hend
      · exact fits_of_mergeRuns h v hv

/-- The merge stops unless every watch fits the address space. -/
theorem fits_of_coalesce {watches : List WatchHandle} {gap : UInt32}
    {reads : List CoalescedRead} (h : coalesce watches gap = some reads) :
    ∀ w ∈ watches, w.region.Fits := by
  intro w hw
  obtain ⟨groups, hgroups, -⟩ := Option.bind_eq_some_iff.mp h
  obtain ⟨reads', hreads'⟩ := exists_of_mapM_eq_some hgroups (w.region.space, w.region.mapping)
    (mem_spaceKeys _)
  exact fits_of_coalesceGroup hreads' w (mem_groupOf.mpr ⟨hw, rfl⟩)

end Checked
end Cache
end SniLua
