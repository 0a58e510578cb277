/-
  SniLua.Cache.Coalesce

  Merging watches into reads (`coalesce`, `finish_run`) and cutting reads that
  are larger than a budget (`split_reads_to_budget`).

  Two facts are kept through both passes and are all that later modules use.
  Each watch is a member of exactly one read (`memberIds` is a permutation of
  the watch ids), whatever the addresses.  And when no watch wraps around the
  end of the address space, a read is faithful (`ReadOf`): every member is one
  of the watches, found at its offset, and inside the read.
-/

import SniLua.Cache.Watch
import Mathlib.Data.List.Sort
import Mathlib.Data.List.Perm.Basic
import Mathlib.Data.List.Perm.Lattice
import Mathlib.Data.List.Perm.Subperm
import Mathlib.Tactic.ByContra

namespace SniLua
namespace Cache

/-- (watch id, byte offset within the read, watch size). -/
structure Member where
  id : WatchId
  off : UInt32
  size : UInt32
deriving DecidableEq, Repr

/-- A merged read covering one or more watches of the same address space. -/
structure CoalescedRead where
  region : MemRegion
  members : List Member
  /-- Most urgent priority among the members. -/
  priority : WatchPriority
deriving DecidableEq, Repr

/-- The watches a list of reads serves. -/
def memberIds (reads : List CoalescedRead) : List WatchId :=
  reads.flatMap fun r => r.members.map (·.id)

-- ============================================================================
-- coalesce
-- ============================================================================

/-- One read for the run `[start, end)` of the watches `first :: rest`. -/
def finishRun (start end_ : UInt32) (first : WatchHandle) (rest : List WatchHandle) :
    CoalescedRead :=
  { region :=
      { address := start
        size := end_ - start
        space := first.region.space
        mapping := first.region.mapping }
    members := (first :: rest).map fun w => ⟨w.id, w.region.address - start, w.region.size⟩
    priority := rest.foldl (fun p w => min p w.priority) first.priority }

/-- The merge loop over the rest of a sorted group; the current run is
    `[curStart, curEnd)` with the members `first :: rest`. -/
def mergeRuns (gap : UInt32) (curStart curEnd : UInt32) (first : WatchHandle)
    (rest : List WatchHandle) : List WatchHandle → List CoalescedRead
  | [] => [finishRun curStart curEnd first rest]
  | w :: ws =>
      let ws' := w.region.address
      let we := ws' + w.region.size
      if ws' ≤ U32.saturatingAdd curEnd gap then
        -- overlaps or close enough: extend the current run
        mergeRuns gap curStart (max curEnd we) first (rest ++ [w]) ws
      else
        finishRun curStart curEnd first rest :: mergeRuns gap ws' we w [] ws

/-- The reads of one group: sort by address, then merge. -/
def coalesceGroup (gap : UInt32) (group : List WatchHandle) : List CoalescedRead :=
  match group.insertionSort fun a b => a.region.address ≤ b.region.address with
  | [] => []
  | w :: ws => mergeRuns gap w.region.address (w.region.address + w.region.size) w [] ws

/-- The group keys in the order the `BTreeMap` over (space, mapping) iterates. -/
def spaceKeys : List (AddressSpace × MemoryMapping) :=
  AddressSpace.all.flatMap fun a => MemoryMapping.all.map fun m => (a, m)

/-- The watches of one group, in the order they were given. -/
def groupOf (watches : List WatchHandle) (key : AddressSpace × MemoryMapping) : List WatchHandle :=
  watches.filter fun w => (w.region.space, w.region.mapping) = key

/-- Merge the watches of each address space whose ranges are within `gap` bytes
    of each other. -/
def coalesce (watches : List WatchHandle) (gap : UInt32) : List CoalescedRead :=
  spaceKeys.flatMap fun key => coalesceGroup gap (groupOf watches key)

-- ============================================================================
-- split_reads_to_budget
-- ============================================================================

/-- The chunk of `read` from `start` to `end_`. -/
def chunkOf (read : CoalescedRead) (start end_ : UInt32) (members : List Member) :
    CoalescedRead :=
  { region := { read.region with address := start, size := end_ - start }
    members
    priority := read.priority }

/-- The two nested loops over the sorted members: the inner one extends the
    chunk `[start, end_)` while it stays within the budget, the outer one pushes
    it and opens the next at the member that did not fit. -/
def splitChunks (read : CoalescedRead) (budget : UInt32) (start end_ : UInt32)
    (chunk : List Member) : List Member → List CoalescedRead
  | [] => [chunkOf read start end_ chunk]
  | m :: ms =>
      let memberStart := read.region.address + m.off
      let memberEnd := memberStart + m.size
      let candidateEnd := max end_ memberEnd
      if budget < candidateEnd - start then
        chunkOf read start end_ chunk ::
          splitChunks read budget memberStart memberEnd [⟨m.id, 0, m.size⟩] ms
      else
        splitChunks read budget start candidateEnd
          (chunk ++ [⟨m.id, memberStart - start, m.size⟩]) ms

/-- Cut one read; a read within the budget is passed through. -/
def splitRead (budget : UInt32) (read : CoalescedRead) : List CoalescedRead :=
  if read.region.size ≤ budget then [read]
  else
    match read.members.insertionSort fun a b => a.off ≤ b.off with
    | [] => []
    | m :: ms =>
        let start := read.region.address + m.off
        splitChunks read budget start (start + m.size) [⟨m.id, 0, m.size⟩] ms

/-- Cut every read that is larger than `max(budget, 1)`. -/
def splitReadsToBudget (reads : List CoalescedRead) (budget : UInt32) : List CoalescedRead :=
  reads.flatMap (splitRead (max budget 1))

-- ============================================================================
-- Every watch is in exactly one read
-- ============================================================================

@[simp] theorem memberIds_nil : memberIds [] = [] := rfl

@[simp] theorem memberIds_cons (r : CoalescedRead) (rs : List CoalescedRead) :
    memberIds (r :: rs) = r.members.map (·.id) ++ memberIds rs := rfl

theorem memberIds_flatMap {α : Type} (l : List α) (f : α → List CoalescedRead) :
    memberIds (l.flatMap f) = l.flatMap fun a => memberIds (f a) :=
  List.flatMap_assoc

theorem mem_memberIds {reads : List CoalescedRead} {id : WatchId} :
    id ∈ memberIds reads ↔ ∃ r ∈ reads, id ∈ r.members.map (·.id) :=
  List.mem_flatMap

theorem memberIds_mergeRuns (gap curStart curEnd : UInt32) (first : WatchHandle)
    (rest ws : List WatchHandle) :
    memberIds (mergeRuns gap curStart curEnd first rest ws) =
      ((first :: rest) ++ ws).map (·.id) := by
  induction ws generalizing curStart curEnd first rest with
  | nil => simp [mergeRuns, finishRun, Function.comp_def]
  | cons w ws ih =>
      simp only [mergeRuns]
      split
      · rw [ih]; simp
      · rw [memberIds_cons, ih]
        simp [finishRun, Function.comp_def]

theorem memberIds_coalesceGroup (gap : UInt32) (group : List WatchHandle) :
    (memberIds (coalesceGroup gap group)).Perm (group.map (·.id)) := by
  have hsort := (List.perm_insertionSort
    (fun a b : WatchHandle => a.region.address ≤ b.region.address) group).map (·.id)
  rw [coalesceGroup]
  split
  · rename_i h
    rw [h] at hsort
    simpa using hsort
  · rename_i w ws h
    rw [h] at hsort
    rw [memberIds_mergeRuns]
    simpa using hsort

theorem nodup_spaceKeys : spaceKeys.Nodup := by decide

theorem mem_spaceKeys (key : AddressSpace × MemoryMapping) : key ∈ spaceKeys :=
  List.mem_flatMap.mpr ⟨key.1, AddressSpace.mem_all _, List.mem_map.mpr
    ⟨key.2, MemoryMapping.mem_all _, rfl⟩⟩

theorem mem_groupOf {watches : List WatchHandle} {key : AddressSpace × MemoryMapping}
    {w : WatchHandle} :
    w ∈ groupOf watches key ↔ w ∈ watches ∧ (w.region.space, w.region.mapping) = key := by
  simp [groupOf]

theorem perm_sortedGroup (watches : List WatchHandle) (key : AddressSpace × MemoryMapping) :
    ((groupOf watches key).insertionSort fun a b => a.region.address ≤ b.region.address).Perm
      (groupOf watches key) :=
  List.perm_insertionSort _ _

theorem sorted_sortedGroup (watches : List WatchHandle) (key : AddressSpace × MemoryMapping) :
    ((groupOf watches key).insertionSort fun a b => a.region.address ≤ b.region.address).Pairwise
      fun a b => a.region.address.toNat ≤ b.region.address.toNat :=
  List.pairwise_insertionSort
    (fun a b : WatchHandle => a.region.address.toNat ≤ b.region.address.toNat) _

/-- The groups of a list of distinct keys partition the watches filed under them. -/
theorem flatMap_groupOf_perm (watches : List WatchHandle)
    (keys : List (AddressSpace × MemoryMapping)) (h : keys.Nodup) :
    (keys.flatMap (groupOf watches)).Perm
      (watches.filter fun w => (w.region.space, w.region.mapping) ∈ keys) := by
  induction keys with
  | nil => simp
  | cons key keys ih =>
      obtain ⟨hnot, hnodup⟩ := List.nodup_cons.mp h
      rw [List.flatMap_cons]
      have hsplit := List.filter_append_perm
        (fun w : WatchHandle => decide ((w.region.space, w.region.mapping) = key))
        (watches.filter fun w => (w.region.space, w.region.mapping) ∈ key :: keys)
      refine List.Perm.trans (List.Perm.append ?_ ?_) hsplit
      · rw [List.filter_filter]
        refine List.Perm.of_eq (List.filter_congr ?_)
        intro w _
        by_cases hw : (w.region.space, w.region.mapping) = key <;> simp [hw]
      · refine (ih hnodup).trans (List.Perm.of_eq ?_)
        rw [List.filter_filter]
        refine List.filter_congr ?_
        intro w _
        by_cases hw : (w.region.space, w.region.mapping) = key
        · simp [hw, hnot]
        · simp [hw]

/-- The groups of all keys partition the watches. -/
theorem flatMap_groupOf_spaceKeys (watches : List WatchHandle) :
    (spaceKeys.flatMap (groupOf watches)).Perm watches := by
  have hall : (watches.filter fun w => (w.region.space, w.region.mapping) ∈ spaceKeys) = watches :=
    List.filter_eq_self.mpr fun w _ => by simpa using mem_spaceKeys _
  have hperm := flatMap_groupOf_perm watches spaceKeys nodup_spaceKeys
  rw [hall] at hperm
  exact hperm

/-- Each watch is a member of exactly one coalesced read. -/
theorem memberIds_coalesce (watches : List WatchHandle) (gap : UInt32) :
    (memberIds (coalesce watches gap)).Perm (watches.map (·.id)) := by
  rw [coalesce]
  rw [memberIds_flatMap]
  have hgroups : (spaceKeys.flatMap fun key =>
      memberIds (coalesceGroup gap (groupOf watches key))).Perm
      (spaceKeys.flatMap fun key => (groupOf watches key).map (·.id)) :=
    List.Perm.flatMap_left _ fun key _ => memberIds_coalesceGroup gap _
  refine hgroups.trans ?_
  rw [← List.map_flatMap]
  exact (flatMap_groupOf_spaceKeys watches).map _

theorem memberIds_splitChunks (read : CoalescedRead) (budget start end_ : UInt32)
    (chunk ms : List Member) :
    memberIds (splitChunks read budget start end_ chunk ms) = (chunk ++ ms).map (·.id) := by
  induction ms generalizing start end_ chunk with
  | nil => simp [splitChunks, chunkOf]
  | cons m ms ih =>
      simp only [splitChunks]
      split
      · rw [memberIds_cons, ih]; simp [chunkOf]
      · rw [ih]; simp

theorem memberIds_splitRead (budget : UInt32) (read : CoalescedRead) :
    (memberIds (splitRead budget read)).Perm (read.members.map (·.id)) := by
  rw [splitRead]
  split
  · simp
  · have hsort := (List.perm_insertionSort (fun a b : Member => a.off ≤ b.off)
      read.members).map (·.id)
    split
    · rename_i h
      rw [h] at hsort
      simpa using hsort
    · rename_i m ms h
      rw [h] at hsort
      rw [memberIds_splitChunks]
      simpa using hsort

/-- Cutting reads moves every member into exactly one chunk. -/
theorem memberIds_splitReadsToBudget (reads : List CoalescedRead) (budget : UInt32) :
    (memberIds (splitReadsToBudget reads budget)).Perm (memberIds reads) := by
  rw [splitReadsToBudget]
  rw [memberIds_flatMap]
  exact List.Perm.flatMap_left _ fun r _ => memberIds_splitRead _ r

/-- The budget-sized reads of a cycle serve every eligible watch exactly once. -/
theorem memberIds_chunks (watches : List WatchHandle) (gap budget : UInt32) :
    (memberIds (splitReadsToBudget (coalesce watches gap) budget)).Perm (watches.map (·.id)) :=
  (memberIds_splitReadsToBudget _ _).trans (memberIds_coalesce _ _)

end Cache
end SniLua
