/-
  SniLua.Cache.Canonical

  `coalesce` is the canonical gap-merge.  Within one group the merge loop is the
  abstract `GapMerge.merge` of the watches sorted by address, an interval each,
  and `finish_run` turns a run into the read from its smallest start to its
  largest end.  The runs of the abstract merge are the only partition into chains
  that are more than `gap` bytes apart, so the reads do not depend on the order
  in which the watches are given.
-/

import SniLua.Lib.GapMerge
import SniLua.Cache.ReadOf
import Mathlib.Data.List.Forall2
import Mathlib.Data.List.Induction
import Mathlib.Data.Multiset.Defs
import Mathlib.Order.MinMax

namespace SniLua
namespace Cache

open Lib

-- ============================================================================
-- Watches as intervals
-- ============================================================================

/-- The address a watch starts at. -/
def WatchHandle.start (w : WatchHandle) : Nat := w.region.address.toNat

/-- The address after its last byte. -/
def WatchHandle.stop (w : WatchHandle) : Nat := w.region.address.toNat + w.region.size.toNat

theorem WatchHandle.start_le_stop (w : WatchHandle) : w.start ≤ w.stop := Nat.le_add_right _ _

/-- A run of watches in address order: each after the first starts at most `gap`
    bytes past the end of one before it. -/
abbrev RunChain (gap : Nat) : List WatchHandle → Prop :=
  GapMerge.Chain WatchHandle.start WatchHandle.stop gap

/-- More than `gap` bytes lie between every watch of the two runs. -/
abbrev RunApart (gap : Nat) : List WatchHandle → List WatchHandle → Prop :=
  GapMerge.Apart WatchHandle.start WatchHandle.stop gap

/-- The runs of one group. -/
def runsOf (watches : List WatchHandle) (gap : Nat) (key : AddressSpace × MemoryMapping) :
    List (List WatchHandle) :=
  GapMerge.merge WatchHandle.start WatchHandle.stop gap
    ((groupOf watches key).insertionSort fun a b => a.region.address ≤ b.region.address)

/-- The address of the read. -/
def CoalescedRead.start (r : CoalescedRead) : Nat := r.region.address.toNat

/-- The address after its last byte. -/
def CoalescedRead.stop (r : CoalescedRead) : Nat := r.region.address.toNat + r.region.size.toNat

/-- The member a read holds for a watch: its id, its offset, its size. -/
def CoalescedRead.memberOf (r : CoalescedRead) (w : WatchHandle) : Member :=
  ⟨w.id, w.region.address - r.region.address, w.region.size⟩

/-- The read is exactly the one of the run. -/
structure CoversRun (run : List WatchHandle) (r : CoalescedRead) : Prop where
  members : r.members = run.map r.memberOf
  space : ∀ w ∈ run, w.region.space = r.region.space ∧ w.region.mapping = r.region.mapping
  offset : ∀ w ∈ run, r.start + (r.memberOf w).off.toNat = w.start
  inside : ∀ w ∈ run, (r.memberOf w).off.toNat + (r.memberOf w).size.toNat ≤ r.region.size.toNat
  start : (∃ w ∈ run, w.start = r.start) ∧ ∀ w ∈ run, r.start ≤ w.start
  stop : (∃ w ∈ run, w.stop = r.stop) ∧ ∀ w ∈ run, w.stop ≤ r.stop
  priority : (∃ w ∈ run, w.priority = r.priority) ∧ ∀ w ∈ run, r.priority ≤ w.priority

-- ============================================================================
-- The merge loop is the abstract merge
-- ============================================================================

/-- The most urgent priority of a run. -/
theorem foldl_min_priority (first : WatchHandle) (rest : List WatchHandle) :
    let p := rest.foldl (fun p w => min p w.priority) first.priority
    (∃ w ∈ first :: rest, w.priority = p) ∧ ∀ w ∈ first :: rest, p ≤ w.priority := by
  induction rest using List.reverseRecOn with
  | nil => simp
  | append_singleton rest v ih =>
      obtain ⟨⟨w, hw, hwp⟩, hle⟩ := ih
      simp only [List.foldl_append, List.foldl_cons, List.foldl_nil]
      constructor
      · rcases min_choice (rest.foldl (fun p w => min p w.priority) first.priority) v.priority
          with h | h
        · exact ⟨w, by rw [← List.cons_append]; exact List.mem_append_left _ hw, hwp.trans h.symm⟩
        · exact ⟨v, by simp, h.symm⟩
      · intro u hu
        rw [← List.cons_append] at hu
        rcases List.mem_append.mp hu with hu | hu
        · exact (min_le_left _ _).trans (hle u hu)
        · rw [List.mem_singleton.mp hu]
          exact min_le_right _ _

/-- `finish_run` makes the read of its run. -/
theorem coversRun_finishRun {key : AddressSpace × MemoryMapping} {end_ : UInt32}
    {first : WatchHandle} {rest : List WatchHandle}
    (h : RunOk key first.region.address end_ (first :: rest))
    (hreach : GapMerge.Reaches WatchHandle.stop end_.toNat (first :: rest)) :
    CoversRun (first :: rest) (finishRun first.region.address end_ first rest) := by
  have hfirst := h.upper first (List.mem_cons_self ..)
  have hle : first.region.address.toNat ≤ end_.toNat := by omega
  have hsize : (end_ - first.region.address).toNat = end_.toNat - first.region.address.toNat :=
    U32.toNat_sub_of_le hle
  have hoff : ∀ w ∈ first :: rest, (w.region.address - first.region.address).toNat =
      w.region.address.toNat - first.region.address.toNat :=
    fun w hw => U32.toNat_sub_of_le (h.lower w hw)
  have hstop : (finishRun first.region.address end_ first rest).stop = end_.toNat := by
    show first.region.address.toNat + (end_ - first.region.address).toNat = _
    omega
  refine ⟨rfl, ?_, ?_, ?_, ?_, ?_, foldl_min_priority first rest⟩
  · intro w hw
    exact Prod.mk.inj ((h.key w hw).trans (h.key first (List.mem_cons_self ..)).symm)
  · intro w hw
    have hlow := h.lower w hw
    show first.region.address.toNat + (w.region.address - first.region.address).toNat = w.start
    rw [hoff w hw, WatchHandle.start]
    omega
  · intro w hw
    have hlow := h.lower w hw
    have hup := h.upper w hw
    show (w.region.address - first.region.address).toNat + w.region.size.toNat ≤
      (end_ - first.region.address).toNat
    rw [hoff w hw, hsize]
    omega
  · exact ⟨⟨first, List.mem_cons_self .., rfl⟩, h.lower⟩
  · rw [hstop]
    exact ⟨hreach.attained, hreach.upper⟩

/-- The gap test of the loop is the abstract one, whether or not it saturates. -/
theorem le_saturatingAdd_iff (a end_ gap : UInt32) :
    a ≤ U32.saturatingAdd end_ gap ↔ a.toNat ≤ end_.toNat + gap.toNat := by
  rw [UInt32.le_iff_toNat_le, U32.toNat_saturatingAdd]
  have := a.toNat_lt
  omega

/-- The merge loop makes the reads of the abstract runs. -/
theorem coversRun_mergeRuns {key : AddressSpace × MemoryMapping} (gap end_ : UInt32)
    (first : WatchHandle) (rest ws : List WatchHandle)
    (hrun : RunOk key first.region.address end_ (first :: rest))
    (hreach : GapMerge.Reaches WatchHandle.stop end_.toNat (first :: rest))
    (hahead : Ahead key first.region.address ws) :
    List.Forall₂ CoversRun
      (GapMerge.grow WatchHandle.start WatchHandle.stop gap.toNat end_.toNat (first :: rest) ws)
      (mergeRuns gap first.region.address end_ first rest ws) := by
  induction ws generalizing end_ first rest with
  | nil => exact .cons (coversRun_finishRun hrun hreach) .nil
  | cons w ws ih =>
      have hwstop : (w.region.address + w.region.size).toNat = w.stop :=
        U32.toNat_add_of_lt hahead.head_fits
      by_cases hgap : w.start ≤ end_.toNat + gap.toNat
      · have hmax : (max end_ (w.region.address + w.region.size)).toNat =
            max end_.toNat w.stop := by
          rw [U32.toNat_max, hwstop]
        simp only [mergeRuns, GapMerge.grow]
        rw [if_pos hgap, if_pos ((le_saturatingAdd_iff ..).mpr hgap), ← hmax, List.cons_append]
        refine ih _ first (rest ++ [w]) (hahead.extend hrun) ?_ hahead.tail
        rw [hmax]
        exact hreach.extend w
      · simp only [mergeRuns, GapMerge.grow]
        rw [if_neg hgap, if_neg ((le_saturatingAdd_iff ..).not.mpr hgap), ← hwstop]
        refine .cons (coversRun_finishRun hrun hreach) (ih _ w [] hahead.single ?_ hahead.next)
        rw [hwstop]
        exact .single w

-- ============================================================================
-- The reads of one group
-- ============================================================================

/-- The reads of a group are those of its runs. -/
theorem coversRun_coalesceGroup {watches : List WatchHandle}
    (hfit : ∀ w ∈ watches, w.region.Fits) (gap : UInt32) (key : AddressSpace × MemoryMapping) :
    List.Forall₂ CoversRun (runsOf watches gap.toNat key)
      (coalesceGroup gap (groupOf watches key)) := by
  rw [runsOf, coalesceGroup]
  split
  · rename_i h
    rw [h]
    exact .nil
  · rename_i w ws h
    obtain ⟨-, hahead⟩ := ahead_of_sortedGroup hfit h
    have hwstop : (w.region.address + w.region.size).toNat = w.stop :=
      U32.toNat_add_of_lt hahead.head_fits
    rw [h, GapMerge.merge, ← hwstop]
    refine coversRun_mergeRuns gap _ w [] ws hahead.single ?_ hahead.tail
    rw [hwstop]
    exact .single w

/-- The runs of a group are chains. -/
theorem chain_of_mem_runsOf {watches : List WatchHandle} {gap : Nat}
    {key : AddressSpace × MemoryMapping} : ∀ run ∈ runsOf watches gap key, RunChain gap run :=
  GapMerge.chain_of_mem_merge (sorted_sortedGroup watches key)

theorem apart_runsOf (watches : List WatchHandle) (gap : Nat)
    (key : AddressSpace × MemoryMapping) : (runsOf watches gap key).Pairwise (RunApart gap) :=
  GapMerge.apart_merge (sorted_sortedGroup watches key)

theorem perm_flatten_runsOf (watches : List WatchHandle) (gap : Nat)
    (key : AddressSpace × MemoryMapping) :
    (runsOf watches gap key).flatten.Perm (groupOf watches key) := by
  rw [runsOf, GapMerge.flatten_merge]
  exact perm_sortedGroup watches key

/-- Runs that are apart make reads that are. -/
theorem CoversRun.apart {run run' : List WatchHandle} {r q : CoalescedRead} {gap : Nat}
    (hr : CoversRun run r) (hq : CoversRun run' q) (h : RunApart gap run run') :
    r.stop + gap < q.start := by
  obtain ⟨w, hw, hwr⟩ := hr.stop.1
  obtain ⟨v, hv, hvq⟩ := hq.start.1
  rw [← hwr, ← hvq]
  exact h w hw v hv

/-- The reads of two orders of one run differ in the order of their members only. -/
theorem CoversRun.eq_of_perm {run run' : List WatchHandle} {r q : CoalescedRead}
    (hr : CoversRun run r) (hq : CoversRun run' q) (hperm : run.Perm run') :
    r.region = q.region ∧ r.priority = q.priority ∧ r.members.Perm q.members := by
  have hmem := fun w => hperm.mem_iff (a := w)
  obtain ⟨w₁, hw₁, hstart₁⟩ := hr.start.1
  obtain ⟨w₂, hw₂, hstart₂⟩ := hq.start.1
  obtain ⟨w₃, hw₃, hstop₃⟩ := hr.stop.1
  obtain ⟨w₄, hw₄, hstop₄⟩ := hq.stop.1
  obtain ⟨w₅, hw₅, hprio₅⟩ := hr.priority.1
  obtain ⟨w₆, hw₆, hprio₆⟩ := hq.priority.1
  have hstart : r.start = q.start := by
    have h₁ := hq.start.2 w₁ ((hmem w₁).mp hw₁)
    have h₂ := hr.start.2 w₂ ((hmem w₂).mpr hw₂)
    omega
  have hstop : r.stop = q.stop := by
    have h₁ := hq.stop.2 w₃ ((hmem w₃).mp hw₃)
    have h₂ := hr.stop.2 w₄ ((hmem w₄).mpr hw₄)
    omega
  have hprio : r.priority = q.priority := by
    have h₁ := hq.priority.2 w₅ ((hmem w₅).mp hw₅)
    have h₂ := hr.priority.2 w₆ ((hmem w₆).mpr hw₆)
    rw [hprio₅] at h₁
    rw [hprio₆] at h₂
    exact le_antisymm h₂ h₁
  have haddr : r.region.address = q.region.address := UInt32.toNat_inj.mp hstart
  have hregion : r.region = q.region := by
    obtain ⟨hspace, hmap⟩ := hr.space w₁ hw₁
    obtain ⟨hspace', hmap'⟩ := hq.space w₁ ((hmem w₁).mp hw₁)
    have hsize : r.region.size.toNat = q.region.size.toNat := by
      unfold CoalescedRead.start at hstart
      unfold CoalescedRead.stop at hstop
      omega
    rw [MemRegion.mk.injEq]
    exact ⟨haddr, UInt32.toNat_inj.mp hsize, hspace.symm.trans hspace', hmap.symm.trans hmap'⟩
  refine ⟨hregion, hprio, ?_⟩
  have hmemberOf : r.memberOf = q.memberOf := by
    funext w
    rw [CoalescedRead.memberOf, CoalescedRead.memberOf, haddr]
  rw [hr.members, hq.members, hmemberOf]
  exact hperm.map _

-- ============================================================================
-- The reads of all groups
-- ============================================================================

/-- The runs of all groups, in the order of the reads. -/
def allRuns (watches : List WatchHandle) (gap : Nat) : List (List WatchHandle) :=
  spaceKeys.flatMap (runsOf watches gap)

theorem perm_flatten_allRuns (watches : List WatchHandle) (gap : Nat) :
    (allRuns watches gap).flatten.Perm watches := by
  have hflat : (allRuns watches gap).flatten =
      spaceKeys.flatMap fun key => (runsOf watches gap key).flatten := by
    rw [allRuns, List.flatMap, List.flatMap, List.flatten_flatten, List.map_map]
    rfl
  rw [hflat]
  have hgroups : (spaceKeys.flatMap fun key => (runsOf watches gap key).flatten).Perm
      (spaceKeys.flatMap (groupOf watches)) :=
    List.Perm.flatMap_left _ fun key _ => perm_flatten_runsOf watches gap key
  exact hgroups.trans (flatMap_groupOf_spaceKeys watches)

theorem coversRun_coalesce {watches : List WatchHandle} (hfit : ∀ w ∈ watches, w.region.Fits)
    (gap : UInt32) :
    List.Forall₂ CoversRun (allRuns watches gap.toNat) (coalesce watches gap) := by
  rw [allRuns, coalesce]
  induction spaceKeys with
  | nil => exact .nil
  | cons key keys ih =>
      rw [List.flatMap_cons, List.flatMap_cons]
      exact List.rel_append (coversRun_coalesceGroup hfit gap key) ih

/-- Every read belongs to a run. -/
theorem exists_run {runs : List (List WatchHandle)} {reads : List CoalescedRead}
    (h : List.Forall₂ CoversRun runs reads) {r : CoalescedRead} (hr : r ∈ reads) :
    ∃ run ∈ runs, CoversRun run r := by
  induction h with
  | nil => exact absurd hr (by simp)
  | @cons run q runs reads hq _ ih =>
      rcases List.mem_cons.mp hr with rfl | hr
      · exact ⟨run, List.mem_cons_self .., hq⟩
      · obtain ⟨run', hrun', hr⟩ := ih hr
        exact ⟨run', List.mem_cons_of_mem _ hrun', hr⟩

/-- Every run has a read. -/
theorem exists_read {runs : List (List WatchHandle)} {reads : List CoalescedRead}
    (h : List.Forall₂ CoversRun runs reads) {run : List WatchHandle} (hrun : run ∈ runs) :
    ∃ r ∈ reads, CoversRun run r := by
  induction h with
  | nil => exact absurd hrun (by simp)
  | @cons run' q runs reads hq _ ih =>
      rcases List.mem_cons.mp hrun with rfl | hrun
      · exact ⟨q, List.mem_cons_self .., hq⟩
      · obtain ⟨r, hr, hcov⟩ := ih hrun
        exact ⟨r, List.mem_cons_of_mem _ hr, hcov⟩

/-- The reads of runs that are apart are apart. -/
theorem apart_of_forall₂ {gap : Nat} {runs : List (List WatchHandle)}
    {reads : List CoalescedRead} (h : List.Forall₂ CoversRun runs reads)
    (hapart : runs.Pairwise (RunApart gap)) :
    reads.Pairwise fun r q => r.stop + gap < q.start := by
  induction h with
  | nil => exact List.Pairwise.nil
  | @cons run r runs reads hr hreads ih =>
      obtain ⟨hrun, hruns⟩ := List.pairwise_cons.mp hapart
      refine List.pairwise_cons.mpr ⟨fun q hq => ?_, ih hruns⟩
      obtain ⟨run', hrun', hq⟩ := exists_run hreads hq
      exact hr.apart hq (hrun run' hrun')

/-- The reads of a group are of its space and mapping. -/
theorem space_of_mem_coalesceGroup {watches : List WatchHandle}
    (hfit : ∀ w ∈ watches, w.region.Fits) {gap : UInt32} {key : AddressSpace × MemoryMapping}
    {r : CoalescedRead} (hr : r ∈ coalesceGroup gap (groupOf watches key)) :
    (r.region.space, r.region.mapping) = key := by
  obtain ⟨run, hrun, hcov⟩ := exists_run (coversRun_coalesceGroup hfit gap key) hr
  obtain ⟨w, hw, -⟩ := hcov.start.1
  have hgroup : w ∈ groupOf watches key := (perm_flatten_runsOf watches gap.toNat key).mem_iff.mp
    (List.mem_flatten.mpr ⟨run, hrun, hw⟩)
  obtain ⟨hspace, hmap⟩ := hcov.space w hw
  rw [← hspace, ← hmap]
  exact (mem_groupOf.mp hgroup).2

/-- Two reads of the same space and mapping are more than `gap` bytes apart. -/
theorem apart_coalesce {watches : List WatchHandle} (hfit : ∀ w ∈ watches, w.region.Fits)
    (gap : UInt32) :
    (coalesce watches gap).Pairwise fun r q => r.region.space = q.region.space →
      r.region.mapping = q.region.mapping → r.stop + gap.toNat < q.start := by
  rw [coalesce]
  have hkeys := nodup_spaceKeys
  generalize spaceKeys = keys at hkeys ⊢
  induction keys with
  | nil => exact List.Pairwise.nil
  | cons key keys ih =>
      obtain ⟨hnot, hkeys⟩ := List.nodup_cons.mp hkeys
      rw [List.flatMap_cons, List.pairwise_append]
      refine ⟨?_, ih hkeys, ?_⟩
      · have hgroup := apart_of_forall₂ (coversRun_coalesceGroup hfit gap key)
          (apart_runsOf watches gap.toNat key)
        exact hgroup.imp fun h _ _ => h
      · intro r hr q hq hspace hmap
        obtain ⟨key', hkey', hq⟩ := List.mem_flatMap.mp hq
        have heq : key = key' := by
          rw [← space_of_mem_coalesceGroup hfit hr, ← space_of_mem_coalesceGroup hfit hq, hspace,
            hmap]
        rw [← heq] at hkey'
        exact absurd hkey' hnot

/-- A read without the order of its members. -/
def CoalescedRead.shape (r : CoalescedRead) : MemRegion × WatchPriority × Multiset Member :=
  (r.region, r.priority, ↑r.members)

/-- Reordering the watches keeps every read, up to the order of its members. -/
theorem shape_mem_of_perm {watches watches' : List WatchHandle}
    (hfit : ∀ w ∈ watches, w.region.Fits) (hperm : watches.Perm watches') (gap : UInt32)
    {r : CoalescedRead} (hr : r ∈ coalesce watches gap) :
    ∃ q ∈ coalesce watches' gap, r.shape = q.shape := by
  have hfit' : ∀ w ∈ watches', w.region.Fits := fun w hw => hfit w (hperm.mem_iff.mpr hw)
  obtain ⟨key, hkey, hr⟩ := List.mem_flatMap.mp hr
  obtain ⟨run, hrun, hcov⟩ := exists_run (coversRun_coalesceGroup hfit gap key) hr
  have hgroups : (runsOf watches gap.toNat key).flatten.Perm
      (runsOf watches' gap.toNat key).flatten :=
    ((perm_flatten_runsOf watches gap.toNat key).trans (hperm.filter _)).trans
      (perm_flatten_runsOf watches' gap.toNat key).symm
  obtain ⟨run', hrun', hsame⟩ := GapMerge.unique WatchHandle.start_le_stop hgroups
    chain_of_mem_runsOf chain_of_mem_runsOf (apart_runsOf watches gap.toNat key)
    (apart_runsOf watches' gap.toNat key) run hrun
  obtain ⟨q, hq, hcov'⟩ := exists_read (coversRun_coalesceGroup hfit' gap key) hrun'
  obtain ⟨hregion, hprio, hmembers⟩ := hcov.eq_of_perm hcov' hsame
  refine ⟨q, List.mem_flatMap.mpr ⟨key, hkey, hq⟩, ?_⟩
  rw [CoalescedRead.shape, CoalescedRead.shape, hregion, hprio, Multiset.coe_eq_coe.mpr hmembers]

/-- **`coalesce` is the canonical gap-merge.**  The reads are those of a partition
    of the watches into runs: each covers its run exactly, and in address order
    every watch of a run after the first starts at most `gap` bytes past the end
    of one before it.  Two reads of one space and mapping are more than `gap`
    bytes apart.  The order in which the watches are given shows only in the
    order of the members. -/
theorem coalesce_canonical {watches : List WatchHandle} (hfit : ∀ w ∈ watches, w.region.Fits)
    (gap : UInt32) :
    (∃ runs : List (List WatchHandle), runs.flatten.Perm watches ∧
      (∀ run ∈ runs, RunChain gap.toNat run) ∧
      List.Forall₂ CoversRun runs (coalesce watches gap)) ∧
    ((coalesce watches gap).Pairwise fun r q => r.region.space = q.region.space →
      r.region.mapping = q.region.mapping → r.stop + gap.toNat < q.start) ∧
    ∀ watches', watches.Perm watches' → ∀ p, p ∈ (coalesce watches gap).map (·.shape) ↔
      p ∈ (coalesce watches' gap).map (·.shape) := by
  refine ⟨⟨allRuns watches gap.toNat, perm_flatten_allRuns watches gap.toNat, ?_,
    coversRun_coalesce hfit gap⟩, apart_coalesce hfit gap, ?_⟩
  · intro run hrun
    obtain ⟨key, -, hrun⟩ := List.mem_flatMap.mp hrun
    exact chain_of_mem_runsOf run hrun
  · intro watches' hperm p
    have hfit' : ∀ w ∈ watches', w.region.Fits := fun w hw => hfit w (hperm.mem_iff.mpr hw)
    constructor
    · intro hp
      obtain ⟨r, hr, rfl⟩ := List.mem_map.mp hp
      obtain ⟨q, hq, hshape⟩ := shape_mem_of_perm hfit hperm gap hr
      exact List.mem_map.mpr ⟨q, hq, hshape.symm⟩
    · intro hp
      obtain ⟨r, hr, rfl⟩ := List.mem_map.mp hp
      obtain ⟨q, hq, hshape⟩ := shape_mem_of_perm hfit' hperm.symm gap hr
      exact List.mem_map.mpr ⟨q, hq, hshape.symm⟩

/-- Two watches of the same bytes, one inside them, one past the gap, one that
    ends at the last address. -/
def mixedWatches : List WatchHandle :=
  [⟨3, .fxpak 0x120 2, .low⟩, ⟨0, .fxpak 0x100 0x10, .low⟩, ⟨1, .fxpak 0x100 0x10, .normal⟩,
    ⟨2, .fxpak 0x104 0, .high⟩, ⟨4, .fxpak 0xFFFFFFFE 1, .normal⟩]

/-- The reads of the watches are apart, and the same in either order. -/
theorem coalesce_canonical_mixed :
    ((coalesce mixedWatches 8).Pairwise fun r q => r.region.space = q.region.space →
      r.region.mapping = q.region.mapping → r.stop + 8 < q.start) ∧
    ∀ p, p ∈ (coalesce mixedWatches 8).map (·.shape) ↔
      p ∈ (coalesce mixedWatches.reverse 8).map (·.shape) :=
  have hfit : ∀ w ∈ mixedWatches, w.region.Fits := by decide
  have h := coalesce_canonical hfit 8
  ⟨h.2.1, h.2.2 _ (List.reverse_perm _).symm⟩

end Cache
end SniLua
