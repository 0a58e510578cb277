/-
  SniLua.Cache.Split

  `split_reads_to_budget` loses and changes nothing.  The members come out where
  they went in, whatever the addresses; a chunk is as large as the budget allows
  or holds one watch that is larger by itself.  When the members lie inside their
  read, every chunk reaches exactly from the first of its members to the end of
  the last, and no addition or subtraction of the loop leaves `u32`.
-/

import SniLua.Cache.Checked

namespace SniLua
namespace Cache

/-- The watches a read serves, each with the region it occupies. -/
def CoalescedRead.placed (r : CoalescedRead) : List (WatchId × MemRegion) :=
  r.members.map fun m => (m.id, r.memberRegion m)

/-- The members lie inside the read, and the read inside the address space. -/
structure CoalescedRead.Inside (r : CoalescedRead) : Prop where
  fits : r.region.Fits
  members : ∀ m ∈ r.members, m.off.toNat + m.size.toNat ≤ r.region.size.toNat

/-- Such a read is one of its own members, taken as watches. -/
theorem CoalescedRead.Inside.readOf {r : CoalescedRead} (h : r.Inside) :
    ReadOf (r.members.map fun m => ⟨m.id, r.memberRegion m, r.priority⟩) r :=
  ⟨h.fits, h.members, fun _ hm => ⟨_, List.mem_map_of_mem hm, rfl, rfl⟩⟩

-- ============================================================================
-- No member is lost or moved
-- ============================================================================

theorem placed_splitChunks (read : CoalescedRead) (budget start end_ : UInt32)
    (chunk ms : List Member) :
    (splitChunks read budget start end_ chunk ms).flatMap (·.placed) =
      (chunkOf read start end_ chunk).placed ++
        ms.map fun m => (m.id, read.memberRegion m) := by
  induction ms generalizing start end_ chunk with
  | nil => simp [splitChunks]
  | cons m ms ih =>
      simp only [splitChunks]
      split
      · rw [List.flatMap_cons, ih]
        simp [CoalescedRead.placed, CoalescedRead.memberRegion, chunkOf]
      · have haddr : start + (read.region.address + m.off - start) =
            read.region.address + m.off := by
          rw [UInt32.add_comm, UInt32.sub_add_cancel]
        rw [ih]
        simp [CoalescedRead.placed, CoalescedRead.memberRegion, chunkOf, haddr]

theorem placed_splitRead (budget : UInt32) (read : CoalescedRead) :
    ((splitRead budget read).flatMap (·.placed)).Perm read.placed := by
  rw [splitRead]
  split
  · simp
  · have hsort := (List.perm_insertionSort (fun a b : Member => a.off ≤ b.off)
      read.members).map fun m => (m.id, read.memberRegion m)
    split
    · rename_i h
      rw [h] at hsort
      simpa [CoalescedRead.placed] using hsort
    · rename_i m ms h
      rw [h] at hsort
      rw [placed_splitChunks]
      simpa [CoalescedRead.placed, CoalescedRead.memberRegion, chunkOf] using hsort

theorem placed_splitReadsToBudget (reads : List CoalescedRead) (budget : UInt32) :
    ((splitReadsToBudget reads budget).flatMap (·.placed)).Perm (reads.flatMap (·.placed)) := by
  rw [splitReadsToBudget]
  rw [List.flatMap_assoc]
  exact List.Perm.flatMap_left _ fun r _ => placed_splitRead _ r

-- ============================================================================
-- The size of a chunk
-- ============================================================================

/-- A read within the budget, or of one watch. -/
def WithinBudget (budget : UInt32) (r : CoalescedRead) : Prop :=
  r.region.size ≤ budget ∨ ∃ m, r.members = [m] ∧ budget < m.size

theorem withinBudget_splitChunks {read : CoalescedRead} {budget start end_ : UInt32}
    {chunk ms : List Member}
    (h : end_ - start ≤ budget ∨ ∃ m, chunk = [m] ∧ m.size = end_ - start) :
    ∀ r ∈ splitChunks read budget start end_ chunk ms, WithinBudget budget r := by
  have hdone : ∀ {start end_ : UInt32} {chunk : List Member},
      (end_ - start ≤ budget ∨ ∃ m, chunk = [m] ∧ m.size = end_ - start) →
        WithinBudget budget (chunkOf read start end_ chunk) := by
    intro start end_ chunk h
    rcases h with hle | ⟨m, rfl, hsize⟩
    · exact Or.inl hle
    · by_cases hle : end_ - start ≤ budget
      · exact Or.inl hle
      · exact Or.inr ⟨m, rfl, by rw [hsize]; exact UInt32.not_le.mp hle⟩
  induction ms generalizing start end_ chunk with
  | nil =>
      intro r hr
      obtain rfl := List.mem_singleton.mp hr
      exact hdone h
  | cons m ms ih =>
      simp only [splitChunks]
      split
      · intro r hr
        rcases List.mem_cons.mp hr with rfl | hr
        · exact hdone h
        · refine ih (Or.inr ⟨_, rfl, ?_⟩) r hr
          rw [UInt32.add_comm, UInt32.add_sub_cancel]
      · rename_i hfits
        exact ih (Or.inl (UInt32.not_lt.mp hfits))

/-- Every read that comes out is within the budget, or of one watch. -/
theorem withinBudget_splitReadsToBudget (reads : List CoalescedRead) (budget : UInt32) :
    ∀ r ∈ splitReadsToBudget reads budget, WithinBudget (max budget 1) r := by
  intro r hr
  obtain ⟨read, -, hr⟩ := List.mem_flatMap.mp hr
  rw [splitRead] at hr
  split at hr
  · rename_i hle
    obtain rfl := List.mem_singleton.mp hr
    exact Or.inl hle
  · split at hr
    · exact absurd hr (by simp)
    · refine withinBudget_splitChunks (Or.inr ⟨_, rfl, ?_⟩) r hr
      rw [UInt32.add_comm, UInt32.add_sub_cancel]

-- ============================================================================
-- The extent of a chunk
-- ============================================================================

/-- The first member of the chunk starts at `start`, one of them ends at `end_`. -/
structure ChunkTight (start end_ : UInt32) (chunk : List Member) : Prop where
  first : ∃ c ∈ chunk, c.off = 0
  last : ∃ c ∈ chunk, start.toNat + c.off.toNat + c.size.toNat = end_.toNat

theorem ChunkTight.single {start : UInt32} (m : Member)
    (hend : start.toNat + m.size.toNat < 2 ^ 32) :
    ChunkTight start (start + m.size) [⟨m.id, 0, m.size⟩] := by
  have hadd : (start + m.size).toNat = start.toNat + m.size.toNat := U32.toNat_add_of_lt hend
  refine ⟨⟨_, List.mem_singleton_self _, rfl⟩, ⟨_, List.mem_singleton_self _, ?_⟩⟩
  rw [hadd]
  simp

theorem ChunkTight.extend {start end_ memberStart : UInt32} {chunk : List Member}
    (h : ChunkTight start end_ chunk) (m : Member)
    (hstart : start.toNat ≤ memberStart.toNat)
    (hend : memberStart.toNat + m.size.toNat < 2 ^ 32) :
    ChunkTight start (max end_ (memberStart + m.size))
      (chunk ++ [⟨m.id, memberStart - start, m.size⟩]) := by
  have hadd : (memberStart + m.size).toNat = memberStart.toNat + m.size.toNat :=
    U32.toNat_add_of_lt hend
  have hsub : (memberStart - start).toNat = memberStart.toNat - start.toNat :=
    U32.toNat_sub_of_le hstart
  have hmax := U32.toNat_max end_ (memberStart + m.size)
  constructor
  · obtain ⟨c, hc, hoff⟩ := h.first
    exact ⟨c, List.mem_append_left _ hc, hoff⟩
  · rcases Nat.le_total end_.toNat (memberStart + m.size).toNat with hle | hle
    · refine ⟨_, List.mem_append_right _ (List.mem_singleton_self _), ?_⟩
      show start.toNat + (memberStart - start).toNat + m.size.toNat = _
      omega
    · obtain ⟨c, hc, hlast⟩ := h.last
      exact ⟨c, List.mem_append_left _ hc, by omega⟩

/-- A chunk of `read` with its region drawn exactly around its members. -/
structure ExactChunk (read chunk : CoalescedRead) : Prop where
  space : chunk.region.space = read.region.space
  mapping : chunk.region.mapping = read.region.mapping
  priority : chunk.priority = read.priority
  inside : chunk.Inside
  first : ∃ m ∈ chunk.members, m.off = 0
  last : ∃ m ∈ chunk.members, m.off.toNat + m.size.toNat = chunk.region.size.toNat

theorem exactChunk_chunkOf {watches : List WatchHandle} {read : CoalescedRead}
    (hread : ReadOf watches read) {start end_ : UInt32} {chunk : List Member}
    (hchunk : ChunkOk read start end_ chunk) (h : ChunkTight start end_ chunk) :
    ExactChunk read (chunkOf read start end_ chunk) := by
  obtain ⟨c, hc, hlast⟩ := h.last
  have hsize : (end_ - start).toNat = end_.toNat - start.toNat :=
    U32.toNat_sub_of_le hchunk.nonempty
  have hread' := readOf_chunkOf hread hchunk
  refine ⟨rfl, rfl, rfl, ⟨hread'.fits, hread'.inside⟩, h.first, c, hc, ?_⟩
  show c.off.toNat + c.size.toNat = (end_ - start).toNat
  omega

theorem exactChunk_splitChunks {watches : List WatchHandle} {read : CoalescedRead}
    (hread : ReadOf watches read) (budget start end_ : UInt32) (chunk ms : List Member)
    (hchunk : ChunkOk read start end_ chunk) (htight : ChunkTight start end_ chunk)
    (hahead : MembersAhead read start ms) :
    ∀ r ∈ splitChunks read budget start end_ chunk ms, ExactChunk read r := by
  induction ms generalizing start end_ chunk with
  | nil =>
      intro r hr
      obtain rfl := List.mem_singleton.mp hr
      exact exactChunk_chunkOf hread hchunk htight
  | cons m ms ih =>
      have hmem := hahead.head_mem
      have hstart := hahead.head_after
      obtain ⟨-, hend⟩ := hread.member_fits hmem
      have haddr : (read.region.address + m.off).toNat =
          read.region.address.toNat + m.off.toNat := hread.toNat_memberRegion hmem
      simp only [splitChunks]
      split
      · intro r hr
        rcases List.mem_cons.mp hr with rfl | hr
        · exact exactChunk_chunkOf hread hchunk htight
        · exact ih _ _ _ (ChunkOk.single hread hmem) (ChunkTight.single m hend)
            (hahead.next hread) r hr
      · exact ih _ _ _ (hchunk.extend hread hmem hstart) (htight.extend m (by omega) hend)
          hahead.tail

/-- A read over the budget is cut into exact chunks. -/
theorem exactChunk_splitRead {watches : List WatchHandle} {read : CoalescedRead}
    (hread : ReadOf watches read) {budget : UInt32} (hlarge : budget < read.region.size) :
    ∀ r ∈ splitRead budget read, ExactChunk read r := by
  intro r hr
  rw [splitRead] at hr
  rw [if_neg (UInt32.not_le.mpr hlarge)] at hr
  split at hr
  · exact absurd hr (by simp)
  · rename_i m ms h
    obtain ⟨hfirst, hahead⟩ := hread.ahead h
    obtain ⟨-, hend⟩ := hread.member_fits hfirst
    exact exactChunk_splitChunks hread budget _ _ _ ms (ChunkOk.single hread hfirst)
      (ChunkTight.single m hend) hahead r hr

/-- **Cutting to a budget loses and changes nothing.**  Members come out with the
    regions they had.  Each read is cut by itself: one within `max(budget, 1)` is
    passed through, a larger one becomes exact chunks, each within the budget or
    of one watch that is larger.  The overflow-checked build computes the same. -/
theorem split_loses_nothing {reads : List CoalescedRead} (h : ∀ r ∈ reads, r.Inside)
    (budget : UInt32) :
    ((splitReadsToBudget reads budget).flatMap (·.placed)).Perm (reads.flatMap (·.placed)) ∧
    (splitReadsToBudget reads budget = reads.flatMap fun r => splitReadsToBudget [r] budget) ∧
    (∀ r ∈ reads, r.region.size ≤ max budget 1 → splitReadsToBudget [r] budget = [r]) ∧
    (∀ r ∈ reads, max budget 1 < r.region.size → ∀ chunk ∈ splitReadsToBudget [r] budget,
      ExactChunk r chunk ∧ WithinBudget (max budget 1) chunk) ∧
    Checked.splitReadsToBudget reads budget = some (splitReadsToBudget reads budget) := by
  have hone : ∀ r, splitReadsToBudget [r] budget = splitRead (max budget 1) r := by
    intro r
    rw [splitReadsToBudget, List.flatMap_singleton]
  refine ⟨placed_splitReadsToBudget reads budget, ?_, ?_, ?_, ?_⟩
  · simp only [hone]
    rfl
  · intro r _ hsmall
    rw [hone, splitRead, if_pos hsmall]
  · intro r hr hlarge chunk hchunk
    refine ⟨?_, withinBudget_splitReadsToBudget _ _ chunk hchunk⟩
    rw [hone] at hchunk
    exact exactChunk_splitRead (h r hr).readOf hlarge chunk hchunk
  · exact Checked.splitReadsToBudget_eq (fun r hr => ⟨_, (h r hr).readOf⟩) budget

/-- A small read, and a large one with overlapping watches of which one is larger
    than the budget. -/
def unevenReads : List CoalescedRead :=
  [⟨.fxpak 0x100 4, [⟨0, 0, 4⟩], .high⟩,
    ⟨.fxpak 0x2000 1000, [⟨3, 700, 300⟩, ⟨1, 0, 200⟩, ⟨2, 100, 200⟩, ⟨4, 750, 10⟩], .low⟩]

/-- Their five watches come out where they were. -/
theorem split_loses_nothing_uneven :
    (splitReadsToBudget unevenReads 250).flatMap (·.placed) |>.Perm
      (unevenReads.flatMap (·.placed)) :=
  (split_loses_nothing (by
    intro r hr
    rcases List.mem_cons.mp hr with rfl | hr
    · exact ⟨by decide, by decide⟩
    · obtain rfl := List.mem_singleton.mp hr
      exact ⟨by decide, by decide⟩) 250).1

end Cache
end SniLua
