/-
  SniLua.Cache.ReadOf

  Where the bytes of a watch are inside a read.  `ReadOf watches r` says that
  the read does not wrap around the end of the address space and that every
  member is one of the watches, at its offset and inside the read; `coalesce`
  builds such reads from watches that fit, and `split_reads_to_budget` keeps
  them such.
-/

import SniLua.Cache.Coalesce

namespace SniLua
namespace Cache

/-- The region a member occupies, as it is rebuilt from the read. -/
def CoalescedRead.memberRegion (r : CoalescedRead) (m : Member) : MemRegion :=
  { r.region with address := r.region.address + m.off, size := m.size }

structure ReadOf (watches : List WatchHandle) (r : CoalescedRead) : Prop where
  fits : r.region.Fits
  inside : ∀ m ∈ r.members, m.off.toNat + m.size.toNat ≤ r.region.size.toNat
  watch : ∀ m ∈ r.members, ∃ w ∈ watches, w.id = m.id ∧ w.region = r.memberRegion m

/-- The address of a member does not wrap. -/
theorem ReadOf.toNat_memberRegion {watches : List WatchHandle} {r : CoalescedRead}
    (h : ReadOf watches r) {m : Member} (hm : m ∈ r.members) :
    (r.memberRegion m).address.toNat = r.region.address.toNat + m.off.toNat := by
  have hin := h.inside m hm
  have hfits := h.fits
  rw [MemRegion.Fits] at hfits
  exact U32.toNat_add_of_lt (by omega)

/-- The end of a member is an address of the read. -/
theorem ReadOf.member_fits {watches : List WatchHandle} {read : CoalescedRead}
    (hread : ReadOf watches read) {m : Member} (hm : m ∈ read.members) :
    read.region.address.toNat + m.off.toNat < 2 ^ 32 ∧
      (read.region.address + m.off).toNat + m.size.toNat < 2 ^ 32 := by
  have haddr : (read.region.address + m.off).toNat =
      read.region.address.toNat + m.off.toNat := hread.toNat_memberRegion hm
  have hin := hread.inside m hm
  have hfits := hread.fits
  rw [MemRegion.Fits] at hfits
  omega

theorem ReadOf.toNat_member_end {watches : List WatchHandle} {read : CoalescedRead}
    (hread : ReadOf watches read) {m : Member} (hm : m ∈ read.members) :
    (read.region.address + m.off + m.size).toNat =
      read.region.address.toNat + m.off.toNat + m.size.toNat := by
  rw [U32.toNat_add_of_lt (hread.member_fits hm).2]
  exact congrArg (· + m.size.toNat) (hread.toNat_memberRegion hm)

-- ============================================================================
-- coalesce
-- ============================================================================

/-- `[start, end_)` covers the given watches, all of one group. -/
structure RunOk (key : AddressSpace × MemoryMapping) (start end_ : UInt32)
    (run : List WatchHandle) : Prop where
  key : ∀ w ∈ run, (w.region.space, w.region.mapping) = key
  lower : ∀ w ∈ run, start.toNat ≤ w.region.address.toNat
  upper : ∀ w ∈ run, w.region.address.toNat + w.region.size.toNat ≤ end_.toNat

/-- The run of a single watch. -/
theorem RunOk.single {w : WatchHandle} (hfit : w.region.Fits) :
    RunOk (w.region.space, w.region.mapping) w.region.address
      (w.region.address + w.region.size) [w] := by
  have hadd := U32.toNat_add_of_lt hfit
  constructor
  · simp
  · simp
  · intro w' hw'
    obtain rfl := List.mem_singleton.mp hw'
    omega

/-- Extending the run by a watch that starts at or after it. -/
theorem RunOk.extend {key : AddressSpace × MemoryMapping} {start end_ : UInt32}
    {run : List WatchHandle} (h : RunOk key start end_ run) {w : WatchHandle}
    (hkey : (w.region.space, w.region.mapping) = key) (hfit : w.region.Fits)
    (hstart : start.toNat ≤ w.region.address.toNat) :
    RunOk key start (max end_ (w.region.address + w.region.size)) (run ++ [w]) := by
  have hadd := U32.toNat_add_of_lt hfit
  have hmax := U32.toNat_max end_ (w.region.address + w.region.size)
  constructor
  · intro w' hw'
    rcases List.mem_append.mp hw' with hw' | hw'
    · exact h.key w' hw'
    · rw [List.mem_singleton.mp hw']; exact hkey
  · intro w' hw'
    rcases List.mem_append.mp hw' with hw' | hw'
    · exact h.lower w' hw'
    · rw [List.mem_singleton.mp hw']; exact hstart
  · intro w' hw'
    rcases List.mem_append.mp hw' with hw' | hw'
    · have := h.upper w' hw'
      omega
    · rw [List.mem_singleton.mp hw']
      omega

/-- What the loop has ahead of it: watches of the group that fit, in the order of
    their addresses, none of them before `start`. -/
structure Ahead (key : AddressSpace × MemoryMapping) (start : UInt32) (ws : List WatchHandle) :
    Prop where
  key : ∀ w ∈ ws, (w.region.space, w.region.mapping) = key
  fits : ∀ w ∈ ws, w.region.Fits
  after : ∀ w ∈ ws, start.toNat ≤ w.region.address.toNat
  sorted : ws.Pairwise fun a b => a.region.address ≤ b.region.address

section Ahead

variable {key : AddressSpace × MemoryMapping} {start end_ : UInt32} {w : WatchHandle}
  {ws run : List WatchHandle}

/-- The rest of it, when the run goes on. -/
theorem Ahead.tail (h : Ahead key start (w :: ws)) : Ahead key start ws where
  key := fun v hv => h.key v (List.mem_cons_of_mem _ hv)
  fits := fun v hv => h.fits v (List.mem_cons_of_mem _ hv)
  after := fun v hv => h.after v (List.mem_cons_of_mem _ hv)
  sorted := (List.pairwise_cons.mp h.sorted).2

/-- The rest of it, when a run starts at the first of them. -/
theorem Ahead.next (h : Ahead key start (w :: ws)) : Ahead key w.region.address ws where
  key := h.tail.key
  fits := h.tail.fits
  after := fun v hv => UInt32.le_iff_toNat_le.mp ((List.pairwise_cons.mp h.sorted).1 v hv)
  sorted := h.tail.sorted

theorem Ahead.head_fits (h : Ahead key start (w :: ws)) : w.region.Fits :=
  h.fits w (List.mem_cons_self ..)

/-- The run that starts at the first of them. -/
theorem Ahead.single (h : Ahead key start (w :: ws)) :
    RunOk key w.region.address (w.region.address + w.region.size) [w] := by
  rw [← h.key w (List.mem_cons_self ..)]
  exact RunOk.single h.head_fits

/-- The run that takes the first of them in. -/
theorem Ahead.extend (h : Ahead key start (w :: ws)) (hrun : RunOk key start end_ run) :
    RunOk key start (max end_ (w.region.address + w.region.size)) (run ++ [w]) :=
  hrun.extend (h.key w (List.mem_cons_self ..)) h.head_fits (h.after w (List.mem_cons_self ..))

end Ahead

/-- The loop starts with the first watch of the sorted group. -/
theorem ahead_of_sortedGroup {watches : List WatchHandle} (hfit : ∀ w ∈ watches, w.region.Fits)
    {key : AddressSpace × MemoryMapping} {w : WatchHandle} {ws : List WatchHandle}
    (h : (groupOf watches key).insertionSort (fun a b => a.region.address ≤ b.region.address) =
      w :: ws) :
    (∀ v ∈ w :: ws, v ∈ watches) ∧ Ahead key w.region.address (w :: ws) := by
  have hsorted := sorted_sortedGroup watches key
  have hgroup := fun w => (perm_sortedGroup watches key).mem_iff.trans (@mem_groupOf _ _ w)
  rw [h] at hgroup hsorted
  have hmem : ∀ v ∈ w :: ws, v ∈ watches := fun v hv => ((hgroup v).mp hv).1
  refine ⟨hmem, fun v hv => ((hgroup v).mp hv).2, fun v hv => hfit v (hmem v hv), ?_, hsorted⟩
  intro v hv
  rcases List.mem_cons.mp hv with rfl | hv
  · exact Nat.le_refl _
  · exact (List.pairwise_cons.mp hsorted).1 v hv

theorem readOf_finishRun {watches : List WatchHandle} {key : AddressSpace × MemoryMapping}
    {start end_ : UInt32} {first : WatchHandle} {rest : List WatchHandle}
    (h : RunOk key start end_ (first :: rest)) (hsub : ∀ w ∈ first :: rest, w ∈ watches) :
    ReadOf watches (finishRun start end_ first rest) := by
  have hle : start.toNat ≤ end_.toNat := by
    have h₁ := h.lower first (List.mem_cons_self ..)
    have h₂ := h.upper first (List.mem_cons_self ..)
    omega
  have hsize : (end_ - start).toNat = end_.toNat - start.toNat := U32.toNat_sub_of_le hle
  have hend := end_.toNat_lt
  refine ⟨?_, ?_, ?_⟩
  · show start.toNat + (end_ - start).toNat < 2 ^ 32
    omega
  · intro m hm
    obtain ⟨w, hw, rfl⟩ := List.mem_map.mp hm
    have h₁ := h.lower w hw
    have h₂ := h.upper w hw
    show (w.region.address - start).toNat + w.region.size.toNat ≤ (end_ - start).toNat
    rw [U32.toNat_sub_of_le h₁]
    omega
  · intro m hm
    obtain ⟨w, hw, rfl⟩ := List.mem_map.mp hm
    refine ⟨w, hsub w hw, rfl, ?_⟩
    have hkey := (h.key w hw).trans (h.key first (List.mem_cons_self ..)).symm
    obtain ⟨hspace, hmap⟩ := Prod.mk.inj hkey
    show w.region = _
    simp only [CoalescedRead.memberRegion, finishRun]
    rw [MemRegion.mk.injEq]
    exact ⟨by rw [UInt32.add_comm, UInt32.sub_add_cancel], rfl, hspace, hmap⟩

theorem readOf_mergeRuns {watches : List WatchHandle} {key : AddressSpace × MemoryMapping}
    (gap start end_ : UInt32) (first : WatchHandle) (rest ws : List WatchHandle)
    (hrun : RunOk key start end_ (first :: rest)) (hahead : Ahead key start ws)
    (hsub : ∀ w ∈ (first :: rest) ++ ws, w ∈ watches) :
    ∀ r ∈ mergeRuns gap start end_ first rest ws, ReadOf watches r := by
  induction ws generalizing start end_ first rest with
  | nil =>
      intro r hr
      obtain rfl := List.mem_singleton.mp hr
      exact readOf_finishRun hrun fun w hw => hsub w (List.mem_append_left _ hw)
  | cons w ws ih =>
      simp only [mergeRuns]
      split
      · refine ih start _ first (rest ++ [w]) ?_ hahead.tail ?_
        · simpa using hahead.extend hrun
        · intro v hv
          exact hsub v (by simpa using hv)
      · intro r hr
        rcases List.mem_cons.mp hr with rfl | hr
        · exact readOf_finishRun hrun fun v hv => hsub v (List.mem_append_left _ hv)
        · refine ih _ _ w [] hahead.single hahead.next ?_ r hr
          intro v hv
          exact hsub v (List.mem_append_right _ (by simpa using hv))

/-- Watches that fit are coalesced into faithful reads. -/
theorem readOf_coalesce {watches : List WatchHandle} (hfit : ∀ w ∈ watches, w.region.Fits)
    (gap : UInt32) : ∀ r ∈ coalesce watches gap, ReadOf watches r := by
  intro r hr
  obtain ⟨key, -, hr⟩ := List.mem_flatMap.mp hr
  rw [coalesceGroup] at hr
  split at hr
  · exact absurd hr (by simp)
  · rename_i w ws h
    obtain ⟨hmem, hahead⟩ := ahead_of_sortedGroup hfit h
    exact readOf_mergeRuns gap _ _ w [] ws hahead.single hahead.tail
      (fun v hv => hmem v (by simpa using hv)) r hr

-- ============================================================================
-- split_reads_to_budget
-- ============================================================================

/-- The chunk `[start, end_)` of `read` holds its members where the read does. -/
structure ChunkOk (read : CoalescedRead) (start end_ : UInt32) (chunk : List Member) : Prop where
  nonempty : start.toNat ≤ end_.toNat
  member : ∀ c ∈ chunk, start.toNat + c.off.toNat + c.size.toNat ≤ end_.toNat ∧
    ∃ m ∈ read.members, m.id = c.id ∧ m.size = c.size ∧
      start.toNat + c.off.toNat = read.region.address.toNat + m.off.toNat

theorem readOf_chunkOf {watches : List WatchHandle} {read : CoalescedRead} {start end_ : UInt32}
    {chunk : List Member} (hread : ReadOf watches read) (h : ChunkOk read start end_ chunk) :
    ReadOf watches (chunkOf read start end_ chunk) := by
  have hsize : (end_ - start).toNat = end_.toNat - start.toNat := U32.toNat_sub_of_le h.nonempty
  have hle := h.nonempty
  have hend := end_.toNat_lt
  refine ⟨?_, ?_, ?_⟩
  · show start.toNat + (end_ - start).toNat < 2 ^ 32
    omega
  · intro c hc
    have := (h.member c hc).1
    show c.off.toNat + c.size.toNat ≤ (end_ - start).toNat
    omega
  · intro c hc
    obtain ⟨hin, m, hm, hid, hsz, haddr⟩ := h.member c hc
    obtain ⟨w, hw, hwid, hwreg⟩ := hread.watch m hm
    refine ⟨w, hw, hwid.trans hid, hwreg.trans ?_⟩
    have hadd : (start + c.off).toNat = start.toNat + c.off.toNat :=
      U32.toNat_add_of_lt (by omega)
    have hread_add : (read.region.address + m.off).toNat = start.toNat + c.off.toNat := by
      rw [haddr]; exact hread.toNat_memberRegion hm
    simp only [CoalescedRead.memberRegion, chunkOf]
    rw [MemRegion.mk.injEq]
    exact ⟨UInt32.toNat_inj.mp (by omega), hsz, rfl, rfl⟩

/-- Opening a chunk at a member of the read. -/
theorem ChunkOk.single {watches : List WatchHandle} {read : CoalescedRead}
    (hread : ReadOf watches read) {m : Member} (hm : m ∈ read.members) :
    ChunkOk read (read.region.address + m.off) (read.region.address + m.off + m.size)
      [⟨m.id, 0, m.size⟩] := by
  have haddr : (read.region.address + m.off).toNat =
      read.region.address.toNat + m.off.toNat := hread.toNat_memberRegion hm
  have hend := hread.toNat_member_end hm
  refine ⟨by omega, ?_⟩
  intro c hc
  obtain rfl := List.mem_singleton.mp hc
  refine ⟨?_, m, hm, rfl, rfl, ?_⟩
  · simp only [UInt32.toNat_zero]; omega
  · simp only [UInt32.toNat_zero]; omega

/-- Extending a chunk by the next member of the read. -/
theorem ChunkOk.extend {watches : List WatchHandle} {read : CoalescedRead}
    (hread : ReadOf watches read) {start end_ : UInt32} {chunk : List Member}
    (h : ChunkOk read start end_ chunk) {m : Member} (hm : m ∈ read.members)
    (hstart : start.toNat ≤ read.region.address.toNat + m.off.toNat) :
    ChunkOk read start (max end_ (read.region.address + m.off + m.size))
      (chunk ++ [⟨m.id, read.region.address + m.off - start, m.size⟩]) := by
  have haddr : (read.region.address + m.off).toNat =
      read.region.address.toNat + m.off.toNat := hread.toNat_memberRegion hm
  have hend := hread.toNat_member_end hm
  have hmax := U32.toNat_max end_ (read.region.address + m.off + m.size)
  have hne := h.nonempty
  refine ⟨by omega, ?_⟩
  intro c hc
  rcases List.mem_append.mp hc with hc | hc
  · obtain ⟨hle, hmem⟩ := h.member c hc
    exact ⟨by omega, hmem⟩
  · obtain rfl := List.mem_singleton.mp hc
    have hsub : (read.region.address + m.off - start).toNat =
        (read.region.address + m.off).toNat - start.toNat := U32.toNat_sub_of_le (by omega)
    exact ⟨by simp only; omega, m, hm, rfl, rfl, by simp only; omega⟩

/-- What the loop has ahead of it: members of the read in the order of their
    offsets, none of them before `start`. -/
structure MembersAhead (read : CoalescedRead) (start : UInt32) (ms : List Member) : Prop where
  mem : ∀ m ∈ ms, m ∈ read.members
  after : ∀ m ∈ ms, start.toNat ≤ read.region.address.toNat + m.off.toNat
  sorted : ms.Pairwise fun a b => a.off ≤ b.off

section MembersAhead

variable {watches : List WatchHandle} {read : CoalescedRead} {start : UInt32} {m : Member}
  {ms : List Member}

/-- The rest of it, when the chunk goes on. -/
theorem MembersAhead.tail (h : MembersAhead read start (m :: ms)) : MembersAhead read start ms where
  mem := fun v hv => h.mem v (List.mem_cons_of_mem _ hv)
  after := fun v hv => h.after v (List.mem_cons_of_mem _ hv)
  sorted := (List.pairwise_cons.mp h.sorted).2

theorem MembersAhead.head_mem (h : MembersAhead read start (m :: ms)) : m ∈ read.members :=
  h.mem m (List.mem_cons_self ..)

theorem MembersAhead.head_after (h : MembersAhead read start (m :: ms)) :
    start.toNat ≤ read.region.address.toNat + m.off.toNat :=
  h.after m (List.mem_cons_self ..)

/-- The rest of it, when a chunk starts at the first of them. -/
theorem MembersAhead.next (h : MembersAhead read start (m :: ms)) (hread : ReadOf watches read) :
    MembersAhead read (read.region.address + m.off) ms where
  mem := h.tail.mem
  after := by
    intro v hv
    have haddr : (read.region.address + m.off).toNat =
        read.region.address.toNat + m.off.toNat := hread.toNat_memberRegion h.head_mem
    have hle := UInt32.le_iff_toNat_le.mp ((List.pairwise_cons.mp h.sorted).1 v hv)
    omega
  sorted := h.tail.sorted

/-- The loop over a read starts with its first member in the order of offsets. -/
theorem ReadOf.ahead (hread : ReadOf watches read)
    (h : (read.members.insertionSort fun a b => a.off ≤ b.off) = m :: ms) :
    m ∈ read.members ∧ MembersAhead read (read.region.address + m.off) ms := by
  have hperm := List.perm_insertionSort (fun a b : Member => a.off ≤ b.off) read.members
  have hsort := List.pairwise_insertionSort
    (fun a b : Member => a.off.toNat ≤ b.off.toNat) read.members
  have hall : MembersAhead read 0 (m :: ms) := by
    refine ⟨?_, fun v hv => Nat.zero_le _, ?_⟩
    · intro v hv
      rw [← h] at hv
      exact hperm.mem_iff.mp hv
    · rw [← h]
      exact hsort
  exact ⟨hall.head_mem, hall.next hread⟩

end MembersAhead

theorem readOf_splitChunks {watches : List WatchHandle} {read : CoalescedRead}
    (hread : ReadOf watches read) (budget start end_ : UInt32) (chunk ms : List Member)
    (hchunk : ChunkOk read start end_ chunk) (hahead : MembersAhead read start ms) :
    ∀ r ∈ splitChunks read budget start end_ chunk ms, ReadOf watches r := by
  induction ms generalizing start end_ chunk with
  | nil =>
      intro r hr
      obtain rfl := List.mem_singleton.mp hr
      exact readOf_chunkOf hread hchunk
  | cons m ms ih =>
      simp only [splitChunks]
      split
      · intro r hr
        rcases List.mem_cons.mp hr with rfl | hr
        · exact readOf_chunkOf hread hchunk
        · exact ih _ _ _ (ChunkOk.single hread hahead.head_mem) (hahead.next hread) r hr
      · exact ih _ _ _ (hchunk.extend hread hahead.head_mem hahead.head_after) hahead.tail

theorem readOf_splitRead {watches : List WatchHandle} {read : CoalescedRead}
    (hread : ReadOf watches read) (budget : UInt32) :
    ∀ r ∈ splitRead budget read, ReadOf watches r := by
  intro r hr
  rw [splitRead] at hr
  split at hr
  · obtain rfl := List.mem_singleton.mp hr
    exact hread
  · split at hr
    · exact absurd hr (by simp)
    · rename_i m ms h
      obtain ⟨hfirst, hahead⟩ := hread.ahead h
      exact readOf_splitChunks hread budget _ _ _ ms (ChunkOk.single hread hfirst) hahead r hr

/-- The budget-sized reads of watches that fit are faithful. -/
theorem readOf_chunks {watches : List WatchHandle} (hfit : ∀ w ∈ watches, w.region.Fits)
    (gap budget : UInt32) :
    ∀ r ∈ splitReadsToBudget (coalesce watches gap) budget, ReadOf watches r := by
  intro r hr
  obtain ⟨read, hread, hr⟩ := List.mem_flatMap.mp hr
  exact readOf_splitRead (readOf_coalesce hfit gap read hread) _ r hr

end Cache
end SniLua
