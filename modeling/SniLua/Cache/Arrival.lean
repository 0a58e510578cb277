/-
  SniLua.Cache.Arrival

  What a reply writes into the snapshot builder.  `slices` lists the members a
  reply covers, each with the region and the bytes it is given; `apply_reads` is
  exactly that list.  When the blobs are the device's bytes of the reads, the
  slice of a member is the device's bytes of its watch.
-/

import SniLua.Cache.Engine
import SniLua.Cache.ReadOf

namespace SniLua
namespace Cache

open Lib

-- ============================================================================
-- The reads of a cycle
-- ============================================================================

theorem ReadOf.mono {watches watches' : List WatchHandle} {r : CoalescedRead}
    (h : ReadOf watches r) (hsub : ∀ w ∈ watches, w ∈ watches') : ReadOf watches' r where
  fits := h.fits
  inside := h.inside
  watch := by
    intro m hm
    obtain ⟨w, hw, hid⟩ := h.watch m hm
    exact ⟨w, hsub w hw, hid⟩

/-- The reads of a cycle whose watches fit are faithful. -/
theorem ReadsOf.readOf {ctx : CycleCtx} {reads : List CoalescedRead} (h : ReadsOf ctx reads)
    (hfit : ∀ w ∈ ctx.watches, w.region.Fits) : ∀ r ∈ reads, ReadOf ctx.watches r := by
  intro r hr
  have hsub : ∀ p : WatchHandle → Bool, ∀ w ∈ ctx.watches.filter p, w ∈ ctx.watches :=
    fun p w hw => (List.mem_filter.mp hw).1
  cases h with
  | realtime =>
      exact (readOf_coalesce (fun w hw => hfit w (hsub _ w hw)) _ r hr).mono (hsub _)
  | bulk rs done cycle iterBudget =>
      have hchunk := (CycleCtx.mem_chunked_of_mem_bulkBatch hr).1
      exact (readOf_chunks (fun w hw => hfit w (hsub _ w hw)) _ _ r hchunk).mono (hsub _)

-- ============================================================================
-- apply_reads, entry by entry
-- ============================================================================

theorem mem_slices {reads : List CoalescedRead} {blobs : List (List UInt8)} {id : WatchId}
    {region : MemRegion} {bytes : List UInt8} :
    (id, region, bytes) ∈ slices reads blobs ↔
      ∃ p ∈ reads.zip blobs, ∃ m ∈ p.1.members, m.off.toNat + m.size.toNat ≤ p.2.length ∧
        id = m.id ∧ region = p.1.memberRegion m ∧
          bytes = (p.2.drop m.off.toNat).take m.size.toNat := by
  rw [slices]
  constructor
  · intro h
    obtain ⟨p, hp, h⟩ := List.mem_flatMap.mp h
    obtain ⟨m, hm, h⟩ := List.mem_filterMap.mp h
    split at h
    · rename_i hlen
      obtain ⟨rfl, h'⟩ := Prod.mk.inj (Option.some.inj h)
      obtain ⟨rfl, rfl⟩ := Prod.mk.inj h'
      exact ⟨p, hp, m, hm, hlen, rfl, rfl, rfl⟩
    · exact absurd h (by simp)
  · rintro ⟨p, hp, m, hm, hlen, rfl, rfl, rfl⟩
    refine List.mem_flatMap.mpr ⟨p, hp, List.mem_filterMap.mpr ⟨m, hm, ?_⟩⟩
    rw [if_pos hlen]
    rfl

/-- A slice belongs to a member of the reads. -/
theorem mem_memberIds_of_mem_slices {reads : List CoalescedRead} {blobs : List (List UInt8)}
    {id : WatchId} {region : MemRegion} {bytes : List UInt8}
    (h : (id, region, bytes) ∈ slices reads blobs) : id ∈ memberIds reads := by
  obtain ⟨p, hp, m, hm, -, rfl, -, -⟩ := mem_slices.mp h
  exact mem_memberIds.mpr ⟨p.1, (List.of_mem_zip hp).1, List.mem_map_of_mem hm⟩

/-- The entry of a watch after a reply: one of its slices at age 0, or the old
    entry when it has none. -/
theorem entry_applyReads (reads : List CoalescedRead) (blobs : List (List UInt8))
    (b : SnapshotBuilder) (id : WatchId) :
    (∃ region bytes, (id, region, bytes) ∈ slices reads blobs ∧
      (applyReads reads blobs b).entry id = (some bytes, some region, some 0)) ∨
    ((∀ region bytes, (id, region, bytes) ∉ slices reads blobs) ∧
      (applyReads reads blobs b).entry id = b.entry id) := by
  rw [applyReads]
  induction slices reads blobs generalizing b with
  | nil => exact Or.inr ⟨by simp, rfl⟩
  | cons s ss ih =>
      obtain ⟨id', region', bytes'⟩ := s
      rw [List.foldl_cons]
      rcases ih (b.set id' region' bytes') with ⟨region, bytes, hmem, heq⟩ | ⟨hnone, heq⟩
      · exact Or.inl ⟨region, bytes, List.mem_cons_of_mem _ hmem, heq⟩
      · rw [SnapshotBuilder.entry_set] at heq
        by_cases hid : id = id'
        · subst hid
          rw [if_pos rfl] at heq
          exact Or.inl ⟨region', bytes', List.mem_cons_self .., heq⟩
        · rw [if_neg hid] at heq
          refine Or.inr ⟨?_, heq⟩
          intro region bytes hmem
          rcases List.mem_cons.mp hmem with h | hmem
          · exact hid (Prod.mk.inj h).1
          · exact hnone region bytes hmem

/-- A reply does not take bytes away. -/
theorem isSome_applyReads {b : SnapshotBuilder} {id : WatchId} (h : (b.data.get id).isSome)
    (reads : List CoalescedRead) (blobs : List (List UInt8)) :
    ((applyReads reads blobs b).data.get id).isSome := by
  rcases entry_applyReads reads blobs b id with ⟨region, bytes, -, heq⟩ | ⟨-, heq⟩
  · rw [(Prod.mk.inj heq).1]
    rfl
  · rw [(Prod.mk.inj heq).1]
    exact h

/-- A reply gives bytes to members of its reads only. -/
theorem mem_of_isSome_applyReads {reads : List CoalescedRead} {blobs : List (List UInt8)}
    {b : SnapshotBuilder} {id : WatchId} (h : ((applyReads reads blobs b).data.get id).isSome) :
    id ∈ memberIds reads ∨ (b.data.get id).isSome := by
  rcases entry_applyReads reads blobs b id with ⟨region, bytes, hmem, -⟩ | ⟨-, heq⟩
  · exact Or.inl (mem_memberIds_of_mem_slices hmem)
  · rw [(Prod.mk.inj heq).1] at h
    exact Or.inr h

-- ============================================================================
-- A reply with the bytes of the device
-- ============================================================================

/-- The reply a device with memory `mem` gives to the reads. -/
def deviceReply (mem : DeviceMem) (reads : List CoalescedRead) : List (List UInt8) :=
  reads.map fun r => mem.read r.region

theorem mem_zip_deviceReply {mem : DeviceMem} {reads : List CoalescedRead}
    {p : CoalescedRead × List UInt8} :
    p ∈ reads.zip (deviceReply mem reads) ↔ p.1 ∈ reads ∧ p.2 = mem.read p.1.region := by
  have hzip : reads.zip (deviceReply mem reads) = reads.map fun r => (r, mem.read r.region) := by
    have h := @List.zip_map' _ _ _ (fun r : CoalescedRead => r) (fun r => mem.read r.region) reads
    rwa [List.map_id'] at h
  rw [hzip, List.mem_map]
  constructor
  · rintro ⟨r, hr, rfl⟩
    exact ⟨hr, rfl⟩
  · rintro ⟨hr, hblob⟩
    exact ⟨p.1, hr, by rw [← hblob]⟩

/-- Every member gets a slice of the device's reply. -/
theorem exists_slice_deviceReply {watches : List WatchHandle} {reads : List CoalescedRead}
    (hreads : ∀ r ∈ reads, ReadOf watches r) (mem : DeviceMem) {id : WatchId}
    (hid : id ∈ memberIds reads) :
    ∃ region bytes, (id, region, bytes) ∈ slices reads (deviceReply mem reads) := by
  obtain ⟨r, hr, hidr⟩ := mem_memberIds.mp hid
  obtain ⟨m, hm, rfl⟩ := List.mem_map.mp hidr
  refine ⟨_, _, mem_slices.mpr ⟨(r, mem.read r.region), mem_zip_deviceReply.mpr ⟨hr, rfl⟩, m, hm,
    ?_, rfl, rfl, rfl⟩⟩
  rw [DeviceMem.length_read]
  exact (hreads r hr).inside m hm

/-- And it holds the device's bytes of the region of its watch. -/
theorem slice_deviceReply {watches : List WatchHandle} {reads : List CoalescedRead}
    (hreads : ∀ r ∈ reads, ReadOf watches r) {mem : DeviceMem} {id : WatchId}
    {region : MemRegion} {bytes : List UInt8}
    (h : (id, region, bytes) ∈ slices reads (deviceReply mem reads)) :
    (∃ w ∈ watches, w.id = id ∧ w.region = region) ∧ bytes = mem.read region := by
  obtain ⟨p, hp, m, hm, -, rfl, rfl, rfl⟩ := mem_slices.mp h
  obtain ⟨hr, hblob⟩ := mem_zip_deviceReply.mp hp
  have hread := hreads p.1 hr
  refine ⟨hread.watch m hm, ?_⟩
  rw [hblob]
  exact DeviceMem.slice_read mem p.1.region (p.1.memberRegion m) m.off.toNat rfl rfl
    (hread.toNat_memberRegion hm) (hread.inside m hm)

end Cache
end SniLua
