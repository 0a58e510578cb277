/-
  SniLua.Cache.Snapshot

  Immutable snapshot of all watched memory at a point in time, and the builder
  the engine assembles the next one with.

  `SnapshotBuilder.entry` is what the three maps hold for one watch; the operations
  of the builder are described by what they do to entries.
-/

import SniLua.Lib.HashMap
import SniLua.Cache.Watch

namespace SniLua
namespace Cache

open Lib

structure Snapshot where
  /-- Watch id -> last-known bytes for that region. -/
  data : HashMap WatchId (List UInt8)
  /-- Region metadata keyed by watch id. -/
  regions : HashMap WatchId MemRegion
  /-- Poll cycles since the bytes were last refreshed. -/
  ageCycles : HashMap WatchId UInt32
  /-- Poll cycle at which this snapshot was published. -/
  cycle : Nat
  ageMs : UInt32
  lastRttMs : UInt32

/-- `Snapshot::default`. -/
def Snapshot.default : Snapshot :=
  { data := .empty, regions := .empty, ageCycles := .empty, cycle := 0, ageMs := 0, lastRttMs := 0 }

def Snapshot.bytes (s : Snapshot) (id : WatchId) : Option (List UInt8) := s.data.get id

def Snapshot.region (s : Snapshot) (id : WatchId) : Option MemRegion := s.regions.get id

/-- Poll cycles since this watch was last refreshed. -/
def Snapshot.watchAge (s : Snapshot) (id : WatchId) : Option UInt32 := s.ageCycles.get id

def Snapshot.has (s : Snapshot) (id : WatchId) : Bool := (s.data.get id).isSome

structure SnapshotBuilder where
  data : HashMap WatchId (List UInt8)
  regions : HashMap WatchId MemRegion
  ageCycles : HashMap WatchId UInt32

namespace SnapshotBuilder

/-- Seed from the previous snapshot: everything ages by one cycle unless
    refreshed below. -/
def fromPrev (prev : Snapshot) : SnapshotBuilder :=
  { data := prev.data
    regions := prev.regions
    ageCycles := prev.ageCycles.mapValues fun v => U32.saturatingAdd v 1 }

def set (b : SnapshotBuilder) (id : WatchId) (region : MemRegion) (bytes : List UInt8) :
    SnapshotBuilder :=
  { data := b.data.insert id bytes
    regions := b.regions.insert id region
    ageCycles := b.ageCycles.insert id 0 }

/-- Drop watches that no longer exist. -/
def retainOnly (b : SnapshotBuilder) (live : List WatchId) : SnapshotBuilder :=
  { data := b.data.retain fun k => k ∈ live
    regions := b.regions.retain fun k => k ∈ live
    ageCycles := b.ageCycles.retain fun k => k ∈ live }

def build (b : SnapshotBuilder) (cycle : Nat) (ageMs lastRttMs : UInt32) : Snapshot :=
  { data := b.data, regions := b.regions, ageCycles := b.ageCycles, cycle, ageMs, lastRttMs }

@[simp] theorem build_data (b : SnapshotBuilder) (c : Nat) (a r : UInt32) :
    (b.build c a r).data = b.data := rfl

@[simp] theorem build_regions (b : SnapshotBuilder) (c : Nat) (a r : UInt32) :
    (b.build c a r).regions = b.regions := rfl

@[simp] theorem build_ageCycles (b : SnapshotBuilder) (c : Nat) (a r : UInt32) :
    (b.build c a r).ageCycles = b.ageCycles := rfl

-- ============================================================================
-- One entry of the builder
-- ============================================================================

/-- What a builder holds for one watch. -/
def entry (b : SnapshotBuilder) (id : WatchId) :
    Option (List UInt8) × Option MemRegion × Option UInt32 :=
  (b.data.get id, b.regions.get id, b.ageCycles.get id)

theorem entry_set (b : SnapshotBuilder) (id id' : WatchId) (region : MemRegion)
    (bytes : List UInt8) :
    (b.set id region bytes).entry id' =
      if id' = id then (some bytes, some region, some 0) else b.entry id' := by
  unfold entry set
  by_cases h : id' = id
  · subst h; simp
  · simp [HashMap.get_insert_of_ne, h]

theorem entry_retainOnly (b : SnapshotBuilder) (live : List WatchId) (id : WatchId) :
    (b.retainOnly live).entry id = if id ∈ live then b.entry id else (none, none, none) := by
  unfold entry retainOnly
  by_cases h : id ∈ live <;> simp [h]

theorem entry_fromPrev (prev : Snapshot) (id : WatchId) :
    (fromPrev prev).entry id =
      (prev.bytes id, prev.region id, (prev.watchAge id).map fun v => U32.saturatingAdd v 1) :=
  rfl

end SnapshotBuilder

end Cache
end SniLua
