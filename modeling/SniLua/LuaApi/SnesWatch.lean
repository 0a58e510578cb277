/-
  SniLua.LuaApi.SnesWatch

  The watches a script can declare with `snes.watch` and `snes.watch_abs`: any
  offset or address and any size that convert to `u32`.

  `watch` adds the base of WRAM to the offset, and the poll task adds the size to
  the address of every watch.  `SafePolling` says what these sums must not do: stop
  a build with overflow checks, or, in a build that wraps, move a watch outside
  its read or to another address.  Both bindings admit watches that break it; those
  whose end is a `u32` address are the ones that do not.
-/

import SniLua.Cache.Checked

namespace SniLua
namespace LuaApi

open Cache Lib

-- ============================================================================
-- The bindings
-- ============================================================================

/-- A call of one of the two bindings, its arguments converted. -/
inductive WatchCall where
  | watch (offset size : UInt32) (prio : Option String)
  | watchAbs (addr size : UInt32) (prio : Option String)
deriving DecidableEq, Repr

namespace WatchCall

/-- The region registered, in a build that wraps. -/
def region : WatchCall → MemRegion
  | watch offset size _ => .wram offset size
  | watchAbs addr size _ => .fxpak addr size

def priority : WatchCall → WatchPriority
  | watch _ _ prio | watchAbs _ _ prio => (prio.map .parse).getD .normal

/-- The handle of the watch. -/
def handle (c : WatchCall) (id : WatchId) : WatchHandle :=
  { id, region := c.region, priority := c.priority }

/-- The region registered, in a build with overflow checks. -/
def checkedRegion : WatchCall → Option MemRegion
  | watch offset size _ => do
      let address ← checkedAdd 0xF50000 offset
      return .fxpak address size
  | watchAbs addr size _ => some (.fxpak addr size)

/-- The address the script means, as an exact number. -/
def address : WatchCall → Nat
  | watch offset _ _ => 0xF50000 + offset.toNat
  | watchAbs addr _ _ => addr.toNat

def size : WatchCall → UInt32
  | watch _ size _ | watchAbs _ size _ => size

/-- The end of the watch is a `u32` address. -/
def Fits (c : WatchCall) : Prop := c.address + c.size.toNat < 2 ^ 32

instance (c : WatchCall) : Decidable c.Fits := by
  unfold Fits
  infer_instance

end WatchCall

/-- The watches of some calls, each under its id. -/
def declared (calls : List (WatchId × WatchCall)) : List WatchHandle :=
  calls.map fun (id, c) => c.handle id

/-- The same in a build with overflow checks. -/
def Checked.declared (calls : List (WatchId × WatchCall)) : Option (List WatchHandle) :=
  calls.mapM fun (id, c) => do
    let region ← c.checkedRegion
    return { id, region, priority := c.priority }

-- ============================================================================
-- Polling the watches
-- ============================================================================

/-- Every member of the read is a watch of a call: its slice is inside the read and
    starts at the address the script means. -/
def ReadsCalls (calls : List (WatchId × WatchCall)) (r : CoalescedRead) : Prop :=
  ∀ m ∈ r.members, m.off.toNat + m.size.toNat ≤ r.region.size.toNat ∧
    ∃ c, (m.id, c) ∈ calls ∧ c.region = r.memberRegion m ∧
      c.address = r.region.address.toNat + m.off.toNat

/-- Polling the watches of the calls, for a gap and a budget. -/
structure SafePolling (calls : List (WatchId × WatchCall)) (gap budget : UInt32) : Prop where
  /-- No sum stops a build with overflow checks: not those of the bindings, of the
      merge, of the cut, nor of slicing the replies to any of the reads. -/
  checked : ∃ watches reads chunks, Checked.declared calls = some watches ∧
    Checked.coalesce watches gap = some reads ∧
    Checked.splitReadsToBudget reads budget = some chunks ∧
    ∀ batch : List CoalescedRead, batch ⊆ reads ++ chunks → ∀ blobs,
      (Checked.slices batch blobs).isSome
  /-- A build that wraps reads what the script means. -/
  wrapping : ∀ r ∈ coalesce (declared calls) gap ++
    splitReadsToBudget (coalesce (declared calls) gap) budget, ReadsCalls calls r

-- ============================================================================
-- Calls in a build with overflow checks
-- ============================================================================

namespace WatchCall

theorem toNat_region_address {c : WatchCall} (h : c.address < 2 ^ 32) :
    c.region.address.toNat = c.address := by
  cases c with
  | watch offset size prio =>
      have hbase : (0xF50000 : UInt32).toNat + offset.toNat < 2 ^ 32 := h
      exact U32.toNat_add_of_lt hbase
  | watchAbs addr size prio => rfl

theorem region_size (c : WatchCall) : c.region.size = c.size := by
  cases c <;> rfl

/-- An address that is a `u32` does not stop the call. -/
theorem checkedRegion_of_lt {c : WatchCall} (h : c.address < 2 ^ 32) :
    c.checkedRegion = some c.region := by
  cases c with
  | watch offset size prio =>
      have hbase : (0xF50000 : UInt32).toNat + offset.toNat < 2 ^ 32 := h
      rw [checkedRegion, checkedAdd_of_lt hbase]
      rfl
  | watchAbs addr size prio => rfl

/-- Any other does. -/
theorem lt_of_checkedRegion {c : WatchCall} {r : MemRegion} (h : c.checkedRegion = some r) :
    c.address < 2 ^ 32 := by
  cases c with
  | watch offset size prio =>
      obtain ⟨address, haddr, -⟩ := Option.bind_eq_some_iff.mp h
      exact lt_of_checkedAdd haddr
  | watchAbs addr size prio => exact addr.toNat_lt

theorem Fits.address_lt {c : WatchCall} (h : c.Fits) : c.address < 2 ^ 32 := by
  rw [Fits] at h
  omega

/-- The region fits when the call does. -/
theorem region_fits_iff {c : WatchCall} (h : c.address < 2 ^ 32) : c.region.Fits ↔ c.Fits := by
  rw [MemRegion.Fits, Fits, toNat_region_address h, region_size]

end WatchCall

section Calls

variable {calls : List (WatchId × WatchCall)}

theorem checked_declared_eq (h : ∀ x ∈ calls, x.2.address < 2 ^ 32) :
    Checked.declared calls = some (declared calls) := by
  have hcall : ∀ x ∈ calls, (do
      let region ← x.2.checkedRegion
      return ({ id := x.1, region, priority := x.2.priority } : WatchHandle)) =
        some (x.2.handle x.1) := by
    intro x hx
    rw [WatchCall.checkedRegion_of_lt (h x hx)]
    rfl
  exact mapM_eq_some_map hcall

theorem address_lt_of_declared {watches : List WatchHandle}
    (h : Checked.declared calls = some watches) : ∀ x ∈ calls, x.2.address < 2 ^ 32 := by
  intro x hx
  obtain ⟨w, hw⟩ := exists_of_mapM_eq_some h x hx
  obtain ⟨region, hregion, -⟩ := Option.bind_eq_some_iff.mp hw
  exact WatchCall.lt_of_checkedRegion hregion

theorem mem_declared {w : WatchHandle} : w ∈ declared calls ↔ ∃ x ∈ calls, x.2.handle x.1 = w :=
  List.mem_map

/-- The watches fit when the calls do. -/
theorem declared_fits (h : ∀ x ∈ calls, x.2.Fits) : ∀ w ∈ declared calls, w.region.Fits := by
  intro w hw
  obtain ⟨x, hx, rfl⟩ := mem_declared.mp hw
  exact (WatchCall.region_fits_iff (h x hx).address_lt).mpr (h x hx)

/-- A read of watches that fit reads what the script means. -/
theorem readsCalls_of_readOf (h : ∀ x ∈ calls, x.2.Fits) {r : CoalescedRead}
    (hread : ReadOf (declared calls) r) : ReadsCalls calls r := by
  intro m hm
  obtain ⟨w, hw, hid, hregion⟩ := hread.watch m hm
  obtain ⟨x, hx, rfl⟩ := mem_declared.mp hw
  have hmem : (m.id, x.2) ∈ calls := hid ▸ hx
  have haddr : x.2.region.address.toNat = x.2.address :=
    WatchCall.toNat_region_address (h x hx).address_lt
  have hplace : (r.memberRegion m).address.toNat = r.region.address.toNat + m.off.toNat :=
    hread.toNat_memberRegion hm
  have hsame : x.2.region = r.memberRegion m := hregion
  exact ⟨hread.inside m hm, x.2, hmem, hsame, by rw [← haddr, hsame, hplace]⟩

theorem safePolling_of_fits (h : ∀ x ∈ calls, x.2.Fits) (gap budget : UInt32) :
    SafePolling calls gap budget := by
  have hfit := declared_fits h
  have hreads : ∀ r ∈ coalesce (declared calls) gap ++
      splitReadsToBudget (coalesce (declared calls) gap) budget, ReadOf (declared calls) r := by
    intro r hr
    rcases List.mem_append.mp hr with hr | hr
    · exact readOf_coalesce hfit gap r hr
    · exact readOf_chunks hfit gap budget r hr
  have hsplit := Checked.splitReadsToBudget_eq
    (fun r hr => ⟨declared calls, readOf_coalesce hfit gap r hr⟩) budget
  constructor
  · refine ⟨_, _, _, checked_declared_eq fun x hx => (h x hx).address_lt,
      Checked.coalesce_eq hfit gap, hsplit, ?_⟩
    intro batch hbatch blobs
    rw [Checked.slices_eq (fun r hr => ⟨declared calls, hreads r (hbatch hr)⟩) blobs]
    rfl
  · intro r hr
    exact readsCalls_of_readOf h (hreads r hr)

theorem fits_of_safePolling {gap budget : UInt32} (h : SafePolling calls gap budget) :
    ∀ x ∈ calls, x.2.Fits := by
  obtain ⟨watches, reads, -, hwatches, hreads, -⟩ := h.checked
  have hlt := address_lt_of_declared hwatches
  obtain rfl : declared calls = watches :=
    Option.some.inj ((checked_declared_eq hlt).symm.trans hwatches)
  intro x hx
  have hfits := Checked.fits_of_coalesce hreads (x.2.handle x.1) (mem_declared.mpr ⟨x, hx, rfl⟩)
  exact (WatchCall.region_fits_iff (hlt x hx)).mp hfits

/-- Whatever the gap and the budget, polling the watches is safe if and only if the
    end of each of them is a `u32` address. -/
theorem safePolling_iff_fits (gap budget : UInt32) :
    SafePolling calls gap budget ↔ ∀ x ∈ calls, x.2.Fits :=
  ⟨fits_of_safePolling, fun h => safePolling_of_fits h gap budget⟩

end Calls

/-- `snes.watch_abs(0xFFFFFFFF, 2)` is admitted, and the poll task adds up its end;
    `snes.watch(0xFF0B0000, 2)` is admitted, and the sum with the base of WRAM wraps
    to address 0. -/
theorem not_safePolling :
    ¬ SafePolling [(0, .watchAbs 0xFFFFFFFF 2 none)] 16 65536 ∧
      (WatchCall.watch 0xFF0B0000 2 none).region = .fxpak 0 2 := by
  constructor
  · intro h
    have hfits := fits_of_safePolling h (0, .watchAbs 0xFFFFFFFF 2 none)
      (List.mem_singleton_self _)
    exact absurd hfits (by decide)
  · decide

end LuaApi
end SniLua
