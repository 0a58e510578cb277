/-
  SniLua.Cache.Isolation

  A device that rejects one address range.  The drain loop sends all selected
  reads in one `MultiRead`, ends on an error, and leaves `read_state` as it was;
  the next cycle selects the same stalest reads first.  So one region that is
  always rejected takes the rest of the bulk tier with it: with `N` active
  watches fewer than `N` first batches ever succeed.  As long as no pending read
  of a first batch touches the range, every watch is refreshed within `N` cycles.
-/

import SniLua.Cache.SnapshotCorrect
import SniLua.Cache.Starvation

namespace SniLua
namespace Cache

open Lib

-- ============================================================================
-- The device
-- ============================================================================

/-- Some region of the call overlaps the rejected range. -/
def Rejects (rejected : MemRegion) (reads : List CoalescedRead) : Prop :=
  ∃ r ∈ reads, r.region.Overlaps rejected

instance (rejected : MemRegion) (reads : List CoalescedRead) : Decidable (Rejects rejected reads) :=
  inferInstanceAs (Decidable (∃ r ∈ reads, _))

/-- The watches `ids` are active and requested in every cycle, and the device
    fails exactly the calls that touch the rejected range. -/
structure Rejecting (rejected : MemRegion) (ids : List WatchId) (s : Engine) (e : Event) :
    Prop where
  fixed : FixedActive ids s e
  requested : ∀ w ∈ ids, Requested w s e
  device : ∀ m ∈ multiRead s e, m.2 = none ↔ Rejects rejected m.1

instance (rejected : MemRegion) (ids : List WatchId) (s : Engine) (e : Event) :
    Decidable (Rejecting rejected ids s e) :=
  decidable_of_iff (FixedActive ids s e ∧ (∀ w ∈ ids, Requested w s e) ∧
      ∀ m ∈ multiRead s e, m.2 = none ↔ Rejects rejected m.1)
    ⟨fun ⟨h₁, h₂, h₃⟩ => ⟨h₁, h₂, h₃⟩, fun h => ⟨h.fixed, h.requested, h.device⟩⟩

/-- The coalesced read of the watch does not overlap the rejected range. -/
def ReadClear (rejected : MemRegion) (w : WatchId) (s : Engine) (e : Event) : Prop :=
  ∀ c ∈ takenCtx s e, ∀ r ∈ coalesce c.bulkEligible c.cfg.coalesceGap,
    w ∈ r.members.map (·.id) → ¬ r.region.Overlaps rejected

instance (rejected : MemRegion) (w : WatchId) (s : Engine) (e : Event) :
    Decidable (ReadClear rejected w s e) :=
  inferInstanceAs (Decidable (∀ c ∈ takenCtx s e, _))

/-- Failures stay isolated: a watch whose coalesced read the device accepts is
    fetched in every `N` cycles, whatever it rejects elsewhere. -/
def FailureIsolation : Prop :=
  ∀ (rejected : MemRegion) (ids : List WatchId) (tr₀ tr : List (Engine × Event)) (s t : Engine),
    Run step .init tr₀ s → Run step s tr t → s.phase = .idle → t.phase = .idle →
    t.cycle = s.cycle + ids.length → (∀ x ∈ tr, Rejecting rejected ids x.1 x.2) →
    ∀ w ∈ ids, (∀ x ∈ tr, ReadClear rejected w x.1 x.2) → ∃ x ∈ tr, Fetches x.1 x.2 w

/-- An idle engine with watches at `$7E0010` and `$7E4000`. -/
def twoWatches : List Event :=
  [.script (.register (.wram 0x10 2) .normal 0), .script (.register (.wram 0x4000 1) .normal 0)]

/-- A cycle whose one bulk batch fails. -/
def failedCycle : List Event :=
  [.beginCycle ⟨16, 10⟩, .readActive 0, .bulkPoll 2048 none, .publish 5, .collect]

/-- The batch of every cycle contains the rejected first watch, so the second
    one is never fetched. -/
theorem not_failureIsolation : ¬ FailureIsolation := by
  intro h
  have hno : ∀ x ∈ trace step (final step .init twoWatches) (failedCycle ++ failedCycle),
      ¬ Fetches x.1 x.2 1 := by decide
  obtain ⟨x, hx, hf⟩ := h (.wram 0x10 2) [0, 1] (trace step .init twoWatches)
    (trace step (final step .init twoWatches) (failedCycle ++ failedCycle)) _ _
    (run_final (by decide)) (run_final (by decide)) rfl rfl (by decide) (by decide) 1 (by decide)
    (by decide)
  exact hno x hx hf

-- ============================================================================
-- First batches that stay clear of the range
-- ============================================================================

/-- The pending reads the first batch of a cycle is selected from. -/
def firstPending (s : Engine) : Event → List CoalescedRead
  | .bulkPoll iterBudget _ =>
      match s.phase with
      | .bulk ctx done 0 => ctx.pending s.readState done iterBudget
      | _ => []
  | _ => []

/-- None of them overlaps the rejected range. -/
def FirstPendingClear (rejected : MemRegion) (s : Engine) (e : Event) : Prop :=
  ∀ r ∈ firstPending s e, ¬ r.region.Overlaps rejected

instance (rejected : MemRegion) (s : Engine) (e : Event) :
    Decidable (FirstPendingClear rejected s e) :=
  inferInstanceAs (Decidable (∀ r ∈ firstPending s e, _))

theorem FirstPendingClear.firstBatchOk {rejected : MemRegion} {ids : List WatchId} {s : Engine}
    {e : Event} (h : FirstPendingClear rejected s e) (hrej : Rejecting rejected ids s e) :
    FirstBatchOk s e := by
  intro hfirst
  cases e with
  | bulkPoll iterBudget reply =>
      cases hp : s.phase with
      | bulk ctx done n =>
          cases n with
          | zero =>
              simp only [FirstPendingClear, firstPending, hp] at h
              have hread : multiRead s (.bulkPoll iterBudget reply) =
                  some (ctx.bulkBatch s.readState done s.cycle iterBudget, reply) := by
                simp only [multiRead, hp]
              have hdev := hrej.device _ hread
              have hclear :
                  ¬ Rejects rejected (ctx.bulkBatch s.readState done s.cycle iterBudget) := by
                rintro ⟨r, hr, hov⟩
                exact h r (mem_of_mem_selectBulk hr) hov
              cases reply with
              | none => exact absurd (hdev.mp rfl) hclear
              | some blobs => simp [isFirstBatchOk, isFirstBatch, hp]
          | succ n => simp [isFirstBatch, hp] at hfirst
      | _ => simp [isFirstBatch, hp] at hfirst
  | _ => simp [isFirstBatch] at hfirst

-- ============================================================================
-- A watch the device always rejects
-- ============================================================================

/-- The watch is registered with this region whenever it is registered, and the
    regions of the active watches fit the address space. -/
structure HasRegion (b : WatchId) (region : MemRegion) (s : Engine) : Prop where
  drawn : b < s.registry.nextId
  entry : ∀ en, s.registry.find? b = some en → en.handle.region = region
  watches : ∀ c, s.phase.ctx? = some c → ∀ w ∈ c.watches, w.id = b → w.region = region
  fits : ∀ c, s.phase.ctx? = some c → ∀ w ∈ c.watches, w.region.Fits

/-- The regions of the active watches fit the address space. -/
def ActiveFit (s : Engine) (e : Event) : Prop :=
  ∀ c ∈ takenCtx s e, ∀ w ∈ c.watches, w.region.Fits

instance (s : Engine) (e : Event) : Decidable (ActiveFit s e) :=
  inferInstanceAs (Decidable (∀ c ∈ takenCtx s e, _))

theorem hasRegion_step {b : WatchId} {region : MemRegion} {s t : Engine} {e : Event}
    (h : HasRegion b region s) (hfit : ActiveFit s e) (hs : step s e = some t) :
    HasRegion b region t where
  drawn := h.drawn.trans_le (nextId_le_step hs)
  entry := by
    intro en hen
    rcases find?_of_step hs hen with ⟨hid, -⟩ | ⟨en₀, hen₀, hreg, -⟩
    · exact absurd hid (Nat.ne_of_lt h.drawn)
    · exact hreg.trans (h.entry en₀ hen₀)
  watches := by
    rintro c hc w hw rfl
    rcases ctx_of_step hs hc with ⟨c₀, builder, hc₀, rfl⟩ | ⟨cfg, liveIds, now, -, -, rfl⟩
    · exact h.watches c₀ hc₀ w hw rfl
    · obtain ⟨⟨en, hen, rfl⟩, -⟩ := mem_watches_takeActive hw
      exact h.entry en hen
  fits := by
    intro c hc
    rcases ctx_of_step hs hc with ⟨c₀, builder, hc₀, rfl⟩ | ⟨cfg, liveIds, now, rfl, hp, rfl⟩
    · exact h.fits c₀ hc₀
    · exact hfit _ (by simp only [takenCtx, hp]; rfl)

/-- A read overlaps whatever one of its members overlaps. -/
theorem ReadOf.overlaps {watches : List WatchHandle} {r : CoalescedRead} (h : ReadOf watches r)
    {m : Member} (hm : m ∈ r.members) {q : MemRegion} (hov : (r.memberRegion m).Overlaps q) :
    r.region.Overlaps q := by
  obtain ⟨hspace, hmap, hlt⟩ := hov
  have haddr := h.toNat_memberRegion hm
  have hin := h.inside m hm
  have hsize : (r.memberRegion m).size = m.size := rfl
  rw [haddr, hsize] at hlt
  exact ⟨hspace, hmap, by omega⟩

theorem not_fetches_of_overlaps {rejected : MemRegion} {ids : List WatchId} {b : WatchId}
    {region : MemRegion} {s t : Engine} {e : Event} (h : HasRegion b region s)
    (hov : region.Overlaps rejected) (hrej : Rejecting rejected ids s e)
    (hs : step s e = some t) : ¬ Fetches s e b := by
  rintro ⟨reads, blobs, hread, hmem⟩
  cases transition_of_step hs with
  | fetchOk e ctx reads' blobs' phase' hp hfetch hreads hp' hdone =>
      obtain ⟨rfl, -⟩ := Prod.mk.inj (Option.some.inj (hread.symm.trans hfetch))
      obtain ⟨r, hr, hb⟩ := mem_memberIds.mp hmem
      obtain ⟨m, hm, rfl⟩ := List.mem_map.mp hb
      have hof := hreads.readOf (h.fits ctx hp) r hr
      obtain ⟨w, hw, hwid, hwreg⟩ := hof.watch m hm
      have hregion : r.memberRegion m = region :=
        hwreg.symm.trans (h.watches ctx hp w hw hwid)
      rw [← hregion] at hov
      have hrejects : Rejects rejected reads := ⟨r, hr, hof.overlaps hm hov⟩
      exact absurd ((hrej.device _ hread).mpr hrejects) (by simp)
  | quiet e phase' hscript hfetch hphase => exact hfetch b ⟨reads, blobs, hread, hmem⟩
  | _ => exact absurd hread (by simp [multiRead])

/-- A watch whose own region is rejected is never fetched. -/
theorem not_fetches_run {rejected : MemRegion} {ids : List WatchId} {b : WatchId}
    {region : MemRegion} {s t : Engine} {tr : List (Engine × Event)} (h : HasRegion b region s)
    (hov : region.Overlaps rejected) (hrun : Run step s tr t)
    (hrej : ∀ x ∈ tr, Rejecting rejected ids x.1 x.2) (hfit : ∀ x ∈ tr, ActiveFit x.1 x.2) :
    ∀ x ∈ tr, ¬ Fetches x.1 x.2 b := by
  intro x hx
  obtain ⟨pre, post, rfl, hpre⟩ := hrun.prefix_of_mem hx
  have hx' : HasRegion b region x.1 :=
    hpre.invariant (P := ActiveFit) (fun _ _ _ hP hi hs => hasRegion_step hi hP hs)
      (fun y hy => hfit y (List.mem_append_left _ hy)) h
  obtain ⟨u, hrun', -⟩ : ∃ u, Run step s (pre ++ [x]) u ∧ Run step u post t :=
    Run.split (by simpa using hrun)
  exact not_fetches_of_overlaps hx' hov (hrej x hx) hrun'.of_snoc.2

-- ============================================================================
-- When failures are isolated
-- ============================================================================

/-- **When failures are isolated.**  The device rejects one range and all `N`
    bulk watches are requested in every cycle.  If no pending read of a first
    batch touches the range, every watch is fetched within `N` cycles.  If the
    region of one of the watches itself touches it, fewer than `N` first batches
    succeed in all, however long the run is. -/
theorem isolation_of_firstPendingClear {rejected : MemRegion} {ids : List WatchId} {s t : Engine}
    {tr : List (Engine × Event)} (hrun : Run step s tr t) (hidle : s.phase = .idle)
    (hrefresh : ∀ id, s.readState.refreshCycle id ≤ s.cycle)
    (hrej : ∀ x ∈ tr, Rejecting rejected ids x.1 x.2) :
    ((∀ x ∈ tr, FirstPendingClear rejected x.1 x.2) → t.phase = .idle →
      t.cycle = s.cycle + ids.length → ∀ w ∈ ids, ∃ x ∈ tr, Fetches x.1 x.2 w) ∧
    ((∀ x ∈ tr, ActiveFit x.1 x.2) →
      ∀ b ∈ ids, ∀ en, s.registry.find? b = some en → en.handle.region.Overlaps rejected →
        tr.countP isFirstBatchOk < ids.length) := by
  constructor
  · intro hclear hidle' hcycle w hw
    exact fetched_within hw hidle hrefresh hrun (fun x hx => (hrej x hx).fixed)
      (fun _ x hx => (hrej x hx).requested w hw)
      (fun x hx => (hclear x hx).firstBatchOk (hrej x hx)) hidle' hcycle
  · intro hfit b hb en hen hov
    have hregion : HasRegion b en.handle.region s := by
      refine ⟨WatchRegistry.find?_lt hen, ?_, Phase.no_ctx (by rw [hidle]; rfl),
        Phase.no_ctx (by rw [hidle]; rfl)⟩
      intro en' hen'
      rw [hen] at hen'
      obtain rfl := Option.some.inj hen'
      rfl
    exact firstBatches_lt hb hidle hrefresh hrun (fun x hx => (hrej x hx).fixed)
      (fun x hx => (hrej x hx).requested b hb)
      (not_fetches_run hregion hov hrun hrej hfit)

/-- A cycle that fetches both watches. -/
def clearCycle : List Event :=
  [.beginCycle ⟨16, 10⟩, .readActive 0, .bulkPoll 2048 (some [[1, 2], [3]]), .endDrain 2048,
   .publish 5, .collect, .script (.touch 0 0), .script (.touch 1 0)]

/-- A device that rejects a range no watch touches, and one that rejects the
    first watch. -/
theorem isolation_two_devices :
    (∃ x ∈ trace step (final step .init twoWatches) (clearCycle ++ clearCycle), Fetches x.1 x.2 1) ∧
    (trace step (final step .init twoWatches) (failedCycle ++ failedCycle)).countP
      isFirstBatchOk < 2 :=
  ⟨(@isolation_of_firstPendingClear (.wram 0x2000 4) [0, 1] _ _ _ (run_final (by decide)) rfl
      (fun _ => Nat.zero_le _) (by decide)).1 (by decide) rfl (by decide) 1 (by decide),
    (@isolation_of_firstPendingClear (.wram 0x10 2) [0, 1] _ _ _ (run_final (by decide)) rfl
      (fun _ => Nat.zero_le _) (by decide)).2 (by decide) 0 (by decide)
      ⟨⟨0, .wram 0x10 2, .normal⟩, 0, 1, false⟩ (by decide) (by decide)⟩

end Cache
end SniLua
