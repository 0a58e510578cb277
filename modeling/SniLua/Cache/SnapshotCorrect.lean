/-
  SniLua.Cache.SnapshotCorrect

  End-to-end correctness of the published snapshots.  The trace of a run is the
  history against which a snapshot is judged: the calls that registered regions,
  in the order ids are drawn, and the `MultiRead`s that fetched a watch, the
  `i`-th step of the trace seeing the device memory `dev i`.

  `Faithful` is the invariant: whatever the engine holds for a watch (in the
  published snapshot, or in the builder while a cycle assembles the next one) is
  the memory of the watch's own region at the last fetch of the watch.  `Kept`
  says that what a snapshot has is not lost while the watch stays registered.
-/

import SniLua.Cache.Arrival
import SniLua.Cache.Requests

namespace SniLua
namespace Cache

open Lib

-- ============================================================================
-- The history of a run
-- ============================================================================

/-- The regions registered along a trace, in the order of their ids. -/
def registrations (tr : List (Engine × Event)) : List MemRegion :=
  tr.filterMap fun x =>
    match x.2 with
    | .script op => op.registers
    | _ => none

/-- The step `i` is the last one of the trace that fetches the watch. -/
structure IsLastFetch (tr : List (Engine × Event)) (id : WatchId) (i : Nat) : Prop where
  fetch : ∃ x, tr[i]? = some x ∧ Fetches x.1 x.2 id
  last : ∀ j x, i < j → tr[j]? = some x → ¬ Fetches x.1 x.2 id

/-- Every `MultiRead` that succeeds returns the current device bytes of each of
    its reads. -/
def Honest (dev : Nat → DeviceMem) (tr : List (Engine × Event)) : Prop :=
  ∀ i (hi : i < tr.length), ∀ m ∈ multiRead tr[i].1 tr[i].2, ∀ blobs ∈ m.2,
    blobs = deviceReply (dev i) m.1

instance (dev : Nat → DeviceMem) (tr : List (Engine × Event)) : Decidable (Honest dev tr) :=
  inferInstanceAs (Decidable (∀ i (_ : i < tr.length), _))

theorem registrations_snoc (tr : List (Engine × Event)) (s : Engine) (e : Event) :
    registrations (tr ++ [(s, e)]) = registrations tr ++ registrations [(s, e)] :=
  List.filterMap_append

theorem registrations_script (s : Engine) (op : RegistryOp) :
    registrations [(s, .script op)] = op.registers.toList := by
  cases op <;> rfl

theorem IsLastFetch.snoc {tr : List (Engine × Event)} {id : WatchId} {i : Nat}
    (h : IsLastFetch tr id i) {s : Engine} {e : Event} (hno : ¬ Fetches s e id) :
    IsLastFetch (tr ++ [(s, e)]) id i where
  fetch := by
    obtain ⟨x, hx, hf⟩ := h.fetch
    obtain ⟨hi, -⟩ := List.getElem?_eq_some_iff.mp hx
    exact ⟨x, by rw [List.getElem?_append_left hi]; exact hx, hf⟩
  last := by
    intro j x hj hx
    rcases Nat.lt_or_ge j tr.length with hlt | hge
    · rw [List.getElem?_append_left hlt] at hx
      exact h.last j x hj hx
    · rw [List.getElem?_append_right hge, List.getElem?_singleton] at hx
      split at hx
      · obtain rfl := Option.some.inj hx
        exact hno
      · exact absurd hx (by simp)

theorem isLastFetch_of_fetch (tr : List (Engine × Event)) {s : Engine} {e : Event} {id : WatchId}
    (hf : Fetches s e id) : IsLastFetch (tr ++ [(s, e)]) id tr.length where
  fetch := ⟨(s, e), by simp, hf⟩
  last := by
    intro j x hj hx
    rw [List.getElem?_eq_none (by simp; omega)] at hx
    exact absurd hx (by simp)

theorem Honest.of_snoc {dev : Nat → DeviceMem} {tr : List (Engine × Event)} {x : Engine × Event}
    (h : Honest dev (tr ++ [x])) : Honest dev tr := by
  intro i hi m hm blobs hb
  have hi' : i < (tr ++ [x]).length := by simp; omega
  have hx : (tr ++ [x])[i] = tr[i] := List.getElem_append_left hi
  exact h i hi' m (by rw [hx]; exact hm) blobs hb

theorem Honest.last {dev : Nat → DeviceMem} {tr : List (Engine × Event)} {s : Engine} {e : Event}
    (h : Honest dev (tr ++ [(s, e)])) {reads : List CoalescedRead} {blobs : List (List UInt8)}
    (hread : multiRead s e = some (reads, some blobs)) :
    blobs = deviceReply (dev tr.length) reads := by
  have hlast : tr.length < (tr ++ [(s, e)]).length := by simp
  have hx : (tr ++ [(s, e)])[tr.length] = (s, e) := by simp
  exact h tr.length hlast (reads, some blobs) (by rw [hx]; exact hread) blobs rfl

-- ============================================================================
-- What the engine holds
-- ============================================================================

/-- The three maps of a snapshot. -/
def Snapshot.maps (s : Snapshot) : SnapshotBuilder := ⟨s.data, s.regions, s.ageCycles⟩

/-- The entries the engine holds: those of the builder while a cycle assembles
    the next snapshot, those of the published one otherwise. -/
def Engine.held (s : Engine) : SnapshotBuilder :=
  match s.phase.ctx? with
  | some c => c.builder
  | none => s.current.maps

theorem Engine.held_of_ctx {s : Engine} {c : CycleCtx} (h : s.phase.ctx? = some c) :
    s.held = c.builder := by
  rw [held, h]

theorem Engine.held_of_none {s : Engine} (h : s.phase.ctx? = none) :
    s.held = s.current.maps := by
  rw [held, h]

/-- An entry without bytes is empty in all maps; one with bytes holds the memory
    of the watch's region at its last fetch. -/
def EntryOk (dev : Nat → DeviceMem) (tr : List (Engine × Event)) (id : WatchId)
    (entry : Option (List UInt8) × Option MemRegion × Option UInt32) : Prop :=
  entry = (none, none, none) ∨
    ∃ region age i, (registrations tr)[id]? = some region ∧ IsLastFetch tr id i ∧
      entry = (some ((dev i).read region), some region, some age)

theorem EntryOk.none {dev : Nat → DeviceMem} {tr : List (Engine × Event)} {id : WatchId} :
    EntryOk dev tr id (none, none, none) := Or.inl rfl

/-- Growing older does not hurt an entry. -/
theorem EntryOk.age {dev : Nat → DeviceMem} {tr : List (Engine × Event)} {id : WatchId}
    {bytes : Option (List UInt8)} {region : Option MemRegion} {age : Option UInt32}
    (h : EntryOk dev tr id (bytes, region, age)) (f : UInt32 → UInt32) :
    EntryOk dev tr id (bytes, region, age.map f) := by
  rcases h with h | ⟨r, a, i, hreg, hlast, h⟩
  · simp only [Prod.mk.injEq] at h
    obtain ⟨rfl, rfl, rfl⟩ := h
    exact Or.inl rfl
  · simp only [Prod.mk.injEq] at h
    obtain ⟨rfl, rfl, rfl⟩ := h
    exact Or.inr ⟨r, f a, i, hreg, hlast, rfl⟩

theorem EntryOk.snoc {dev : Nat → DeviceMem} {tr : List (Engine × Event)} {id : WatchId}
    {entry : Option (List UInt8) × Option MemRegion × Option UInt32}
    (h : EntryOk dev tr id entry) {s : Engine} {e : Event} (hno : ¬ Fetches s e id) :
    EntryOk dev (tr ++ [(s, e)]) id entry := by
  rcases h with h | ⟨r, a, i, hreg, hlast, h⟩
  · exact Or.inl h
  · refine Or.inr ⟨r, a, i, ?_, hlast.snoc hno, h⟩
    obtain ⟨hi, -⟩ := List.getElem?_eq_some_iff.mp hreg
    rw [registrations_snoc, List.getElem?_append_left hi]
    exact hreg

/-- The invariant of a run whose trace is `tr`. -/
structure Faithful (dev : Nat → DeviceMem) (tr : List (Engine × Event)) (s : Engine) : Prop where
  nextId : s.registry.nextId = (registrations tr).length
  entry : ∀ id en, s.registry.find? id = some en →
    (registrations tr)[id]? = some en.handle.region
  watches : ∀ c, s.phase.ctx? = some c → ∀ w ∈ c.watches,
    (registrations tr)[w.id]? = some w.region
  held : ∀ id, EntryOk dev tr id (s.held.entry id)

theorem faithful_init (dev : Nat → DeviceMem) : Faithful dev [] .init where
  nextId := rfl
  entry := fun id en h => absurd h (by simp [Engine.init])
  watches := Phase.no_ctx rfl
  held := fun _ => .none

/-- Between cycles the published snapshot is what is held. -/
theorem Faithful.current {dev : Nat → DeviceMem} {tr : List (Engine × Event)} {s : Engine}
    (h : Faithful dev tr s) (hp : s.phase.ctx? = none) (id : WatchId) :
    EntryOk dev tr id (s.current.maps.entry id) :=
  Engine.held_of_none hp ▸ h.held id

/-- In a cycle it is the builder. -/
theorem Faithful.builder {dev : Nat → DeviceMem} {tr : List (Engine × Event)} {s : Engine}
    (h : Faithful dev tr s) {c : CycleCtx} (hp : s.phase.ctx? = some c) (id : WatchId) :
    EntryOk dev tr id (c.builder.entry id) :=
  Engine.held_of_ctx hp ▸ h.held id

theorem getElem?_registrations_snoc {tr : List (Engine × Event)} {id : WatchId}
    {region : MemRegion} (h : (registrations tr)[id]? = some region) (s : Engine) (e : Event) :
    (registrations (tr ++ [(s, e)]))[id]? = some region := by
  obtain ⟨hi, -⟩ := List.getElem?_eq_some_iff.mp h
  rw [registrations_snoc, List.getElem?_append_left hi]
  exact h

/-- Registry calls keep ids and regions in step with the history. -/
theorem entry_apply {tr : List (Engine × Event)} {s : Engine}
    (hnext : s.registry.nextId = (registrations tr).length)
    (hentry : ∀ id en, s.registry.find? id = some en →
      (registrations tr)[id]? = some en.handle.region)
    (op : RegistryOp) {id : WatchId} {en : WatchEntry}
    (h : (s.registry.apply op).find? id = some en) :
    (registrations (tr ++ [(s, .script op)]))[id]? = some en.handle.region := by
  rcases WatchRegistry.find?_apply h with ⟨hop, hid, -⟩ | ⟨en₀, hen₀, hreg, -⟩
  · rw [registrations_snoc, registrations_script, hop, hid, hnext]
    simp
  · rw [hreg]
    exact getElem?_registrations_snoc (hentry id en₀ hen₀) s _

/-- Events other than registry calls register nothing. -/
theorem registrations_of_not_script (s : Engine) {e : Event} (h : ∀ op, e ≠ .script op) :
    registrations [(s, e)] = [] := by
  cases e with
  | script op => exact absurd rfl (h op)
  | _ => rfl

/-- A step that is no registry call: the registry's part of the invariant stays. -/
theorem Faithful.snoc {dev : Nat → DeviceMem} {tr : List (Engine × Event)} {s t : Engine}
    {e : Event} (h : Faithful dev tr s) (hscript : ∀ op, e ≠ .script op)
    (hreg : t.registry = s.registry)
    (hwatches : ∀ c, t.phase.ctx? = some c → ∀ w ∈ c.watches,
      (registrations tr)[w.id]? = some w.region)
    (hheld : ∀ id, EntryOk dev (tr ++ [(s, e)]) id (t.held.entry id)) :
    Faithful dev (tr ++ [(s, e)]) t where
  nextId := by
    rw [hreg, h.nextId, registrations_snoc, registrations_of_not_script s hscript,
      List.append_nil]
  entry := by
    intro id en hen
    rw [hreg] at hen
    exact getElem?_registrations_snoc (h.entry id en hen) s e
  watches := fun c hc w hw => getElem?_registrations_snoc (hwatches c hc w hw) s e
  held := hheld

/-- The entry of a watch when a cycle starts from the published snapshot. -/
theorem entryOk_takeActive {dev : Nat → DeviceMem} {tr : List (Engine × Event)} {s : Engine}
    {id : WatchId} (h : EntryOk dev tr id (s.current.maps.entry id)) (cfg : PollConfig)
    (liveIds : List WatchId) (now : Nat) :
    EntryOk dev tr id ((s.takeActive cfg liveIds now).builder.entry id) := by
  rw [Engine.takeActive]
  dsimp only
  rw [SnapshotBuilder.entry_retainOnly]
  split
  · rw [SnapshotBuilder.entry_fromPrev]
    exact h.age _
  · exact .none

/-- The entry of a watch after the device's reply. -/
theorem entryOk_applyReads {dev : Nat → DeviceMem} {tr : List (Engine × Event)} {s : Engine}
    {e : Event} {ctx : CycleCtx} {reads : List CoalescedRead} {b : SnapshotBuilder}
    (hreads : ∀ r ∈ reads, ReadOf ctx.watches r)
    (hwatches : ∀ w ∈ ctx.watches, (registrations tr)[w.id]? = some w.region)
    (hfetch : multiRead s e = some (reads, some (deviceReply (dev tr.length) reads)))
    {id : WatchId} (h : EntryOk dev tr id (b.entry id)) :
    EntryOk dev (tr ++ [(s, e)]) id
      ((applyReads reads (deviceReply (dev tr.length) reads) b).entry id) := by
  rcases entry_applyReads reads (deviceReply (dev tr.length) reads) b id with
    ⟨region, bytes, hmem, heq⟩ | ⟨hnone, heq⟩
  · obtain ⟨⟨w, hw, hid, hreg⟩, rfl⟩ := slice_deviceReply hreads hmem
    have hf : Fetches s e id := ⟨reads, _, hfetch, mem_memberIds_of_mem_slices hmem⟩
    refine Or.inr ⟨region, 0, tr.length, ?_, isLastFetch_of_fetch tr hf, heq⟩
    rw [← hid, ← hreg]
    exact getElem?_registrations_snoc (hwatches w hw) s e
  · rw [heq]
    refine h.snoc ?_
    rintro ⟨reads', blobs', hf, hmem⟩
    obtain ⟨rfl, -⟩ := Prod.mk.inj (Option.some.inj (hfetch.symm.trans hf))
    obtain ⟨region, bytes, hs⟩ := exists_slice_deviceReply hreads (dev tr.length) hmem
    exact hnone region bytes hs

theorem faithful_step {dev : Nat → DeviceMem} {tr : List (Engine × Event)} {s t : Engine}
    {e : Event} (h : Faithful dev tr s) (hfit : ∀ r ∈ registrations tr, r.Fits)
    (hdev : Honest dev (tr ++ [(s, e)])) (hs : step s e = some t) :
    Faithful dev (tr ++ [(s, e)]) t := by
  have hwatches : ∀ c, t.phase.ctx? = some c → ∀ w ∈ c.watches,
      (registrations tr)[w.id]? = some w.region := by
    intro c hc w hw
    rcases ctx_of_step hs hc with ⟨c₀, builder, hc₀, rfl⟩ | ⟨cfg, liveIds, now, -, -, rfl⟩
    · exact h.watches c₀ hc₀ w hw
    · obtain ⟨⟨en, hen, rfl⟩, -⟩ := mem_watches_takeActive hw
      exact h.entry _ en hen
  cases transition_of_step hs with
  | script op =>
      refine ⟨?_, fun id en => entry_apply h.nextId h.entry op,
        fun c hc w hw => getElem?_registrations_snoc (hwatches c hc w hw) s _,
        fun id => (h.held id).snoc (not_fetches_of_multiRead_none rfl id)⟩
      rw [WatchRegistry.nextId_apply, h.nextId, registrations_snoc, registrations_script,
        List.length_append]
  | begin cfg hp =>
      refine h.snoc (by simp) rfl hwatches fun id => ?_
      exact (h.current (by rw [hp]; rfl) id).snoc (not_fetches_of_multiRead_none rfl id)
  | active cfg liveIds now phase' hp hp' hdone =>
      refine h.snoc (by simp) rfl hwatches fun id => ?_
      have hentry := entryOk_takeActive (h.current (by rw [hp]; rfl) id) cfg liveIds now
      rw [Engine.held_of_ctx hp']
      exact hentry.snoc (not_fetches_of_multiRead_none rfl id)
  | fetchOk e ctx reads blobs phase' hp hfetch hreads hp' hdone =>
      obtain rfl := hdev.last hfetch
      have hfits : ∀ w ∈ ctx.watches, w.region.Fits := fun w hw =>
        hfit w.region (List.mem_of_getElem? (h.watches ctx hp w hw))
      refine h.snoc ?_ rfl hwatches ?_
      · rintro op rfl
        exact absurd hfetch (by simp [multiRead])
      · intro id
        rw [Engine.held_of_ctx hp']
        exact entryOk_applyReads (hreads.readOf hfits) (h.watches ctx hp) hfetch (h.builder hp id)
  | quiet e phase' hscript hfetch hphase =>
      refine h.snoc hscript rfl hwatches fun id => EntryOk.snoc ?_ (hfetch id)
      rcases hphase with rfl | ⟨ctx, hp, hp', -⟩
      · exact h.held id
      · rw [Engine.held_of_ctx hp']
        exact h.builder hp id
  | publish ctx rttMs hp =>
      refine h.snoc (by simp) rfl hwatches fun id => ?_
      exact (h.builder (by rw [hp]; rfl) id).snoc (not_fetches_of_multiRead_none rfl id)
  | collect liveIds hp =>
      refine h.snoc (by simp) rfl hwatches fun id => ?_
      exact (h.current (by rw [hp]; rfl) id).snoc (not_fetches_of_multiRead_none rfl id)

theorem faithful_run {dev : Nat → DeviceMem} {tr : List (Engine × Event)} {s : Engine}
    (hrun : Run step .init tr s) (hfit : ∀ r ∈ registrations tr, r.Fits) (hdev : Honest dev tr) :
    Faithful dev tr s := by
  refine hrun.trace_invariant (I := fun tr s => (∀ r ∈ registrations tr, r.Fits) →
    Honest dev tr → Faithful dev tr s) ?_ (fun _ _ => faithful_init dev) hfit hdev
  intro tr u e v _ ih hs hfit hdev
  have hfit' : ∀ r ∈ registrations tr, r.Fits := by
    intro r hr
    exact hfit r (by rw [registrations_snoc]; exact List.mem_append_left _ hr)
  exact faithful_step (ih hfit' hdev.of_snoc) hfit' hdev hs

-- ============================================================================
-- What a snapshot has is kept
-- ============================================================================

/-- Ids that have bytes have been drawn, and the bytes of a registered watch
    pass from the snapshot into the cycle that assembles the next one. -/
structure Kept (s : Engine) : Prop where
  watches : ∀ c, s.phase.ctx? = some c → ∀ w ∈ c.watches, w.id < s.registry.nextId
  builder : ∀ c, s.phase.ctx? = some c → ∀ id, (c.builder.data.get id).isSome →
    id < s.registry.nextId
  current : ∀ id, s.current.has id → id < s.registry.nextId
  started : ∀ cfg liveIds, s.phase = .started cfg liveIds → ∀ id, s.registry.Registered id →
    s.current.has id → id ∈ liveIds
  carried : ∀ c, s.phase.ctx? = some c → ∀ id, s.registry.Registered id → s.current.has id →
    (c.builder.data.get id).isSome

theorem kept_init : Kept .init where
  watches := Phase.no_ctx rfl
  builder := Phase.no_ctx rfl
  current := fun id h => absurd h (by simp [Engine.init, Snapshot.default, Snapshot.has])
  started := fun cfg l h => absurd h (by simp [Engine.init])
  carried := Phase.no_ctx rfl

theorem kept_step {s t : Engine} {e : Event} (h : Kept s) (hs : step s e = some t) : Kept t := by
  have hwatches : ∀ c, t.phase.ctx? = some c → ∀ w ∈ c.watches, w.id < t.registry.nextId := by
    intro c hc w hw
    refine Nat.lt_of_lt_of_le ?_ (nextId_le_step hs)
    rcases ctx_of_step hs hc with ⟨c₀, builder, hc₀, rfl⟩ | ⟨cfg, liveIds, now, -, -, rfl⟩
    · exact h.watches c₀ hc₀ w hw
    · obtain ⟨⟨en, hen, -⟩, -⟩ := mem_watches_takeActive hw
      exact WatchRegistry.find?_lt hen
  cases transition_of_step hs with
  | script op =>
      have hle := WatchRegistry.nextId_le_apply s.registry op
      refine ⟨hwatches, fun c hc id hid => (h.builder c hc id hid).trans_le hle,
        fun id hid => (h.current id hid).trans_le hle, ?_, ?_⟩
      · intro cfg l hl id hreg hcur
        exact h.started cfg l hl id
          (WatchRegistry.registered_of_apply hreg (h.current id hcur)) hcur
      · intro c hc id hreg hcur
        exact h.carried c hc id (WatchRegistry.registered_of_apply hreg (h.current id hcur)) hcur
  | begin cfg hp =>
      refine ⟨Phase.no_ctx rfl,
        Phase.no_ctx rfl, h.current, ?_,
        Phase.no_ctx rfl⟩
      intro cfg' l hl id hreg _
      obtain ⟨-, rfl⟩ := Phase.started.inj hl
      exact WatchRegistry.mem_map_all hreg
  | active cfg liveIds now phase' hp hp' hdone =>
      refine ⟨hwatches, ?_, h.current, ?_, ?_⟩
      · intro c hc id hid
        obtain rfl := Option.some.inj (hp'.symm.trans hc)
        refine h.current id ?_
        simp only [Engine.takeActive, SnapshotBuilder.retainOnly, HashMap.get_retain] at hid
        split at hid
        · exact hid
        · exact absurd hid (by simp)
      · exact fun cfg' l hl => absurd hl (Phase.ne_started_of_ctx? hp' cfg' l)
      · intro c hc id hreg hcur
        obtain rfl := Option.some.inj (hp'.symm.trans hc)
        have hlive := h.started cfg liveIds hp id hreg hcur
        simp only [Engine.takeActive, SnapshotBuilder.retainOnly, HashMap.get_retain]
        rw [if_pos (by simpa using hlive)]
        exact hcur
  | fetchOk e ctx reads blobs phase' hp hfetch hreads hp' hdone =>
      refine ⟨hwatches, ?_, h.current, ?_, ?_⟩
      · intro c hc id hid
        obtain rfl := Option.some.inj (hp'.symm.trans hc)
        rcases mem_of_isSome_applyReads hid with hmem | hid
        · obtain ⟨w, hw, rfl⟩ := hreads.mem_watches hmem
          exact h.watches ctx hp w hw
        · exact h.builder ctx hp id hid
      · exact fun cfg' l hl => absurd hl (Phase.ne_started_of_ctx? hp' cfg' l)
      · intro c hc id hreg hcur
        obtain rfl := Option.some.inj (hp'.symm.trans hc)
        exact isSome_applyReads (h.carried ctx hp id hreg hcur) reads blobs
  | quiet e phase' hscript hfetch hphase =>
      rcases hphase with rfl | ⟨ctx, hp, hp', -⟩
      · exact { h with }
      · refine ⟨hwatches, ?_, h.current, ?_, ?_⟩
        · intro c hc
          obtain rfl := Option.some.inj (hp'.symm.trans hc)
          exact h.builder ctx hp
        · exact fun cfg' l hl => absurd hl (Phase.ne_started_of_ctx? hp' cfg' l)
        · intro c hc
          obtain rfl := Option.some.inj (hp'.symm.trans hc)
          exact h.carried ctx hp
  | publish ctx rttMs hp =>
      exact ⟨Phase.no_ctx rfl,
        Phase.no_ctx rfl, h.builder ctx (by rw [hp]; rfl),
        fun cfg l hl => absurd hl (by simp), Phase.no_ctx rfl⟩
  | collect liveIds hp =>
      exact ⟨Phase.no_ctx rfl,
        Phase.no_ctx rfl, h.current,
        fun cfg l hl => absurd hl (by simp), Phase.no_ctx rfl⟩

/-- One step does not take bytes from a registered watch. -/
theorem has_step {s t : Engine} {e : Event} (h : Kept s) {id : WatchId} (hcur : s.current.has id)
    (hs : step s e = some t) (hreg : t.registry.Registered id) : t.current.has id := by
  cases transition_of_step hs with
  | publish ctx rttMs hp => exact h.carried ctx (by rw [hp]; rfl) id hreg hcur
  | _ => exact hcur

theorem registered_of_step {s t : Engine} {e : Event} (hs : step s e = some t) {id : WatchId}
    (hreg : t.registry.Registered id) (hlt : id < s.registry.nextId) :
    s.registry.Registered id := by
  obtain ⟨en, hen⟩ := Option.isSome_iff_exists.mp hreg
  rcases find?_of_step hs hen with ⟨hid, -⟩ | ⟨en₀, hen₀, -⟩
  · exact absurd hid (Nat.ne_of_lt hlt)
  · exact Option.isSome_iff_exists.mpr ⟨en₀, hen₀⟩

/-- A watch that is registered at the end of a run has kept its bytes. -/
theorem has_run {tr : List (Engine × Event)} {s t : Engine} (h : Kept s) {id : WatchId}
    (hcur : s.current.has id) (hrun : Run step s tr t) (hreg : t.registry.Registered id) :
    t.current.has id := by
  have hinv : Kept t ∧ id < t.registry.nextId ∧
      (t.registry.Registered id → t.current.has id) := by
    refine hrun.invariant (P := fun _ _ => True) (I := fun u => Kept u ∧
      id < u.registry.nextId ∧ (u.registry.Registered id → u.current.has id)) ?_
      (fun _ _ => trivial) ⟨h, h.current id hcur, fun _ => hcur⟩
    rintro u e v - ⟨hk, hlt, hkeep⟩ hs
    refine ⟨kept_step hk hs, hlt.trans_le (nextId_le_step hs), fun hreg => ?_⟩
    exact has_step hk (hkeep (registered_of_step hs hreg hlt)) hs hreg
  exact hinv.2.2 hreg

theorem kept_run {tr : List (Engine × Event)} {s : Engine} (hrun : Run step .init tr s) : Kept s :=
  hrun.invariant (P := fun _ _ => True) (fun _ _ _ _ hi hs => kept_step hi hs)
    (fun _ _ => trivial) kept_init

-- ============================================================================
-- Published snapshots
-- ============================================================================

/-- **Published snapshots are correct.**  In a run whose device answers with its
    current bytes and whose registered regions fit the address space, the
    snapshot a cycle publishes has one key set; each of its ids was registered
    with the region it shows, and shows the bytes of that region at the single
    last `MultiRead` that fetched the watch; and from then on a watch that stays
    registered never loses its bytes. -/
theorem snapshot_correct {dev : Nat → DeviceMem} {tr : List (Engine × Event)} {s t : Engine}
    {rttMs : UInt32} (hrun : Run step .init (tr ++ [(s, .publish rttMs)]) t)
    (hfit : ∀ r ∈ registrations tr, r.Fits) (hdev : Honest dev tr) :
    (∀ id, (t.current.bytes id).isSome = (t.current.region id).isSome ∧
      (t.current.bytes id).isSome = (t.current.watchAge id).isSome) ∧
    (∀ id bytes, t.current.bytes id = some bytes → ∃ region i,
      (registrations tr)[id]? = some region ∧ t.current.region id = some region ∧
        bytes.length = region.size.toNat ∧ IsLastFetch tr id i ∧
          bytes = (dev i).read region) ∧
    ∀ id tr' u, t.current.has id → Run step t tr' u → u.registry.Registered id →
      u.current.has id := by
  obtain ⟨hpre, hs⟩ := hrun.of_snoc
  have hfaithful := faithful_run hpre hfit hdev
  have hentry : ∀ id, EntryOk dev tr id (t.current.maps.entry id) := by
    intro id
    simp only [step] at hs
    split at hs
    · rename_i ctx hp
      obtain rfl := Option.some.inj hs
      exact hfaithful.builder (by rw [hp]; rfl) id
    · exact absurd hs (by simp)
  refine ⟨?_, ?_, fun id tr' u hcur hrun' hreg => has_run (kept_run hrun) hcur hrun' hreg⟩
  · intro id
    rcases hentry id with h | ⟨region, age, i, -, -, h⟩
    · simp only [SnapshotBuilder.entry, Snapshot.maps, Prod.mk.injEq] at h
      simp [Snapshot.bytes, Snapshot.region, Snapshot.watchAge, h]
    · simp only [SnapshotBuilder.entry, Snapshot.maps, Prod.mk.injEq] at h
      simp [Snapshot.bytes, Snapshot.region, Snapshot.watchAge, h]
  · intro id bytes hbytes
    rw [Snapshot.bytes] at hbytes
    rcases hentry id with h | ⟨region, age, i, hreg, hlast, h⟩
    · simp only [SnapshotBuilder.entry, Snapshot.maps, Prod.mk.injEq] at h
      exact absurd (hbytes.symm.trans h.1) (by simp)
    · simp only [SnapshotBuilder.entry, Snapshot.maps, Prod.mk.injEq] at h
      obtain ⟨hdata, hregion, -⟩ := h
      obtain rfl := Option.some.inj (hbytes.symm.trans hdata)
      exact ⟨region, i, hreg, hregion, DeviceMem.length_read _ _, hlast, rfl⟩

/-- A memory that changes with every step. -/
def tickingMem (i : Nat) : DeviceMem := fun _ _ address => UInt8.ofNat (address + i)

/-- Two neighbouring watches that are fetched by one read. -/
def mergedCycle : List Event :=
  [.script (.register (.wram 0x10 2) .normal 0), .script (.register (.wram 0x14 1) .low 0),
   .beginCycle ⟨16, 10⟩, .readActive 0,
   .bulkPoll 2048 (some [[0x14, 0x15, 0x16, 0x17, 0x18]]), .endDrain 2048]

/-- The second of them shows its own byte. -/
theorem snapshot_correct_merged : ∃ region i,
    (registrations (trace step .init mergedCycle))[1]? = some region ∧
      (final step .init (mergedCycle ++ [.publish 5])).current.region 1 = some region ∧
        [(0x18 : UInt8)].length = region.size.toNat ∧
          IsLastFetch (trace step .init mergedCycle) 1 i ∧
            [0x18] = (tickingMem i).read region :=
  (snapshot_correct (run_final_concat (by decide)) (by decide)
    (by decide : Honest tickingMem (trace step .init mergedCycle))).2.1 1 [0x18] (by decide)

end Cache
end SniLua
