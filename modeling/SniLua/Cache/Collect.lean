/-
  SniLua.Cache.Collect

  The periodic collection of `read_state`.  It keeps the entries of the watches
  `registry.all()` returned when the cycle began.  A watch registered after that
  call and before `active_with_requests` can be fetched in the same cycle: the
  collection then drops the entry of a registered watch.

  `LateFetch` is this order of events, and it is the only harm the collection
  does.  In a run without it the engine cannot be told from one that never
  collects: the two agree on the entries of every watch that matters to what
  comes, and all decisions of the drain loop are made of these.
-/

import SniLua.Cache.Drain
import SniLua.Cache.SnapshotCorrect

namespace SniLua
namespace Cache

open Lib

-- ============================================================================
-- What the collection must not change
-- ============================================================================

/-- The engine without the collection. -/
def stepKeeping (s : Engine) : Event → Option Engine
  | .collect =>
      match s.phase with
      | .published _ => some { s with phase := .idle }
      | _ => none
  | e => step s e

/-- Two states that no script and no cycle can tell apart: registry, published
    snapshot and progress of the cycle are the same, and so are the pending
    reads, their staleness and the batches of the cycle. -/
structure SameView (s s' : Engine) : Prop where
  registry : s'.registry = s.registry
  current : s'.current = s.current
  cycle : s'.cycle = s.cycle
  phase : s'.phase = s.phase
  pending : ∀ c, s.phase.ctx? = some c → ∀ done iterBudget,
    c.pending s'.readState done iterBudget = c.pending s.readState done iterBudget
  staleness : ∀ c, s.phase.ctx? = some c → ∀ iterBudget, ∀ r ∈ c.chunked iterBudget,
    staleness s'.readState s'.cycle r = staleness s.readState s.cycle r
  batch : ∀ c, s.phase.ctx? = some c → ∀ done iterBudget,
    c.bulkBatch s'.readState done s'.cycle iterBudget =
      c.bulkBatch s.readState done s.cycle iterBudget

/-- The collections of a run cannot be noticed. -/
structure CollectionInvisible (tr : List (Engine × Event)) (s : Engine) : Prop where
  /-- None of them changes the entry of a registered watch. -/
  kept : ∀ u v, (u, Event.collect) ∈ tr → step u .collect = some v → ∀ id,
    u.registry.Registered id → v.readState.get id = u.readState.get id
  /-- The engine without the collection takes the same events through states
      that look the same. -/
  same : ∃ tr' s', Run stepKeeping .init tr' s' ∧
    List.Forall₂ (fun x x' => x'.2 = x.2 ∧ SameView x.1 x'.1) tr tr' ∧ SameView s s'

/-- The event is `registry.all()` at the start of a cycle. -/
def Event.beginsCycle : Event → Bool
  | .beginCycle _ => true
  | _ => false

/-- In the last cycle of the trace the watch was fetched, and it was not
    registered when the cycle began. -/
def LateFetch (tr : List (Engine × Event)) (id : WatchId) : Prop :=
  ∃ pre u cfg mid, tr = pre ++ (u, .beginCycle cfg) :: mid ∧
    (∀ x ∈ mid, x.2.beginsCycle = false) ∧ ¬ u.registry.Registered id ∧
    ∃ x ∈ mid, Fetches x.1 x.2 id

-- ============================================================================
-- The entries written in a cycle
-- ============================================================================

/-- After `mid`, in the cycle begun in `u`: the watches registered since then
    have fresh ids, and those have an entry exactly when they were fetched. -/
structure InCycle (u : Engine) (mid : List (Engine × Event)) (s : Engine) : Prop where
  nextId : u.registry.nextId ≤ s.registry.nextId
  registered : ∀ id, s.registry.Registered id → id < u.registry.nextId → u.registry.Registered id
  liveIds : ∀ l, s.phase.liveIds? = some l → l = u.registry.all.map (·.id)
  markers : ∀ c, s.phase.ctx? = some c → ∀ w ∈ c.watches, (c.requestSeq.get w.id).isSome
  entry : s.phase.liveIds?.isSome → ∀ id, u.registry.nextId ≤ id →
    ((s.readState.get id).isSome ↔ ∃ x ∈ mid, Fetches x.1 x.2 id)

/-- The start of a cycle. -/
theorem inCycle_begin {u : Engine} (h : MarkersOk u) (cfg : PollConfig) :
    InCycle u [] (u.beginCycle cfg) where
  nextId := Nat.le_refl _
  registered := fun _ hreg _ => hreg
  liveIds := fun l hl => (Option.some.inj hl).symm
  markers := Phase.no_ctx rfl
  entry := by
    intro _ id hid
    simp [Engine.beginCycle, h.get_eq_none hid]

/-- A completed batch gives an entry to every member, all of which have markers. -/
theorem isSome_markFulfilled {ctx : CycleCtx} {reads : List CoalescedRead}
    (hreads : ReadsOf ctx reads) (hmarkers : ∀ w ∈ ctx.watches, (ctx.requestSeq.get w.id).isSome)
    (cycle : Nat) (rs : ReadStates) (id : WatchId) :
    ((markFulfilled reads ctx.requestSeq cycle rs).get id).isSome ↔
      (rs.get id).isSome ∨ id ∈ memberIds reads := by
  rw [get_markFulfilled]
  by_cases hid : id ∈ memberIds reads
  · obtain ⟨w, hw, rfl⟩ := hreads.mem_watches hid
    obtain ⟨seq, hseq⟩ := Option.isSome_iff_exists.mp (hmarkers w hw)
    simp [hid, hseq]
  · simp [hid]

/-- Within a cycle the ids are those taken at its start. -/
theorem liveIds?_of_within {s t : Engine} {e : Event} (hs : step s e = some t)
    (hbegin : e.beginsCycle = false) {liveIds : List WatchId}
    (hlive : t.phase.liveIds? = some liveIds) : s.phase.liveIds? = some liveIds := by
  rcases liveIds?_of_step hs hlive with hold | ⟨⟨cfg, rfl⟩, -⟩
  · exact hold
  · exact absurd hbegin (by simp [Event.beginsCycle])

theorem inCycle_step {u : Engine} {mid : List (Engine × Event)} {s t : Engine} {e : Event}
    (h : InCycle u mid s) (hbegin : e.beginsCycle = false) (hs : step s e = some t) :
    InCycle u (mid ++ [(s, e)]) t where
  nextId := h.nextId.trans (nextId_le_step hs)
  registered := fun id hreg hid =>
    h.registered id (registered_of_step hs hreg (hid.trans_le h.nextId)) hid
  liveIds := fun l hl => h.liveIds l (liveIds?_of_within hs hbegin hl)
  markers := by
    intro c hc w hw
    rcases ctx_of_step hs hc with ⟨c₀, builder, hc₀, rfl⟩ | ⟨cfg, liveIds, now, -, -, rfl⟩
    · exact h.markers c₀ hc₀ w hw
    · exact Option.isSome_iff_exists.mpr (mem_watches_takeActive hw).2
  entry := by
    intro hlive id hid
    obtain ⟨l, hl⟩ := Option.isSome_iff_exists.mp hlive
    have hold := h.entry (Option.isSome_iff_exists.mpr ⟨l, liveIds?_of_within hs hbegin hl⟩) id hid
    have hsnoc : (∃ x ∈ mid ++ [(s, e)], Fetches x.1 x.2 id) ↔
        (∃ x ∈ mid, Fetches x.1 x.2 id) ∨ Fetches s e id := by
      simp [List.mem_append, or_and_right, exists_or]
    have hquiet : ¬ Fetches s e id → ((s.readState.get id).isSome ↔
        ∃ x ∈ mid ++ [(s, e)], Fetches x.1 x.2 id) := by
      intro hno
      rw [hsnoc, hold]
      simp [hno]
    cases transition_of_step hs with
    | fetchOk e ctx reads blobs phase' hp hfetch hreads hp' hdone =>
        have hfetches : Fetches s e id ↔ id ∈ memberIds reads := by
          constructor
          · rintro ⟨reads', blobs', hf, hmem⟩
            obtain ⟨rfl, -⟩ := Prod.mk.inj (Option.some.inj (hfetch.symm.trans hf))
            exact hmem
          · exact fun hmem => ⟨reads, blobs, hfetch, hmem⟩
        rw [hsnoc, ← hold, hfetches]
        exact isSome_markFulfilled hreads (h.markers ctx hp) s.cycle s.readState id
    | quiet e phase' hscript hfetch hphase => exact hquiet (hfetch id)
    | collect liveIds hp => exact absurd hl (by simp [Phase.liveIds?])
    | _ => exact hquiet (not_fetches_of_multiRead_none rfl id)

/-- What `beginCycle` does. -/
theorem eq_beginCycle_of_step {u v : Engine} {cfg : PollConfig}
    (hs : step u (.beginCycle cfg) = some v) : v = u.beginCycle cfg := by
  simp only [step] at hs
  split at hs
  · exact (Option.some.inj hs).symm
  · exact absurd hs (by simp)

theorem inCycle_run {tr mid : List (Engine × Event)} {u v s : Engine} {cfg : PollConfig}
    (hrun : Run step .init tr u) (hs : step u (.beginCycle cfg) = some v)
    (hmid : ∀ x ∈ mid, x.2.beginsCycle = false) (hrun' : Run step v mid s) : InCycle u mid s := by
  obtain rfl := eq_beginCycle_of_step hs
  refine hrun'.trace_invariant (I := fun mid s => (∀ x ∈ mid, x.2.beginsCycle = false) →
    InCycle u mid s) ?_ (fun _ => inCycle_begin (markersOk_run hrun) cfg) hmid
  intro mid s e t _ ih hs hmid
  exact inCycle_step (ih fun x hx => hmid x (List.mem_append_left _ hx)) (hmid (s, e) (by simp)) hs

/-- A state within a cycle has the start of the cycle behind it. -/
theorem exists_beginCycle {tr : List (Engine × Event)} {s : Engine} (hrun : Run step .init tr s)
    {liveIds : List WatchId} (hlive : s.phase.liveIds? = some liveIds) :
    ∃ pre u cfg mid, tr = pre ++ (u, .beginCycle cfg) :: mid ∧
      ∀ x ∈ mid, x.2.beginsCycle = false := by
  refine hrun.trace_invariant (I := fun tr s => ∀ l, s.phase.liveIds? = some l →
    ∃ pre u cfg mid, tr = pre ++ (u, .beginCycle cfg) :: mid ∧
      ∀ x ∈ mid, x.2.beginsCycle = false) ?_ ?_ liveIds hlive
  · intro tr u e v _ ih hs l hl
    cases hbegin : e.beginsCycle with
    | true =>
        cases e with
        | beginCycle cfg => exact ⟨tr, u, cfg, [], rfl, by simp⟩
        | _ => exact absurd hbegin (by simp [Event.beginsCycle])
    | false =>
        obtain ⟨pre, u', cfg, mid, rfl, hmid⟩ := ih l (liveIds?_of_within hs hbegin hl)
        refine ⟨pre, u', cfg, mid ++ [(u, e)], by simp, ?_⟩
        intro x hx
        rcases List.mem_append.mp hx with hx | hx
        · exact hmid x hx
        · obtain rfl := List.mem_singleton.mp hx
          exact hbegin
  · intro l hl
    exact absurd hl (by simp [Engine.init, Phase.liveIds?])

/-- A late fetch shows in the state: the watch has an entry, and it is not among
    the ids taken when the cycle began. -/
theorem lateFetch_iff {tr : List (Engine × Event)} {s : Engine} (hrun : Run step .init tr s)
    {liveIds : List WatchId} (hlive : s.phase.liveIds? = some liveIds) {id : WatchId}
    (hreg : s.registry.Registered id) :
    LateFetch tr id ↔ id ∉ liveIds ∧ (s.readState.get id).isSome := by
  have hsome : s.phase.liveIds?.isSome := Option.isSome_iff_exists.mpr ⟨_, hlive⟩
  constructor
  · rintro ⟨pre, u, cfg, mid, rfl, hmid, hlate, hfetch⟩
    obtain ⟨v, hpre, hs, hrun'⟩ := hrun.split_at
    have h := inCycle_run hpre hs hmid hrun'
    have hid : u.registry.nextId ≤ id := by
      by_contra hlt
      exact hlate (h.registered id hreg (Nat.not_le.mp hlt))
    refine ⟨fun hmem => hlate ?_, (h.entry hsome id hid).mpr hfetch⟩
    exact WatchRegistry.registered_of_mem_all (h.liveIds liveIds hlive ▸ hmem)
  · rintro ⟨hnot, hentry⟩
    obtain ⟨pre, u, cfg, mid, rfl, hmid⟩ := exists_beginCycle hrun hlive
    obtain ⟨v, hpre, hs, hrun'⟩ := hrun.split_at
    have h := inCycle_run hpre hs hmid hrun'
    have hlate : ¬ u.registry.Registered id := by
      intro hold
      rw [h.liveIds liveIds hlive] at hnot
      exact hnot (WatchRegistry.mem_map_all hold)
    have hid : u.registry.nextId ≤ id := by
      by_contra hlt
      exact hlate (h.registered id hreg (Nat.not_le.mp hlt))
    exact ⟨pre, u, cfg, mid, rfl, hmid, hlate, (h.entry hsome id hid).mp hentry⟩

/-- A collection keeps the entry of a registered watch unless the cycle fetched
    the watch late. -/
theorem kept_iff {tr : List (Engine × Event)} {u v : Engine} (hrun : Run step .init tr u)
    (hs : step u .collect = some v) {id : WatchId} (hreg : u.registry.Registered id) :
    v.readState.get id = u.readState.get id ↔ u.cycle % 256 = 0 → ¬ LateFetch tr id := by
  simp only [step] at hs
  split at hs
  · rename_i liveIds hp
    obtain rfl := Option.some.inj hs
    rw [lateFetch_iff hrun (by rw [hp]; rfl) hreg]
    by_cases hcycle : u.cycle % 256 = 0
    · by_cases hid : id ∈ liveIds
      · simp [hcycle, hid]
      · cases u.readState.get id <;> simp [hcycle, hid]
    · simp [hcycle]
  · exact absurd hs (by simp)

-- ============================================================================
-- What the decisions of a cycle are made of
-- ============================================================================

section Congr

variable {c : CycleCtx} {rs rs' : ReadStates}

/-- The active watches have the same entries. -/
def AgreeOn (c : CycleCtx) (rs rs' : ReadStates) : Prop :=
  ∀ w ∈ c.watches, rs'.get w.id = rs.get w.id

theorem AgreeOn.get (h : AgreeOn c rs rs') {iterBudget : UInt32} {r : CoalescedRead}
    (hr : r ∈ c.chunked iterBudget) {m : Member} (hm : m ∈ r.members) :
    rs'.get m.id = rs.get m.id := by
  obtain ⟨w, hw, hid⟩ := exists_watch_of_chunk hr hm
  rw [← hid]
  exact h w (List.mem_filter.mp hw).1

theorem AgreeOn.pending (h : AgreeOn c rs rs') (done : List WatchId) (iterBudget : UInt32) :
    c.pending rs' done iterBudget = c.pending rs done iterBudget := by
  refine List.filter_congr fun r hr => ?_
  rw [Bool.eq_iff_iff, readIsPending_iff, readIsPending_iff]
  refine exists_congr fun m => and_congr_right fun hm => ?_
  rw [fulfilled_congr (h.get hr hm)]

theorem AgreeOn.staleness (h : AgreeOn c rs rs') {iterBudget : UInt32} {r : CoalescedRead}
    (hr : r ∈ c.chunked iterBudget) (cycle : Nat) :
    staleness rs' cycle r = staleness rs cycle r := by
  have hmap : (r.members.map fun m => rs'.refreshCycle m.id) =
      r.members.map fun m => rs.refreshCycle m.id :=
    List.map_congr_left fun m hm => refreshCycle_congr (h.get hr hm)
  rw [Cache.staleness, Cache.staleness, oldestRefresh, oldestRefresh, hmap]

/-- Sorting by staleness does not see other entries. -/
theorem AgreeOn.bulkBatch (h : AgreeOn c rs rs') (done : List WatchId) (cycle : Nat)
    (iterBudget : UInt32) :
    c.bulkBatch rs' done cycle iterBudget = c.bulkBatch rs done cycle iterBudget := by
  have hsort : ((c.pending rs done iterBudget).insertionSort fun a b => bulkLe rs' cycle a b) =
      (c.pending rs done iterBudget).insertionSort fun a b => bulkLe rs cycle a b := by
    have hle : ∀ a ∈ c.pending rs done iterBudget, ∀ b ∈ c.pending rs done iterBudget,
        bulkLe rs' cycle a b = true ↔ bulkLe rs cycle (id a) (id b) = true := by
      intro a ha b hb
      rw [bulkLe, bulkLe, h.staleness (List.mem_filter.mp ha).1 cycle,
        h.staleness (List.mem_filter.mp hb).1 cycle]
      rfl
    simpa using List.map_insertionSort _ _ id _ hle
  rw [CycleCtx.bulkBatch, CycleCtx.bulkBatch, h.pending, selectBulk, selectBulk, hsort]

end Congr

-- ============================================================================
-- The engine that never collects
-- ============================================================================

/-- The entries a cycle may still read: of the registered watches, of the active
    ones, and of the watches to come. -/
def Engine.Matters (s : Engine) (id : WatchId) : Prop :=
  s.registry.Registered id ∨ (∃ c, s.phase.ctx? = some c ∧ ∃ w ∈ c.watches, w.id = id) ∨
    s.registry.nextId ≤ id

/-- The states differ in entries that do not matter. -/
structure KeptOn (s s' : Engine) : Prop where
  rest : s' = { s with readState := s'.readState }
  entry : ∀ id, s.Matters id → s'.readState.get id = s.readState.get id

theorem KeptOn.agreeOn {s s' : Engine} (h : KeptOn s s') (c : CycleCtx)
    (hc : s.phase.ctx? = some c) : AgreeOn c s.readState s'.readState :=
  fun w hw => h.entry w.id (Or.inr (Or.inl ⟨c, hc, w, hw, rfl⟩))

/-- Entries that do not matter cannot be seen. -/
theorem KeptOn.sameView {s s' : Engine} (h : KeptOn s s') : SameView s s' := by
  have hcycle : s'.cycle = s.cycle := by rw [h.rest]
  refine ⟨by rw [h.rest], by rw [h.rest], hcycle, by rw [h.rest],
    fun c hc => (h.agreeOn c hc).pending, ?_, ?_⟩
  · intro c hc iterBudget r hr
    rw [hcycle]
    exact (h.agreeOn c hc).staleness hr s.cycle
  · intro c hc done iterBudget
    rw [hcycle]
    exact (h.agreeOn c hc).bulkBatch done s.cycle iterBudget

/-- What matters after a step mattered before it. -/
theorem Engine.Matters.of_step {s t : Engine} {e : Event} (hs : step s e = some t) {id : WatchId}
    (h : t.Matters id) : s.Matters id := by
  rcases h with hreg | ⟨c, hc, w, hw, rfl⟩ | hid
  · rcases Nat.lt_or_ge id s.registry.nextId with hlt | hge
    · exact Or.inl (registered_of_step hs hreg hlt)
    · exact Or.inr (Or.inr hge)
  · rcases ctx_of_step hs hc with ⟨c₀, builder, hc₀, rfl⟩ | ⟨cfg, liveIds, now, -, -, rfl⟩
    · exact Or.inr (Or.inl ⟨c₀, hc₀, w, hw, rfl⟩)
    · obtain ⟨⟨en, hen, -⟩, -⟩ := mem_watches_takeActive hw
      exact Or.inl (Option.isSome_iff_exists.mpr ⟨en, hen⟩)
  · exact Or.inr (Or.inr ((nextId_le_step hs).trans hid))

theorem get_markFulfilled_congr {rs rs' : ReadStates} {id : WatchId} (h : rs'.get id = rs.get id)
    (reads : List CoalescedRead) (requestSeq : HashMap WatchId Nat) (cycle : Nat) :
    (markFulfilled reads requestSeq cycle rs').get id =
      (markFulfilled reads requestSeq cycle rs).get id := by
  rw [get_markFulfilled, get_markFulfilled, h]

/-- Other entries of `read_state` do not change a step, and the step does not
    touch them. -/
theorem step_congr {s t : Engine} {e : Event} {rs : ReadStates}
    (h : ∀ c, s.phase.ctx? = some c → AgreeOn c s.readState rs) (hcollect : e ≠ .collect)
    (hs : step s e = some t) :
    ∃ rs', step { s with readState := rs } e = some { t with readState := rs' } ∧
      ∀ id, rs.get id = s.readState.get id → rs'.get id = t.readState.get id := by
  cases e with
  | script op =>
      obtain rfl := Option.some.inj hs
      exact ⟨rs, rfl, fun _ hid => hid⟩
  | noClient =>
      simp only [step] at hs ⊢
      split at hs
      · rename_i hp
        obtain rfl := Option.some.inj hs
        exact ⟨rs, by simp only [hp], fun _ hid => hid⟩
      · exact absurd hs (by simp)
  | beginCycle cfg =>
      simp only [step] at hs ⊢
      split at hs
      · rename_i hp
        obtain rfl := Option.some.inj hs
        exact ⟨rs, by simp only [hp]; rfl, fun _ hid => hid⟩
      · exact absurd hs (by simp)
  | readActive now =>
      simp only [step] at hs ⊢
      split at hs
      · rename_i cfg liveIds hp
        obtain rfl := Option.some.inj hs
        exact ⟨rs, by simp only [hp]; rfl, fun _ hid => hid⟩
      · exact absurd hs (by simp)
  | realtimePoll reply =>
      simp only [step] at hs ⊢
      split at hs
      · rename_i ctx hp
        cases reply with
        | some blobs =>
            obtain rfl := Option.some.inj hs
            exact ⟨_, rfl, fun _ hid => get_markFulfilled_congr hid ..⟩
        | none =>
            obtain rfl := Option.some.inj hs
            exact ⟨rs, rfl, fun _ hid => hid⟩
      · exact absurd hs (by simp)
  | bulkPoll iterBudget reply =>
      simp only [step] at hs ⊢
      split at hs
      · rename_i ctx done n hp
        have hbatch := (h ctx (by rw [hp]; rfl)).bulkBatch done s.cycle iterBudget
        simp only [hbatch]
        split at hs
        · exact absurd hs (by simp)
        · rename_i hne
          rw [if_neg hne]
          cases reply with
          | some blobs =>
              obtain rfl := Option.some.inj hs
              exact ⟨_, rfl, fun _ hid => get_markFulfilled_congr hid ..⟩
          | none =>
              obtain rfl := Option.some.inj hs
              exact ⟨rs, rfl, fun _ hid => hid⟩
      · exact absurd hs (by simp)
  | endDrain iterBudget =>
      simp only [step] at hs ⊢
      split at hs
      · rename_i ctx done n hp
        have hbatch := (h ctx (by rw [hp]; rfl)).bulkBatch done s.cycle iterBudget
        simp only [hbatch]
        split at hs
        · exact absurd hs (by simp)
        · rename_i hend
          rw [if_neg hend]
          obtain rfl := Option.some.inj hs
          exact ⟨rs, rfl, fun _ hid => hid⟩
      · exact absurd hs (by simp)
  | publish rttMs =>
      simp only [step] at hs ⊢
      split at hs
      · rename_i ctx hp
        obtain rfl := Option.some.inj hs
        exact ⟨rs, rfl, fun _ hid => hid⟩
      · exact absurd hs (by simp)
  | collect => exact absurd rfl hcollect

/-- Where the two engines differ, in the collection, the entries of registered
    watches decide. -/
theorem keptOn_collect {s s' t : Engine} (hmarkers : MarkersOk s) (h : KeptOn s s')
    (hkept : ∀ id, s.registry.Registered id → t.readState.get id = s.readState.get id)
    (hs : step s .collect = some t) :
    ∃ t', stepKeeping s' .collect = some t' ∧ KeptOn t t' := by
  have hmatters : ∀ id, t.Matters id → s.Matters id := fun _ hid => hid.of_step hs
  simp only [step] at hs
  split at hs
  · rename_i liveIds hp
    have hp' : s'.phase = .published liveIds := by rw [h.rest, hp]
    obtain rfl := Option.some.inj hs
    refine ⟨{ s' with phase := .idle }, by simp only [stepKeeping, hp'], by rw [h.rest], ?_⟩
    intro id hid
    refine (h.entry id (hmatters id hid)).trans ?_
    rcases hid with hreg | ⟨c, hc, -⟩ | hnew
    · exact (hkept id hreg).symm
    · exact absurd hc (by simp [Phase.ctx?])
    · have hnone := hmarkers.get_eq_none hnew
      split
      · simp [hnone]
      · rfl
  · exact absurd hs (by simp)

theorem keptOn_step {s s' t : Engine} {e : Event} (hmarkers : MarkersOk s) (h : KeptOn s s')
    (hkept : e = .collect → ∀ id, s.registry.Registered id →
      t.readState.get id = s.readState.get id)
    (hs : step s e = some t) : ∃ t', stepKeeping s' e = some t' ∧ KeptOn t t' := by
  by_cases hcollect : e = .collect
  · subst hcollect
    exact keptOn_collect hmarkers h (hkept rfl) hs
  · obtain ⟨rs', hs', hget⟩ := step_congr h.agreeOn hcollect hs
    rw [← h.rest] at hs'
    refine ⟨{ t with readState := rs' }, ?_, rfl,
      fun id hid => hget id (h.entry id (hid.of_step hs))⟩
    rw [← hs']
    cases e <;> first | rfl | exact absurd rfl hcollect

/-- While the collections keep the entries of registered watches, the engine
    that never collects goes through states that look the same. -/
theorem sameView_run {tr : List (Engine × Event)} {s : Engine} (hrun : Run step .init tr s)
    (hkept : ∀ u v, (u, Event.collect) ∈ tr → step u .collect = some v → ∀ id,
      u.registry.Registered id → v.readState.get id = u.readState.get id) :
    ∃ tr' s', Run stepKeeping .init tr' s' ∧
      List.Forall₂ (fun x x' => x'.2 = x.2 ∧ SameView x.1 x'.1) tr tr' ∧ SameView s s' := by
  have hkept' : ∀ x ∈ tr, x.2 = .collect → ∀ v, step x.1 .collect = some v → ∀ id,
      x.1.registry.Registered id → v.readState.get id = x.1.readState.get id := by
    rintro ⟨u, e⟩ hx rfl v hs
    exact hkept u v hx hs
  obtain ⟨tr', s', hrun', hall, hs'⟩ := hrun.simulate (R := KeptOn)
    (P := fun u e => e = .collect → ∀ v, step u .collect = some v → ∀ id,
      u.registry.Registered id → v.readState.get id = u.readState.get id)
    (fun tr u u' e v hrun hP hR hs => keptOn_step (markersOk_run hrun) hR
      (fun he id hreg => hP he v (he ▸ hs) id hreg) hs) hkept' ⟨rfl, fun _ _ => rfl⟩
  exact ⟨tr', s', hrun', hall.imp fun x x' hx => ⟨hx.1, hx.2.sameView⟩, hs'.sameView⟩

/-- **The collection is invisible exactly in the runs without a late fetch.**  In
    the cycles that collect, no watch may be registered between the two reads of
    the registry, fetched in the same cycle and still be registered when
    `read_state` is collected. -/
theorem collection_invisible_iff {tr : List (Engine × Event)} {s : Engine}
    (hrun : Run step .init tr s) :
    CollectionInvisible tr s ↔
      ∀ pre u post, tr = pre ++ (u, .collect) :: post → u.cycle % 256 = 0 →
        ∀ id, u.registry.Registered id → ¬ LateFetch pre id := by
  constructor
  · rintro h pre u post rfl hcycle id hreg
    obtain ⟨v, hpre, hs, -⟩ := hrun.split_at
    exact (kept_iff hpre hs hreg).mp (h.kept u v (by simp) hs id hreg) hcycle
  · intro h
    have hkept : ∀ u v, (u, Event.collect) ∈ tr → step u .collect = some v → ∀ id,
        u.registry.Registered id → v.readState.get id = u.readState.get id := by
      intro u v hmem hs id hreg
      obtain ⟨pre, post, rfl⟩ := List.append_of_mem hmem
      obtain ⟨-, hpre, -⟩ := hrun.split_at
      exact (kept_iff hpre hs hreg).mpr fun hcycle => h pre u post rfl hcycle id hreg
    exact ⟨hkept, sameView_run hrun hkept⟩

-- ============================================================================
-- The collection of cycle 256
-- ============================================================================

/-- A cycle without watches. -/
def idleCycle : List Event :=
  [.beginCycle ⟨16, 10⟩, .readActive 0, .endDrain 2048, .publish 0, .collect]

/-- The engine after `n` of them. -/
def idled (n : Nat) : Engine :=
  { Engine.init with cycle := n, current := { Snapshot.default with cycle := n } }

theorem bulkBatch_of_no_watches {c : CycleCtx} (h : c.watches = []) (rs : ReadStates)
    (done : List WatchId) (cycle : Nat) (iterBudget : UInt32) :
    c.bulkBatch rs done cycle iterBudget = [] := by
  rw [List.eq_nil_iff_forall_not_mem]
  intro r hr
  obtain ⟨hchunk, hpending⟩ := CycleCtx.mem_chunked_of_mem_bulkBatch hr
  obtain ⟨m, hm, -⟩ := readIsPending_iff.mp hpending
  obtain ⟨w, hw, -⟩ := exists_watch_of_chunk hchunk hm
  simp [CycleCtx.bulkEligible, h] at hw

theorem exec_idleCycle (n : Nat) : exec step (idled n) idleCycle = some (idled (n + 1)) := by
  let s : Engine := { idled n with cycle := n + 1 }
  let ctx := (idled n).takeActive ⟨16, 10⟩ [] 0
  have hbegin : step (idled n) (.beginCycle ⟨16, 10⟩) =
      some { s with phase := .started ⟨16, 10⟩ [] } := rfl
  have hactive : step { s with phase := .started ⟨16, 10⟩ [] } (.readActive 0) =
      some { s with phase := .bulk ctx [] 0 } := rfl
  have hdrain : step { s with phase := .bulk ctx [] 0 } (.endDrain 2048) =
      some { s with phase := .drained ctx } := by
    have hbatch := bulkBatch_of_no_watches (c := ctx) rfl s.readState [] s.cycle 2048
    simp [step, hbatch]
  have hpublish : step { s with phase := .drained ctx } (.publish 0) =
      some { idled (n + 1) with phase := .published [] } := rfl
  have hcollect : step { idled (n + 1) with phase := .published [] } .collect =
      some (idled (n + 1)) := by
    simp [step, idled, Engine.init]
  simp only [idleCycle, exec, hbegin, hactive, hdrain, hpublish, hcollect]

theorem exec_idleCycles (n : Nat) :
    exec step .init (List.replicate n idleCycle).flatten = some (idled n) := by
  induction n with
  | zero =>
      simp only [List.replicate_zero, List.flatten_nil, exec]
      rfl
  | succ n ih =>
      rw [List.replicate_succ', List.flatten_concat, exec_append, ih, Option.bind_some]
      exact exec_idleCycle n

/-- Without calls of a script the registry stays empty. -/
theorem registry_of_no_scripts {tr : List (Engine × Event)} {s : Engine}
    (hrun : Run step .init tr s) (hno : ∀ x ∈ tr, ∀ op, x.2 ≠ .script op) :
    s.registry = .new := by
  refine hrun.invariant (P := fun _ e => ∀ op, e ≠ .script op) (I := fun s => s.registry = .new)
    ?_ hno rfl
  intro u e v hscript hu hs
  cases transition_of_step hs with
  | script op => exact absurd rfl (hscript op)
  | _ => exact hu

/-- A cycle that fetches a watch registered before it. -/
def earlyCycle : List Event :=
  [.script (.register (.wram 0x10 2) .normal 0), .beginCycle ⟨16, 10⟩, .readActive 0,
   .bulkPoll 2048 (some [[1, 2]]), .endDrain 2048, .publish 5]

/-- In cycle 256 the collection keeps the entry of a watch registered before it. -/
theorem collection_invisible_early :
    CollectionInvisible
        (trace step .init (List.replicate 255 idleCycle).flatten ++
          trace step (idled 255) (earlyCycle ++ [.collect]))
        (final step (idled 255) (earlyCycle ++ [.collect])) ∧
      ∃ x ∈ trace step (idled 255) (earlyCycle ++ [.collect]), x.2 = .collect ∧
        x.1.cycle = 256 ∧ x.1.registry.Registered 0 := by
  have hidle := run_of_exec (exec_idleCycles 255)
  have hearly : Run step (idled 255) _ _ :=
    run_final (by decide : (exec step (idled 255) (earlyCycle ++ [.collect])).isSome)
  refine ⟨(collection_invisible_iff (hidle.trans hearly)).mpr ?_, by decide⟩
  intro pre u post htr _ id hreg
  obtain ⟨v, hpre, -, -⟩ := (htr ▸ hidle.trans hearly).split_at
  have hmem : (u, Event.collect) ∈ trace step .init (List.replicate 255 idleCycle).flatten ++
      trace step (idled 255) (earlyCycle ++ [.collect]) := by
    rw [htr]
    simp
  rcases List.mem_append.mp hmem with hmem | hmem
  · -- no watch is registered in the idle cycles
    obtain ⟨pre', post', htr', hrun'⟩ := hidle.prefix_of_mem hmem
    have hempty : u.registry = .new := by
      refine registry_of_no_scripts hrun' fun x hx op hop => ?_
      have hevent := mem_of_mem_trace (htr' ▸ List.mem_append_left _ hx)
      obtain ⟨l, hl, hxl⟩ := List.mem_flatten.mp hevent
      rw [List.eq_of_mem_replicate hl, hop] at hxl
      simp [idleCycle] at hxl
    rw [hempty] at hreg
    exact absurd hreg (by simp [WatchRegistry.Registered, WatchRegistry.find?, WatchRegistry.new])
  · have hlive : ∀ x ∈ trace step (idled 255) (earlyCycle ++ [.collect]), x.2 = .collect →
        x.1.phase.liveIds? = some (x.1.registry.all.map (·.id)) := by decide
    rw [lateFetch_iff hpre (hlive _ hmem rfl) hreg]
    exact fun h => h.1 (WatchRegistry.mem_map_all hreg)

-- ============================================================================
-- A watch that is registered late
-- ============================================================================

/-- A cycle in which a watch is registered between the two reads of the registry
    and fetched. -/
def lateCycle : List Event :=
  [.beginCycle ⟨16, 10⟩, .script (.register (.wram 0x10 2) .normal 0), .readActive 0,
   .bulkPoll 2048 (some [[1, 2]]), .endDrain 2048, .publish 5]

/-- In cycle 256 the collection drops the entry of the registered watch. -/
theorem not_collection_invisible :
    ¬ ∀ tr s, Run step .init tr s → CollectionInvisible tr s := by
  intro h
  obtain ⟨tr, hidle⟩ : ∃ tr, Run step .init tr (idled 255) :=
    ⟨_, run_of_exec (exec_idleCycles 255)⟩
  have hlate : Run step (idled 255)
      (trace step (idled 255) lateCycle ++ [(final step (idled 255) lateCycle, .collect)])
      (final step (idled 255) (lateCycle ++ [.collect])) := run_final_concat (by decide)
  have hkept := (h _ _ (hidle.trans hlate)).kept _ _ (by simp) hlate.of_snoc.2 0 (by decide)
  exact absurd hkept (by decide)

/-- In the next cycle the watch is read again; without the collection the drain
    loop has nothing to read. -/
example :
    let next := lateCycle ++ [.collect, .beginCycle ⟨16, 10⟩, .readActive 0]
    step (final step (idled 255) next) (.endDrain 2048) = none ∧
      stepKeeping (final stepKeeping (idled 255) next) (.endDrain 2048) ≠ none := by decide

end Cache
end SniLua
