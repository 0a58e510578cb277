/-
  SniLua.Cache.Requests

  No request of the script is lost.  A request draws a fresh marker; the engine
  copies markers at the start of a cycle and writes them back as fulfilled
  several batches later, while the script goes on requesting, removing and
  registering watches.

  `MarkersOk` is the invariant of all interleavings: the engine never holds a
  marker the registry has not drawn, nor one above the marker of a registered
  watch.  `Unserved` is what a request leaves behind: until a cycle begun after
  it fetches the watch, every marker the engine holds for it is older.
-/

import SniLua.Cache.Engine

namespace SniLua
namespace Cache

open Lib

-- ============================================================================
-- What the active watches are
-- ============================================================================

/-- A marker taken at the start of a cycle is the marker of a registered watch. -/
theorem requestSeq_takeActive {s : Engine} {cfg : PollConfig} {liveIds : List WatchId}
    {now : Nat} {id : WatchId} {seq : Nat}
    (h : (s.takeActive cfg liveIds now).requestSeq.get id = some seq) :
    ∃ e, s.registry.find? id = some e ∧ e.requestSeq = seq := by
  obtain ⟨⟨w, seq'⟩, hmem, heq⟩ := List.mem_map.mp (HashMap.mem_of_get_ofList h)
  obtain ⟨rfl, rfl⟩ := Prod.mk.inj heq
  obtain ⟨e, he, -, hseq⟩ := WatchRegistry.mem_activeWithRequests hmem
  exact ⟨e, he, hseq⟩

/-- An active watch is registered, and its marker has been taken. -/
theorem mem_watches_takeActive {s : Engine} {cfg : PollConfig} {liveIds : List WatchId}
    {now : Nat} {w : WatchHandle} (h : w ∈ (s.takeActive cfg liveIds now).watches) :
    (∃ e, s.registry.find? w.id = some e ∧ e.handle = w) ∧
      ∃ seq, (s.takeActive cfg liveIds now).requestSeq.get w.id = some seq := by
  obtain ⟨⟨w', seq⟩, hmem, rfl⟩ := List.mem_map.mp h
  obtain ⟨e, he, hw, -⟩ := WatchRegistry.mem_activeWithRequests hmem
  exact ⟨⟨e, he, hw⟩, HashMap.get_ofList_isSome (List.mem_map.mpr ⟨_, hmem, rfl⟩)⟩

-- ============================================================================
-- Markers
-- ============================================================================

/-- A marker the engine may hold for a watch: its id and the marker have been
    drawn, and a registered watch is not behind it. -/
structure MarkerOk (reg : WatchRegistry) (id : WatchId) (seq : Nat) : Prop where
  idLt : id < reg.nextId
  seqLe : seq ≤ reg.nextRequest
  entryLe : ∀ e, reg.find? id = some e → seq ≤ e.requestSeq

theorem MarkerOk.of_entry {reg : WatchRegistry} {id : WatchId} {e : WatchEntry}
    (h : reg.find? id = some e) : MarkerOk reg id e.requestSeq where
  idLt := WatchRegistry.find?_lt h
  seqLe := WatchRegistry.find?_requestSeq_le h
  entryLe := by
    intro e' h'
    rw [h] at h'
    obtain rfl := Option.some.inj h'
    exact Nat.le_refl _

/-- Registry calls keep markers admissible: a fresh id has none yet. -/
theorem MarkerOk.apply {reg : WatchRegistry} {id : WatchId} {seq : Nat}
    (h : MarkerOk reg id seq) (op : RegistryOp) : MarkerOk (reg.apply op) id seq where
  idLt := by
    rw [WatchRegistry.nextId_apply]
    exact Nat.lt_of_lt_of_le h.idLt (Nat.le_add_right ..)
  seqLe := Nat.le_trans h.seqLe (WatchRegistry.nextRequest_le_apply reg op)
  entryLe := by
    intro e he
    rcases WatchRegistry.find?_apply he with ⟨-, hid, -⟩ | ⟨e₀, he₀, -, hle⟩
    · exact absurd hid (Nat.ne_of_lt h.idLt)
    · exact Nat.le_trans (h.entryLe e₀ he₀) hle

/-- Every marker the engine holds is admissible. -/
structure MarkersOk (s : Engine) : Prop where
  state : ∀ id st, s.readState.get id = some st → MarkerOk s.registry id st.requestSeq
  ctx : ∀ c, s.phase.ctx? = some c → ∀ id seq, c.requestSeq.get id = some seq →
    MarkerOk s.registry id seq

/-- A watch to come has no entry yet. -/
theorem MarkersOk.get_eq_none {s : Engine} (h : MarkersOk s) {id : WatchId}
    (hid : s.registry.nextId ≤ id) : s.readState.get id = none := by
  cases hst : s.readState.get id with
  | none => rfl
  | some st => exact absurd (h.state id st hst).idLt (Nat.not_lt.mpr hid)

theorem markersOk_init : MarkersOk Engine.init where
  state := by intro id st h; exact absurd h (by simp [Engine.init])
  ctx := Phase.no_ctx rfl

/-- What a completed batch writes for a watch is the marker of the cycle. -/
theorem get_markFulfilled_cases {reads : List CoalescedRead} {requestSeq : HashMap WatchId Nat}
    {cycle : Nat} {rs : ReadStates} {id : WatchId} {st : ReadState}
    (h : (markFulfilled reads requestSeq cycle rs).get id = some st) :
    (id ∈ memberIds reads ∧ requestSeq.get id = some st.requestSeq ∧ st.refreshCycle = cycle) ∨
      rs.get id = some st := by
  rw [get_markFulfilled] at h
  by_cases hid : id ∈ memberIds reads
  · rw [if_pos hid] at h
    cases hseq : requestSeq.get id with
    | none => rw [hseq] at h; exact Or.inr h
    | some seq =>
        rw [hseq] at h
        obtain rfl := Option.some.inj h
        exact Or.inl ⟨hid, rfl, rfl⟩
  · rw [if_neg hid] at h
    exact Or.inr h

/-- An entry of `read_state` after a step was there before, or a completed batch
    of the step has written it. -/
theorem get_of_step {s t : Engine} {e : Event} {id : WatchId} {st : ReadState}
    (hs : step s e = some t) (hst : t.readState.get id = some st) :
    s.readState.get id = some st ∨
      (∃ c, s.phase.ctx? = some c ∧ c.requestSeq.get id = some st.requestSeq) ∧
        Fetches s e id ∧ st.refreshCycle = s.cycle := by
  cases transition_of_step hs with
  | fetchOk e ctx reads blobs phase' hp hfetch hreads hp' hdone =>
      rcases get_markFulfilled_cases hst with ⟨hmem, hseq, hcycle⟩ | hold
      · exact Or.inr ⟨⟨ctx, hp, hseq⟩, ⟨reads, blobs, hfetch, hmem⟩, hcycle⟩
      · exact Or.inl hold
  | collect liveIds hp => exact Or.inl (get_of_get_collect hst)
  | _ => exact Or.inl hst

theorem MarkerOk.step {s t : Engine} {e : Event} {id : WatchId} {seq : Nat}
    (h : MarkerOk s.registry id seq) (hs : step s e = some t) : MarkerOk t.registry id seq := by
  cases transition_of_step hs with
  | script op => exact h.apply op
  | _ => exact h

theorem markersOk_step {s t : Engine} {e : Event} (h : MarkersOk s) (hs : step s e = some t) :
    MarkersOk t := by
  constructor
  · intro id st hst
    rcases get_of_step hs hst with hold | ⟨⟨c, hc, hseq⟩, -⟩
    · exact (h.state id st hold).step hs
    · exact (h.ctx c hc id _ hseq).step hs
  · intro c hc id seq hseq
    rcases ctx_of_step hs hc with ⟨c₀, builder, hc₀, rfl⟩ | ⟨cfg, liveIds, now, -, -, rfl⟩
    · exact (h.ctx c₀ hc₀ id seq hseq).step hs
    · obtain ⟨e, he, rfl⟩ := requestSeq_takeActive hseq
      exact (MarkerOk.of_entry he).step hs

theorem markersOk_run {tr : List (Engine × Event)} {s : Engine} (h : Run step .init tr s) :
    MarkersOk s :=
  h.invariant (P := fun _ _ => True) (fun _ _ _ _ hi hs => markersOk_step hi hs)
    (fun _ _ => trivial) markersOk_init

-- ============================================================================
-- A request until it is served
-- ============================================================================

/-- In the trace, a `MultiRead` containing the watch succeeded in a cycle whose
    active watches were taken within the trace. -/
def FetchedAfterActive (tr : List (Engine × Event)) (id : WatchId) : Prop :=
  ∃ pre u now mid v e post, tr = pre ++ (u, Event.readActive now) :: (mid ++ (v, e) :: post) ∧
    Fetches v e id

theorem FetchedAfterActive.append {tr : List (Engine × Event)} {id : WatchId}
    (h : FetchedAfterActive tr id) (x : Engine × Event) : FetchedAfterActive (tr ++ [x]) id := by
  obtain ⟨pre, u, now, mid, v, e, post, rfl, hf⟩ := h
  exact ⟨pre, u, now, mid, v, e, post ++ [x], by simp, hf⟩

/-- A fetch after the active watches were taken shows in the trace. -/
theorem FetchedAfterActive.of_fetch {tr : List (Engine × Event)} {id : WatchId} {u v : Engine}
    {now : Nat} {e : Event} (h : (u, Event.readActive now) ∈ tr) (hf : Fetches v e id) :
    FetchedAfterActive (tr ++ [(v, e)]) id := by
  obtain ⟨pre, mid, rfl⟩ := List.append_of_mem h
  exact ⟨pre, u, now, mid, v, e, [], by simp, hf⟩

/-- After the request with marker `m`, along the trace `tr`: the engine holds
    only older markers for the watch, except those taken after the request. -/
structure Unserved (m : Nat) (id : WatchId) (tr : List (Engine × Event)) (s : Engine) :
    Prop where
  drawn : m ≤ s.registry.nextRequest
  entry : ∀ e, s.registry.find? id = some e → m ≤ e.requestSeq
  state : ¬ FetchedAfterActive tr id → s.readState.fulfilled id < m
  ctx : (∀ u now, (u, Event.readActive now) ∉ tr) →
    ∀ c, s.phase.ctx? = some c → ∀ seq, c.requestSeq.get id = some seq → seq < m

/-- The state right after a request. -/
theorem unserved_requested {s : Engine} (hs : MarkersOk s) {op : RegistryOp} {id : WatchId}
    (hop : op.requested s.registry.nextId = some id) :
    Unserved (s.registry.nextRequest + 1) id []
      { s with registry := s.registry.apply op } where
  drawn := by
    cases op <;> first | exact Nat.le_refl _ | exact absurd hop (by simp [RegistryOp.requested])
  entry := fun e he => Nat.le_of_eq (WatchRegistry.requestSeq_of_requested hop he).symm
  state := by
    intro _
    cases hst : s.readState.get id with
    | none => simp [ReadStates.fulfilled, hst]
    | some st =>
        show s.readState.fulfilled id < _
        rw [fulfilled_of_get hst]
        exact Nat.lt_succ_of_le (hs.state id st hst).seqLe
  ctx := fun _ c hc seq hseq => Nat.lt_succ_of_le (hs.ctx c hc id seq hseq).seqLe

theorem unserved_step {m : Nat} {id : WatchId} {tr : List (Engine × Event)} {s t : Engine}
    {e : Event} (hm : 0 < m) (h : Unserved m id tr s) (hs : step s e = some t) :
    Unserved m id (tr ++ [(s, e)]) t where
  drawn := h.drawn.trans (nextRequest_le_step hs)
  entry := by
    intro en hen
    rcases find?_of_step hs hen with ⟨-, hseq⟩ | ⟨en₀, hen₀, -, hle⟩
    · have := h.drawn
      omega
    · exact (h.entry en₀ hen₀).trans hle
  state := by
    intro hno
    have hkeep : s.readState.fulfilled id < m := h.state fun hf => hno (hf.append _)
    cases hst : t.readState.get id with
    | none => simpa [ReadStates.fulfilled, hst] using hm
    | some st =>
        rw [fulfilled_of_get hst]
        rcases get_of_step hs hst with hold | ⟨⟨c, hc, hseq⟩, hfetch, -⟩
        · rw [fulfilled_of_get hold] at hkeep
          exact hkeep
        · -- the marker was taken before the request: no `readActive` in the trace
          exact h.ctx (fun u now hact => hno (.of_fetch hact hfetch)) c hc _ hseq
  ctx := by
    intro hno c hc
    rcases ctx_of_step hs hc with ⟨c₀, builder, hc₀, rfl⟩ | ⟨cfg, liveIds, now, rfl, -, -⟩
    · exact h.ctx (fun u now hact => hno u now (List.mem_append_left _ hact)) c₀ hc₀
    · exact absurd (by simp) (hno s now)

theorem unserved_run {m : Nat} {id : WatchId} {tr : List (Engine × Event)} {s t : Engine}
    (hm : 0 < m) (h : Unserved m id [] s) (hrun : Run step s tr t) : Unserved m id tr t :=
  hrun.trace_invariant (I := Unserved m id) (fun _ _ _ _ _ hi hs => unserved_step hm hi hs) h

/-- **No script request is lost.**  In every reachable state the fulfilled marker
    of a registered watch does not exceed its request marker; and after a
    registry call that requests a watch, the watch, as long as it is registered,
    stays unfulfilled until a `MultiRead` containing it succeeds in a cycle whose
    active watches were taken after the call. -/
theorem request_not_lost {tr : List (Engine × Event)} {s : Engine} (hrun : Run step .init tr s) :
    (∀ id e st, s.registry.find? id = some e → s.readState.get id = some st →
      st.requestSeq ≤ e.requestSeq) ∧
    ∀ op id, op.requested s.registry.nextId = some id →
      ∀ tr' t e, Run step { s with registry := s.registry.apply op } tr' t →
        t.registry.find? id = some e → ¬ FetchedAfterActive tr' id →
          t.readState.fulfilled id < e.requestSeq := by
  have hmarkers := markersOk_run hrun
  refine ⟨fun id e st he hst => (hmarkers.state id st hst).entryLe e he, ?_⟩
  intro op id hop tr' t e hrun' he hno
  have h := unserved_run (Nat.succ_pos _) (unserved_requested hmarkers hop) hrun'
  exact Nat.lt_of_lt_of_le (h.state hno) (h.entry e he)

/-- A cycle that has taken the active watches. -/
def takenCycle : List Event :=
  [.script (.register (.wram 0x10 2) .normal 0), .beginCycle ⟨16, 10⟩, .readActive 0]

/-- The rest of it. -/
def servedCycle : List Event :=
  [.bulkPoll 2048 (some [[1, 2]]), .endDrain 2048, .publish 5, .collect]

/-- A watch touched while its read is in flight stays unfulfilled. -/
theorem request_not_lost_in_flight :
    let s := final step .init takenCycle
    let t := final step { s with registry := s.registry.apply (.touch 0 1) } servedCycle
    t.readState.fulfilled 0 = 1 ∧ t.readState.fulfilled 0 < 2 := by
  refine ⟨by decide, (request_not_lost (run_final (by decide))).2 (.touch 0 1) 0 rfl
    (trace step _ servedCycle) _ ⟨⟨0, .wram 0x10 2, .normal⟩, 1, 2, false⟩
    (run_final (by decide)) (by decide) ?_⟩
  -- no active watches are taken after the touch
  rintro ⟨pre, u, now, mid, v, e, post, htr, -⟩
  have hmem := congrArg (List.map (·.2)) htr
  rw [map_snd_trace (by decide)] at hmem
  have : Event.readActive now ∈ servedCycle := by
    rw [hmem]
    simp
  simp [servedCycle] at this

end Cache
end SniLua
