/-
  SniLua.Cache.Starvation

  No starvation of the bulk tier.  While a requested watch waits, every first
  bulk batch of a cycle that succeeds refreshes a watch that is at least as old:
  the number of such watches is a potential the waiting watch itself keeps
  positive, so it waits for fewer first batches than there are watches.

  A failed first batch ends the drain loop without a refresh, and the same reads
  are selected first again in the next cycle.  One region that the device always
  rejects therefore blocks the whole bulk tier as soon as it is the stalest.
-/

import SniLua.Lib.RoundRobin
import SniLua.Cache.Requests

namespace SniLua
namespace Cache

open Lib

-- ============================================================================
-- Runs of a fixed set of bulk watches
-- ============================================================================

/-- The context an event takes, if it takes one. -/
def takenCtx (s : Engine) : Event → Option CycleCtx
  | .readActive now =>
      match s.phase with
      | .started cfg liveIds => some (s.takeActive cfg liveIds now)
      | _ => none
  | _ => none

/-- The watches `ids` stay registered, and they are the active non-realtime
    watches of every cycle. -/
structure FixedActive (ids : List WatchId) (s : Engine) (e : Event) : Prop where
  registered : ∀ id ∈ ids, (s.registry.find? id).isSome
  complete : ∀ c ∈ takenCtx s e, ∀ id ∈ ids, id ∈ c.bulkEligible.map (·.id)
  sound : ∀ c ∈ takenCtx s e, ∀ id ∈ c.bulkEligible.map (·.id), id ∈ ids

instance (ids : List WatchId) (s : Engine) (e : Event) : Decidable (FixedActive ids s e) :=
  decidable_of_iff ((∀ id ∈ ids, (s.registry.find? id).isSome) ∧
      (∀ c ∈ takenCtx s e, ∀ id ∈ ids, id ∈ c.bulkEligible.map (·.id)) ∧
      ∀ c ∈ takenCtx s e, ∀ id ∈ c.bulkEligible.map (·.id), id ∈ ids)
    ⟨fun ⟨h₁, h₂, h₃⟩ => ⟨h₁, h₂, h₃⟩, fun h => ⟨h.registered, h.complete, h.sound⟩⟩

/-- The watch has an unfulfilled request when a cycle takes the active watches. -/
def Requested (w : WatchId) (s : Engine) (e : Event) : Prop :=
  ∀ c ∈ takenCtx s e, s.readState.fulfilled w < (c.requestSeq.get w).getD 0

instance (w : WatchId) (s : Engine) (e : Event) : Decidable (Requested w s e) :=
  inferInstanceAs (Decidable (∀ c ∈ takenCtx s e, _))

/-- The event is the first bulk batch of its cycle. -/
def isFirstBatch (s : Engine) : Event → Bool
  | .bulkPoll .. =>
      match s.phase with
      | .bulk _ _ 0 => true
      | _ => false
  | _ => false

/-- The event is a first bulk batch that succeeded. -/
def isFirstBatchOk (x : Engine × Event) : Bool :=
  isFirstBatch x.1 x.2 && match x.2 with
    | .bulkPoll _ (some _) => true
    | _ => false

-- ============================================================================
-- The invariant of a waiting watch
-- ============================================================================

/-- The context of a cycle that is to serve `w`, one of its bulk watches `ids`. -/
structure CycleCtx.Serves (ids : List WatchId) (w : WatchId) (rs : ReadStates) (c : CycleCtx) :
    Prop where
  seq : ∀ id ∈ ids, ∃ seq, c.requestSeq.get id = some seq
  eligible : ∀ id ∈ c.bulkEligible.map (·.id), id ∈ ids
  mem : w ∈ c.bulkEligible.map (·.id)
  unfulfilled : rs.fulfilled w < (c.requestSeq.get w).getD 0

/-- What is known of the watch `w` among `ids` while it waits, in a run that
    started in cycle `c₀`. -/
structure Waiting (ids : List WatchId) (w : WatchId) (c₀ : Nat) (s : Engine) : Prop where
  refreshLe : ∀ id, s.readState.refreshCycle id ≤ s.cycle
  waitsLe : s.readState.refreshCycle w ≤ c₀
  cycleLe : c₀ ≤ s.cycle
  later : s.phase.liveIds? ≠ none → c₀ < s.cycle
  live : ∀ l, s.phase.liveIds? = some l → ∀ id ∈ ids, id ∈ l
  ctx : ∀ c, s.phase.ctx? = some c → c.Serves ids w s.readState
  notDone : w ∉ s.phase.done

theorem waiting_idle {ids : List WatchId} {w : WatchId} {s : Engine} (hidle : s.phase = .idle)
    (hrefresh : ∀ id, s.readState.refreshCycle id ≤ s.cycle) : Waiting ids w s.cycle s where
  refreshLe := hrefresh
  waitsLe := hrefresh w
  cycleLe := Nat.le_refl _
  later := fun h => absurd (by rw [hidle]; rfl) h
  live := fun l h => absurd h (by simp [hidle, Phase.liveIds?])
  ctx := Phase.no_ctx (by rw [hidle]; rfl)
  notDone := by simp [hidle, Phase.done]

/-- A refresh cycle after a completed batch is the cycle, or it was there before. -/
theorem refreshCycle_markFulfilled (reads : List CoalescedRead)
    (requestSeq : HashMap WatchId Nat) (cycle : Nat) (rs : ReadStates) (id : WatchId) :
    (markFulfilled reads requestSeq cycle rs).refreshCycle id = cycle ∨
      (markFulfilled reads requestSeq cycle rs).refreshCycle id = rs.refreshCycle id := by
  cases hst : (markFulfilled reads requestSeq cycle rs).get id with
  | none =>
      refine Or.inr (refreshCycle_congr ?_)
      rw [get_markFulfilled] at hst ⊢
      by_cases hid : id ∈ memberIds reads
      · rw [if_pos hid] at hst ⊢
        cases hseq : requestSeq.get id with
        | none => rfl
        | some seq => rw [hseq] at hst; exact absurd hst (by simp)
      · rw [if_neg hid]
  | some st =>
      rcases get_markFulfilled_cases hst with ⟨-, -, hc⟩ | hold
      · exact Or.inl ((refreshCycle_of_get hst).trans hc)
      · exact Or.inr ((refreshCycle_of_get hst).trans (refreshCycle_of_get hold).symm)

/-- The collection of `read_state` does not move a refresh cycle forward. -/
theorem refreshCycle_collect_le (s : Engine) (liveIds : List WatchId) (id : WatchId) :
    ReadStates.refreshCycle (if s.cycle % 256 = 0 then s.readState.retain fun id => id ∈ liveIds
      else s.readState) id ≤ s.readState.refreshCycle id := by
  generalize hrs : (if s.cycle % 256 = 0 then s.readState.retain fun id => id ∈ liveIds
    else s.readState) = rs
  cases hst : rs.get id with
  | none =>
      rw [ReadStates.refreshCycle, hst]
      exact Nat.zero_le _
  | some st =>
      have hold := get_of_get_collect (hrs ▸ hst)
      rw [refreshCycle_of_get hst, refreshCycle_of_get hold]

theorem waiting_step {ids : List WatchId} {w : WatchId} {c₀ : Nat} {s t : Engine} {e : Event}
    (hw : w ∈ ids) (h : Waiting ids w c₀ s) (hfix : FixedActive ids s e)
    (hreq : Requested w s e) (hno : ¬ Fetches s e w) (hs : step s e = some t) :
    Waiting ids w c₀ t := by
  have hids : ∀ l, t.phase.liveIds? = some l → ∀ id ∈ ids, id ∈ l := by
    intro l hl id hid
    rcases liveIds?_of_step hs hl with hold | ⟨-, rfl⟩
    · exact h.live l hold id hid
    · exact WatchRegistry.mem_map_all (hfix.registered id hid)
  cases transition_of_step hs with
  | script op => exact { h with }
  | begin cfg hp =>
      have hle := h.cycleLe
      refine ⟨fun id => Nat.le_succ_of_le (h.refreshLe id), h.waitsLe, Nat.le_succ_of_le hle,
        fun _ => Nat.lt_succ_of_le hle, hids, Phase.no_ctx rfl,
        by simp [Engine.beginCycle, Phase.done]⟩
  | active cfg liveIds now phase' hp hp' hdone =>
      have htaken : takenCtx s (.readActive now) = some (s.takeActive cfg liveIds now) := by
        simp only [takenCtx, hp]
      have hlive : s.phase.liveIds? = some liveIds := by rw [hp]; rfl
      refine ⟨h.refreshLe, h.waitsLe, h.cycleLe, fun _ => h.later (by rw [hlive]; simp),
        hids, ?_, by rw [hdone]; simp⟩
      intro c hc
      obtain rfl := Option.some.inj (hp'.symm.trans hc)
      refine ⟨?_, hfix.sound _ htaken, hfix.complete _ htaken w hw, hreq _ htaken⟩
      intro id hid
      obtain ⟨v, hv, rfl⟩ := List.mem_map.mp (hfix.complete _ htaken id hid)
      exact (mem_watches_takeActive (List.mem_filter.mp hv).1).2
  | fetchOk e ctx reads blobs phase' hp hfetch hreads hp' hdone =>
      have hnot : w ∉ memberIds reads := fun hmem => hno ⟨reads, blobs, hfetch, hmem⟩
      have hget := get_markFulfilled_of_not_mem hnot ctx.requestSeq s.cycle s.readState
      have hlive := Phase.liveIds?_of_ctx? hp
      refine ⟨?_, ?_, h.cycleLe, fun _ => h.later (by rw [hlive]; simp), hids, ?_, ?_⟩
      · intro id
        have hle := h.refreshLe id
        rcases refreshCycle_markFulfilled reads ctx.requestSeq s.cycle s.readState id with h | h
        · exact Nat.le_of_eq h
        · exact (Nat.le_of_eq h).trans hle
      · exact (Nat.le_of_eq (refreshCycle_congr hget)).trans h.waitsLe
      · intro c hc
        obtain rfl := Option.some.inj (hp'.symm.trans hc)
        obtain ⟨hseq, hel, hmem, hlt⟩ := h.ctx ctx hp
        exact ⟨hseq, hel, hmem, by rw [fulfilled_congr hget]; exact hlt⟩
      · intro hmem
        exact (hdone w hmem).elim hnot h.notDone
  | quiet e phase' hscript hfetch hphase =>
      rcases hphase with rfl | ⟨ctx, hp, hp', hdone⟩
      · exact { h with }
      · have hlive := Phase.liveIds?_of_ctx? hp
        refine ⟨h.refreshLe, h.waitsLe, h.cycleLe, fun _ => h.later (by rw [hlive]; simp),
          hids, ?_, by rw [hdone]; simp⟩
        intro c hc
        obtain rfl := Option.some.inj (hp'.symm.trans hc)
        exact h.ctx ctx hp
  | publish ctx rttMs hp =>
      have hlive : s.phase.liveIds? = some ctx.liveIds := by rw [hp]; rfl
      exact ⟨h.refreshLe, h.waitsLe, h.cycleLe, fun _ => h.later (by rw [hlive]; simp),
        hids, Phase.no_ctx rfl, by simp [Phase.done]⟩
  | collect liveIds hp =>
      exact ⟨fun id => (refreshCycle_collect_le s liveIds id).trans (h.refreshLe id),
        (refreshCycle_collect_le s liveIds w).trans h.waitsLe, h.cycleLe,
        fun hl => absurd rfl hl, hids, Phase.no_ctx rfl, by simp [Phase.done]⟩

/-- The watch waits along a run that does not fetch it. -/
theorem waiting_run {ids : List WatchId} {w : WatchId} {s t : Engine}
    {tr : List (Engine × Event)} (hw : w ∈ ids) (hidle : s.phase = .idle)
    (hrefresh : ∀ id, s.readState.refreshCycle id ≤ s.cycle) (hrun : Run step s tr t)
    (hfix : ∀ x ∈ tr, FixedActive ids x.1 x.2) (hreq : ∀ x ∈ tr, Requested w x.1 x.2)
    (hno : ∀ x ∈ tr, ¬ Fetches x.1 x.2 w) : Waiting ids w s.cycle t :=
  hrun.invariant (P := fun u e => FixedActive ids u e ∧ Requested w u e ∧ ¬ Fetches u e w)
    (fun _ _ _ hP hi hs => waiting_step hw hi hP.1 hP.2.1 hP.2.2 hs)
    (fun x hx => ⟨hfix x hx, hreq x hx, hno x hx⟩) (waiting_idle hidle hrefresh)

-- ============================================================================
-- A first batch refreshes one that waits as long
-- ============================================================================

/-- While `w` waits, a batch selects a watch not refreshed since the run began. -/
theorem Waiting.exists_selected {ids : List WatchId} {w : WatchId} {c₀ : Nat} {s : Engine}
    (h : Waiting ids w c₀ s) {ctx : CycleCtx} (hctx : s.phase.ctx? = some ctx)
    (iterBudget : UInt32) :
    ∃ id ∈ memberIds (ctx.bulkBatch s.readState s.phase.done s.cycle iterBudget),
      id ∈ ids ∧ s.readState.refreshCycle id ≤ c₀ := by
  have hserves := h.ctx ctx hctx
  have hmem : w ∈ memberIds (ctx.chunked iterBudget) :=
    (memberIds_chunks _ _ _).mem_iff.mpr hserves.mem
  obtain ⟨r, hr, hwr⟩ := mem_memberIds.mp hmem
  obtain ⟨m, hm, rfl⟩ := List.mem_map.mp hwr
  have hpending : r ∈ ctx.pending s.readState s.phase.done iterBudget :=
    List.mem_filter.mpr ⟨hr, readIsPending_iff.mpr ⟨m, hm, h.notDone, hserves.unfulfilled⟩⟩
  have hmembers : ∀ r ∈ ctx.pending s.readState s.phase.done iterBudget, r.members ≠ [] := by
    intro r hr
    obtain ⟨m, hm, -⟩ := readIsPending_iff.mp (List.mem_filter.mp hr).2
    exact List.ne_nil_of_mem hm
  obtain ⟨id, hid, hle⟩ := @exists_oldest_selected _ iterBudget _ _ hmembers h.refreshLe
    r hpending m hm
  refine ⟨id, hid, ?_, hle.trans h.waitsLe⟩
  obtain ⟨q, hq, hidq⟩ := mem_memberIds.mp hid
  have hchunk : id ∈ memberIds (ctx.chunked iterBudget) :=
    mem_memberIds.mpr ⟨q, (CycleCtx.mem_chunked_of_mem_bulkBatch hq).1, hidq⟩
  exact hserves.eligible id ((memberIds_chunks _ _ _).mem_iff.mp hchunk)

/-- So the batch is not empty. -/
theorem Waiting.bulkBatch_ne_nil {ids : List WatchId} {w : WatchId} {c₀ : Nat} {s : Engine}
    (h : Waiting ids w c₀ s) {ctx : CycleCtx} (hctx : s.phase.ctx? = some ctx)
    (iterBudget : UInt32) : ctx.bulkBatch s.readState s.phase.done s.cycle iterBudget ≠ [] := by
  obtain ⟨id, hid, -⟩ := h.exists_selected hctx iterBudget
  obtain ⟨r, hr, -⟩ := mem_memberIds.mp hid
  exact List.ne_nil_of_mem hr

/-- Once refreshed in the run, a watch stays so. -/
theorem Waiting.refreshCycle_mono {ids : List WatchId} {w : WatchId} {c₀ : Nat} {s t : Engine}
    {e : Event} (h : Waiting ids w c₀ s) (hs : step s e = some t) :
    ∀ id ∈ ids, t.readState.refreshCycle id ≤ c₀ → s.readState.refreshCycle id ≤ c₀ := by
  intro id hid hle
  cases transition_of_step hs with
  | script op => exact hle
  | begin cfg hp => exact hle
  | active cfg liveIds now phase' hp hp' hdone => exact hle
  | fetchOk e ctx reads blobs phase' hp hfetch hreads hp' hdone =>
      have hlater : c₀ < s.cycle := h.later (by rw [Phase.liveIds?_of_ctx? hp]; simp)
      rcases refreshCycle_markFulfilled reads ctx.requestSeq s.cycle s.readState id with heq | heq
      · exact absurd (heq.symm.trans_le hle) (Nat.not_le.mpr hlater)
      · exact heq.symm.trans_le hle
  | quiet e phase' hscript hfetch hphase => exact hle
  | publish ctx rttMs hp => exact hle
  | collect liveIds hp =>
      have hlive : id ∈ liveIds := h.live liveIds (by rw [hp]; rfl) id hid
      exact (refreshCycle_congr (get_collect hlive)).symm.trans_le hle

theorem exists_of_isFirstBatchOk {s : Engine} {e : Event} (h : isFirstBatchOk (s, e)) :
    ∃ ctx iterBudget blobs, s.phase = .bulk ctx s.phase.done 0 ∧
      e = .bulkPoll iterBudget (some blobs) := by
  cases e with
  | bulkPoll iterBudget reply =>
      cases reply with
      | none => simp [isFirstBatchOk] at h
      | some blobs =>
          simp only [isFirstBatchOk, isFirstBatch, Bool.and_true] at h
          split at h
          · rename_i ctx done hp
            exact ⟨ctx, iterBudget, blobs, by rw [hp]; rfl, rfl⟩
          · exact absurd h (by simp)
  | _ => simp [isFirstBatchOk, isFirstBatch] at h

/-- A first batch that succeeds lowers the number of watches not refreshed since
    the run began; no step raises it. -/
theorem Waiting.potential_step {ids : List WatchId} {w : WatchId} {c₀ : Nat} {s t : Engine}
    {e : Event} (h : Waiting ids w c₀ s) (hs : step s e = some t) :
    servedBy ids t.readState.refreshCycle c₀ + (if isFirstBatchOk (s, e) then 1 else 0) ≤
      servedBy ids s.readState.refreshCycle c₀ := by
  have hmono := h.refreshCycle_mono hs
  by_cases hok : isFirstBatchOk (s, e)
  · rw [if_pos hok]
    refine Nat.succ_le_of_lt ?_
    obtain ⟨ctx, iterBudget, blobs, hp, rfl⟩ := exists_of_isFirstBatchOk hok
    have hctx : s.phase.ctx? = some ctx := by rw [hp]; rfl
    have hread : multiRead s (.bulkPoll iterBudget (some blobs)) =
        some (ctx.bulkBatch s.readState s.phase.done s.cycle iterBudget, some blobs) := by
      rw [multiRead, hp]
      rfl
    obtain ⟨id, hid, hids, hle⟩ := h.exists_selected hctx iterBudget
    refine servedBy_lt hmono hids hle ?_
    cases transition_of_step hs with
    | fetchOk _ ctx' reads blobs' phase' hctx' hfetch hreads hp' hdone =>
        obtain rfl := Option.some.inj (hctx.symm.trans hctx')
        obtain ⟨rfl, -⟩ := Prod.mk.inj (Option.some.inj (hread.symm.trans hfetch))
        obtain ⟨seq, hseq⟩ := (h.ctx ctx hctx).seq id hids
        exact (h.later (by rw [Phase.liveIds?_of_ctx? hctx]; simp)).trans_eq
          (refreshCycle_of_mem hid hseq _ _).symm
    | quiet _ phase' hscript hfetch hphase => exact absurd ⟨_, blobs, hread, hid⟩ (hfetch id)
  · rw [if_neg hok]
    exact servedBy_mono hmono

/-- The watch waits before every step of a run that does not fetch it. -/
theorem waiting_of_mem {ids : List WatchId} {w : WatchId} {s t : Engine}
    {tr : List (Engine × Event)} (hw : w ∈ ids) (hidle : s.phase = .idle)
    (hrefresh : ∀ id, s.readState.refreshCycle id ≤ s.cycle) (hrun : Run step s tr t)
    (hfix : ∀ x ∈ tr, FixedActive ids x.1 x.2) (hreq : ∀ x ∈ tr, Requested w x.1 x.2)
    (hno : ∀ x ∈ tr, ¬ Fetches x.1 x.2 w) : ∀ x ∈ tr, Waiting ids w s.cycle x.1 := by
  intro x hx
  obtain ⟨pre, post, rfl, hpre⟩ := hrun.prefix_of_mem hx
  have hsub : ∀ y ∈ pre, y ∈ pre ++ x :: post := fun y hy => List.mem_append_left _ hy
  exact waiting_run hw hidle hrefresh hpre (fun y hy => hfix y (hsub y hy))
    (fun y hy => hreq y (hsub y hy)) (fun y hy => hno y (hsub y hy))

/-- **The bound.**  As long as `w` waits, fewer first batches have succeeded
    than there are watches. -/
theorem firstBatches_lt {ids : List WatchId} {w : WatchId} {s t : Engine}
    {tr : List (Engine × Event)} (hw : w ∈ ids) (hidle : s.phase = .idle)
    (hrefresh : ∀ id, s.readState.refreshCycle id ≤ s.cycle) (hrun : Run step s tr t)
    (hfix : ∀ x ∈ tr, FixedActive ids x.1 x.2) (hreq : ∀ x ∈ tr, Requested w x.1 x.2)
    (hno : ∀ x ∈ tr, ¬ Fetches x.1 x.2 w) : tr.countP isFirstBatchOk < ids.length := by
  have hwait := waiting_of_mem hw hidle hrefresh hrun hfix hreq hno
  have hpot := hrun.potential (P := fun u _ => Waiting ids w s.cycle u) isFirstBatchOk
    (fun u => servedBy ids u.readState.refreshCycle s.cycle)
    (fun _ _ _ hu hs => hu.potential_step hs) hwait
  have hend := waiting_run hw hidle hrefresh hrun hfix hreq hno
  have hpos := servedBy_pos (r := t.readState.refreshCycle) hw hend.waitsLe
  have hlen := servedBy_le_length ids s.readState.refreshCycle s.cycle
  omega

-- ============================================================================
-- Every cycle has its first batch
-- ============================================================================

/-- The first bulk batch of a cycle does not fail. -/
def FirstBatchOk (s : Engine) (e : Event) : Prop := isFirstBatch s e → isFirstBatchOk (s, e)

instance (s : Engine) (e : Event) : Decidable (FirstBatchOk s e) :=
  inferInstanceAs (Decidable (_ → _))

/-- The cycles begun, short of the one whose first batch is still to come. -/
def Engine.servedCycles (s : Engine) : Nat :=
  match s.phase with
  | .started .. | .realtime _ | .bulk _ _ 0 => s.cycle - 1
  | .idle | .bulk _ _ (_ + 1) | .drained _ | .published _ => s.cycle

/-- While `w` waits, a cycle does not get past its first batch without one. -/
theorem Waiting.servedCycles_step {ids : List WatchId} {w : WatchId} {c₀ : Nat} {s t : Engine}
    {e : Event} (h : Waiting ids w c₀ s) (hok : FirstBatchOk s e) (hs : step s e = some t) :
    t.servedCycles ≤ s.servedCycles + (if isFirstBatchOk (s, e) then 1 else 0) := by
  cases e with
  | script op =>
      obtain rfl := Option.some.inj hs
      exact Nat.le_add_right _ _
  | noClient =>
      cases hp : s.phase with
      | idle =>
          simp only [step, hp] at hs
          obtain rfl := Option.some.inj hs
          exact Nat.le_add_right _ _
      | _ => simp [step, hp] at hs
  | beginCycle cfg =>
      cases hp : s.phase with
      | idle =>
          simp only [step, hp] at hs
          obtain rfl := Option.some.inj hs
          simp [Engine.servedCycles, Engine.beginCycle, hp]
      | _ => simp [step, hp] at hs
  | readActive now =>
      cases hp : s.phase with
      | started cfg liveIds =>
          simp only [step, hp] at hs
          obtain rfl := Option.some.inj hs
          by_cases hempty : (s.takeActive cfg liveIds now).realtime.isEmpty <;>
            simp [Engine.servedCycles, hp, hempty]
      | _ => simp [step, hp] at hs
  | realtimePoll reply =>
      cases hp : s.phase with
      | realtime ctx =>
          cases reply <;> simp only [step, hp] at hs <;> obtain rfl := Option.some.inj hs <;>
            simp [Engine.servedCycles, hp]
      | _ => simp [step, hp] at hs
  | bulkPoll iterBudget reply =>
      cases hp : s.phase with
      | bulk ctx done n =>
          simp only [step, hp] at hs
          split at hs
          · exact absurd hs (by simp)
          · cases n with
            | zero =>
                have hfirst : isFirstBatchOk (s, .bulkPoll iterBudget reply) :=
                  hok (by simp [isFirstBatch, hp])
                rw [if_pos hfirst]
                cases reply with
                | none => simp [isFirstBatchOk] at hfirst
                | some blobs =>
                    obtain rfl := Option.some.inj hs
                    simp only [Engine.servedCycles, hp]
                    omega
            | succ n =>
                cases reply <;> obtain rfl := Option.some.inj hs <;> simp [Engine.servedCycles, hp]
      | _ => simp [step, hp] at hs
  | endDrain iterBudget =>
      cases hp : s.phase with
      | bulk ctx done n =>
          have hctx : s.phase.ctx? = some ctx := by rw [hp]; rfl
          have hne := h.bulkBatch_ne_nil hctx iterBudget
          rw [hp] at hne
          simp only [step, hp] at hs
          cases n with
          | zero => exact absurd hs (by rw [if_pos ⟨rfl, hne⟩]; simp)
          | succ n =>
              rw [if_neg (by omega)] at hs
              obtain rfl := Option.some.inj hs
              simp [Engine.servedCycles, hp]
      | _ => simp [step, hp] at hs
  | publish rttMs =>
      cases hp : s.phase with
      | drained ctx =>
          simp only [step, hp] at hs
          obtain rfl := Option.some.inj hs
          simp [Engine.servedCycles, hp]
      | _ => simp [step, hp] at hs
  | collect =>
      cases hp : s.phase with
      | published liveIds =>
          simp only [step, hp] at hs
          obtain rfl := Option.some.inj hs
          simp [Engine.servedCycles, hp]
      | _ => simp [step, hp] at hs

/-- A watch requested in every cycle is fetched within as many cycles as there
    are watches, when no first batch fails. -/
theorem fetched_within {ids : List WatchId} {w : WatchId} {s t : Engine}
    {tr : List (Engine × Event)} (hw : w ∈ ids) (hidle : s.phase = .idle)
    (hrefresh : ∀ id, s.readState.refreshCycle id ≤ s.cycle) (hrun : Run step s tr t)
    (hfix : ∀ x ∈ tr, FixedActive ids x.1 x.2)
    (hreq : (∀ x ∈ tr, ¬ Fetches x.1 x.2 w) → ∀ x ∈ tr, Requested w x.1 x.2)
    (hok : ∀ x ∈ tr, FirstBatchOk x.1 x.2) (hidle' : t.phase = .idle)
    (hcycle : t.cycle = s.cycle + ids.length) : ∃ x ∈ tr, Fetches x.1 x.2 w := by
  by_contra hnone
  have hno : ∀ x ∈ tr, ¬ Fetches x.1 x.2 w := fun x hx hf => hnone ⟨x, hx, hf⟩
  have hwait := waiting_of_mem hw hidle hrefresh hrun hfix (hreq hno) hno
  have hlt := firstBatches_lt hw hidle hrefresh hrun hfix (hreq hno) hno
  have hgrow := hrun.growth (P := fun u e => Waiting ids w s.cycle u ∧ FirstBatchOk u e)
    isFirstBatchOk Engine.servedCycles (fun _ _ _ hu hs => hu.1.servedCycles_step hu.2 hs)
    (fun x hx => ⟨hwait x hx, hok x hx⟩)
  simp only [Engine.servedCycles, hidle, hidle'] at hgrow
  omega

-- ============================================================================
-- No starvation
-- ============================================================================

theorem exists_of_takenCtx {s : Engine} {e : Event} {c : CycleCtx} (h : takenCtx s e = some c) :
    ∃ cfg liveIds now, c = s.takeActive cfg liveIds now := by
  cases e with
  | readActive now =>
      simp only [takenCtx] at h
      split at h
      · rename_i cfg liveIds hp
        exact ⟨cfg, liveIds, now, (Option.some.inj h).symm⟩
      · exact absurd h (by simp)
  | _ => exact absurd h (by simp [takenCtx])

/-- An active watch whose registered marker is ahead of the fulfilled one is
    requested. -/
theorem requested_of_entry {ids : List WatchId} {w : WatchId} {s : Engine} {e : Event} {m : Nat}
    (hw : w ∈ ids) (hfix : FixedActive ids s e)
    (hentry : ∀ en, s.registry.find? w = some en → m ≤ en.requestSeq)
    (hstate : s.readState.fulfilled w < m) : Requested w s e := by
  intro c hc
  have hmem := hfix.complete c hc w hw
  obtain ⟨cfg, liveIds, now, rfl⟩ := exists_of_takenCtx hc
  obtain ⟨v, hv, rfl⟩ := List.mem_map.mp hmem
  obtain ⟨seq, hseq⟩ := (mem_watches_takeActive (List.mem_filter.mp hv).1).2
  obtain ⟨en, hen, rfl⟩ := requestSeq_takeActive hseq
  rw [hseq]
  exact Nat.lt_of_lt_of_le hstate (hentry en hen)

/-- A request that is open when a cycle starts stays open until it is fetched. -/
theorem unserved_of_entry {s : Engine} {w : WatchId} {en : WatchEntry} (hidle : s.phase = .idle)
    (hen : s.registry.find? w = some en) (hopen : s.readState.fulfilled w < en.requestSeq) :
    Unserved en.requestSeq w [] s where
  drawn := WatchRegistry.find?_requestSeq_le hen
  entry := by
    intro en' hen'
    rw [hen] at hen'
    obtain rfl := Option.some.inj hen'
    exact Nat.le_refl _
  state := fun _ => hopen
  ctx := fun _ => Phase.no_ctx (by rw [hidle]; rfl)

/-- A watch whose request was open at the start is requested until it is fetched. -/
theorem requested_of_open {ids : List WatchId} {w : WatchId} {s t : Engine}
    {tr : List (Engine × Event)} {en : WatchEntry} (hw : w ∈ ids) (hidle : s.phase = .idle)
    (hen : s.registry.find? w = some en) (hopen : s.readState.fulfilled w < en.requestSeq)
    (hrun : Run step s tr t) (hfix : ∀ x ∈ tr, FixedActive ids x.1 x.2)
    (hno : ∀ x ∈ tr, ¬ Fetches x.1 x.2 w) : ∀ x ∈ tr, Requested w x.1 x.2 := by
  intro x hx
  obtain ⟨pre, post, rfl, hpre⟩ := hrun.prefix_of_mem hx
  have hun := unserved_run (Nat.zero_lt_of_lt hopen) (unserved_of_entry hidle hen hopen) hpre
  refine requested_of_entry hw (hfix x hx) hun.entry (hun.state ?_)
  rintro ⟨a, u, now, mid, v, e, b, rfl, hf⟩
  exact hno (v, e) (by simp) hf

/-- The step that fetches a waiting watch records the cycle as its refresh cycle. -/
theorem Waiting.refreshed {ids : List WatchId} {w : WatchId} {c₀ : Nat} {s t : Engine} {e : Event}
    (h : Waiting ids w c₀ s) (hw : w ∈ ids) (hf : Fetches s e w) (hs : step s e = some t) :
    c₀ < s.cycle ∧ t.readState.refreshCycle w = s.cycle := by
  obtain ⟨reads, blobs, hread, hmem⟩ := hf
  cases transition_of_step hs with
  | fetchOk _ ctx reads' blobs' phase' hp hfetch hreads hp' hdone =>
      obtain ⟨rfl, -⟩ := Prod.mk.inj (Option.some.inj (hread.symm.trans hfetch))
      obtain ⟨seq, hseq⟩ := (h.ctx ctx hp).seq w hw
      exact ⟨h.later (by rw [Phase.liveIds?_of_ctx? hp]; simp), refreshCycle_of_mem hmem hseq _ _⟩
  | quiet _ phase' hscript hfetch hphase => exact absurd ⟨reads, blobs, hread, hmem⟩ (hfetch w)
  | _ => exact absurd hread (by simp [multiRead])

/-- **No starvation.**  `ids` are the active non-realtime watches of every cycle
    and no first batch fails.  A watch with an open request is fetched within
    `ids.length` cycles, whatever the budgets, the configuration and the other
    requests are, and the cycle that fetches it is recorded as its last refresh. -/
theorem bulk_not_starved {ids : List WatchId} {w : WatchId} {s t : Engine}
    {tr : List (Engine × Event)} {en : WatchEntry} (hw : w ∈ ids) (hidle : s.phase = .idle)
    (hrefresh : ∀ id, s.readState.refreshCycle id ≤ s.cycle)
    (hen : s.registry.find? w = some en) (hopen : s.readState.fulfilled w < en.requestSeq)
    (hrun : Run step s tr t) (hfix : ∀ x ∈ tr, FixedActive ids x.1 x.2)
    (hok : ∀ x ∈ tr, FirstBatchOk x.1 x.2) (hidle' : t.phase = .idle)
    (hcycle : t.cycle = s.cycle + ids.length) :
    ∃ x ∈ tr, Fetches x.1 x.2 w ∧ s.cycle < x.1.cycle ∧
      ∃ u, step x.1 x.2 = some u ∧ u.readState.refreshCycle w = x.1.cycle := by
  obtain ⟨x₀, hx₀, hf₀⟩ := fetched_within hw hidle hrefresh hrun hfix
    (requested_of_open hw hidle hen hopen hrun hfix) hok hidle' hcycle
  -- the first fetch finds the watch waiting
  have hfound : (tr.find? fun x => decide (Fetches x.1 x.2 w)).isSome :=
    List.find?_isSome.mpr ⟨x₀, hx₀, decide_eq_true hf₀⟩
  obtain ⟨x, hx⟩ := Option.isSome_iff_exists.mp hfound
  obtain ⟨hf, pre, post, rfl, hpre⟩ := List.find?_eq_some_iff_append.mp hx
  have hno : ∀ y ∈ pre, ¬ Fetches y.1 y.2 w := fun y hy => by simpa using hpre y hy
  have hsub : ∀ y ∈ pre, y ∈ pre ++ x :: post := fun y hy => List.mem_append_left _ hy
  obtain ⟨u, hbefore, hs, -⟩ := hrun.split_at
  have hfix' : ∀ y ∈ pre, FixedActive ids y.1 y.2 := fun y hy => hfix y (hsub y hy)
  have hwait := waiting_run hw hidle hrefresh hbefore hfix'
    (requested_of_open hw hidle hen hopen hbefore hfix' hno) hno
  have hfetches := of_decide_eq_true hf
  obtain ⟨hlater, hrefreshed⟩ := hwait.refreshed hw hfetches hs
  exact ⟨x, by simp, hfetches, hlater, u, hs, hrefreshed⟩

/-- An idle engine with a low watch of two bytes and a high one of one byte. -/
def lowAndHigh : List Event :=
  [.script (.register (.wram 0x10 2) .low 0), .script (.register (.wram 0x4000 1) .high 0)]

/-- Two cycles with a budget of one byte; the high watch is requested again. -/
def narrowCycles : List Event :=
  [.beginCycle ⟨16, 10⟩, .readActive 0, .bulkPoll 1 (some [[7]]), .endDrain 1, .publish 5, .collect,
   .script (.touch 1 1),
   .beginCycle ⟨16, 10⟩, .readActive 2, .bulkPoll 1 (some [[1, 2]]), .endDrain 1, .publish 5,
   .collect]

/-- The low watch is fetched in the second cycle, although it exceeds the budget. -/
theorem bulk_not_starved_low :
    ∃ x ∈ trace step (final step .init lowAndHigh) narrowCycles, Fetches x.1 x.2 0 ∧
      (final step .init lowAndHigh).cycle < x.1.cycle ∧
      ∃ u, step x.1 x.2 = some u ∧ u.readState.refreshCycle 0 = x.1.cycle :=
  @bulk_not_starved [0, 1] 0 _ _ _ ⟨⟨0, .wram 0x10 2, .low⟩, 0, 1, false⟩ (by decide) rfl
    (fun _ => Nat.zero_le _) (by decide) (by decide) (run_final (by decide)) (by decide) (by decide)
    rfl (by decide)

end Cache
end SniLua
