/-
  SniLua.Cache.Demand

  The requests of the poll task follow what the script asks for.  What the registry
  holds for a watch is read off the calls of the script (`DeclaredBy`): the call that
  registered it, the tiers it was raised to since, whether one of them pinned it, and
  when it was last requested.

  A watch that is in a request was taken at the start of the cycle, when it was
  pinned or had been requested within the demand window; a watch the script lets go
  is asked for no more.
-/

import SniLua.Cache.PollRefine

namespace SniLua
namespace Cache

open Lib

-- ============================================================================
-- What a call asks of a watch
-- ============================================================================

namespace RegistryOp

def removes (id : WatchId) : RegistryOp → Bool
  | .unregister id' => id' = id
  | .clear => true
  | _ => false

/-- When the call requests the watch. -/
def touches (id : WatchId) : RegistryOp → Option Nat
  | .touch id' now | .pin id' now | .upgradePriority id' _ now =>
      if id' = id then some now else none
  | _ => none

def pins (id : WatchId) : RegistryOp → Bool
  | .pin id' _ | .upgradePriority id' _ _ => id' = id
  | _ => false

/-- The tier the call raises the watch to, if it is a lower one. -/
def raises (id : WatchId) : RegistryOp → Option WatchPriority
  | .upgradePriority id' priority _ => if id' = id then some priority else none
  | _ => none

end RegistryOp

/-- Without a downgrade the tier becomes the more urgent one. -/
theorem WatchPriority.upgrade_eq (cur priority : WatchPriority) :
    (if priority < cur then priority else cur) = min cur priority := by
  split
  · rename_i h
    rw [min_eq_right (le_of_lt h)]
  · rename_i h
    rw [min_eq_left (not_lt.mp h)]

namespace WatchRegistry

/-- An entry after a call was registered by it, or the call has changed what it says. -/
theorem entry_apply {reg : WatchRegistry} {op : RegistryOp} {id : WatchId} {e : WatchEntry}
    (h : (reg.apply op).find? id = some e) :
    (∃ priority now, op = .register e.handle.region priority now ∧ id = reg.nextId ∧
      e.handle.priority = priority ∧ e.pinned = false ∧ e.lastTouch = now) ∨
    ∃ e₀, reg.find? id = some e₀ ∧ op.removes id = false ∧
      e.handle.region = e₀.handle.region ∧
      e.handle.priority = (op.raises id).toList.foldl min e₀.handle.priority ∧
      e.pinned = (e₀.pinned || op.pins id) ∧ e.lastTouch = (op.touches id).getD e₀.lastTouch := by
  cases op with
  | register region priority now =>
      simp only [apply, find?_register] at h
      split at h
      · rename_i hid
        obtain rfl := Option.some.inj h
        exact Or.inl ⟨priority, now, rfl, hid, rfl, rfl, rfl⟩
      · exact Or.inr ⟨e, h, rfl, rfl, rfl, by simp [RegistryOp.pins], rfl⟩
  | unregister id' =>
      simp only [apply, find?_unregister] at h
      split at h
      · exact absurd h (by simp)
      · rename_i hid
        exact Or.inr ⟨e, h, by simp [RegistryOp.removes, Ne.symm hid], rfl, rfl,
          by simp [RegistryOp.pins], rfl⟩
  | clear => exact absurd h (by simp [apply])
  | touch id' now =>
      simp only [apply, touch, find?_request] at h
      split at h
      · rename_i hid
        subst hid
        obtain ⟨e₀, he₀, rfl⟩ := Option.map_eq_some_iff.mp h
        exact Or.inr ⟨e₀, he₀, rfl, rfl, rfl, by simp [RegistryOp.pins],
          by simp [RegistryOp.touches]⟩
      · rename_i hid
        exact Or.inr ⟨e, h, rfl, rfl, rfl, by simp [RegistryOp.pins],
          by simp [RegistryOp.touches, Ne.symm hid]⟩
  | pin id' now =>
      simp only [apply, pin, find?_request] at h
      split at h
      · rename_i hid
        subst hid
        obtain ⟨e₀, he₀, rfl⟩ := Option.map_eq_some_iff.mp h
        exact Or.inr ⟨e₀, he₀, rfl, rfl, rfl, by simp [RegistryOp.pins],
          by simp [RegistryOp.touches]⟩
      · rename_i hid
        exact Or.inr ⟨e, h, rfl, rfl, rfl, by simp [RegistryOp.pins, Ne.symm hid],
          by simp [RegistryOp.touches, Ne.symm hid]⟩
  | upgradePriority id' priority now =>
      simp only [apply, upgradePriority, find?_request] at h
      split at h
      · rename_i hid
        subst hid
        obtain ⟨e₀, he₀, rfl⟩ := Option.map_eq_some_iff.mp h
        exact Or.inr ⟨e₀, he₀, rfl, rfl,
          by simp [RegistryOp.raises, WatchPriority.upgrade_eq], by simp [RegistryOp.pins],
          by simp [RegistryOp.touches]⟩
      · rename_i hid
        exact Or.inr ⟨e, h, rfl, rfl, by simp [RegistryOp.raises, Ne.symm hid],
          by simp [RegistryOp.pins, Ne.symm hid], by simp [RegistryOp.touches, Ne.symm hid]⟩

end WatchRegistry

-- ============================================================================
-- The calls behind an entry
-- ============================================================================

/-- What these calls say of a watch: one of them registered it, as the `id`th, none
    has removed it since, and the others raised, pinned and requested it. -/
structure DeclaredBy (calls : List RegistryOp) (id : WatchId) (e : WatchEntry) : Prop where
  history : ∃ earlier priority now later,
    calls = earlier ++ .register e.handle.region priority now :: later ∧
    (earlier.filterMap (·.registers)).length = id ∧ (∀ op ∈ later, op.removes id = false) ∧
    e.handle.priority = (later.filterMap (·.raises id)).foldl min priority ∧
    e.pinned = later.any (·.pins id) ∧
    e.lastTouch = (later.filterMap (·.touches id)).getLastD now

theorem nextId_calls (calls : List RegistryOp) :
    (calls.foldl WatchRegistry.apply .new).nextId = (calls.filterMap (·.registers)).length := by
  induction calls using List.reverseRecOn with
  | nil => rfl
  | append_singleton calls op ih =>
      rw [List.foldl_append, List.filterMap_append, List.length_append, ← ih]
      show (WatchRegistry.apply _ op).nextId = _
      rw [WatchRegistry.nextId_apply]
      cases hr : op.registers <;> simp [hr]

theorem DeclaredBy.concat {calls : List RegistryOp} {id : WatchId} {e₀ e : WatchEntry}
    (h : DeclaredBy calls id e₀) {op : RegistryOp} (hremove : op.removes id = false)
    (hregion : e.handle.region = e₀.handle.region)
    (hpriority : e.handle.priority = (op.raises id).toList.foldl min e₀.handle.priority)
    (hpinned : e.pinned = (e₀.pinned || op.pins id))
    (htouch : e.lastTouch = (op.touches id).getD e₀.lastTouch) :
    DeclaredBy (calls ++ [op]) id e := by
  obtain ⟨earlier, priority, now, later, rfl, hid, hremoves, hpriority₀, hpinned₀, htouch₀⟩ :=
    h.history
  refine ⟨earlier, priority, now, later ++ [op], by simp [hregion], hid, ?_, ?_, ?_, ?_⟩
  · intro op' hop
    rcases List.mem_append.mp hop with hop | hop
    · exact hremoves op' hop
    · obtain rfl := List.mem_singleton.mp hop
      exact hremove
  · rw [hpriority, hpriority₀, List.filterMap_append, List.foldl_append]
    cases hr : op.raises id <;> simp [hr]
  · rw [hpinned, hpinned₀, List.any_append]
    simp
  · rw [htouch, htouch₀, List.filterMap_append]
    cases ht : op.touches id <;> simp [ht]

/-- An entry of the registry is what the calls of the script say. -/
theorem declaredBy_of_find? {calls : List RegistryOp} {id : WatchId} {e : WatchEntry}
    (h : (calls.foldl WatchRegistry.apply .new).find? id = some e) : DeclaredBy calls id e := by
  induction calls using List.reverseRecOn generalizing e with
  | nil => exact absurd h (by simp)
  | append_singleton calls op ih =>
      rw [List.foldl_append] at h
      rcases WatchRegistry.entry_apply h with
        ⟨priority, now, rfl, hid, hpriority, hpinned, htouch⟩ |
        ⟨e₀, he₀, hremove, hregion, hpriority, hpinned, htouch⟩
      · exact ⟨calls, priority, now, [], rfl, by rw [← nextId_calls, ← hid], by simp, hpriority,
          hpinned, htouch⟩
      · exact (ih he₀).concat hremove hregion hpriority hpinned htouch

-- ============================================================================
-- The watches of a request
-- ============================================================================

theorem WatchRegistry.active_of_mem {reg : WatchRegistry} {window now : Nat} {w : WatchHandle}
    {seq : Nat} (h : (w, seq) ∈ reg.activeWithRequests window now) :
    ∃ e, reg.find? w.id = some e ∧ e.handle = w ∧
      (e.pinned = true ∨ now - e.lastTouch < window) := by
  obtain ⟨e, he, heq⟩ := List.mem_map.mp h
  obtain ⟨rfl, -⟩ := Prod.mk.inj heq
  obtain ⟨hmem, hactive⟩ := List.mem_filter.mp he
  exact ⟨e, mem_entries.mp hmem, rfl, by simpa using hactive⟩

/-- A request of the fast tier holds realtime watches, one of the other tier none. -/
theorem CycleCtx.tier_of_mem {ctx : CycleCtx} {id : WatchId} :
    (id ∈ memberIds ctx.rtReads → ∃ w ∈ ctx.watches, w.id = id ∧ w.priority.isRealtime = true) ∧
    (∀ rs done cycle b, id ∈ memberIds (ctx.bulkBatch rs done cycle b) →
      ∃ w ∈ ctx.watches, w.id = id ∧ w.priority.isRealtime = false) := by
  constructor
  · intro hid
    have hmem := (memberIds_coalesce ctx.realtime ctx.cfg.coalesceGap).mem_iff.mp hid
    obtain ⟨w, hw, rfl⟩ := List.mem_map.mp hmem
    obtain ⟨hw, htier⟩ := List.mem_filter.mp hw
    exact ⟨w, hw, rfl, htier⟩
  · intro rs done cycle b hid
    obtain ⟨r, hr, hid⟩ := mem_memberIds.mp hid
    have hmem : id ∈ memberIds (ctx.chunked b) :=
      mem_memberIds.mpr ⟨r, (CycleCtx.mem_chunked_of_mem_bulkBatch hr).1, hid⟩
    have hmem := (memberIds_chunks _ _ _).mem_iff.mp hmem
    obtain ⟨w, hw, rfl⟩ := List.mem_map.mp hmem
    obtain ⟨hw, htier⟩ := List.mem_filter.mp hw
    exact ⟨w, hw, rfl, by simpa using htier⟩

namespace PollLoop

/-- The calls of the script, each with its instant. -/
def calls (tr : List (PollLoop × LoopEvent)) : List RegistryOp :=
  tr.filterMap fun x => match x.2.action with
    | .script op => some (op.at (x.1.clock + x.2.after))
    | _ => none

theorem registry_run {cfg : LoopConfig} {tr : List (PollLoop × LoopEvent)} {s : PollLoop}
    (hrun : Run step (.spawn cfg) tr s) :
    s.registry = (calls tr).foldl WatchRegistry.apply .new := by
  refine hrun.trace_invariant (I := fun tr s => s.registry = (calls tr).foldl _ .new) ?_ rfl
  intro tr u e v _ ih hs
  have hcalls : calls (tr ++ [(u, e)]) = calls tr ++ calls [(u, e)] := List.filterMap_append
  rw [hcalls, List.foldl_append, ← ih]
  obtain ⟨after, action⟩ := e
  cases moves_of_act (s := u.tick after) (a := action) hs with
  | realtimeReply ctx sentAt result h => cases result <;> rfl
  | _ => rfl

/-- The watches of the cycle were taken when the cycle read the registry. -/
def Taken (tr : List (PollLoop × LoopEvent)) (s : PollLoop) : Prop :=
  ∀ ctx, s.phase.ctx? = some ctx → ∃ pre v x post liveIds, tr = pre ++ (v, x) :: post ∧
    x.action = .readActive ∧ (∀ y ∈ post, y.2.action.begins = false) ∧ v.cfg = s.cfg ∧
    ctx.watches = ((v.tick x.after).takeActive liveIds).watches

theorem Taken.keep {tr : List (PollLoop × LoopEvent)} {s t : PollLoop} {e : LoopEvent}
    (h : Taken tr s) (hcfg : t.cfg = s.cfg) (hbegin : e.action.begins = false)
    (hctx : ∀ ctx, t.phase.ctx? = some ctx → ∃ ctx₀, s.phase.ctx? = some ctx₀ ∧
      ctx.watches = ctx₀.watches) : Taken (tr ++ [(s, e)]) t := by
  intro ctx hphase
  obtain ⟨ctx₀, hphase₀, hwatches⟩ := hctx ctx hphase
  obtain ⟨pre, v, x, post, liveIds, rfl, hx, hpost, hcfg₀, htaken⟩ := h ctx₀ hphase₀
  refine ⟨pre, v, x, post ++ [(s, e)], liveIds, by simp, hx, ?_, hcfg₀.trans hcfg.symm,
    hwatches.trans htaken⟩
  intro y hy
  rcases List.mem_append.mp hy with hy | hy
  · exact hpost y hy
  · obtain rfl := List.mem_singleton.mp hy
    exact hbegin

theorem taken_step {tr : List (PollLoop × LoopEvent)} {s t : PollLoop} {e : LoopEvent}
    (h : Taken tr s) (hs : s.step e = some t) : Taken (tr ++ [(s, e)]) t := by
  have hctx : ∀ {ctx ctx₀ : CycleCtx} {phase : LoopPhase}, s.phase = phase →
      phase.ctx? = some ctx₀ → ctx.watches = ctx₀.watches → ∀ c, some ctx = some c →
        ∃ ctx₀, s.phase.ctx? = some ctx₀ ∧ c.watches = ctx₀.watches := by
    intro ctx ctx₀ phase hp hphase hw c hc
    obtain rfl := Option.some.inj hc
    exact ⟨ctx₀, by rw [hp, hphase], hw⟩
  obtain ⟨after, action⟩ := e
  cases moves_of_act (s := s.tick after) (a := action) hs with
  | script op => exact h.keep rfl rfl fun ctx hphase => ⟨ctx, hphase, rfl⟩
  | noClient cfg wake hp hw => exact fun ctx hphase => absurd hphase (by simp [LoopPhase.ctx?])
  | beginCycle cfg wake hp hw =>
      exact fun ctx hphase => absurd hphase (by simp [beginCycle, LoopPhase.ctx?])
  | readActive liveIds hp =>
      intro ctx hphase
      obtain rfl := Option.some.inj hphase
      exact ⟨tr, s, ⟨after, .readActive⟩, [], liveIds, rfl, rfl, by simp, rfl, rfl⟩
  | skipRealtime ctx hp hempty => exact h.keep rfl rfl (hctx hp rfl rfl)
  | sendRealtime ctx hp hne => exact h.keep rfl rfl (hctx hp rfl rfl)
  | realtimeReply ctx sentAt result hp =>
      cases result with
      | ok blobs => exact h.keep rfl rfl (hctx hp rfl rfl)
      | error err => exact h.keep rfl rfl (hctx hp rfl rfl)
  | sendBatch ctx done b capped hp hb hne hfits => exact h.keep rfl rfl (hctx hp rfl rfl)
  | endDrain ctx done capped hp hforce => exact h.keep rfl rfl (hctx hp rfl rfl)
  | batchOk ctx done sentAt b reads blobs work phase' hp hphase =>
      refine h.keep rfl rfl fun c hc => ?_
      have hphase' : phase'.ctx? = some (ctx.arrived reads blobs) := by
        rw [hphase]
        split <;> rfl
      obtain rfl := Option.some.inj (hphase'.symm.trans hc)
      exact ⟨ctx, congrArg LoopPhase.ctx? hp, rfl⟩
  | batchErr ctx done sentAt b reads err work hp => exact h.keep rfl rfl (hctx hp rfl rfl)
  | publish ctx hp => exact fun c hc => absurd hc (by simp [publish, LoopPhase.ctx?])
  | pause liveIds hp => exact fun c hc => absurd hc (by simp [pause, LoopPhase.ctx?])

theorem taken_run {cfg : LoopConfig} {tr : List (PollLoop × LoopEvent)} {s : PollLoop}
    (hrun : Run step (.spawn cfg) tr s) : Taken tr s :=
  hrun.trace_invariant (fun _ _ _ _ _ h hs => taken_step h hs)
    fun _ h => absurd h (by simp [spawn, LoopPhase.ctx?])

/-- The realtime sub-poll is in flight. -/
def isRealtime (s : PollLoop) : Bool :=
  match s.phase with
  | .awaitRealtime .. => true
  | _ => false

/-- **Requests follow the demand.**  Every watch in a request of the poll task was
    declared by a call of the script and not removed before the cycle took its
    watches; one of the calls since had pinned it, or the last of them that requested
    it lay less than the demand window back.  The request is the realtime sub-poll
    exactly when the calls had raised the watch to that tier. -/
theorem requests_on_demand {cfg : LoopConfig} {tr : List (PollLoop × LoopEvent)} {s : PollLoop}
    (hrun : Run step (.spawn cfg) tr s) {reads : List CoalescedRead}
    (hasked : s.phase.asked? = some reads) {id : WatchId} (hid : id ∈ memberIds reads) :
    ∃ pre v x post e, tr = pre ++ (v, x) :: post ∧ x.action = .readActive ∧
      (∀ y ∈ post, y.2.action.begins = false) ∧ DeclaredBy (calls pre) id e ∧
      (e.pinned = true ∨ v.clock + x.after - e.lastTouch < s.cfg.demandWindow) ∧
      e.handle.priority.isRealtime = s.isRealtime := by
  obtain ⟨ctx, hctx, w, hw, rfl, htier⟩ : ∃ ctx, s.phase.ctx? = some ctx ∧ ∃ w ∈ ctx.watches,
      w.id = id ∧ w.priority.isRealtime = s.isRealtime := by
    have hin := inFlight_run hrun
    cases hp : s.phase with
    | awaitRealtime ctx sentAt =>
        rw [hp] at hasked
        obtain rfl := Option.some.inj hasked
        have hfast : s.isRealtime = true := by rw [isRealtime, hp]
        rw [hfast]
        exact ⟨ctx, rfl, CycleCtx.tier_of_mem.1 hid⟩
    | awaitBulk ctx done sentAt b reads' =>
        rw [hp] at hasked
        obtain rfl := Option.some.inj hasked
        have hslow : s.isRealtime = false := by rw [isRealtime, hp]
        rw [(hin.selected ctx done sentAt b reads' hp).1] at hid
        rw [hslow]
        exact ⟨ctx, rfl, CycleCtx.tier_of_mem.2 _ _ _ _ hid⟩
    | _ => exact absurd (hp ▸ hasked) (by simp [LoopPhase.asked?])
  obtain ⟨pre, v, x, post, liveIds, rfl, hx, hpost, hcfg, htaken⟩ := taken_run hrun ctx hctx
  obtain ⟨⟨w', seq⟩, hmem, rfl⟩ := List.mem_map.mp (htaken ▸ hw)
  obtain ⟨e, he, hhandle, hactive⟩ := WatchRegistry.active_of_mem hmem
  obtain ⟨u, hpre, -, -⟩ := hrun.split_at
  have hentry : v.registry.find? w'.id = some e := he
  rw [registry_run hpre] at hentry
  refine ⟨pre, v, x, post, e, rfl, hx, hpost, declaredBy_of_find? hentry, ?_, ?_⟩
  · rw [← hcfg]
    exact hactive
  · rw [hhandle]
    exact htier

/-- The first batch of the cycle: a watch registered with the tier it is read in. -/
theorem requests_on_demand_two :
    let tr := trace step (.spawn narrowConfig) (twoBatches.take 6)
    let s := final step (.spawn narrowConfig) (twoBatches.take 6)
    ∃ pre v x post e, tr = pre ++ (v, x) :: post ∧ x.action = .readActive ∧
      (∀ y ∈ post, y.2.action.begins = false) ∧ DeclaredBy (calls pre) 1 e ∧
      (e.pinned = true ∨ v.clock + x.after - e.lastTouch < s.cfg.demandWindow) ∧
      e.handle.priority.isRealtime = s.isRealtime :=
  requests_on_demand (run_final (by decide +kernel)) rfl (by decide +kernel)

end PollLoop

end Cache
end SniLua
