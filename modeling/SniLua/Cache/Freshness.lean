/-
  SniLua.Cache.Freshness

  Two walks over one reply.  `apply_reads` writes the members whose blob is long
  enough; `mark_fulfilled` marks all members.  They agree when the reply covers
  its reads, and then the two clocks of the engine agree as well: the age of a
  watch in the snapshot is the cycle of the snapshot minus the cycle the watch
  was last refreshed in.  `multi_read` checks neither the number of blobs nor
  their lengths, so an `Ok` reply that is short marks watches fulfilled and
  refreshed for which no byte arrived.
-/

import SniLua.Cache.SnapshotCorrect

namespace SniLua
namespace Cache

open Lib

-- ============================================================================
-- What a reply covers
-- ============================================================================

/-- The reply has a blob for every read, as long as each member needs. -/
def Covers (reads : List CoalescedRead) (blobs : List (List UInt8)) : Prop :=
  reads.length ≤ blobs.length ∧
    ∀ p ∈ reads.zip blobs, ∀ m ∈ p.1.members, m.off.toNat + m.size.toNat ≤ p.2.length

instance (reads : List CoalescedRead) (blobs : List (List UInt8)) :
    Decidable (Covers reads blobs) :=
  inferInstanceAs (Decidable (_ ∧ _))

/-- An `Ok` reply covers the reads of its `MultiRead`. -/
def ReplyCovers (s : Engine) (e : Event) : Prop :=
  ∀ m ∈ multiRead s e, ∀ blobs ∈ m.2, Covers m.1 blobs

instance (s : Engine) (e : Event) : Decidable (ReplyCovers s e) :=
  inferInstanceAs (Decidable (∀ m ∈ multiRead s e, _))

/-- The bytes are a slice of a reply of this cycle. -/
def ObtainedIn (tr : List (Engine × Event)) (cycle : Nat) (id : WatchId) (bytes : List UInt8) :
    Prop :=
  ∃ x ∈ tr, x.1.cycle = cycle ∧ ∃ reads blobs region,
    multiRead x.1 x.2 = some (reads, some blobs) ∧ (id, region, bytes) ∈ slices reads blobs

/-- A covered member has a slice. -/
theorem Covers.exists_slice {reads : List CoalescedRead} {blobs : List (List UInt8)}
    (h : Covers reads blobs) {id : WatchId} (hid : id ∈ memberIds reads) :
    ∃ region bytes, (id, region, bytes) ∈ slices reads blobs := by
  obtain ⟨r, hr, hidr⟩ := mem_memberIds.mp hid
  obtain ⟨m, hm, rfl⟩ := List.mem_map.mp hidr
  obtain ⟨i, hi, rfl⟩ := List.getElem_of_mem hr
  have hi' : i < blobs.length := Nat.lt_of_lt_of_le hi h.1
  have hzip : (reads[i], blobs[i]) ∈ reads.zip blobs := by
    have hlen : i < (reads.zip blobs).length := by simp; omega
    have := List.getElem_mem hlen
    rwa [List.getElem_zip] at this
  exact ⟨_, _, mem_slices.mpr ⟨_, hzip, m, hm, h.2 _ hzip m hm, rfl, rfl, rfl⟩⟩

-- ============================================================================
-- Fulfilled by data
-- ============================================================================

/-- The age counter shows `n` cycles, saturating. -/
def AgeIs (age : Option UInt32) (n : Nat) : Prop :=
  ∃ a, age = some a ∧ a.toNat = min n (2 ^ 32 - 1)

/-- A watch whose state was written in the cycle of the snapshot just published
    has age 0 there and bytes obtained in that cycle. -/
def FulfilledByData (tr : List (Engine × Event)) (s : Engine) : Prop :=
  ∀ l, s.phase = .published l → ∀ id st, s.readState.get id = some st →
    st.refreshCycle = s.cycle → s.current.watchAge id = some 0 ∧
      ∃ bytes, s.current.bytes id = some bytes ∧ ObtainedIn tr s.cycle id bytes

/-- The age of a registered watch is the distance of the snapshot's cycle from
    its refresh cycle; between cycles the snapshot's cycle is the engine's. -/
def AgesInStep (s : Engine) : Prop :=
  (∀ id st, s.registry.Registered id → s.readState.get id = some st →
    st.refreshCycle ≤ s.current.cycle →
      AgeIs (s.current.watchAge id) (s.current.cycle - st.refreshCycle)) ∧
  ((s.phase = .idle ∨ ∃ l, s.phase = .published l) → s.current.cycle = s.cycle ∧
    ∀ id st, s.readState.get id = some st → st.refreshCycle ≤ s.cycle)

theorem AgeIs.zero : AgeIs (some 0) 0 := ⟨0, rfl, rfl⟩

/-- A cycle later. -/
theorem AgeIs.succ {age : Option UInt32} {n : Nat} (h : AgeIs age n) :
    AgeIs (age.map fun v => U32.saturatingAdd v 1) (n + 1) := by
  obtain ⟨a, rfl, ha⟩ := h
  refine ⟨U32.saturatingAdd a 1, rfl, ?_⟩
  rw [U32.toNat_saturatingAdd, ha, UInt32.toNat_one]
  omega

/-- A truncated reply: the region of the watch has two bytes, one arrives. -/
def truncatedCycle : List Event :=
  [.script (.register (.wram 0x10 2) .normal 0), .beginCycle ⟨16, 10⟩, .readActive 0,
   .bulkPoll 2048 (some [[7]]), .endDrain 2048, .publish 5]

/-- The watch is marked as refreshed in the cycle, and the snapshot the cycle
    publishes does not have it. -/
theorem not_fulfilledByData :
    ¬ ∀ tr s, Run step .init tr s → FulfilledByData tr s ∧ AgesInStep s := by
  intro h
  have hdata := (h _ _ (run_final (by decide : (exec step .init truncatedCycle).isSome))).1
  have hage := (hdata [0] rfl 0 ⟨1, 1⟩ (by decide) (by decide)).1
  exact absurd hage (by decide)

-- ============================================================================
-- The two clocks
-- ============================================================================

theorem ObtainedIn.append {tr : List (Engine × Event)} {cycle : Nat} {id : WatchId}
    {bytes : List UInt8} (h : ObtainedIn tr cycle id bytes) (x : Engine × Event) :
    ObtainedIn (tr ++ [x]) cycle id bytes := by
  obtain ⟨y, hy, h⟩ := h
  exact ⟨y, List.mem_append_left _ hy, h⟩

/-- The entry of a cycle's builder for a watch with this state. -/
structure BuilderInStep (tr : List (Engine × Event)) (reg : WatchRegistry) (cycle : Nat)
    (b : SnapshotBuilder) (id : WatchId) (st : ReadState) : Prop where
  refreshLe : st.refreshCycle ≤ cycle
  age : reg.Registered id → AgeIs (b.ageCycles.get id) (cycle - st.refreshCycle)
  data : st.refreshCycle = cycle → b.ageCycles.get id = some 0 ∧
    ∃ bytes, b.data.get id = some bytes ∧ ObtainedIn tr cycle id bytes

/-- The age counters and the refresh cycles of a run with trace `tr`. -/
structure Clocks (tr : List (Engine × Event)) (s : Engine) : Prop where
  between : s.phase.inCycle = false → s.current.cycle = s.cycle
  inCycle : s.phase.inCycle = true → s.current.cycle + 1 = s.cycle
  early : s.phase.ctx? = none → ∀ id st, s.readState.get id = some st →
    st.refreshCycle ≤ s.current.cycle
  drawn : ∀ id st, s.readState.get id = some st → id < s.registry.nextId
  markers : ∀ c, s.phase.ctx? = some c → ∀ w ∈ c.watches,
    w.id < s.registry.nextId ∧ ∃ seq, c.requestSeq.get w.id = some seq
  started : ∀ cfg l, s.phase = .started cfg l → ∀ id st, s.readState.get id = some st →
    s.registry.Registered id → id ∈ l
  current : ∀ id st, s.readState.get id = some st → s.registry.Registered id →
    st.refreshCycle ≤ s.current.cycle →
      AgeIs (s.current.watchAge id) (s.current.cycle - st.refreshCycle)
  builder : ∀ c, s.phase.ctx? = some c → ∀ id st, s.readState.get id = some st →
    BuilderInStep tr s.registry s.cycle c.builder id st
  data : FulfilledByData tr s

theorem clocks_init : Clocks [] .init where
  between := fun _ => rfl
  inCycle := fun h => absurd h (by simp [Engine.init, Phase.inCycle])
  early := fun _ id st h => absurd h (by simp [Engine.init])
  drawn := fun id st h => absurd h (by simp [Engine.init])
  markers := Phase.no_ctx rfl
  started := fun cfg l h => absurd h (by simp [Engine.init])
  current := fun id st h => absurd h (by simp [Engine.init])
  builder := Phase.no_ctx rfl
  data := fun l h => absurd h (by simp [Engine.init])

theorem FulfilledByData.append {tr : List (Engine × Event)} {s : Engine}
    (h : FulfilledByData tr s) (x : Engine × Event) : FulfilledByData (tr ++ [x]) s := by
  intro l hl id st hst hr
  obtain ⟨hage, bytes, hb, hobt⟩ := h l hl id st hst hr
  exact ⟨hage, bytes, hb, hobt.append x⟩

/-- A builder entry while the registry and the trace move on. -/
theorem BuilderInStep.mono {tr : List (Engine × Event)} {reg reg' : WatchRegistry} {cycle : Nat}
    {b : SnapshotBuilder} {id : WatchId} {st : ReadState}
    (h : BuilderInStep tr reg cycle b id st) (hreg : reg'.Registered id → reg.Registered id)
    (x : Engine × Event) : BuilderInStep (tr ++ [x]) reg' cycle b id st where
  refreshLe := h.refreshLe
  age := fun hr => h.age (hreg hr)
  data := by
    intro hr
    obtain ⟨hage, bytes, hb, hobt⟩ := h.data hr
    exact ⟨hage, bytes, hb, hobt.append x⟩

/-- The builder of a new cycle: everything is one cycle older. -/
theorem builderInStep_takeActive {tr : List (Engine × Event)} {s : Engine} (h : Clocks tr s)
    {cfg : PollConfig} {liveIds : List WatchId} (hp : s.phase = .started cfg liveIds) (now : Nat)
    {id : WatchId} {st : ReadState} (hst : s.readState.get id = some st) :
    BuilderInStep tr s.registry s.cycle (s.takeActive cfg liveIds now).builder id st := by
  have hcycle := h.inCycle (by rw [hp]; rfl)
  have hle := h.early (by rw [hp]; rfl) id st hst
  refine ⟨by omega, ?_, fun heq => by omega⟩
  intro hreg
  have hage := (h.current id st hst hreg hle).succ
  have hlive := h.started cfg liveIds hp id st hst hreg
  have hn : s.current.cycle - st.refreshCycle + 1 = s.cycle - st.refreshCycle := by omega
  rw [hn] at hage
  simpa [Engine.takeActive, SnapshotBuilder.retainOnly, SnapshotBuilder.fromPrev, hlive,
    Snapshot.watchAge] using hage

/-- The builder after a reply that covers its reads. -/
theorem builderInStep_fetch {tr : List (Engine × Event)} {s : Engine} {e : Event}
    {ctx : CycleCtx} {reads : List CoalescedRead} {blobs : List (List UInt8)} (h : Clocks tr s)
    (hp : s.phase.ctx? = some ctx) (hfetch : multiRead s e = some (reads, some blobs))
    (hreads : ReadsOf ctx reads) (hcover : Covers reads blobs) {id : WatchId} {st : ReadState}
    (hst : (markFulfilled reads ctx.requestSeq s.cycle s.readState).get id = some st) :
    BuilderInStep (tr ++ [(s, e)]) s.registry s.cycle (ctx.arrived reads blobs).builder id st := by
  rw [CycleCtx.arrived]
  rcases entry_applyReads reads blobs ctx.builder id with ⟨region, bytes, hmem, heq⟩ | ⟨hnone, heq⟩
  · have hid := mem_memberIds_of_mem_slices hmem
    obtain ⟨w, hw, rfl⟩ := hreads.mem_watches hid
    obtain ⟨-, seq, hseq⟩ := h.markers ctx hp w hw
    rw [get_markFulfilled, if_pos hid, hseq] at hst
    obtain rfl := Option.some.inj hst
    simp only [SnapshotBuilder.entry, Prod.mk.injEq] at heq
    obtain ⟨hdata, -, hage⟩ := heq
    refine ⟨Nat.le_refl _, ?_, fun _ => ⟨hage, bytes, hdata, ?_⟩⟩
    · rw [hage, Nat.sub_self]
      exact fun _ => .zero
    · exact ⟨(s, e), by simp, rfl, reads, blobs, region, hfetch, hmem⟩
  · have hid : id ∉ memberIds reads := by
      intro hid
      obtain ⟨region, bytes, hmem⟩ := hcover.exists_slice hid
      exact hnone region bytes hmem
    rw [get_markFulfilled_of_not_mem hid] at hst
    simp only [SnapshotBuilder.entry, Prod.mk.injEq] at heq
    have hold := (h.builder ctx hp id st hst).mono (fun hr => hr) (s, e)
    refine ⟨hold.refreshLe, ?_, ?_⟩
    · rw [heq.2.2]; exact hold.age
    · rw [heq.2.2, heq.1]; exact hold.data

theorem clocks_step {tr : List (Engine × Event)} {s t : Engine} {e : Event} (h : Clocks tr s)
    (hcover : ReplyCovers s e) (hs : step s e = some t) : Clocks (tr ++ [(s, e)]) t := by
  have hmarkers : ∀ c, t.phase.ctx? = some c → ∀ w ∈ c.watches,
      w.id < t.registry.nextId ∧ ∃ seq, c.requestSeq.get w.id = some seq := by
    intro c hc w hw
    rcases ctx_of_step hs hc with ⟨c₀, builder, hc₀, rfl⟩ | ⟨cfg, liveIds, now, -, -, rfl⟩
    · obtain ⟨hlt, hseq⟩ := h.markers c₀ hc₀ w hw
      exact ⟨hlt.trans_le (nextId_le_step hs), hseq⟩
    · obtain ⟨⟨en, hen, -⟩, hseq⟩ := mem_watches_takeActive hw
      exact ⟨(WatchRegistry.find?_lt hen).trans_le (nextId_le_step hs), hseq⟩
  cases transition_of_step hs with
  | script op =>
      have hle := WatchRegistry.nextId_le_apply s.registry op
      have hreg : ∀ id st, s.readState.get id = some st →
          (s.registry.apply op).Registered id → s.registry.Registered id :=
        fun id st hst hr => WatchRegistry.registered_of_apply hr (h.drawn id st hst)
      exact ⟨h.between, h.inCycle, h.early, fun id st hst => (h.drawn id st hst).trans_le hle,
        hmarkers, fun cfg l hl id st hst hr => h.started cfg l hl id st hst (hreg id st hst hr),
        fun id st hst hr => h.current id st hst (hreg id st hst hr),
        fun c hc id st hst => (h.builder c hc id st hst).mono (hreg id st hst) _,
        h.data.append _⟩
  | begin cfg hp =>
      have hcycle := h.between (by rw [hp]; rfl)
      have hearly := h.early (by rw [hp]; rfl)
      refine ⟨fun hin => absurd hin (by simp [Engine.beginCycle, Phase.inCycle]),
        fun _ => congrArg (· + 1) hcycle, fun _ => hearly, h.drawn,
        Phase.no_ctx rfl, ?_, h.current,
        Phase.no_ctx rfl,
        fun l hl => absurd hl (by simp [Engine.beginCycle])⟩
      intro cfg' l hl id st hst hreg
      obtain ⟨-, rfl⟩ := Phase.started.inj hl
      exact WatchRegistry.mem_map_all hreg
  | active cfg liveIds now phase' hp hp' hdone =>
      have hin := Phase.inCycle_of_ctx? hp'
      refine ⟨fun hb => absurd hb (by simp [hin]), fun _ => h.inCycle (by rw [hp]; rfl),
        fun hn => absurd hn (by simp [hp']), h.drawn, hmarkers, ?_, h.current, ?_, ?_⟩
      · exact fun cfg' l hl => absurd hl (Phase.ne_started_of_ctx? hp' cfg' l)
      · intro c hc id st hst
        obtain rfl := Option.some.inj (hp'.symm.trans hc)
        exact (builderInStep_takeActive h hp now hst).mono (fun hr => hr) _
      · exact fun l hl => absurd hl (Phase.ne_published_of_ctx? hp' l)
  | fetchOk e ctx reads blobs phase' hp hfetch hreads hp' hdone =>
      have hin := Phase.inCycle_of_ctx? hp'
      have hcycle := h.inCycle (Phase.inCycle_of_ctx? hp)
      refine ⟨fun hb => absurd hb (by simp [hin]), fun _ => hcycle,
        fun hn => absurd hn (by simp [hp']), ?_, hmarkers, ?_, ?_, ?_, ?_⟩
      · intro id st hst
        rcases get_markFulfilled_cases hst with ⟨hmem, -, -⟩ | hst
        · obtain ⟨w, hw, rfl⟩ := hreads.mem_watches hmem
          exact (h.markers ctx hp w hw).1
        · exact h.drawn id st hst
      · exact fun cfg' l hl => absurd hl (Phase.ne_started_of_ctx? hp' cfg' l)
      · intro id st hst hreg hle
        rcases get_markFulfilled_cases hst with ⟨-, -, hr⟩ | hst
        · dsimp only at hle
          omega
        · exact h.current id st hst hreg hle
      · intro c hc id st hst
        obtain rfl := Option.some.inj (hp'.symm.trans hc)
        exact builderInStep_fetch h hp hfetch hreads (hcover _ hfetch blobs rfl) hst
      · exact fun l hl => absurd hl (Phase.ne_published_of_ctx? hp' l)
  | quiet e phase' hscript hfetch hphase =>
      rcases hphase with rfl | ⟨ctx, hp, hp', -⟩
      · exact ⟨h.between, h.inCycle, h.early, h.drawn, h.markers, h.started, h.current,
          fun c hc id st hst => (h.builder c hc id st hst).mono (fun hr => hr) _,
          h.data.append _⟩
      · have hin := Phase.inCycle_of_ctx? hp'
        refine ⟨fun hb => absurd hb (by simp [hin]),
          fun _ => h.inCycle (Phase.inCycle_of_ctx? hp), fun hn => absurd hn (by simp [hp']),
          h.drawn, hmarkers, ?_, h.current, ?_, ?_⟩
        · exact fun cfg' l hl => absurd hl (Phase.ne_started_of_ctx? hp' cfg' l)
        · intro c hc id st hst
          obtain rfl := Option.some.inj (hp'.symm.trans hc)
          exact (h.builder ctx hp id st hst).mono (fun hr => hr) _
        · exact fun l hl => absurd hl (Phase.ne_published_of_ctx? hp' l)
  | publish ctx rttMs hp =>
      have hbuilder := h.builder ctx (by rw [hp]; rfl)
      refine ⟨fun _ => rfl, fun hin => absurd hin (by simp [Phase.inCycle]),
        fun _ id st hst => (hbuilder id st hst).refreshLe, h.drawn,
        Phase.no_ctx rfl, fun cfg l hl => absurd hl (by simp),
        fun id st hst hreg _ => (hbuilder id st hst).age hreg,
        Phase.no_ctx rfl, ?_⟩
      intro l _ id st hst hr
      obtain ⟨hage, bytes, hb, hobt⟩ := (hbuilder id st hst).data hr
      exact ⟨hage, bytes, hb, hobt.append _⟩
  | collect liveIds hp =>
      exact ⟨fun _ => h.between (by rw [hp]; rfl), fun hin => absurd hin (by simp [Phase.inCycle]),
        fun _ id st hst => h.early (by rw [hp]; rfl) id st (get_of_get_collect hst),
        fun id st hst => h.drawn id st (get_of_get_collect hst),
        Phase.no_ctx rfl, fun cfg l hl => absurd hl (by simp),
        fun id st hst => h.current id st (get_of_get_collect hst),
        Phase.no_ctx rfl, fun l hl => absurd hl (by simp)⟩

theorem clocks_run {tr : List (Engine × Event)} {s : Engine} (hrun : Run step .init tr s)
    (hcover : ∀ x ∈ tr, ReplyCovers x.1 x.2) : Clocks tr s := by
  refine hrun.trace_invariant (I := fun tr s => (∀ x ∈ tr, ReplyCovers x.1 x.2) → Clocks tr s)
    ?_ (fun _ => clocks_init) hcover
  intro tr u e v _ ih hs hcover
  have hu := ih fun x hx => hcover x (List.mem_append_left _ hx)
  exact clocks_step hu (hcover (u, e) (by simp)) hs

/-- **Fulfilled by data that arrived.**  In a run whose `Ok` replies all cover
    their reads, a watch marked in a cycle is in the snapshot of the cycle, at age
    0 and with bytes of the cycle, and the age of a registered watch is the
    distance of the snapshot from its last refresh. -/
theorem fulfilledByData_of_covers {tr : List (Engine × Event)} {s : Engine}
    (hrun : Run step .init tr s) (hcover : ∀ x ∈ tr, ReplyCovers x.1 x.2) :
    FulfilledByData tr s ∧ AgesInStep s := by
  have h := clocks_run hrun hcover
  refine ⟨h.data, fun id st hreg hst => h.current id st hst hreg, ?_⟩
  intro hphase
  have hout : s.phase.inCycle = false ∧ s.phase.ctx? = none := by
    rcases hphase with hp | ⟨l, hp⟩ <;> rw [hp] <;> exact ⟨rfl, rfl⟩
  have hcycle := h.between hout.1
  exact ⟨hcycle, fun id st hst => hcycle ▸ h.early hout.2 id st hst⟩

/-- One cycle whose reply covers the two neighbouring watches. -/
theorem fulfilledByData_merged : FulfilledByData (trace step .init (mergedCycle ++ [.publish 5]))
    (final step .init (mergedCycle ++ [.publish 5])) :=
  (fulfilledByData_of_covers (run_final (by decide)) (by decide)).1

end Cache
end SniLua
