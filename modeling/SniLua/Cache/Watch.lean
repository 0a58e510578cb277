/-
  SniLua.Cache.Watch

  Watch registry: scripts declare regions of interest, the poll engine reads the
  registry at the start of each cycle.

  Every operation that counts as a request of the script draws the next request
  marker; `touch`, `pin` and `upgradePriority` are one function `request` with
  the change each makes to the entry.  `next_id` and `next_request` are `u64`
  counters that only ever count up from 0: no process lives to wrap them, so
  ids, markers and cycles are `Nat`.  Instants are `Nat` too.

  The registry carries its own well-formedness: an entry is filed under the id
  of its handle, ids and markers were drawn from the counters.
-/

import SniLua.Client.MemRegion
import Mathlib.Order.Basic
import Mathlib.Data.Nat.Basic
import Mathlib.Order.Lattice
import Std.Data.TreeMap.Lemmas

namespace SniLua
namespace Cache

abbrev WatchId := Nat

-- ============================================================================
-- Priorities and handles
-- ============================================================================

/-- How often a watch is refreshed relative to others, most urgent first. -/
inductive WatchPriority where
  | realtime | high | normal | low
deriving DecidableEq, Repr

namespace WatchPriority

/-- The position in the order of declaration: what `#[derive(Ord)]` compares. -/
def rank : WatchPriority → Nat
  | realtime => 0
  | high => 1
  | normal => 2
  | low => 3

theorem rank_injective : Function.Injective rank := by
  intro p q h
  cases p <;> cases q <;> first | rfl | exact absurd h (by decide)

instance : LinearOrder WatchPriority := LinearOrder.lift' rank rank_injective

/-- Realtime is served by a separate, tight sub-poll. -/
def isRealtime (p : WatchPriority) : Bool := p == realtime

/-- The name of a priority in a script; letter case does not matter. -/
def parse (s : String) : WatchPriority :=
  match s.map Char.toLower with
  | "realtime" | "input" => realtime
  | "high" => high
  | "low" | "prefetch" => low
  | _ => normal

end WatchPriority

structure WatchHandle where
  id : WatchId
  region : MemRegion
  priority : WatchPriority
deriving DecidableEq, Repr

/-- Registry entry: the handle plus the demand tracking state. -/
structure WatchEntry where
  handle : WatchHandle
  /-- Last time a script requested the value. -/
  lastTouch : Nat
  /-- Monotonic request marker. -/
  requestSeq : Nat
  /-- Declared watches are never demand-evicted. -/
  pinned : Bool
deriving DecidableEq, Repr

-- ============================================================================
-- The registry
-- ============================================================================

/-- An entry is filed under its own id, and its id and marker have been drawn. -/
def EntriesOk (nextId nextRequest : Nat) (inner : Std.TreeMap WatchId WatchEntry) : Prop :=
  ∀ id e, inner[id]? = some e → e.handle.id = id ∧ id < nextId ∧ e.requestSeq ≤ nextRequest

structure WatchRegistry where
  nextId : Nat
  nextRequest : Nat
  inner : Std.TreeMap WatchId WatchEntry
  ok : EntriesOk nextId nextRequest inner

namespace WatchRegistry

theorem entriesOk_modify {nextId nextRequest : Nat} {inner : Std.TreeMap WatchId WatchEntry}
    (h : EntriesOk nextId nextRequest inner) (id : WatchId) (f : WatchEntry → WatchEntry)
    (hid : ∀ e, (f e).handle.id = e.handle.id) (hseq : ∀ e, (f e).requestSeq ≤ nextRequest + 1) :
    EntriesOk nextId (nextRequest + 1) (inner.modify id f) := by
  intro id' e he
  rw [Std.TreeMap.getElem?_modify] at he
  split at he
  · rename_i hc
    obtain rfl := Std.LawfulEqCmp.eq_of_compare hc
    obtain ⟨e₀, he₀, rfl⟩ := Option.map_eq_some_iff.mp he
    obtain ⟨h₁, h₂, -⟩ := h _ _ he₀
    exact ⟨by rw [hid, h₁], h₂, hseq e₀⟩
  · obtain ⟨h₁, h₂, h₃⟩ := h _ _ he
    exact ⟨h₁, h₂, Nat.le_succ_of_le h₃⟩

/-- `WatchRegistry::new`. -/
def new : WatchRegistry where
  nextId := 0
  nextRequest := 0
  inner := ∅
  ok := by
    intro id e h
    simp at h

/-- Register a region: a fresh id, a fresh marker, not pinned. -/
def register (reg : WatchRegistry) (region : MemRegion) (priority : WatchPriority) (now : Nat) :
    WatchHandle × WatchRegistry :=
  let id := reg.nextId
  let handle : WatchHandle := { id, region, priority }
  (handle,
    { nextId := reg.nextId + 1
      nextRequest := reg.nextRequest + 1
      inner := reg.inner.insert id
        { handle, lastTouch := now, requestSeq := reg.nextRequest + 1, pinned := false }
      ok := by
        intro id' e he
        rw [Std.TreeMap.getElem?_insert] at he
        split at he
        · rename_i hc
          obtain rfl := Std.LawfulEqCmp.eq_of_compare hc
          obtain rfl := Option.some.inj he
          exact ⟨rfl, Nat.lt_succ_self _, Nat.le_refl _⟩
        · obtain ⟨h₁, h₂, h₃⟩ := reg.ok _ _ he
          exact ⟨h₁, Nat.lt_succ_of_lt h₂, Nat.le_succ_of_le h₃⟩ })

/-- A request of the script for a watch: the next marker is drawn in any case,
    and a registered watch takes it, together with the change `f` makes to its
    priority and pinning. -/
def request (reg : WatchRegistry) (id : WatchId) (now : Nat)
    (f : WatchPriority × Bool → WatchPriority × Bool) : WatchRegistry where
  nextId := reg.nextId
  nextRequest := reg.nextRequest + 1
  inner := reg.inner.modify id fun e =>
    let (priority, pinned) := f (e.handle.priority, e.pinned)
    { handle := { e.handle with priority }
      lastTouch := now
      requestSeq := reg.nextRequest + 1
      pinned }
  ok := entriesOk_modify reg.ok id _ (fun _ => rfl) (fun _ => Nat.le_refl _)

/-- Mark a watch as requested by the script now. -/
def touch (reg : WatchRegistry) (id : WatchId) (now : Nat) : WatchRegistry :=
  reg.request id now fun (priority, pinned) => (priority, pinned)

/-- Pin a watch so it stays active regardless of demand. -/
def pin (reg : WatchRegistry) (id : WatchId) (now : Nat) : WatchRegistry :=
  reg.request id now fun (priority, _) => (priority, true)

/-- Raise a watch to at least `priority` (never downgrades) and pin it. -/
def upgradePriority (reg : WatchRegistry) (id : WatchId) (priority : WatchPriority) (now : Nat) :
    WatchRegistry :=
  reg.request id now fun (cur, _) => (if priority < cur then priority else cur, true)

def unregister (reg : WatchRegistry) (id : WatchId) : WatchRegistry where
  nextId := reg.nextId
  nextRequest := reg.nextRequest
  inner := reg.inner.erase id
  ok := by
    intro id' e he
    rw [Std.TreeMap.getElem?_erase] at he
    split at he
    · exact absurd he (by simp)
    · exact reg.ok _ _ he

def clear (reg : WatchRegistry) : WatchRegistry where
  nextId := reg.nextId
  nextRequest := reg.nextRequest
  inner := ∅
  ok := by
    intro id e h
    simp at h

/-- The entries in id order. -/
def entries (reg : WatchRegistry) : List WatchEntry := reg.inner.toList.map (·.2)

/-- All watches, ordered by id. -/
def all (reg : WatchRegistry) : List WatchHandle := reg.entries.map (·.handle)

/-- The watches to poll now (pinned, or requested within `window`), with their
    latest request markers.  `Instant::duration_since` saturates at zero. -/
def activeWithRequests (reg : WatchRegistry) (window now : Nat) : List (WatchHandle × Nat) :=
  (reg.entries.filter fun e => e.pinned || now - e.lastTouch < window).map
    fun e => (e.handle, e.requestSeq)

-- ============================================================================
-- Lookups
-- ============================================================================

/-- The entry registered under an id. -/
def find? (reg : WatchRegistry) (id : WatchId) : Option WatchEntry := reg.inner[id]?

theorem find?_id {reg : WatchRegistry} {id : WatchId} {e : WatchEntry}
    (h : reg.find? id = some e) : e.handle.id = id := (reg.ok _ _ h).1

theorem find?_lt {reg : WatchRegistry} {id : WatchId} {e : WatchEntry}
    (h : reg.find? id = some e) : id < reg.nextId := (reg.ok _ _ h).2.1

theorem find?_requestSeq_le {reg : WatchRegistry} {id : WatchId} {e : WatchEntry}
    (h : reg.find? id = some e) : e.requestSeq ≤ reg.nextRequest := (reg.ok _ _ h).2.2

@[simp] theorem find?_new (id : WatchId) : new.find? id = none := by
  simp [new, find?]

theorem find?_register (reg : WatchRegistry) (region : MemRegion) (priority : WatchPriority)
    (now : Nat) (id : WatchId) :
    (reg.register region priority now).2.find? id =
      if id = reg.nextId then
        some ⟨⟨reg.nextId, region, priority⟩, now, reg.nextRequest + 1, false⟩
      else reg.find? id := by
  simp only [register, find?, Std.TreeMap.getElem?_insert, Std.compare_eq_iff_eq]
  by_cases h : id = reg.nextId
  · rw [if_pos h.symm, if_pos h]
  · rw [if_neg (Ne.symm h), if_neg h]

theorem find?_request (reg : WatchRegistry) (id : WatchId) (now : Nat)
    (f : WatchPriority × Bool → WatchPriority × Bool) (id' : WatchId) :
    (reg.request id now f).find? id' =
      if id' = id then
        (reg.find? id).map fun e =>
          ⟨{ e.handle with priority := (f (e.handle.priority, e.pinned)).1 }, now,
            reg.nextRequest + 1, (f (e.handle.priority, e.pinned)).2⟩
      else reg.find? id' := by
  simp only [request, find?, Std.TreeMap.getElem?_modify, Std.compare_eq_iff_eq]
  by_cases h : id' = id
  · rw [if_pos h.symm, if_pos h]
  · rw [if_neg (Ne.symm h), if_neg h]

theorem find?_unregister (reg : WatchRegistry) (id id' : WatchId) :
    (reg.unregister id).find? id' = if id' = id then none else reg.find? id' := by
  simp only [unregister, find?, Std.TreeMap.getElem?_erase, Std.compare_eq_iff_eq]
  by_cases h : id' = id
  · rw [if_pos h.symm, if_pos h]
  · rw [if_neg (Ne.symm h), if_neg h]

@[simp] theorem find?_clear (reg : WatchRegistry) (id : WatchId) : reg.clear.find? id = none := by
  simp [clear, find?]

theorem mem_entries {reg : WatchRegistry} {e : WatchEntry} :
    e ∈ reg.entries ↔ reg.find? e.handle.id = some e := by
  rw [entries, find?]
  constructor
  · intro h
    obtain ⟨⟨id, e'⟩, hmem, rfl⟩ := List.mem_map.mp h
    have hget := Std.TreeMap.mem_toList_iff_getElem?_eq_some.mp hmem
    rw [(reg.ok _ _ hget).1]
    exact hget
  · intro h
    have hmem := Std.TreeMap.mem_toList_iff_getElem?_eq_some.mpr h
    exact List.mem_map.mpr ⟨(e.handle.id, e), hmem, rfl⟩

/-- The ids of the entries are distinct. -/
theorem nodup_entries (reg : WatchRegistry) : (reg.entries.map (·.handle.id)).Nodup := by
  have hkeys : reg.entries.map (·.handle.id) = reg.inner.toList.map (·.1) := by
    rw [entries]
    rw [List.map_map]
    apply List.map_congr_left
    rintro ⟨id, e⟩ hmem
    exact (reg.ok _ _ (Std.TreeMap.mem_toList_iff_getElem?_eq_some.mp hmem)).1
  rw [hkeys]
  refine List.pairwise_map.mpr (reg.inner.distinct_keys_toList.imp ?_)
  intro a b hne heq
  exact hne (by rw [heq]; exact Std.ReflCmp.compare_self)

theorem mem_all {reg : WatchRegistry} {w : WatchHandle} :
    w ∈ reg.all ↔ ∃ e, reg.find? w.id = some e ∧ e.handle = w := by
  rw [all]
  constructor
  · intro h
    obtain ⟨e, he, rfl⟩ := List.mem_map.mp h
    exact ⟨e, mem_entries.mp he, rfl⟩
  · rintro ⟨e, he, rfl⟩
    exact List.mem_map.mpr ⟨e, mem_entries.mpr he, rfl⟩

theorem mem_activeWithRequests {reg : WatchRegistry} {window now : Nat} {w : WatchHandle}
    {seq : Nat} (h : (w, seq) ∈ reg.activeWithRequests window now) :
    ∃ e, reg.find? w.id = some e ∧ e.handle = w ∧ e.requestSeq = seq := by
  rw [activeWithRequests] at h
  obtain ⟨e, he, heq⟩ := List.mem_map.mp h
  obtain ⟨rfl, rfl⟩ := Prod.mk.inj heq
  exact ⟨e, mem_entries.mp (List.mem_filter.mp he).1, rfl, rfl⟩

end WatchRegistry

-- ============================================================================
-- Registry calls of the script thread
-- ============================================================================

/-- A call of the script thread. -/
inductive RegistryOp where
  | register (region : MemRegion) (priority : WatchPriority) (now : Nat)
  | touch (id : WatchId) (now : Nat)
  | pin (id : WatchId) (now : Nat)
  | upgradePriority (id : WatchId) (priority : WatchPriority) (now : Nat)
  | unregister (id : WatchId)
  | clear
deriving DecidableEq, Repr

def WatchRegistry.apply (reg : WatchRegistry) : RegistryOp → WatchRegistry
  | .register region priority now => (reg.register region priority now).2
  | .touch id now => reg.touch id now
  | .pin id now => reg.pin id now
  | .upgradePriority id priority now => reg.upgradePriority id priority now
  | .unregister id => reg.unregister id
  | .clear => reg.clear

/-- The watch a call registers or requests, in a registry with this `next_id`. -/
def RegistryOp.requested (nextId : Nat) : RegistryOp → Option WatchId
  | .register .. => some nextId
  | .touch id _ | .pin id _ | .upgradePriority id _ _ => some id
  | .unregister _ | .clear => none

/-- The region a call registers. -/
def RegistryOp.registers : RegistryOp → Option MemRegion
  | .register region _ _ => some region
  | _ => none

namespace WatchRegistry

/-- An entry after a call was registered by the call, or it was there before,
    with the same region and a marker that did not go down. -/
theorem find?_apply {reg : WatchRegistry} {op : RegistryOp} {id : WatchId} {e : WatchEntry}
    (h : (reg.apply op).find? id = some e) :
    (op.registers = some e.handle.region ∧ id = reg.nextId ∧ e.requestSeq = reg.nextRequest + 1) ∨
    ∃ e₀, reg.find? id = some e₀ ∧ e.handle.region = e₀.handle.region ∧
      e₀.requestSeq ≤ e.requestSeq := by
  have hrequest : ∀ id' now f, (reg.request id' now f).find? id = some e →
      ∃ e₀, reg.find? id = some e₀ ∧ e.handle.region = e₀.handle.region ∧
        e₀.requestSeq ≤ e.requestSeq := by
    intro id' now f h
    rw [find?_request] at h
    split at h
    · rename_i hid
      subst hid
      obtain ⟨e₀, he₀, rfl⟩ := Option.map_eq_some_iff.mp h
      exact ⟨e₀, he₀, rfl, Nat.le_succ_of_le (find?_requestSeq_le he₀)⟩
    · exact ⟨e, h, rfl, Nat.le_refl _⟩
  cases op with
  | register region priority now =>
      simp only [apply, find?_register] at h
      split at h
      · rename_i hid
        obtain rfl := Option.some.inj h
        exact Or.inl ⟨rfl, hid, rfl⟩
      · exact Or.inr ⟨e, h, rfl, Nat.le_refl _⟩
  | touch id' now => exact Or.inr (hrequest _ _ _ h)
  | pin id' now => exact Or.inr (hrequest _ _ _ h)
  | upgradePriority id' priority now => exact Or.inr (hrequest _ _ _ h)
  | unregister id' =>
      simp only [apply, find?_unregister] at h
      split at h
      · exact absurd h (by simp)
      · exact Or.inr ⟨e, h, rfl, Nat.le_refl _⟩
  | clear => exact absurd h (by simp [apply])

/-- `next_id` counts the registrations. -/
theorem nextId_apply (reg : WatchRegistry) (op : RegistryOp) :
    (reg.apply op).nextId = reg.nextId + op.registers.toList.length := by
  cases op <;> rfl

theorem nextId_le_apply (reg : WatchRegistry) (op : RegistryOp) :
    reg.nextId ≤ (reg.apply op).nextId := by
  rw [nextId_apply]
  exact Nat.le_add_right ..

theorem nextRequest_le_apply (reg : WatchRegistry) (op : RegistryOp) :
    reg.nextRequest ≤ (reg.apply op).nextRequest := by
  cases op <;> simp [apply, register, touch, pin, upgradePriority, request, unregister, clear]

/-- A call that requests a registered watch leaves it with the newest marker. -/
theorem requestSeq_of_requested {reg : WatchRegistry} {op : RegistryOp} {id : WatchId}
    {e : WatchEntry} (hop : op.requested reg.nextId = some id)
    (h : (reg.apply op).find? id = some e) : e.requestSeq = reg.nextRequest + 1 := by
  have hrequest : ∀ now f, (reg.request id now f).find? id = some e →
      e.requestSeq = reg.nextRequest + 1 := by
    intro now f h
    rw [find?_request, if_pos rfl] at h
    obtain ⟨e₀, -, rfl⟩ := Option.map_eq_some_iff.mp h
    rfl
  cases op with
  | register region priority now =>
      obtain rfl := Option.some.inj hop
      simp only [apply, find?_register, if_true] at h
      obtain rfl := Option.some.inj h
      rfl
  | touch id' now => obtain rfl := Option.some.inj hop; exact hrequest _ _ h
  | pin id' now => obtain rfl := Option.some.inj hop; exact hrequest _ _ h
  | upgradePriority id' priority now => obtain rfl := Option.some.inj hop; exact hrequest _ _ h
  | unregister id' => exact absurd hop (by simp [RegistryOp.requested])
  | clear => exact absurd hop (by simp [RegistryOp.requested])

/-- The watch is registered. -/
def Registered (reg : WatchRegistry) (id : WatchId) : Prop := (reg.find? id).isSome

instance (reg : WatchRegistry) (id : WatchId) : Decidable (reg.Registered id) :=
  inferInstanceAs (Decidable (_ = true))

/-- A registered id that was already drawn was registered before the call. -/
theorem registered_of_apply {reg : WatchRegistry} {op : RegistryOp} {id : WatchId}
    (h : (reg.apply op).Registered id) (hlt : id < reg.nextId) : reg.Registered id := by
  obtain ⟨en, hen⟩ := Option.isSome_iff_exists.mp h
  rcases find?_apply hen with ⟨-, hid, -⟩ | ⟨en₀, hen₀, -, -⟩
  · exact absurd hid (Nat.ne_of_lt hlt)
  · exact Option.isSome_iff_exists.mpr ⟨en₀, hen₀⟩

theorem mem_map_all {reg : WatchRegistry} {id : WatchId} (h : reg.Registered id) :
    id ∈ reg.all.map (·.id) := by
  obtain ⟨en, hen⟩ := Option.isSome_iff_exists.mp h
  have hid := find?_id hen
  exact List.mem_map.mpr ⟨en.handle, mem_all.mpr ⟨en, by rw [hid]; exact hen, rfl⟩, hid⟩

theorem registered_of_mem_all {reg : WatchRegistry} {id : WatchId}
    (h : id ∈ reg.all.map (·.id)) : reg.Registered id := by
  obtain ⟨w, hw, rfl⟩ := List.mem_map.mp h
  obtain ⟨en, hen, -⟩ := mem_all.mp hw
  exact Option.isSome_iff_exists.mpr ⟨en, hen⟩

end WatchRegistry

end Cache
end SniLua
