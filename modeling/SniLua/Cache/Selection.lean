/-
  SniLua.Cache.Selection

  The contract of `select_bulk`.  When no refresh lies after the current cycle,
  the stalest read is the one whose oldest member was refreshed first, and the
  greedy fill is the abstract one of the budget, with one exception: a first read
  larger than the budget is the whole selection.
-/

import SniLua.Lib.Checked
import SniLua.Lib.FirstFit
import SniLua.Cache.Select

namespace SniLua
namespace Cache

open Lib

-- ============================================================================
-- The order of the selection
-- ============================================================================

/-- Oldest member refresh, then most urgent priority, then lowest address. -/
def InOrder (rs : ReadStates) (a b : CoalescedRead) : Prop :=
  oldestRefresh rs a < oldestRefresh rs b ∨
  (oldestRefresh rs a = oldestRefresh rs b ∧
    (a.priority < b.priority ∨
      (a.priority = b.priority ∧ a.region.address ≤ b.region.address)))

instance (rs : ReadStates) (a b : CoalescedRead) : Decidable (InOrder rs a b) := by
  unfold InOrder
  infer_instance

theorem oldestRefresh_le_cycle {rs : ReadStates} {cycle : Nat}
    (hle : ∀ id, rs.refreshCycle id ≤ cycle) (r : CoalescedRead) :
    oldestRefresh rs r ≤ cycle := by
  cases h : r.members with
  | nil =>
      rw [oldestRefresh, h]
      exact Nat.zero_le _
  | cons m ms =>
      have hm : m ∈ r.members := by
        rw [h]
        exact List.mem_cons_self ..
      exact (oldestRefresh_le rs hm).trans (hle m.id)

/-- The comparator sorts by the age of the oldest member. -/
theorem inOrder_of_bulkLe {rs : ReadStates} {cycle : Nat} {a b : CoalescedRead}
    (hle : ∀ id, rs.refreshCycle id ≤ cycle) (h : bulkLe rs cycle a b) : InOrder rs a b := by
  have ha := oldestRefresh_le_cycle hle a
  have hb := oldestRefresh_le_cycle hle b
  rw [bulkLe_iff] at h
  unfold staleness at h
  rcases h with hstale | ⟨hstale, hprio | ⟨hprio, haddr⟩⟩
  · exact Or.inl (by omega)
  · exact Or.inr ⟨by omega, Or.inl hprio⟩
  · exact Or.inr ⟨by omega, Or.inr ⟨WatchPriority.rank_injective hprio,
      UInt32.le_iff_toNat_le.mpr haddr⟩⟩

-- ============================================================================
-- The greedy fill
-- ============================================================================

/-- The size of a read, as the weight of the fill. -/
def CoalescedRead.bytes (r : CoalescedRead) : Nat := r.region.size.toNat

/-- The bytes a batch requests. -/
def batchBytes (reads : List CoalescedRead) : Nat := FirstFit.total CoalescedRead.bytes reads

/-- After the first read the loop is the abstract fill. -/
theorem greedyFill_eq_fill (remaining : UInt32) (reads : List CoalescedRead) :
    (greedyFill remaining false reads).1 =
      FirstFit.admitted (FirstFit.fill CoalescedRead.bytes remaining.toNat reads) := by
  induction reads generalizing remaining with
  | nil => rfl
  | cons r rs ih =>
      by_cases hfits : r.region.size ≤ remaining
      · have hle : r.bytes ≤ remaining.toNat := UInt32.le_iff_toNat_le.mp hfits
        have hsub : (remaining - r.region.size).toNat = remaining.toNat - r.bytes :=
          U32.toNat_sub_of_le hle
        rw [FirstFit.fill, if_pos hle, FirstFit.admitted, ← hsub, ← ih]
        simp [greedyFill, hfits]
      · have hlt : ¬ r.bytes ≤ remaining.toNat := UInt32.le_iff_toNat_le.not.mp hfits
        rw [FirstFit.fill, if_neg hlt, FirstFit.admitted, ← ih]
        simp [greedyFill, hfits]

/-- The whole fill: the abstract one, or a first read over the budget. -/
theorem greedyFill_cases (budget : UInt32) (reads : List CoalescedRead) :
    (greedyFill budget true reads).1 =
        FirstFit.admitted (FirstFit.fill CoalescedRead.bytes budget.toNat reads) ∨
      ∃ r, (greedyFill budget true reads).1 = [r] ∧ budget < r.region.size := by
  cases reads with
  | nil => exact Or.inl rfl
  | cons r rs =>
      by_cases hfits : r.region.size ≤ budget
      · refine Or.inl ?_
        rw [← greedyFill_eq_fill]
        simp [greedyFill, hfits]
      · refine Or.inr ⟨r, ?_, UInt32.not_le.mp hfits⟩
        simp [greedyFill, hfits]

-- ============================================================================
-- The contract
-- ============================================================================

/-- The selection fits the budget, or is a single read that is larger. -/
theorem batchBytes_selectBulk (reads : List CoalescedRead) (budget : UInt32) (rs : ReadStates)
    (cycle : Nat) :
    batchBytes (selectBulk reads budget rs cycle).reads ≤ budget.toNat ∨
      ∃ r, (selectBulk reads budget rs cycle).reads = [r] ∧ budget < r.region.size := by
  rw [selectBulk]
  rcases greedyFill_cases budget (reads.insertionSort fun a b => bulkLe rs cycle a b) with h | h
  · refine Or.inl ?_
    show batchBytes (greedyFill budget true _).1 ≤ budget.toNat
    rw [h]
    exact FirstFit.total_admitted_fill _ _
  · exact Or.inr h

theorem batchBytes_selectBulk_lt (reads : List CoalescedRead) (budget : UInt32) (rs : ReadStates)
    (cycle : Nat) : batchBytes (selectBulk reads budget rs cycle).reads < 2 ^ 32 := by
  rcases batchBytes_selectBulk reads budget rs cycle with h | ⟨r, h, -⟩
  · exact Nat.lt_of_le_of_lt h budget.toNat_lt
  · rw [h, batchBytes, FirstFit.total_cons, FirstFit.total_nil]
    exact r.region.size.toNat_lt

/-- The `u32` sum of the drain loop. -/
def sumBytes (reads : List CoalescedRead) : UInt32 :=
  reads.foldl (fun sum r => sum + r.region.size) 0

/-- The same in a build with overflow checks. -/
def Checked.sumBytes (reads : List CoalescedRead) : Option UInt32 :=
  reads.foldlM (fun sum r => checkedAdd sum r.region.size) 0

/-- As long as the exact sum is a `u32`, adding up neither wraps nor stops. -/
theorem foldl_add_size (reads : List CoalescedRead) (acc : UInt32)
    (h : acc.toNat + batchBytes reads < 2 ^ 32) :
    reads.foldlM (fun sum r => checkedAdd sum r.region.size) acc =
        some (reads.foldl (fun sum r => sum + r.region.size) acc) ∧
      (reads.foldl (fun sum r => sum + r.region.size) acc).toNat =
        acc.toNat + batchBytes reads := by
  induction reads generalizing acc with
  | nil => exact ⟨rfl, rfl⟩
  | cons r rs ih =>
      rw [batchBytes, FirstFit.total_cons] at h ⊢
      have hacc : acc.toNat + r.region.size.toNat < 2 ^ 32 := by
        show acc.toNat + r.bytes < 2 ^ 32
        omega
      have hadd : (acc + r.region.size).toNat = acc.toNat + r.bytes := U32.toNat_add_of_lt hacc
      obtain ⟨hchecked, hsum⟩ := ih (acc + r.region.size) (by rw [hadd, batchBytes]; omega)
      rw [List.foldlM_cons, checkedAdd_of_lt hacc, List.foldl_cons]
      refine ⟨hchecked, ?_⟩
      rw [hsum, hadd, batchBytes]
      omega

theorem checked_sumBytes_eq {reads : List CoalescedRead} (h : batchBytes reads < 2 ^ 32) :
    Checked.sumBytes reads = some (sumBytes reads) :=
  (foldl_add_size reads 0 (by simpa using h)).1

theorem toNat_sumBytes {reads : List CoalescedRead} (h : batchBytes reads < 2 ^ 32) :
    (sumBytes reads).toNat = batchBytes reads := by
  have hsum := (foldl_add_size reads 0 (by simpa using h)).2
  rw [sumBytes, hsum, UInt32.toNat_zero, Nat.zero_add]

/-- **The contract of `select_bulk`.**  The selection is part of the input; it
    contains a read that is first in the order, so it is empty only for an empty
    input; its bytes are within the budget, or it is one read larger than the
    budget, and their `u32` sum does not overflow.  In the sorted input a read that
    is left out does not fit next to the selected ones before it, unless the
    selection is that one larger read. -/
theorem select_bulk_contract {rs : ReadStates} {cycle : Nat}
    (hle : ∀ id, rs.refreshCycle id ≤ cycle) (reads : List CoalescedRead) (budget : UInt32) :
    let selected := (selectBulk reads budget rs cycle).reads
    selected.Subperm reads ∧
    (reads ≠ [] → ∃ h ∈ selected, ∀ r ∈ reads, InOrder rs h r) ∧
    (batchBytes selected ≤ budget.toNat ∨ ∃ r, selected = [r] ∧ budget < r.region.size) ∧
    (∃ sum, Checked.sumBytes selected = some sum ∧ sum.toNat = batchBytes selected) ∧
    ((∃ r, selected = [r] ∧ budget < r.region.size) ∨
      ∃ marked : List (CoalescedRead × Bool), (marked.map (·.1)).Perm reads ∧
        (marked.map (·.1)).Pairwise (InOrder rs) ∧ selected = FirstFit.admitted marked ∧
        ∀ pre r post, marked = pre ++ (r, false) :: post →
          budget.toNat < batchBytes (FirstFit.admitted pre) + r.region.size.toNat) := by
  have hperm := List.perm_insertionSort (fun a b => bulkLe rs cycle a b = true) reads
  have hsort := List.pairwise_insertionSort (fun a b => bulkLe rs cycle a b = true) reads
  have hlt := batchBytes_selectBulk_lt reads budget rs cycle
  refine ⟨selectBulk_subperm reads budget rs cycle, ?_, batchBytes_selectBulk reads budget rs cycle,
    ⟨_, checked_sumBytes_eq hlt, toNat_sumBytes hlt⟩, ?_⟩
  · intro hne
    obtain ⟨h, hsel, -, hfirst⟩ := exists_head_selectBulk hne budget rs cycle
    exact ⟨h, hsel, fun r hr => inOrder_of_bulkLe hle (hfirst r hr)⟩
  · rcases greedyFill_cases budget (reads.insertionSort fun a b => bulkLe rs cycle a b)
      with hfill | hlarge
    · refine Or.inr ⟨FirstFit.fill CoalescedRead.bytes budget.toNat
        (reads.insertionSort fun a b => bulkLe rs cycle a b), ?_, ?_, hfill, ?_⟩
      · rw [FirstFit.map_fst_fill]
        exact hperm
      · rw [FirstFit.map_fst_fill]
        exact hsort.imp (inOrder_of_bulkLe hle)
      · exact fun pre r post h => FirstFit.left_out h
    · exact Or.inl hlarge

/-- Three reads for a budget of 8 bytes: the middle one is left out. -/
def threeReads : List CoalescedRead :=
  [⟨.fxpak 0x300 6, [⟨2, 0, 6⟩], .low⟩, ⟨.fxpak 0x200 7, [⟨1, 0, 7⟩], .high⟩,
    ⟨.fxpak 0x100 2, [⟨0, 0, 2⟩], .low⟩]

/-- The refresh cycles 3, 2 and 1 for the watches 0, 1 and 2. -/
def threeStates : ReadStates := .ofList [(0, ⟨1, 3⟩), (1, ⟨1, 2⟩), (2, ⟨1, 1⟩)]

theorem select_bulk_contract_three :
    ∃ h ∈ (selectBulk threeReads 8 threeStates 5).reads,
      ∀ r ∈ threeReads, InOrder threeStates h r := by
  have hle : ∀ id, threeStates.refreshCycle id ≤ 5 := by
    intro id
    cases hst : threeStates.get id with
    | none =>
        rw [ReadStates.refreshCycle, hst]
        exact Nat.zero_le _
    | some st =>
        rw [refreshCycle_of_get hst]
        have hmem := HashMap.mem_of_get_ofList hst
        simp only [List.mem_cons, List.not_mem_nil, or_false, Prod.mk.injEq] at hmem
        rcases hmem with ⟨-, rfl⟩ | ⟨-, rfl⟩ | ⟨-, rfl⟩ <;> decide
  exact (select_bulk_contract hle threeReads 8).2.1 (by decide)

end Cache
end SniLua
