/-
  SniLua.Lib.GapMerge

  Merging intervals that lie at most `gap` apart.  The elements of a list carry a
  start `lo` and an end `hi`; `merge` walks a list sorted by start and opens a new
  run wherever the next start lies more than `gap` past every end so far.

  The result is canonical: each run is a chain, two runs are more than `gap`
  apart, and a partition with these two properties is unique up to the order of
  the elements, so that no order of the input shows in it.
-/

import Mathlib.Data.List.Basic
import Mathlib.Data.List.Perm.Basic

namespace SniLua
namespace Lib
namespace GapMerge

variable {α : Type} (lo hi : α → Nat) (gap : Nat)

/-- Extend `run`, whose ends reach up to `stop`, by the rest of the list. -/
def grow (stop : Nat) (run : List α) : List α → List (List α)
  | [] => [run]
  | x :: xs =>
      if lo x ≤ stop + gap then grow (max stop (hi x)) (run ++ [x]) xs
      else run :: grow (hi x) [x] xs

/-- The runs of a list that is sorted by start. -/
def merge : List α → List (List α)
  | [] => []
  | x :: xs => grow lo hi gap (hi x) [x] xs

/-- In order of start, every element after the first starts at most `gap` past
    the end of one before it. -/
inductive Chain : List α → Prop
  | single (x : α) : Chain [x]
  | snoc {run : List α} {x y : α} : Chain run → (∀ z ∈ run, lo z ≤ lo x) → y ∈ run →
      lo x ≤ hi y + gap → Chain (run ++ [x])

/-- Every element of the first run ends more than `gap` before any of the second
    starts. -/
def Apart (r q : List α) : Prop := ∀ x ∈ r, ∀ y ∈ q, hi x + gap < lo y

-- ============================================================================
-- The runs of `merge`
-- ============================================================================

variable {lo hi gap}

theorem Chain.ne_nil {run : List α} (h : Chain lo hi gap run) : run ≠ [] := by
  cases h <;> simp

@[simp] theorem flatten_grow (stop : Nat) (run xs : List α) :
    (grow lo hi gap stop run xs).flatten = run ++ xs := by
  induction xs generalizing stop run with
  | nil => simp [grow]
  | cons x xs ih =>
      simp only [grow]
      split
      · rw [ih]; simp
      · rw [List.flatten_cons, ih]; simp

@[simp] theorem flatten_merge (l : List α) : (merge lo hi gap l).flatten = l := by
  cases l with
  | nil => rfl
  | cons x xs => rw [merge, flatten_grow]; rfl

/-- `stop` is the largest end of the run. -/
structure Reaches (hi : α → Nat) (stop : Nat) (run : List α) : Prop where
  attained : ∃ y ∈ run, hi y = stop
  upper : ∀ y ∈ run, hi y ≤ stop

theorem Reaches.single (x : α) : Reaches hi (hi x) [x] :=
  ⟨⟨x, List.mem_singleton_self x, rfl⟩, by simp⟩

theorem Reaches.extend {stop : Nat} {run : List α} (h : Reaches hi stop run) (x : α) :
    Reaches hi (max stop (hi x)) (run ++ [x]) := by
  constructor
  · obtain ⟨y, hy, hys⟩ := h.attained
    rcases Nat.le_total stop (hi x) with hle | hle
    · exact ⟨x, by simp, (Nat.max_eq_right hle).symm⟩
    · exact ⟨y, by simp [hy], by rw [hys, Nat.max_eq_left hle]⟩
  · intro y hy
    rcases List.mem_append.mp hy with hy | hy
    · exact Nat.le_trans (h.upper y hy) (Nat.le_max_left _ _)
    · rw [List.mem_singleton.mp hy]
      exact Nat.le_max_right _ _

theorem chain_of_mem_grow {stop : Nat} {run xs : List α} (hreach : Reaches hi stop run)
    (hchain : Chain lo hi gap run) (hbefore : ∀ z ∈ run, ∀ x ∈ xs, lo z ≤ lo x)
    (hsorted : xs.Pairwise fun a b => lo a ≤ lo b) :
    ∀ r ∈ grow lo hi gap stop run xs, Chain lo hi gap r := by
  induction xs generalizing stop run with
  | nil =>
      intro r hr
      obtain rfl := List.mem_singleton.mp hr
      exact hchain
  | cons x xs ih =>
      obtain ⟨hx, hsorted⟩ := List.pairwise_cons.mp hsorted
      have hfirst : ∀ z ∈ run, lo z ≤ lo x := fun z hz => hbefore z hz x (List.mem_cons_self ..)
      have hrest : ∀ z ∈ run, ∀ y ∈ xs, lo z ≤ lo y :=
        fun z hz y hy => hbefore z hz y (List.mem_cons_of_mem _ hy)
      simp only [grow]
      split
      · rename_i hle
        obtain ⟨y, hy, hys⟩ := hreach.attained
        refine ih (hreach.extend x) (.snoc hchain hfirst hy (by rw [hys]; exact hle)) ?_ hsorted
        intro z hz v hv
        rcases List.mem_append.mp hz with hz | hz
        · exact hrest z hz v hv
        · rw [List.mem_singleton.mp hz]
          exact hx v hv
      · intro r hr
        rcases List.mem_cons.mp hr with rfl | hr
        · exact hchain
        · refine ih (.single x) (.single x) ?_ hsorted r hr
          intro z hz v hv
          rw [List.mem_singleton.mp hz]
          exact hx v hv

/-- The runs of a sorted list are chains. -/
theorem chain_of_mem_merge {l : List α} (hsorted : l.Pairwise fun a b => lo a ≤ lo b) :
    ∀ r ∈ merge lo hi gap l, Chain lo hi gap r := by
  cases l with
  | nil => simp [merge]
  | cons x xs =>
      obtain ⟨hx, hsorted⟩ := List.pairwise_cons.mp hsorted
      refine chain_of_mem_grow (.single x) (.single x) ?_ hsorted
      intro z hz v hv
      rw [List.mem_singleton.mp hz]
      exact hx v hv

theorem apart_grow {stop : Nat} {run xs : List α} (hreach : Reaches hi stop run)
    (hsorted : xs.Pairwise fun a b => lo a ≤ lo b) :
    (grow lo hi gap stop run xs).Pairwise (Apart lo hi gap) := by
  induction xs generalizing stop run with
  | nil => exact List.pairwise_singleton ..
  | cons x xs ih =>
      obtain ⟨hx, hsorted⟩ := List.pairwise_cons.mp hsorted
      simp only [grow]
      split
      · exact ih (hreach.extend x) hsorted
      · rename_i hgap
        refine List.pairwise_cons.mpr ⟨?_, ih (.single x) hsorted⟩
        intro q hq y hy v hv
        -- what comes later starts no earlier than `x`
        have hlater : lo x ≤ lo v := by
          have hmem : v ∈ (grow lo hi gap (hi x) [x] xs).flatten :=
            List.mem_flatten.mpr ⟨q, hq, hv⟩
          rw [flatten_grow] at hmem
          rcases List.mem_cons.mp hmem with rfl | hmem
          · exact Nat.le_refl _
          · exact hx v hmem
        have hend := hreach.upper y hy
        omega

/-- The runs of a sorted list are apart. -/
theorem apart_merge {l : List α} (hsorted : l.Pairwise fun a b => lo a ≤ lo b) :
    (merge lo hi gap l).Pairwise (Apart lo hi gap) := by
  cases l with
  | nil => exact List.Pairwise.nil
  | cons x xs => exact apart_grow (.single x) (List.pairwise_cons.mp hsorted).2

-- ============================================================================
-- Uniqueness
-- ============================================================================

/-- Two runs of a separated list are apart in one order or the other. -/
theorem apart_or_apart {runs : List (List α)} (h : runs.Pairwise (Apart lo hi gap))
    {r q : List α} (hr : r ∈ runs) (hq : q ∈ runs) (hne : r ≠ q) :
    Apart lo hi gap r q ∨ Apart lo hi gap q r := by
  induction runs with
  | nil => exact absurd hr (by simp)
  | cons run runs ih =>
      obtain ⟨hrun, hruns⟩ := List.pairwise_cons.mp h
      rcases List.mem_cons.mp hr with hr | hr <;> rcases List.mem_cons.mp hq with hq | hq
      · exact absurd (hr.trans hq.symm) hne
      · rw [hr]
        exact Or.inl (hrun q hq)
      · rw [hq]
        exact Or.inr (hrun r hr)
      · exact ih hruns hr hq

section Unique

variable (hle : ∀ x, lo x ≤ hi x)
include hle

/-- An element is in one run only. -/
theorem eq_of_mem {runs : List (List α)} (h : runs.Pairwise (Apart lo hi gap)) {r q : List α}
    (hr : r ∈ runs) (hq : q ∈ runs) {x : α} (hxr : x ∈ r) (hxq : x ∈ q) : r = q := by
  have hx := hle x
  by_contra hne
  rcases apart_or_apart h hr hq hne with hap | hap
  · have := hap x hxr x hxq
    omega
  · have := hap x hxq x hxr
    omega

/-- A chain lies inside one run of a separated partition. -/
theorem Chain.subset {runs : List (List α)} (h : runs.Pairwise (Apart lo hi gap)) {r : List α}
    (hr : Chain lo hi gap r) (hmem : ∀ x ∈ r, x ∈ runs.flatten) :
    ∃ q ∈ runs, ∀ x ∈ r, x ∈ q := by
  induction hr with
  | single x =>
      obtain ⟨q, hq, hx⟩ := List.mem_flatten.mp (hmem x (List.mem_singleton_self x))
      exact ⟨q, hq, fun z hz => by rw [List.mem_singleton.mp hz]; exact hx⟩
  | @snoc run x y hrun hlo hy hgap ih =>
      obtain ⟨q, hq, hsub⟩ := ih fun z hz => hmem z (List.mem_append_left _ hz)
      obtain ⟨q', hq', hx⟩ := List.mem_flatten.mp (hmem x (by simp))
      have hyq := hsub y hy
      have hyx := hlo y hy
      have hxx := hle x
      -- the run of `x` is the run of `y`: it can be neither after nor before it
      have heq : q = q' := by
        by_contra hne
        rcases apart_or_apart h hq hq' hne with hap | hap
        · have := hap y hyq x hx
          omega
        · have := hap x hx y hyq
          omega
      refine ⟨q, hq, fun z hz => ?_⟩
      rcases List.mem_append.mp hz with hz | hz
      · exact hsub z hz
      · rw [List.mem_singleton.mp hz, heq]
        exact hx

/-- A run of a separated partition collects the elements that are in it. -/
theorem filter_flatten [DecidableEq α] {runs : List (List α)}
    (h : runs.Pairwise (Apart lo hi gap)) {r : List α} (hr : r ∈ runs) :
    runs.flatten.filter (· ∈ r) = r := by
  obtain ⟨before, after, rfl⟩ := List.append_of_mem hr
  obtain ⟨-, hafter, hbefore⟩ := List.pairwise_append.mp h
  have hnone : ∀ l : List (List α), (∀ q ∈ l, ∀ x ∈ q, x ∉ r) →
      l.flatten.filter (· ∈ r) = [] := by
    intro l hl
    refine List.filter_eq_nil_iff.mpr fun x hx => ?_
    obtain ⟨q, hq, hxq⟩ := List.mem_flatten.mp hx
    simpa using hl q hq x hxq
  have hleft : before.flatten.filter (· ∈ r) = [] := by
    refine hnone before fun q hq x hx hxr => ?_
    have := hbefore q hq r (List.mem_cons_self ..) x hx x hxr
    have := hle x
    omega
  have hright : after.flatten.filter (· ∈ r) = [] := by
    refine hnone after fun q hq x hx hxr => ?_
    have := (List.pairwise_cons.mp hafter).1 q hq x hxr x hx
    have := hle x
    omega
  rw [List.flatten_append, List.flatten_cons, List.filter_append, List.filter_append, hleft,
    hright, List.nil_append, List.append_nil]
  exact List.filter_eq_self.mpr fun x hx => by simpa using hx

/-- **The runs are unique.**  Two partitions of the same elements into chains
    that are apart have the same runs, up to the order inside a run. -/
theorem unique [DecidableEq α] {runs runs' : List (List α)}
    (hperm : runs.flatten.Perm runs'.flatten)
    (hchain : ∀ r ∈ runs, Chain lo hi gap r) (hchain' : ∀ r ∈ runs', Chain lo hi gap r)
    (hapart : runs.Pairwise (Apart lo hi gap)) (hapart' : runs'.Pairwise (Apart lo hi gap)) :
    ∀ r ∈ runs, ∃ q ∈ runs', r.Perm q := by
  intro r hr
  obtain ⟨q, hq, hrq⟩ := (hchain r hr).subset hle hapart' fun x hx =>
    hperm.mem_iff.mp (List.mem_flatten.mpr ⟨r, hr, hx⟩)
  obtain ⟨r', hr', hqr⟩ := (hchain' q hq).subset hle hapart fun x hx =>
    hperm.mem_iff.mpr (List.mem_flatten.mpr ⟨q, hq, hx⟩)
  obtain ⟨x, hx⟩ := List.exists_mem_of_ne_nil r (hchain r hr).ne_nil
  obtain rfl : r = r' := eq_of_mem hle hapart hr hr' hx (hqr x (hrq x hx))
  refine ⟨q, hq, ?_⟩
  have hsame : runs.flatten.filter (· ∈ r) = runs.flatten.filter (· ∈ q) :=
    List.filter_congr fun z _ => by simpa using ⟨hrq z, hqr z⟩
  have hfilter := hperm.filter (· ∈ q)
  rw [← hsame, filter_flatten hle hapart hr, filter_flatten hle hapart' hq] at hfilter
  exact hfilter

end Unique

end GapMerge
end Lib
end SniLua
