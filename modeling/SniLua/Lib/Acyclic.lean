/-
  SniLua.Lib.Acyclic

  When only finitely many nodes have an edge out, a node is accessible along its
  edges exactly when nothing it reaches lies on a cycle.  A bound on the chains from
  a node makes it accessible, and says how deep.
-/

import Mathlib.Data.Set.Card
import Mathlib.Logic.Relation
import Mathlib.Order.CompletePartialOrder

namespace SniLua
namespace Lib

open Relation

variable {α : Type} {R : α → α → Prop}

/-- No node reached from `a` is reached again from itself. -/
def AcyclicFrom (R : α → α → Prop) (a : α) : Prop := ∀ b, ReflTransGen R a b → ¬ TransGen R b b

/-- Every chain of edges from `a` ends. -/
abbrev EndsFrom (R : α → α → Prop) (a : α) : Prop := Acc (fun b a => R a b) a

theorem AcyclicFrom.child {a b : α} (h : AcyclicFrom R a) (hab : R a b) : AcyclicFrom R b :=
  fun c hc => h c (.head hab hc)

/-- The nodes with an edge out that are reached from `a`. -/
def sourcesFrom (R : α → α → Prop) (a : α) : Set α := {x | ReflTransGen R a x ∧ ∃ y, R x y}

/-- Along an edge that is on no cycle there are fewer sources ahead. -/
theorem sourcesFrom_ssubset {a b : α} (h : AcyclicFrom R a) (hab : R a b) :
    sourcesFrom R b ⊂ sourcesFrom R a := by
  refine ⟨fun x hx => ⟨.head hab hx.1, hx.2⟩, fun hsub => ?_⟩
  have ha : a ∈ sourcesFrom R b := hsub ⟨.refl, b, hab⟩
  exact h a .refl (TransGen.head' hab ha.1)

theorem endsFrom_of_acyclicFrom {S : Set α} (hS : S.Finite) (hsrc : ∀ x y, R x y → x ∈ S) {a : α}
    (h : AcyclicFrom R a) : EndsFrom R a := by
  induction hn : (sourcesFrom R a).ncard using Nat.strongRecOn generalizing a with
  | ind n ih =>
      refine Acc.intro a fun b hab => ?_
      have hfin : (sourcesFrom R a).Finite := hS.subset fun x hx => hsrc x _ hx.2.choose_spec
      have hlt := Set.ncard_lt_ncard (sourcesFrom_ssubset h hab) hfin
      exact ih _ (hn ▸ hlt) (h.child hab) rfl

/-- An accessible node is on no cycle. -/
theorem not_transGen_self {a : α} (h : EndsFrom R a) : ¬ TransGen R a a := by
  induction h with
  | intro a _ ih =>
      intro hcycle
      obtain ⟨b, hab, hba⟩ := TransGen.head'_iff.mp hcycle
      exact ih b hab (TransGen.tail' hba hab)

theorem acyclicFrom_of_endsFrom {a : α} (h : EndsFrom R a) : AcyclicFrom R a := by
  intro b hb
  refine not_transGen_self ?_
  induction hb with
  | refl => exact h
  | tail _ hbc ih => exact ih.inv hbc

theorem endsFrom_iff_acyclicFrom {S : Set α} (hS : S.Finite) (hsrc : ∀ x y, R x y → x ∈ S)
    (a : α) : EndsFrom R a ↔ AcyclicFrom R a :=
  ⟨acyclicFrom_of_endsFrom, endsFrom_of_acyclicFrom hS hsrc⟩

-- ============================================================================
-- Bounded chains
-- ============================================================================

/-- Every chain of edges from `a` is shorter than `n`. -/
def ChainsBelow (R : α → α → Prop) (n : Nat) (a : α) : Prop :=
  ∀ path, List.IsChain R (a :: path) → path.length < n

theorem not_chainsBelow_zero (a : α) : ¬ ChainsBelow R 0 a := fun h =>
  Nat.not_lt_zero _ (h [] (List.isChain_singleton a))

theorem chainsBelow_succ_iff {n : Nat} {a : α} :
    ChainsBelow R (n + 1) a ↔ ∀ b, R a b → ChainsBelow R n b := by
  constructor
  · intro h b hab path hpath
    exact Nat.lt_of_succ_lt_succ (h (b :: path) (List.isChain_cons_cons.mpr ⟨hab, hpath⟩))
  · intro h path hpath
    cases path with
    | nil => exact Nat.succ_pos n
    | cons b path =>
        obtain ⟨hab, hpath⟩ := List.isChain_cons_cons.mp hpath
        exact Nat.succ_lt_succ (h b hab path hpath)

/-- Fewer edges make no longer chains. -/
theorem ChainsBelow.of_imp {S : α → α → Prop} {n : Nat} {a : α} (h : ChainsBelow R n a)
    (himp : ∀ x y, S x y → R x y) : ChainsBelow S n a :=
  fun path hpath => h path (hpath.imp himp)

theorem ChainsBelow.endsFrom {n : Nat} {a : α} (h : ChainsBelow R n a) : EndsFrom R a := by
  induction n generalizing a with
  | zero => exact absurd h (not_chainsBelow_zero a)
  | succ n ih => exact Acc.intro a fun b hab => ih (chainsBelow_succ_iff.mp h b hab)

end Lib
end SniLua
