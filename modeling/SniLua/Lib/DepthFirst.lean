/-
  SniLua.Lib.DepthFirst

  Recursion over a graph, by fuel: the result of a node is assembled from those of
  its children, which are taken from left to right; the first error ends it.

  `Yields` is the same without fuel.  A child is visited when all before it yield
  something.  Fuel `n` is enough exactly when every chain of visits is shorter than
  `n`, and some fuel is exactly when every chain of visits ends.
-/

import SniLua.Lib.Acyclic

namespace SniLua
namespace Lib

-- ============================================================================
-- Outcomes
-- ============================================================================

/-- The outcome of a computation that may run out of fuel. -/
inductive Outcome (ε β : Type) where
  | outOfFuel
  | fail (e : ε)
  | ok (b : β)
deriving DecidableEq

namespace Outcome

variable {ε α β γ : Type}

def bind (o : Outcome ε β) (f : β → Outcome ε γ) : Outcome ε γ :=
  match o with
  | outOfFuel => outOfFuel
  | fail e => fail e
  | ok b => f b

instance : Monad (Outcome ε) where
  pure := ok
  bind := bind

@[simp] theorem outOfFuel_bind (f : β → Outcome ε γ) : (outOfFuel >>= f) = outOfFuel := rfl

@[simp] theorem fail_bind (e : ε) (f : β → Outcome ε γ) : (fail e >>= f) = fail e := rfl

@[simp] theorem ok_bind (b : β) (f : β → Outcome ε γ) : (ok b >>= f) = f b := rfl

/-- The outcomes of a list from left to right. -/
def collect (f : α → Outcome ε β) : List α → Outcome ε (List β)
  | [] => ok []
  | x :: xs => do
      let b ← f x
      let bs ← collect f xs
      ok (b :: bs)

section Collect

variable {f g : α → Outcome ε β} {xs : List α}

theorem collect_eq_ok_iff {bs : List β} :
    collect f xs = ok bs ↔ List.Forall₂ (fun x b => f x = ok b) xs bs := by
  induction xs generalizing bs with
  | nil => simp [collect, eq_comm]
  | cons x xs ih =>
      rw [collect, List.forall₂_cons_left_iff]
      cases hx : f x with
      | outOfFuel => simp
      | fail e => simp
      | ok b =>
          cases hxs : collect f xs with
          | outOfFuel => simp [← ih, hxs]
          | fail e => simp [← ih, hxs]
          | ok bs' => simp [← ih, hxs, eq_comm]

/-- More fuel for the elements changes no outcome. -/
theorem collect_mono (h : ∀ x, f x ≠ outOfFuel → g x = f x) (hxs : collect f xs ≠ outOfFuel) :
    collect g xs = collect f xs := by
  induction xs with
  | nil => rfl
  | cons x xs ih =>
      rw [collect] at hxs ⊢
      rw [collect]
      cases hx : f x with
      | outOfFuel => simp [hx] at hxs
      | fail e => simp [h x (by simp [hx]), hx]
      | ok b =>
          have hrest : collect f xs ≠ outOfFuel := fun hnone => hxs (by simp [hx, hnone])
          simp [h x (by simp [hx]), hx, ih hrest]

end Collect

end Outcome

-- ============================================================================
-- The recursion
-- ============================================================================

namespace DepthFirst

open Outcome Relation

variable {ε α β : Type} (children : α → List α) (assemble : α → List β → Except ε β)

/-- The outcome of `assemble`. -/
def lift : Except ε β → Outcome ε β
  | .error e => .fail e
  | .ok b => .ok b

/-- The recursion to a depth of `fuel` nodes. -/
def eval : Nat → α → Outcome ε β
  | 0, _ => .outOfFuel
  | fuel + 1, a => do
      let bs ← collect (eval fuel) (children a)
      lift (assemble a bs)

/-- The recursion ends with a result. -/
def Yields (a : α) (b : β) : Prop := ∃ fuel, eval children assemble fuel a = .ok b

/-- The recursion ends. -/
def Ends (a : α) : Prop := ∃ fuel, eval children assemble fuel a ≠ .outOfFuel

/-- The recursion over `a` comes to `c`. -/
def Visits (a c : α) : Prop :=
  ∃ pre post, children a = pre ++ c :: post ∧ ∀ y ∈ pre, ∃ b, Yields children assemble y b

variable {children assemble}

theorem lift_ne_outOfFuel (x : Except ε β) : lift x ≠ .outOfFuel := by
  cases x <;> simp [lift]

theorem eval_succ {fuel : Nat} {a : α} (h : eval children assemble fuel a ≠ .outOfFuel) :
    eval children assemble (fuel + 1) a = eval children assemble fuel a := by
  induction fuel generalizing a with
  | zero => exact absurd rfl h
  | succ fuel ih =>
      have hcollect : collect (eval children assemble fuel) (children a) ≠ .outOfFuel :=
        fun hnone => h (by rw [eval, hnone]; rfl)
      rw [eval, eval, collect_mono (fun x hx => ih hx) hcollect]

/-- Once the recursion has ended, more fuel makes no difference. -/
theorem eval_mono {fuel fuel' : Nat} (hle : fuel ≤ fuel') {a : α}
    (h : eval children assemble fuel a ≠ .outOfFuel) :
    eval children assemble fuel' a = eval children assemble fuel a := by
  induction fuel', hle using Nat.le_induction with
  | base => rfl
  | succ n _ ih => rw [eval_succ (ih.symm ▸ h), ih]

/-- A node that yields a result does so with any fuel that is enough. -/
theorem Yields.eval_eq {a : α} {b : β} (h : Yields children assemble a b) {fuel : Nat}
    (hfuel : eval children assemble fuel a ≠ .outOfFuel) :
    eval children assemble fuel a = .ok b := by
  obtain ⟨n, hn⟩ := h
  rw [← eval_mono (Nat.le_max_left fuel n) hfuel,
    eval_mono (Nat.le_max_right fuel n) (hn ▸ by simp), hn]

-- ============================================================================
-- Results
-- ============================================================================

theorem exists_forall₂ {P : α → β → Prop} {xs : List α} (h : ∀ x ∈ xs, ∃ b, P x b) :
    ∃ bs, List.Forall₂ P xs bs := by
  induction xs with
  | nil => exact ⟨[], .nil⟩
  | cons x xs ih =>
      obtain ⟨b, hb⟩ := h x (by simp)
      obtain ⟨bs, hbs⟩ := ih fun y hy => h y (by simp [hy])
      exact ⟨b :: bs, .cons hb hbs⟩

theorem exists_fuel_of_forall₂ {xs : List α} {bs : List β}
    (h : List.Forall₂ (Yields children assemble) xs bs) :
    ∃ fuel, List.Forall₂ (fun x b => eval children assemble fuel x = .ok b) xs bs := by
  induction h with
  | nil => exact ⟨0, .nil⟩
  | @cons x b xs bs hx _ ih =>
      obtain ⟨m, hm⟩ := hx
      obtain ⟨n, hn⟩ := ih
      have hmono : ∀ {k y c}, k ≤ max m n → eval children assemble k y = .ok c →
          eval children assemble (max m n) y = .ok c := by
        intro k y c hk hy
        rw [eval_mono hk (by simp [hy]), hy]
      exact ⟨max m n, .cons (hmono (Nat.le_max_left m n) hm)
        (hn.imp fun _ _ hy => hmono (Nat.le_max_right m n) hy)⟩

/-- A node yields what is assembled from the results of its children. -/
theorem yields_iff {a : α} {b : β} :
    Yields children assemble a b ↔
      ∃ bs, List.Forall₂ (Yields children assemble) (children a) bs ∧ assemble a bs = .ok b := by
  constructor
  · rintro ⟨fuel, h⟩
    cases fuel with
    | zero => cases h
    | succ fuel =>
        rw [eval] at h
        cases hbs : collect (eval children assemble fuel) (children a) with
        | outOfFuel => simp [hbs] at h
        | fail e => simp [hbs] at h
        | ok bs =>
            refine ⟨bs, (collect_eq_ok_iff.mp hbs).imp fun _ _ hx => ⟨fuel, hx⟩, ?_⟩
            rw [hbs, ok_bind] at h
            cases hb : assemble a bs with
            | error e => simp [hb, lift] at h
            | ok b' => simpa [hb, lift] using h
  · rintro ⟨bs, hbs, hb⟩
    obtain ⟨fuel, hfuel⟩ := exists_fuel_of_forall₂ hbs
    refine ⟨fuel + 1, ?_⟩
    rw [eval, collect_eq_ok_iff.mpr hfuel, ok_bind, hb]
    rfl

-- ============================================================================
-- Termination
-- ============================================================================

theorem Yields.not_fail {a : α} {b : β} (h : Yields children assemble a b) (fuel : Nat) (e : ε) :
    eval children assemble fuel a ≠ .fail e := by
  intro hfail
  have hok := h.eval_eq (hfail ▸ by simp : eval children assemble fuel a ≠ _)
  rw [hfail] at hok
  cases hok

/-- A list that does not run out of fuel does not at an element it comes to. -/
theorem ne_outOfFuel_of_collect {f : α → Outcome ε β} {pre post : List α} {c : α}
    (h : collect f (pre ++ c :: post) ≠ .outOfFuel) (hpre : ∀ y ∈ pre, ∀ e, f y ≠ .fail e) :
    f c ≠ .outOfFuel := by
  induction pre with
  | nil =>
      intro hc
      exact h (by simp [collect, hc])
  | cons y pre ih =>
      rw [List.cons_append, collect] at h
      cases hy : f y with
      | outOfFuel => simp [hy] at h
      | fail e => exact absurd hy (hpre y (by simp) e)
      | ok b =>
          refine ih (fun hnone => h ?_) fun z hz => hpre z (by simp [hz])
          simp [hy, hnone]

/-- When no child a list comes to runs out of fuel, the list does not. -/
theorem collect_ne_outOfFuel {fuel : Nat} {xs : List α}
    (h : ∀ pre c post, xs = pre ++ c :: post → (∀ y ∈ pre, ∃ b, Yields children assemble y b) →
      eval children assemble fuel c ≠ .outOfFuel) :
    collect (eval children assemble fuel) xs ≠ .outOfFuel := by
  induction xs with
  | nil => simp [collect]
  | cons x xs ih =>
      have hx := h [] x xs rfl (by simp)
      rw [collect]
      cases hb : eval children assemble fuel x with
      | outOfFuel => exact absurd hb hx
      | fail e => simp
      | ok b =>
          have hyields : ∃ b, Yields children assemble x b := ⟨b, fuel, hb⟩
          have hxs := ih fun pre c post hsplit hpre =>
            h (x :: pre) c post (by rw [hsplit]; rfl) (by simpa [hyields] using hpre)
          rw [ok_bind]
          cases hbs : collect (eval children assemble fuel) xs with
          | outOfFuel => exact absurd hbs hxs
          | fail e => simp
          | ok bs => simp

/-- How much fuel is enough: more than there are visits in any chain. -/
theorem eval_ne_outOfFuel_iff {fuel : Nat} {a : α} :
    eval children assemble fuel a ≠ .outOfFuel ↔
      ChainsBelow (Visits children assemble) fuel a := by
  induction fuel generalizing a with
  | zero => exact ⟨fun h => absurd rfl h, fun h => absurd h (not_chainsBelow_zero a)⟩
  | succ fuel ih =>
      rw [chainsBelow_succ_iff]
      constructor
      · rintro h c ⟨pre, post, hsplit, hpre⟩
        have hcollect : collect (eval children assemble fuel) (pre ++ c :: post) ≠ .outOfFuel :=
          fun hnone => h (by rw [eval, hsplit, hnone]; rfl)
        refine ih.mp (ne_outOfFuel_of_collect hcollect fun y hy e => ?_)
        obtain ⟨b, hb⟩ := hpre y hy
        exact hb.not_fail fuel e
      · intro h
        have hcollect : collect (eval children assemble fuel) (children a) ≠ .outOfFuel :=
          collect_ne_outOfFuel fun pre c post hsplit hpre =>
            ih.mpr (h c ⟨pre, post, hsplit, hpre⟩)
        rw [eval]
        cases hbs : collect (eval children assemble fuel) (children a) with
        | outOfFuel => exact absurd hbs hcollect
        | fail e => simp
        | ok bs => exact lift_ne_outOfFuel _

/-- When every child a list comes to ends, the list does. -/
theorem exists_collect_of_ends {xs : List α}
    (h : ∀ pre c post, xs = pre ++ c :: post → (∀ y ∈ pre, ∃ b, Yields children assemble y b) →
      Ends children assemble c) :
    ∃ fuel, collect (eval children assemble fuel) xs ≠ .outOfFuel := by
  induction xs with
  | nil => exact ⟨0, by simp [collect]⟩
  | cons x xs ih =>
      obtain ⟨m, hm⟩ := h [] x xs rfl (by simp)
      cases hx : eval children assemble m x with
      | outOfFuel => exact absurd hx hm
      | fail e => exact ⟨m, by simp [collect, hx]⟩
      | ok b =>
          have hyields : ∃ b, Yields children assemble x b := ⟨b, m, hx⟩
          obtain ⟨n, hn⟩ := ih fun pre c post hsplit hpre =>
            h (x :: pre) c post (by rw [hsplit]; rfl) (by simpa [hyields] using hpre)
          have hx' : eval children assemble (max m n) x = .ok b := by
            rw [eval_mono (Nat.le_max_left m n) hm, hx]
          have hxs' : collect (eval children assemble (max m n)) xs ≠ .outOfFuel := by
            rw [collect_mono (fun y hy => eval_mono (Nat.le_max_right m n) hy) hn]
            exact hn
          refine ⟨max m n, ?_⟩
          rw [collect, hx', ok_bind]
          cases hc : collect (eval children assemble (max m n)) xs with
          | outOfFuel => exact absurd hc hxs'
          | fail e => simp
          | ok bs => simp

/-- The recursion ends exactly when every chain of visits does. -/
theorem ends_iff_endsFrom {a : α} :
    Ends children assemble a ↔ EndsFrom (Visits children assemble) a := by
  constructor
  · rintro ⟨fuel, h⟩
    exact (eval_ne_outOfFuel_iff.mp h).endsFrom
  · intro h
    induction h with
    | intro a _ ih =>
        obtain ⟨fuel, hfuel⟩ := exists_collect_of_ends fun pre c post hsplit hpre =>
          ih c ⟨pre, post, hsplit, hpre⟩
        refine ⟨fuel + 1, ?_⟩
        rw [eval]
        cases hc : collect (eval children assemble fuel) (children a) with
        | outOfFuel => exact absurd hc hfuel
        | fail e => simp
        | ok bs => exact lift_ne_outOfFuel _

/-- Over finitely many inner nodes, it ends exactly when no node it comes to is
    visited again from itself. -/
theorem ends_iff_acyclicFrom {S : Set α} (hS : S.Finite) (hsrc : ∀ a, children a ≠ [] → a ∈ S)
    (a : α) : Ends children assemble a ↔ AcyclicFrom (Visits children assemble) a := by
  rw [ends_iff_endsFrom, endsFrom_iff_acyclicFrom hS]
  rintro x c ⟨pre, post, hsplit, -⟩
  exact hsrc x (by simp [hsplit])

end DepthFirst

end Lib
end SniLua
