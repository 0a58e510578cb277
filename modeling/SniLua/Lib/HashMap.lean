/-
  SniLua.Lib.HashMap

  A hash map as its lookup function: insertion, removal of the entries that fail
  a test, a change of all values, and the simp set of `get` over them.
-/

import Mathlib.Logic.Basic

namespace SniLua
namespace Lib

/-- A map from keys to values, as the function `get` answers with. -/
structure HashMap (K V : Type) where
  get : K → Option V

namespace HashMap

variable {K V : Type}

/-- The map without entries. -/
def empty : HashMap K V := ⟨fun _ => none⟩

/-- Keep the entries whose key passes the test. -/
def retain (m : HashMap K V) (p : K → Bool) : HashMap K V :=
  ⟨fun k => if p k then m.get k else none⟩

/-- Change every value. -/
def mapValues (m : HashMap K V) (f : V → V) : HashMap K V :=
  ⟨fun k => (m.get k).map f⟩

@[simp] theorem get_empty (k : K) : (empty : HashMap K V).get k = none := rfl

@[simp] theorem get_retain (m : HashMap K V) (p : K → Bool) (k : K) :
    (m.retain p).get k = if p k then m.get k else none := rfl

@[simp] theorem get_mapValues (m : HashMap K V) (f : V → V) (k : K) :
    (m.mapValues f).get k = (m.get k).map f := rfl

@[simp] theorem retain_empty (p : K → Bool) : (empty : HashMap K V).retain p = empty := by
  simp [retain, empty]

/-- What is kept was there. -/
theorem get_of_get_retain {m : HashMap K V} {p : K → Bool} {k : K} {v : V}
    (h : (m.retain p).get k = some v) : m.get k = some v := by
  rw [get_retain] at h
  split at h
  · exact h
  · exact absurd h (by simp)

variable [DecidableEq K]

/-- Keeping all keys but one drops that one. -/
theorem get_retain_ne_self (m : HashMap K V) (k : K) : (m.retain (· ≠ k)).get k = none := by
  simp

theorem get_retain_ne_of_ne (m : HashMap K V) {k k' : K} (h : k' ≠ k) :
    (m.retain (· ≠ k)).get k' = m.get k' := by
  simp [h]

/-- Set the value of one key. -/
def insert (m : HashMap K V) (k : K) (v : V) : HashMap K V :=
  ⟨fun k' => if k' = k then some v else m.get k'⟩

/-- Insert the pairs of a list from left to right. -/
def ofList (l : List (K × V)) : HashMap K V :=
  l.foldl (fun m p => m.insert p.1 p.2) empty

theorem get_insert (m : HashMap K V) (k k' : K) (v : V) :
    (m.insert k v).get k' = if k' = k then some v else m.get k' := rfl

@[simp] theorem get_insert_self (m : HashMap K V) (k : K) (v : V) :
    (m.insert k v).get k = some v := by
  simp [get_insert]

theorem get_insert_of_ne (m : HashMap K V) {k k' : K} (v : V) (h : k' ≠ k) :
    (m.insert k v).get k' = m.get k' := by
  simp [get_insert, h]

/-- A value found in a map built from a list is a value of the list. -/
theorem mem_of_get_ofList {l : List (K × V)} {k : K} {v : V}
    (h : (ofList l).get k = some v) : (k, v) ∈ l := by
  have key : ∀ (l : List (K × V)) (m : HashMap K V),
      (l.foldl (fun m p => m.insert p.1 p.2) m).get k = some v →
        (k, v) ∈ l ∨ m.get k = some v := by
    intro l
    induction l with
    | nil => intro m h; exact Or.inr h
    | cons p l ih =>
        intro m h
        rcases ih _ h with h | h
        · exact Or.inl (List.mem_cons_of_mem _ h)
        · rw [get_insert] at h
          by_cases hk : k = p.1
          · rw [if_pos hk] at h
            obtain rfl := Option.some.inj h
            exact Or.inl (by rw [hk]; exact List.mem_cons_self ..)
          · rw [if_neg hk] at h
            exact Or.inr h
  rcases key l empty h with h | h
  · exact h
  · simp at h

/-- Every key of the list has a value in the map built from it. -/
theorem get_ofList_isSome {l : List (K × V)} {k : K} {v : V} (h : (k, v) ∈ l) :
    ∃ v', (ofList l).get k = some v' := by
  have key : ∀ (l : List (K × V)) (m : HashMap K V),
      ((k, v) ∈ l ∨ ∃ v', m.get k = some v') →
        ∃ v', (l.foldl (fun m p => m.insert p.1 p.2) m).get k = some v' := by
    intro l
    induction l with
    | nil => intro m h; exact h.resolve_left (by simp)
    | cons p l ih =>
        intro m h
        apply ih
        rcases h with h | ⟨v', h⟩
        · rcases List.mem_cons.mp h with rfl | h
          · exact Or.inr ⟨v, by simp⟩
          · exact Or.inl h
        · by_cases hk : k = p.1
          · exact Or.inr ⟨p.2, by simp [hk]⟩
          · exact Or.inr ⟨v', by rw [get_insert_of_ne _ _ hk]; exact h⟩
  exact key l empty (Or.inl h)

end HashMap
end Lib
end SniLua
