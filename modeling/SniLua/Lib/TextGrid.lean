/-
  SniLua.Lib.TextGrid

  Rows and columns of a text.  A pen that walks over the elements, moves right at
  each one and starts the next row at a separator visits exactly the elements of
  the lines the text splits into, each at its row and column.
-/

import Mathlib.Data.List.Basic

namespace SniLua
namespace Lib
namespace TextGrid

variable {α : Type} [DecidableEq α]

/-- The elements with the row and the column the pen meets them at. -/
def walk (sep : α) (row col : Nat) : List α → List (α × Nat × Nat)
  | [] => []
  | a :: l => if a = sep then walk sep (row + 1) 0 l else (a, row, col) :: walk sep row (col + 1) l

omit [DecidableEq α] in
/-- The elements of some lines with their rows and columns; the first line starts at
    a column of its own. -/
def cells (row col : Nat) : List (List α) → List (α × Nat × Nat)
  | [] => []
  | line :: lines => (line.zipIdx col).map (fun p => (p.1, row, p.2)) ++ cells (row + 1) 0 lines

/-- The pen visits the lines of the text. -/
theorem walk_eq_cells (sep : α) (row col : Nat) (l : List α) :
    walk sep row col l = cells row col (l.splitOn sep) := by
  induction l generalizing row col with
  | nil => rfl
  | cons a l ih =>
      rw [List.splitOn_cons_eq_if_modifyHead, walk]
      by_cases ha : a = sep
      · rw [if_pos ha, if_pos (by simpa using ha), ih]
        rfl
      · rw [if_neg ha, if_neg (by simpa using ha), ih]
        obtain ⟨line, lines, hsplit⟩ := List.exists_cons_of_ne_nil (List.splitOn_ne_nil sep l)
        rw [hsplit]
        simp [cells]

omit [DecidableEq α] in
/-- The cells of lines that start at the left, line by line. -/
theorem cells_eq_flatMap (row : Nat) (lines : List (List α)) :
    cells row 0 lines =
      (lines.zipIdx row).flatMap fun p => p.1.zipIdx.map fun q => (q.1, p.2, q.2) := by
  induction lines generalizing row with
  | nil => rfl
  | cons line lines ih =>
      rw [cells, ih, List.zipIdx_cons, List.flatMap_cons]

/-- The number of lines. -/
def height (sep : α) (l : List α) : Nat := (l.splitOn sep).length

/-- The length of the longest line. -/
def width (sep : α) (l : List α) : Nat := (((l.splitOn sep).map List.length).max?).getD 0

theorem height_pos (sep : α) (l : List α) : 0 < height sep l :=
  List.length_pos_of_ne_nil (List.splitOn_ne_nil sep l)

theorem length_le_width {sep : α} {l line : List α} (h : line ∈ l.splitOn sep) :
    line.length ≤ width sep l := by
  have hmem := List.mem_map_of_mem (f := List.length) h
  rw [width]
  cases hmax : ((l.splitOn sep).map List.length).max? with
  | none =>
      rw [List.max?_eq_none_iff.mp hmax] at hmem
      exact absurd hmem (by simp)
  | some m => exact (List.max?_eq_some_iff.mp hmax).2 _ hmem

/-- Every element is met inside the height and the width of the text. -/
theorem mem_walk {sep : α} {l : List α} {a : α} {i j : Nat} (h : (a, i, j) ∈ walk sep 0 0 l) :
    i < height sep l ∧ j < width sep l := by
  rw [walk_eq_cells, cells_eq_flatMap] at h
  obtain ⟨⟨line, i'⟩, hline, hcell⟩ := List.mem_flatMap.mp h
  obtain ⟨⟨a', j'⟩, hcol, heq⟩ := List.mem_map.mp hcell
  obtain ⟨rfl, rfl, rfl⟩ : a' = a ∧ i' = i ∧ j' = j := by simpa using heq
  obtain ⟨-, hi, hget⟩ := List.mem_zipIdx hline
  have hj : j' < 0 + line.length := (List.mem_zipIdx hcol).2.1
  have hmem : line ∈ l.splitOn sep := by
    rw [hget]
    exact List.getElem_mem _
  have hlen := length_le_width hmem
  rw [height]
  omega

end TextGrid
end Lib
end SniLua
