import Mathlib.Data.Int.Order.Basic
import Mathlib.Tactic.Linarith

/- Rectangles of a grid of rows and columns.

   Two rectangles are apart if no place lies in both. Shifting both keeps them apart, and so does exchanging
   rows and columns; one that ends above the other is apart from it. -/

structure Rectangle where
  row : ℤ
  column : ℤ
  height : ℤ
  width : ℤ

namespace Rectangle

variable {r s : Rectangle}

def Covers (r : Rectangle) (i j : ℤ) : Prop :=
  r.row ≤ i ∧ i < r.row + r.height ∧ r.column ≤ j ∧ j < r.column + r.width

def Apart (r s : Rectangle) : Prop := ∀ i j, ¬ (r.Covers i j ∧ s.Covers i j)

/-- Inside a grid. -/
def Inside (r : Rectangle) (rows columns : ℤ) : Prop :=
  0 ≤ r.row ∧ r.row + r.height ≤ rows ∧ 0 ≤ r.column ∧ r.column + r.width ≤ columns

/-- Moved down. -/
def shift (k : ℤ) (r : Rectangle) : Rectangle := { r with row := r.row + k }

def transpose (r : Rectangle) : Rectangle := ⟨r.column, r.row, r.width, r.height⟩

theorem Apart.symm (h : Apart r s) : Apart s r := fun i j hboth => h i j hboth.symm

theorem apart_shift (k : ℤ) (h : Apart r s) : Apart (r.shift k) (s.shift k) := by
  intro i j hboth
  refine h (i - k) j ?_
  simp only [Covers, shift] at hboth ⊢
  omega

theorem apart_of_above (h : r.row + r.height ≤ s.row) : Apart r s := by
  intro i j hboth
  simp only [Covers] at hboth
  omega

theorem covers_transpose {i j : ℤ} : r.transpose.Covers i j ↔ r.Covers j i := by
  simp only [Covers, transpose]
  omega

theorem apart_transpose : Apart r.transpose s.transpose ↔ Apart r s :=
  ⟨fun h i j hboth => h j i ⟨covers_transpose.mpr hboth.1, covers_transpose.mpr hboth.2⟩,
    fun h i j hboth => h j i ⟨covers_transpose.mp hboth.1, covers_transpose.mp hboth.2⟩⟩

end Rectangle
