import Mathlib.Algebra.Order.Floor.Ring
import Mathlib.Data.Rat.Floor

/-! # Column widths of the scrolling window layout

A column has a fraction of the row as its width. Its pixels are rounded down and one gap is
taken off, so that fractions that add up to 1 fill the row. A narrow column is held at 80
pixels, and then the columns take more than the row.
-/
namespace NanoBSD.Strip
open List

def stripWidthPresets : List ℚ := [1 / 3,1 / 2,2 / 3]
def stripWidthStep : ℚ := 1 / 24

/-- `strip-column`, without its windows. -/
structure Column where
  width : ℚ := 1 / 2
  savedWidth : Option ℚ := none

/-- `round` of Lisp: halves go to the even side. -/
def lispRound (q : ℚ) : ℤ :=
  let n := ⌊q⌋
  if q - n < 1 / 2 then n else if 1 / 2 < q - n ∨ n % 2 ≠ 0 then n + 1 else n

def stripSnapWidth (width : ℚ) (delta : ℤ) : ℚ :=
  max stripWidthStep (min 1 (stripWidthStep * (lispRound (width / stripWidthStep) + delta)))

inductive Action
  | preset
  | max
  | widen
  | narrow

def stripWidth (c : Column) : Action → Column
  | .preset => ⟨(stripWidthPresets.find? (· > c.width + 1 / 100)).getD (1 / 3),none⟩
  | .max => c.savedWidth.elim ⟨1,some c.width⟩ fun w => ⟨w,none⟩
  | .widen => ⟨stripSnapWidth c.width 1,none⟩
  | .narrow => ⟨stripSnapWidth c.width (-1),none⟩

def reached (as : List Action) : Column := as.foldl stripWidth {}
def share (gap width : ℕ) (c : Column) : ℤ := ⌊c.width * (width + gap)⌋ - gap
def stripPixelWidth (gap width : ℕ) (c : Column) : ℤ := max 80 (share gap width c)

def start (gap width : ℕ) (cs : List Column) : ℤ :=
  (cs.map fun c => stripPixelWidth gap width c + gap).sum

section Sum
variable {gap width : ℕ} {c : Column} {cs cs' : List Column}

theorem start_eq : start gap width cs = (cs.map (stripPixelWidth gap width)).sum + cs.length * gap := by
  simp [start,sum_map_add]

end Sum

end NanoBSD.Strip
