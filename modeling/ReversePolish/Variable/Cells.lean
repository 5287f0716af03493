import ReversePolish.Value.Basic
/-!
# Cells

A cell holds the value of a variable. A cell has an identity, so that several slots and a registry
entry can share one: whoever writes to it is seen by all of them. Cells are handed out in order
and never handed out twice, so an identity stays the same for as long as anybody knows it.
-/

namespace ReversePolish

/-- The identity of a cell. -/
abbrev CellId := Nat

/-- The contents of all cells that were ever handed out. -/
structure Cells where
  contents : Array Value := #[]
  deriving DecidableEq, Repr

namespace Cells

/-- The identity of the next cell, above those of all cells so far. -/
def next (cells : Cells) : CellId := cells.contents.size

/-- What a cell holds (`Variable.get`); one that was never handed out holds null. -/
def read (cells : Cells) (c : CellId) : Value := cells.contents.getD c .null

/-- Writes to a cell in place (`Variable.set`). -/
def write (cells : Cells) (c : CellId) (v : Value) : Cells := ⟨cells.contents.setIfInBounds c v⟩

/-- Hands out a new cell that holds `v`; its identity is `cells.next`. -/
def alloc (cells : Cells) (v : Value) : Cells := ⟨cells.contents.push v⟩

@[simp] theorem next_write (cells : Cells) (c : CellId) (v : Value) :
    (cells.write c v).next = cells.next := by
  simp [next, write]

@[simp] theorem next_alloc (cells : Cells) (v : Value) : (cells.alloc v).next = cells.next + 1 := by
  simp [next, alloc]

/-- A write changes the cell that it names and no other. -/
theorem read_write (cells : Cells) (c d : CellId) (v : Value) :
    (cells.write c v).read d = if c = d ∧ c < cells.next then v else cells.read d := by
  simp only [read, write, next, Array.getD_eq_getD_getElem?, Array.getElem?_setIfInBounds]
  by_cases hcd : c = d
  · subst hcd
    by_cases hlt : c < cells.contents.size
    · simp [hlt]
    · simp [hlt]
  · simp [hcd]

/-- A new cell holds what it was made with, and the others hold what they held. -/
theorem read_alloc (cells : Cells) (d : CellId) (v : Value) :
    (cells.alloc v).read d = if d = cells.next then v else cells.read d := by
  simp only [read, alloc, next, Array.getD_eq_getD_getElem?, Array.getElem?_push]
  split <;> rfl

end Cells

end ReversePolish
