import RecordStore.Sorting.Insertion
import RecordStore.Sorting.Merge

/-! Stable sorting by a comparison that may fail and need not be an order. The list is cut into
runs, short ones are filled up by insertion, and neighbouring rows are joined. Which two are joined
next follows a balanced tree on the list's places: of two seams between rows, the one at the deeper
level of the tree is closed first. Where the comparison is a strict weak order, the result is the
one stable sort; elsewhere it depends on which pairs are compared. -/
namespace RecordStore.Sorting

variable {α : Type}

structure Row (α : Type) where
  start : Nat
  elements : List α

namespace Row

/-- Twice the middle place of a row. -/
def middle (r : Row α) : Nat := 2 * r.start + r.elements.length

/-- The first level at which a list of `n` places, halved again and again, parts the middles of two
neighbouring rows. -/
def seam (n : Nat) (r s : Row α) : Nat :=
  ((List.range (n.log2 + 2)).find? fun level =>
    r.middle * Nat.pow 2 level / n ≠ s.middle * Nat.pow 2 level / n).getD 0

end Row

structure Pending (α : Type) where
  /-- The row at the end. -/
  last : Row α
  /-- Those before it, the nearest first, each with the seam that follows it. -/
  earlier : List (Row α × Nat)
  patience : Nat

variable (less? : α → α → Option Bool)

def joinRows (patience : Nat) (r s : Row α) : Option (Row α × Nat) := do
  let (elements, patience) ← join less? patience r.elements s.elements
  return (⟨r.start, elements⟩, patience)

def closeDeeper (level : Nat) (last : Row α) (patience : Nat) :
    List (Row α × Nat) → Option (Pending α)
  | [] => some ⟨last, [], patience⟩
  | (r, seam) :: earlier => do
    if level < seam then
      let (last, patience) ← joinRows less? patience r last
      closeDeeper level last patience earlier
    else return ⟨last, (r, seam) :: earlier, patience⟩

def Pending.add (n : Nat) (p : Pending α) (r : Row α) : Option (Pending α) := do
  let level := Row.seam n p.last r
  let p ← closeDeeper less? level p.last p.patience p.earlier
  return ⟨r, (p.last, level) :: p.earlier, p.patience⟩

/-- Joins what is left from the end, but an earlier pair first while its first row is shorter than
the last one. -/
def joinAll (patience : Nat) (last : Row α) : List (Row α) → Option (List α)
  | [] => some last.elements
  | [r] => do return (← joinRows less? patience r last).1.elements
  | s :: r :: earlier => do
    if r.elements.length < last.elements.length then
      let (r, patience) ← joinRows less? patience r s
      joinAll patience last (r :: earlier)
    else
      let (last, patience) ← joinRows less? patience s last
      joinAll patience last (r :: earlier)
termination_by earlier => earlier.length

/-- Length to which the rows of a list of `n` elements are filled up: `n` halved, rounding up, until
it is at most 64. -/
def leastRow (n : Nat) : Nat :=
  let parts := Nat.pow 2 (n.log2 - 5)
  (n + parts - 1) / parts

def addRows (n : Nat) : Nat → Pending α → List α → Option (Pending α)
  | _, p, [] => some p
  | 0, p, _ => some p
  | fuel + 1, p, xs => do
    let (row, rest) ← leadingRow less? (leastRow n) xs
    addRows n fuel (← p.add less? n ⟨p.last.start + p.last.elements.length, row⟩) rest

/-- The sorted list; none if two elements that had to be compared are not comparable. -/
def sort? (xs : List α) : Option (List α) := do
  let n := xs.length
  let (row, rest) ← leadingRow less? (leastRow n) xs
  let p ← addRows less? n n ⟨⟨0, row⟩, [], 7⟩ rest
  joinAll less? p.patience p.last (p.earlier.map Prod.fst)

end RecordStore.Sorting
