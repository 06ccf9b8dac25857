/-! Merging two neighbouring rows, for a comparison that may fail and need not be an order. The
merge takes one element at a time; where one row gives many in a row, it looks for the end of such a
stretch by leaps and takes the stretch at once. It runs from the end where the shorter row lies. -/
namespace RecordStore.Sorting

variable {α : Type}

/-! ### Leaps -/

/-- The first place from `low` to `high` whose element does not pass, by halving. An even stretch
has two middles: the earlier is tried if `early`, and else the later. -/
def halve (early : Bool) (passes? : α → Option Bool) (xs : List α) (low high : Nat) :
    Option Nat :=
  let middle := low + (high - low - early.toNat) / 2
  if h : low < high ∧ high ≤ xs.length then do
    have below : middle < high := by dsimp only [middle]; omega
    have bound : middle < xs.length := by omega
    if ← passes? xs[middle] then halve early passes? xs (middle + 1) high
    else halve early passes? xs low middle
  else some low
termination_by high - low

/-- Leaps twice as far each time, while elements pass: the place after the last that did, and the
place leapt to. -/
def stretch (passes? : α → Option Bool) (xs : List α) (low high : Nat) : Option (Nat × Nat) :=
  if h : high < xs.length then do
    if ← passes? xs[high] then stretch passes? xs (high + 1) (2 * high + 1)
    else return (low, high)
  else some (low, xs.length)
termination_by xs.length - high

/-- How many elements pass at the start of a row in which the rest does not. -/
def leap (early : Bool) (passes? : α → Option Bool) : List α → Option Nat
  | [] => some 0
  | x :: xs => do
    if ← passes? x then
      let (low, high) ← stretch passes? (x :: xs) 1 1
      halve early passes? (x :: xs) low high
    else return 0

/-! ### Steps of a merge -/

inductive Pace where
  /-- By single elements; so many of the last ones came from the same row. -/
  | single (fromRight : Bool) (streak : Nat)
  /-- By leaps, in the first or second half of a round; how far the first went. -/
  | leaping (second : Bool) (first : Nat)

structure Merge (α : Type) where
  /-- What has its place, last first. -/
  placed : List α
  left : List α
  right : List α
  pace : Pace
  /-- How long a streak leads to leaps. -/
  patience : Nat

namespace Merge

def isSettled (m : Merge α) : Bool := m.left.length ≤ 1 || m.right.isEmpty

def row (m : Merge α) : List α :=
  m.placed.reverse ++ if m.left.length ≤ 1 then m.right ++ m.left else m.left ++ m.right

def takeLeft (m : Merge α) (n : Nat) : Merge α :=
  { m with placed := (m.left.take n).reverse ++ m.placed, left := m.left.drop n }

def takeRight (m : Merge α) (n : Nat) : Merge α :=
  { m with placed := (m.right.take n).reverse ++ m.placed, right := m.right.drop n }

/-- Goes on after one half of a round. A round with a leap of seven or more is followed by another,
and makes leaps more likely; one without ends the leaps, and makes them less likely. -/
def afterLeap (second : Bool) (first n : Nat) (m : Merge α) : Merge α :=
  if m.isSettled then m
  else if !second then { m with pace := .leaping true n }
  else if 7 ≤ max first n then
    { m with pace := .leaping false 0, patience := max 1 (m.patience - 1) }
  else { m with pace := .single false 0, patience := m.patience + 1 }

/-- One step of a merge that is not settled. In a merge that runs backwards, both rows are reversed
and change sides. -/
def step (backwards : Bool) (less? : α → α → Option Bool) (m : Merge α) : Option (Merge α) :=
  match m.left, m.right with
  | x :: _, y :: _ => match m.pace with
    | .single fromRight streak => do
      let smaller ← less? y x
      let streak := if smaller = fromRight then streak + 1 else 1
      let pace := if m.patience ≤ streak then .leaping false 0 else .single smaller streak
      return { if smaller then m.takeRight 1 else m.takeLeft 1 with pace }
    | .leaping second first => do
      if second = backwards then
        let n ← leap backwards (fun a => return !(← less? y a)) m.left
        let m := m.takeLeft n
        return (if m.isSettled then m else m.takeRight 1).afterLeap second first n
      else
        let n ← leap backwards (fun b => less? b x) m.right
        let m := m.takeRight n
        return (if m.isSettled then m else m.takeLeft 1).afterLeap second first n
  | _, _ => some m

def run (backwards : Bool) (less? : α → α → Option Bool) : Nat → Merge α → Option (Merge α)
  | 0, m => some m
  | n + 1, m => do
    if m.isSettled then return m
    else run backwards less? n (← m.step backwards less?)

/-- Merges two rows of which the first element on the right comes before all on the left. -/
def ofRows (backwards : Bool) (less? : α → α → Option Bool) (patience : Nat)
    (left right : List α) : Option (Merge α) :=
  let start : Merge α := ⟨[], left, right, .single false 0, patience⟩
  (start.takeRight 1).run backwards less? (left.length + right.length)

end Merge

/-- Merges two rows that overlap, from the end where the shorter one lies: the merged row and the
patience that is left. -/
def overlap (less? : α → α → Option Bool) (patience : Nat) (left right : List α) :
    Option (List α × Nat) := do
  if left.length ≤ right.length then
    let m ← Merge.ofRows false less? patience left right
    return (m.row, m.patience)
  else
    let m ← Merge.ofRows true (fun x y => less? y x) patience right.reverse left.reverse
    return (m.row.reverse, m.patience)

/-- Joins two neighbouring rows into one. What comes before all of the right row or after all of the
left one keeps its place. -/
def join (less? : α → α → Option Bool) (patience : Nat) (left right : List α) :
    Option (List α × Nat) :=
  match left.getLast?, right with
  | some x, y :: _ => do
    let low ← leap false (fun a => return !(← less? y a)) left
    if low = left.length then return (left ++ right, patience)
    let high ← leap true (fun b => return !(← less? b x)) right.reverse
    let stay := right.length - high
    let (row, patience) ← overlap less? patience (left.drop low) (right.take stay)
    return (left.take low ++ row ++ right.drop stay, patience)
  | _, _ => some (left ++ right, patience)

end RecordStore.Sorting
