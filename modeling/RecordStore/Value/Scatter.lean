import RecordStore.Value.Equality

/-! The order in which a set shows numbers. They are scattered over the places of a table by their
residues; one that finds its place taken goes to another. The table grows when three fifths of it
are taken, and shows its elements by their places. -/
namespace RecordStore

structure Scatter (α : Type) where
  size : Nat := 8
  /-- Places with the residue and the element that took each. -/
  taken : List (Nat × Nat × α) := []

namespace Scatter

variable {α : Type}

def isFree (t : Scatter α) (place : Nat) : Bool := t.taken.all (·.1 ≠ place)

/-- Places to try from one on: ten in a row where the table has so many, or just that one. -/
def row (t : Scatter α) (place : Nat) : List Nat :=
  if place + 9 < t.size then (List.range 10).map (place + ·) else [place]

/-- The first free place of the rows that so many jumps lead to. Each jump takes in five more bits
of the residue. -/
def freePlace (t : Scatter α) : Nat → Nat → Nat → Nat
  | 0, _, place => place
  | jumps + 1, bits, place => match (t.row place).find? t.isFree with
    | some free => free
    | none => freePlace t jumps (bits / 32) ((5 * place + 1 + bits / 32) % t.size)

/-- Gives an element its place. Once no bits are left, the jumps lead to every place. -/
def settle (t : Scatter α) (residue : Nat) (a : α) : Scatter α :=
  let place := t.freePlace (t.size + 13) residue (residue % t.size)
  { t with taken := (place, residue, a) :: t.taken }

def inOrder (t : Scatter α) : List (Nat × α) :=
  (t.taken.mergeSort fun a b => a.1 ≤ b.1).map Prod.snd

/-- Gives an element its place and then, if need be, all of them places in a larger table. -/
def insert (t : Scatter α) (residue : Nat) (a : α) : Scatter α :=
  let t := t.settle residue a
  let n := t.taken.length
  if 5 * n < 3 * (t.size - 1) then t
  else t.inOrder.foldl (fun larger (residue, a) => larger.settle residue a)
    { size := (4 * n + 1).nextPowerOfTwo }

/-- A number modulo 2⁶¹ − 1, where a half is 2⁶⁰, in 64 bits; -1 gives way to -2. -/
def residue? (v : Value) : Option Nat :=
  let bits (i : Int) : Nat := (i % (Nat.pow 2 64 : Nat)).toNat
  match v.asNum?.bind Num.place? with
  | some (.point units) =>
    let residue := units.sign * (units.natAbs * Nat.pow 2 24 % (Nat.pow 2 61 - 1) : Nat)
    some (bits (if residue = -1 then -2 else residue))
  | some .top => some 314159
  | some .bottom => some (bits (-314159))
  | none => none

/-- What stands for the elements of a set in the order of a table, if all are numbers; others are in
the order they were given in. -/
def arrange (xs : List Value) (shown : List α) : List α :=
  match xs.mapM residue? with
  | some residues =>
    let t := (residues.zip shown).foldl (fun t (residue, a) => insert t residue a) {}
    t.inOrder.map Prod.snd
  | none => shown

end Scatter

end RecordStore
