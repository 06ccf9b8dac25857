import RecordStore.Fault
import RecordStore.Value.Order

/-! The part of the matches that a query asks for. -/
namespace RecordStore

/-- What a search asks for besides its query, as it was given; null stands for what was not. -/
structure FindOptions where
  skip : Value := .int 0
  limit : Value := .null
  /-- Paths to give; all of a record if none are named. -/
  fields : Value := .null
  sort : Value := .null

namespace Paging

def atLeast (least : Int) (refusal : Value → Failure) (v : Value) : Except Failure Value :=
  match v.lt? (.int least) with
  | none => .error .incomparable
  | some true => .error (refusal v)
  | some false => .ok v

def skip (v : Value) : Except Failure Value := atLeast 0 .skipNegative v

def limit (maximum : Value) : Value → Except Failure Value
  | .null => .ok .null
  | v => do
    let v ← atLeast 1 .limitTooSmall v
    match maximum.lt? v with
    | none => .error .incomparable
    | some above => return if above then maximum else v

/-- A place in a list: so many from the start or, if negative, from the end. Booleans count as 0 and
1, and null is a place of its own. -/
def place (length null : Nat) (v : Value) : Except Failure Nat :=
  match v, v.asNum? with
  | .null, _ => .ok null
  | _, some (.int n) => .ok (if n < 0 then length + n else n).toNat
  | _, _ => .error .incomparable

/-- From a place on and up to another. Null is the first place, or the one behind the last. -/
def slice {α : Type} (start stop : Value) (xs : List α) : Except Failure (List α) := do
  let first ← place xs.length 0 start
  let last ← place xs.length xs.length stop
  return (xs.drop first).take (last - first)

def behind (skip limit : Value) : Except Failure Value :=
  match skip.asNum?, limit.asNum? with
  | some m, some n => match m.add n with
    | some sum => .ok (.num sum)
    | none => .error .numberTooLarge
  | _, _ => .error .incomparable

/-- The page behind so many, no longer than a limit. Places are those of `slice`. -/
def page {α : Type} (skip limit : Value) (xs : List α) : Except Failure (List α) := do
  if limit matches .null then slice skip .null xs
  else slice skip (← behind skip limit) xs

end Paging

end RecordStore
