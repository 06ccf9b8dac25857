import RecordStore.Sorting.Runs
import RecordStore.Value.Elements
import RecordStore.Value.Order
import RecordStore.Value.Path

/-! Sorting by field paths. A path may carry a minus sign for descending order; items with nothing
at a path come last in both directions; items that are equal at all paths keep their order. -/
namespace RecordStore

structure SortKey where
  path : String
  descending : Bool
deriving DecidableEq

namespace SortKey

/-- One leading minus sign means descending; all that follows is the path. -/
def ofText (s : String) : SortKey :=
  match s.toList with
  | '-' :: rest => ⟨String.ofList rest, true⟩
  | _ => ⟨s, false⟩

end SortKey

inductive SortFault where
  | incomparable
  | path (f : Path.Fault)
  /-- What should be a path to sort by is none. -/
  | notKey
deriving DecidableEq

section
variable {α : Type}

/-- Whether all are numbers, none of them NaN, or all are texts. Such values are in total order, and
every stable sort of them gives the same. -/
def inTotalOrder (keys : List Value) : Bool :=
  keys.all (fun v => v.asNum?.any (!·.isNaN)) || keys.all (·.isStr)

/-- Items with what they are sorted by, in order; equal ones keep theirs also when descending. Keys
that are in no total order are sorted by runs, from the end if descending. -/
def sortKeyed (descending : Bool) (items : List (Value × α)) :
    Except SortFault (List (Value × α)) :=
  let less? (a b : Value × α) : Option Bool := a.1.lt? b.1
  if inTotalOrder (items.map Prod.fst) then
    .ok (items.mergeSort fun a b => (if descending then less? a b else less? b a) != some true)
  else
    match if descending then (Sorting.sort? less? items.reverse).map List.reverse
      else Sorting.sort? less? items with
    | some sorted => .ok sorted
    | none => .error .incomparable

def sortByKey (get : α → String → Except Path.Fault Value) (key : SortKey) (items : List α) :
    Except SortFault (List α) := do
  let keyed ← items.mapM fun item => match get item key.path with
    | .ok v => .ok (v, item)
    | .error f => .error (.path f)
  let (absent, present) := keyed.partition fun (v, _) => v.isAbsent
  let sorted ← sortKeyed key.descending present
  return (sorted ++ absent).map Prod.snd

def sortByKeys (get : α → String → Except Path.Fault Value) (keys : List SortKey) (items : List α) :
    Except SortFault (List α) :=
  keys.foldr (fun key sorted => do sortByKey get key (← sorted)) (.ok items)

/-- Sorts by any values, of which each is to be the text of a key. One that is none is met when its
turn comes. -/
def sortByValues (get : α → String → Except Path.Fault Value) (keys : Value) (items : List α) :
    Except SortFault (List α) := do
  (← ofSort keys.backwards).foldlM (fun items key => do
    sortByKey get (SortKey.ofText (← ofSort key.name)) items) items
where
  /-- What cannot be gone through or is of another sort counts as not comparable. -/
  ofSort {β : Type} : Except Failure β → Except SortFault β
    | .ok b => .ok b
    | .error .lacksOperation => .error .notKey
    | .error _ => .error .incomparable

end

def sortByPaths (paths : Value) (items : List Value) : Except SortFault (List Value) :=
  sortByValues (fun v path => v.get (Path.ofText path)) paths items

end RecordStore
