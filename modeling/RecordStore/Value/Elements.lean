import RecordStore.Fault
import RecordStore.Value.Equality

/-! Going through a value element by element, as updates do with what they are given. -/
namespace RecordStore
namespace Value

/-- The elements of a value: the names of an object, the characters of a text, the numbers of
bytes. -/
def elements (v : Value) : Except Failure (List Value) :=
  match v with
  | object ms => .ok (ms.map fun (name, _) => str name.reading)
  | str s => .ok (s.toList.map fun c => str (String.singleton c))
  | set xs => .ok xs
  | v => match v.sequence? with
    | some xs => .ok xs
    | none => .error .notIterable

/-- A value that is asked for the parts of a text; bytes have such parts, but not of text. -/
def name : Value → Except Failure String
  | str s => .ok s
  | bytes _ | byteArray _ => .error .incomparable
  | _ => .error .lacksOperation

def members : Value → Except Failure Record
  | object ms => .ok ms
  | _ => .error .lacksOperation

/-- The elements of a value that has an order, from the last to the first. -/
def backwards (v : Value) : Except Failure (List Value) :=
  match v with
  | set _ => .error .notIterable
  | v => do return (← v.elements).reverse

/-- Whether a value that can be asked for it holds a text: as a name, an element or a part. -/
def holds (s : String) : Value → Except Failure Bool
  | object ms => .ok (Record.has s ms)
  | list xs | tuple xs | set xs => .ok (xs.any (str s).eq)
  | str t => .ok (isPart s.toList t.toList)
  | _ => .error .notIterable
where
  /-- Whether characters stand together somewhere in others. -/
  isPart (part : List Char) : List Char → Bool
    | [] => part.isEmpty
    | c :: cs => part.isPrefixOf (c :: cs) || isPart part cs

def memberName : Value → Name
  | str s => .text s
  | v => .key v.reading v.text

def member (name : String) : Value → Except Failure Value
  | object ms => .ok ((Record.get? name ms).getD missing)
  | _ => .error .incomparable

/-- The position in a list that a value stands for; a negative one counts from the end. -/
def positionIn (length : Nat) (v : Value) : Except Failure Nat :=
  match v.asNum? with
  | some (.int i) =>
    let position := if i < 0 then length + i else i
    if 0 ≤ position ∧ position < length then .ok position.toNat else .error .noElement
  | _ => .error .incomparable

/-- Sets a member of an object, or the element at a position of a list. -/
def putMember (v key w : Value) : Except Failure Value :=
  match v with
  | object ms =>
    if key.isKey then .ok (object (Record.put key.memberName w ms)) else .error .incomparable
  | list xs => do return list (xs.set (← key.positionIn xs.length) w)
  | _ => .error .incomparable

def pair (v : Value) : Except Failure (Value × Value) := do
  match ← v.elements with
  | [key, w] => if key.isKey then return (key, w) else throw .incomparable
  | _ => throw .notPair

/-- Replaces the value of an equal key or adds the pair at the end. -/
def putPair (key w : Value) : List (Value × Value) → List (Value × Value)
  | [] => [(key, w)]
  | (k, u) :: ps => if k.isElement key then (k, w) :: ps else (k, u) :: putPair key w ps

end Value

/-- Puts what a value holds: the members of an object, or pairs of keys and values. -/
def Record.putHeld (r : Record) : Value → Except Failure Record
  | .object ms => .ok (r.putAll ms)
  | v => do
    let pairs ← (← v.elements).mapM Value.pair
    let merged := pairs.foldl (fun ps (key, w) => Value.putPair key w ps) []
    return r.putAll (merged.map fun (key, w) => (key.memberName, w))

end RecordStore
