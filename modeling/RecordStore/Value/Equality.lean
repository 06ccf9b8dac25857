import RecordStore.Value.Basic

/-! Three equalities of values. `eq` is the one that queries use: numbers and booleans by exact
value, objects and sets whatever the order of their members, a list never a tuple. `sameKey` is the
one that groups use: a boolean is only itself, and a list and a tuple of the same elements are one
key. `same` is identity of structure. A NaN is not equal to itself, but one with a payload is the
same key and the same element as itself. A document equals nothing. -/
namespace RecordStore.Value

def asNum? : Value → Option Num
  | num n => some n
  | bool b => some (.int (if b then 1 else 0))
  | _ => none

def bytes? : Value → Option (List UInt8)
  | bytes bs => some bs
  | byteArray bs => some bs
  | _ => none

def isSameNaN : Value → Value → Bool
  | num (.float (.nan (some p))), num (.float (.nan (some q))) => p == q
  | _, _ => false

mutual

def eq : Value → Value → Bool
  | null, null => true
  | missing, missing => true
  | num n, w => match w.asNum? with
    | some m => n.eq m
    | none => false
  | bool b, w => match w.asNum? with
    | some m => Num.eq (.int (if b then 1 else 0)) m
    | none => false
  | str s, str t => s == t
  | bytes bs, w => w.bytes? == some bs
  | byteArray bs, w => w.bytes? == some bs
  | date d, date e => d == e
  | datetime t, datetime u => t.eq u
  | list xs, list ys => eqList xs ys
  | tuple xs, tuple ys => eqList xs ys
  | set xs, set ys => xs.length == ys.length && subset xs ys
  | object ms, object ns => ms.length == ns.length && subRecord ms ns
  | _, _ => false

def eqList : List Value → List Value → Bool
  | [], [] => true
  | x :: xs, y :: ys => (x.isSameNaN y || x.eq y) && eqList xs ys
  | _, _ => false

/-- Every element of the first has the same or an equal one in the second. -/
def subset : List Value → List Value → Bool
  | [], _ => true
  | x :: xs, ys => (ys.any fun y => x.isSameNaN y || x.eq y) && subset xs ys

/-- Every member of the first has the same or an equal one of its name in the second. -/
def subRecord : Record → Record → Bool
  | [], _ => true
  | (k, v) :: ms, ns =>
    (match Record.get? k ns with
      | some w => v.isSameNaN w || v.eq w
      | none => false) && subRecord ms ns

end

def isElement (v w : Value) : Bool := v.isSameNaN w || v.eq w

mutual

/-- Whether a value holds bytes that can change, at any depth but inside documents. -/
def holdsByteArray : Value → Bool
  | byteArray _ => true
  | list xs => anyHoldsByteArray xs
  | tuple xs => anyHoldsByteArray xs
  | set xs => anyHoldsByteArray xs
  | object ms => memberHoldsByteArray ms
  | _ => false

def anyHoldsByteArray : List Value → Bool
  | [] => false
  | x :: xs => x.holdsByteArray || anyHoldsByteArray xs

def memberHoldsByteArray : Record → Bool
  | [] => false
  | (_, v) :: ms => v.holdsByteArray || memberHoldsByteArray ms

end

def elements? : Value → Option (List Value)
  | list xs => some xs
  | tuple xs => some xs
  | _ => none

mutual

def sameKey : Value → Value → Bool
  | null, null => true
  | missing, missing => true
  | bool b, bool c => b == c
  | num n, num m => (num n).isSameNaN (num m) || n.eq m
  | str s, str t => s == t
  | bytes bs, bytes cs => bs == cs
  | byteArray bs, byteArray cs => bs == cs
  | date d, date e => d == e
  | datetime t, datetime u => t.eq u
  | list xs, w => match w.elements? with
    | some ys => sameKeys xs ys
    | none => false
  | tuple xs, w => match w.elements? with
    | some ys => sameKeys xs ys
    | none => false
  | set xs, set ys => xs.length == ys.length && keySubset xs ys
  | object ms, object ns => ms.length == ns.length && keySubRecord ms ns
  | _, _ => false

def sameKeys : List Value → List Value → Bool
  | [], [] => true
  | x :: xs, y :: ys => x.sameKey y && sameKeys xs ys
  | _, _ => false

def keySubset : List Value → List Value → Bool
  | [], _ => true
  | x :: xs, ys => ys.any x.sameKey && keySubset xs ys

def keySubRecord : Record → Record → Bool
  | [], _ => true
  | (k, v) :: ms, ns =>
    (match Record.get? k ns with
      | some w => v.sameKey w
      | none => false) && keySubRecord ms ns

end

mutual

/-- Whether a value can be a key of an object or an element of a set: it cannot change. -/
def isKey : Value → Bool
  | list _ | object _ | set _ | byteArray _ => false
  | tuple xs => areKeys xs
  | _ => true

def areKeys : List Value → Bool
  | [] => true
  | x :: xs => x.isKey && areKeys xs

end

mutual

/-- Whether the sets in a value have only elements that they can have. -/
def isSound : Value → Bool
  | list xs => areSound xs
  | tuple xs => areSound xs
  | set xs => areKeys xs && areSound xs
  | object ms => areSoundMembers ms
  | document data => data.isSound
  | _ => true

def areSound : List Value → Bool
  | [] => true
  | x :: xs => x.isSound && areSound xs

def areSoundMembers : Record → Bool
  | [] => true
  | (_, v) :: ms => v.isSound && areSoundMembers ms

end

def isGroupKey (v : Value) : Bool := v.isSound && !v.holdsByteArray

/-- For each value the position of the first one that is the same key; none if it is no key. -/
def keyClasses (vs : List Value) : List (Option Nat) :=
  vs.mapIdx fun i v =>
    if v.isGroupKey then some (min i (vs.findIdx fun w => w.isGroupKey && w.sameKey v))
    else none

mutual

def same : Value → Value → Bool
  | null, null => true
  | missing, missing => true
  | bool b, bool c => b == c
  | num n, num m => n == m
  | str s, str t => s == t
  | bytes bs, bytes cs => bs == cs
  | byteArray bs, byteArray cs => bs == cs
  | date d, date e => d == e
  | datetime t, datetime u => t == u
  | list xs, list ys => sameList xs ys
  | tuple xs, tuple ys => sameList xs ys
  | set xs, set ys => sameList xs ys
  | object ms, object ns => sameRecord ms ns
  | document v, document w => v.same w
  | _, _ => false

def sameList : List Value → List Value → Bool
  | [], [] => true
  | x :: xs, y :: ys => x.same y && sameList xs ys
  | _, _ => false

def sameRecord : Record → Record → Bool
  | [], [] => true
  | (k, v) :: ms, (l, w) :: ns => k == l && v.same w && sameRecord ms ns
  | _, _ => false

end

mutual

theorem same_iff : ∀ v w : Value, v.same w = true ↔ v = w
  | null, w => by cases w <;> simp [same]
  | missing, w => by cases w <;> simp [same]
  | bool _, w => by cases w <;> simp [same]
  | num _, w => by cases w <;> simp [same]
  | str _, w => by cases w <;> simp [same]
  | bytes _, w => by cases w <;> simp [same]
  | byteArray _, w => by cases w <;> simp [same]
  | date _, w => by cases w <;> simp [same]
  | datetime _, w => by cases w <;> simp [same]
  | list xs, w => by cases w <;> simp [same, sameList_iff xs]
  | tuple xs, w => by cases w <;> simp [same, sameList_iff xs]
  | set xs, w => by cases w <;> simp [same, sameList_iff xs]
  | object ms, w => by cases w <;> simp [same, sameRecord_iff ms]
  | document v, w => by cases w <;> simp [same, same_iff v]

theorem sameList_iff : ∀ xs ys : List Value, sameList xs ys = true ↔ xs = ys
  | [], ys => by cases ys <;> simp [sameList]
  | x :: xs, ys => by cases ys <;> simp [sameList, same_iff x, sameList_iff xs]

theorem sameRecord_iff : ∀ ms ns : Record, sameRecord ms ns = true ↔ ms = ns
  | [], ns => by cases ns <;> simp [sameRecord]
  | (k, v) :: ms, ns => by
    cases ns <;> simp [sameRecord, same_iff v, sameRecord_iff ms, Prod.ext_iff, and_assoc]

end

instance : DecidableEq Value := fun v w => decidable_of_iff _ (same_iff v w)

end RecordStore.Value
