import RecordStore.Number.Basic
import RecordStore.Text.Quoted
import RecordStore.Time.Instant

/-! Values of records: the dynamic data that collections hold, queries compare and aggregates
group. An object keeps its members in the order in which they came, a document stands for its data,
and `missing` is what a path that leads nowhere gives. -/
namespace RecordStore

/-- The name of a member: a text or, for a key that is none, how it reads and how messages write it.
A text finds only the member that has it for its name. -/
inductive Name where
  | text (s : String)
  | key (reading writing : String)
deriving DecidableEq

namespace Name

instance : Coe String Name := ⟨text⟩

def reading : Name → String
  | text s => s
  | key reading _ => reading

def writing : Name → String
  | text s => Text.quoted s
  | key _ writing => writing

end Name

inductive Value where
  | null
  | bool (b : Bool)
  | num (n : Num)
  | str (s : String)
  | bytes (bs : List UInt8)
  /-- Bytes that can change; they are no key of a group. -/
  | byteArray (bs : List UInt8)
  | date (d : Date)
  | datetime (t : DateTime)
  | list (xs : List Value)
  | tuple (xs : List Value)
  /-- Elements are pairwise different. -/
  | set (xs : List Value)
  | object (ms : List (Name × Value))
  | document (data : Value)
  | missing

abbrev Record := List (Name × Value)

namespace Record

def get? (name : Name) : Record → Option Value
  | [] => none
  | (k, v) :: ms => if k = name then some v else get? name ms

def has (name : Name) (r : Record) : Bool := (r.get? name).isSome

def put (name : Name) (v : Value) : Record → Record
  | [] => [(name, v)]
  | (k, w) :: ms => if k = name then (k, v) :: ms else (k, w) :: put name v ms

def erase (name : Name) : Record → Record
  | [] => []
  | (k, v) :: ms => if k = name then ms else (k, v) :: erase name ms

def putAll (r : Record) (ms : Record) : Record :=
  ms.foldl (fun acc (k, v) => acc.put k v) r

def keys (r : Record) : List String := r.map (·.1.reading)

def entries (r : Record) : List (String × Value) := r.map fun (name, v) => (name.reading, v)

end Record

namespace Value

def int (i : Int) : Value := num (.int i)
def float (x : Binary64) : Value := num (.float x)

/-- Name of the kind of a value, as messages give it. -/
def kind : Value → String
  | null => "NoneType"
  | bool _ => "bool"
  | num (.int _) => "int"
  | num (.float _) => "float"
  | str _ => "str"
  | bytes _ => "bytes"
  | byteArray _ => "bytearray"
  | date _ => "date"
  | datetime _ => "datetime"
  | list _ => "list"
  | tuple _ => "tuple"
  | set _ => "set"
  | object _ => "dict"
  | document _ => "Document"
  | missing => "_Missing"

/-- Null and what is missing count as nothing. -/
def isAbsent : Value → Bool
  | null => true
  | missing => true
  | _ => false

def isMissing : Value → Bool
  | missing => true
  | _ => false

def isNum : Value → Bool
  | num _ => true
  | _ => false

def isStr : Value → Bool
  | str _ => true
  | _ => false

def isObject : Value → Bool
  | object _ => true
  | _ => false

/-- Whether a value counts as given: nothing, false, zero and what is empty do not. -/
def truthy : Value → Bool
  | null => false
  | bool b => b
  | num n => !n.isZero
  | str s => s ≠ ""
  | bytes bs => !bs.isEmpty
  | byteArray bs => !bs.isEmpty
  | list xs => !xs.isEmpty
  | tuple xs => !xs.isEmpty
  | set xs => !xs.isEmpty
  | object ms => !ms.isEmpty
  | date _ => true
  | datetime _ => true
  | document _ => true
  | missing => false

def byteValues (bs : List UInt8) : List Value := bs.map fun b => int b.toNat

/-- The elements of a value that a request may give as a list: bytes count as their numbers. -/
def sequence? : Value → Option (List Value)
  | list xs => some xs
  | tuple xs => some xs
  | bytes bs => some (byteValues bs)
  | byteArray bs => some (byteValues bs)
  | _ => none

def members? : Value → Option Record
  | object ms => some ms
  | _ => none

end Value

end RecordStore
