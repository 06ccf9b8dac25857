import RecordStore.Value.Equality

/-! The order of values. Only values of one sort are comparable: numbers with booleans, texts by
code point, bytes, dates, clock readings that both have an offset or both have none, lists and
tuples element by element up to the first that differs, and sets by inclusion. -/
namespace RecordStore.Value

/-- First list before the second, the shorter first if one continues the other. -/
def bytesLt : List UInt8 → List UInt8 → Bool
  | _, [] => false
  | [], _ :: _ => true
  | a :: as, b :: bs => if a = b then bytesLt as bs else a < b

mutual

/-- Whether the first is less; none if the two are not comparable. -/
def lt? : Value → Value → Option Bool
  | num n, w => w.asNum?.map n.lt
  | bool b, w => w.asNum?.map (Num.lt (.int (if b then 1 else 0)))
  | str s, str t => some (s < t)
  | bytes bs, w => w.bytes?.map (bytesLt bs)
  | byteArray bs, w => w.bytes?.map (bytesLt bs)
  | date d, date e => some (d.day < e.day)
  | datetime t, datetime u => t.lt? u
  | list xs, list ys => listLt? xs ys
  | tuple xs, tuple ys => listLt? xs ys
  | set xs, set ys => some (xs.length < ys.length && subset xs ys)
  | _, _ => none

def listLt? : List Value → List Value → Option Bool
  | _, [] => some false
  | [], _ :: _ => some true
  | x :: xs, y :: ys => if x.isElement y then listLt? xs ys else x.lt? y

end

end RecordStore.Value
