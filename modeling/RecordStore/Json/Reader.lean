import RecordStore.Text.Digit
import RecordStore.Value.Basic

/-! Reading JSON texts. Members keep the order in which they come; a name that comes again keeps
its first place and takes its last value. Besides the standard's numbers, `NaN` and the infinities
are read; integers are limited in their digits, and lists and objects in their depth. -/
namespace RecordStore.Json

inductive Fault where
  | malformed
  | integerTooLong
  | tooDeep
deriving DecidableEq

def skipBlanks (cs : List Char) : List Char :=
  cs.dropWhile fun c => c = ' ' || c = '\t' || c = '\n' || c = '\r'

def hexValue? (c : Char) : Option Nat :=
  if '0' ≤ c ∧ c ≤ '9' then some (c.toNat - 48)
  else if 'a' ≤ c ∧ c ≤ 'f' then some (c.toNat - 87)
  else if 'A' ≤ c ∧ c ≤ 'F' then some (c.toNat - 55)
  else none

def hex4? (a b c d : Char) : Option Nat := do
  return (((← hexValue? a) * 16 + (← hexValue? b)) * 16 + (← hexValue? c)) * 16 + (← hexValue? d)

def escape? : Char → Option Nat
  | '"' => some 0x22
  | '\\' => some 0x5c
  | '/' => some 0x2f
  | 'b' => some 0x8
  | 'f' => some 0xc
  | 'n' => some 0xa
  | 'r' => some 0xd
  | 't' => some 0x9
  | _ => none

/-- Code points and halves of pairs up to the closing quote, the last first, and what follows. -/
def codes? : List Char → List Nat → Option (List Nat × List Char)
  | [], _ => none
  | '"' :: rest, seen => some (seen, rest)
  | '\\' :: 'u' :: a :: b :: c :: d :: rest, seen =>
    match hex4? a b c d with
    | some n => codes? rest (n :: seen)
    | none => none
  | '\\' :: c :: rest, seen =>
    match escape? c with
    | some n => codes? rest (n :: seen)
    | none => none
  | c :: rest, seen => if c.toNat < 0x20 then none else codes? rest (c.toNat :: seen)

def isHigh (n : Nat) : Bool := 0xd800 ≤ n && n < 0xdc00
def isLow (n : Nat) : Bool := 0xdc00 ≤ n && n < 0xe000

def joinPairs : List Nat → List Char
  | [] => []
  | [n] => [if isHigh n || isLow n then '\ufffd' else Char.ofNat n]
  | n :: m :: rest =>
    if isHigh n && isLow m then
      Char.ofNat (0x10000 + (n - 0xd800) * 0x400 + (m - 0xdc00)) :: joinPairs rest
    else (if isHigh n || isLow n then '\ufffd' else Char.ofNat n) :: joinPairs (m :: rest)

def string? (cs : List Char) : Option (String × List Char) :=
  (codes? cs []).map fun (codes, rest) => (String.ofList (joinPairs codes.reverse), rest)

def whole? : List Char → Option (List Char × List Char)
  | '0' :: rest => some (['0'], rest)
  | cs => match Decimal.spanDigits cs with
    | ([], _) => none
    | found => some found

def numeral (cs : List Char) : Except Fault (Value × List Char) := do
  let (negative, body) := match cs with
    | '-' :: rest => (true, rest)
    | _ => (false, cs)
  let (whole, rest) ← (whole? body).elim (.error .malformed) .ok
  let (part, afterPart) := match rest with
    | '.' :: tail => match Decimal.spanDigits tail with
      | ([], _) => ([], rest)
      | found => found
    | _ => ([], rest)
  let (power, last) := match Decimal.exponent? afterPart with
    | some (e, tail) => (some e, tail)
    | none => (none, afterPart)
  if part = [] ∧ power = none then
    if Text.numeralLimit < whole.length then throw .integerTooLong
    let n : Int := Decimal.digitsValue whole
    return (.int (if negative then -n else n), last)
  else
    let x := Decimal.ofDigits negative (Decimal.digitsValue (whole ++ part))
      (power.getD 0 - part.length)
    return (.float x, last)

def word? : List Char → Option (Value × List Char)
  | 'n' :: 'u' :: 'l' :: 'l' :: rest => some (.null, rest)
  | 't' :: 'r' :: 'u' :: 'e' :: rest => some (.bool true, rest)
  | 'f' :: 'a' :: 'l' :: 's' :: 'e' :: rest => some (.bool false, rest)
  | 'N' :: 'a' :: 'N' :: rest => some (.float (.nan none), rest)
  | 'I' :: 'n' :: 'f' :: 'i' :: 'n' :: 'i' :: 't' :: 'y' :: rest =>
    some (.float (.infinite false), rest)
  | '-' :: 'I' :: 'n' :: 'f' :: 'i' :: 'n' :: 'i' :: 't' :: 'y' :: rest =>
    some (.float (.infinite true), rest)
  | _ => none

mutual

/-- A value after blanks. The first argument bounds the depth of calls, the second that of lists and
objects. -/
def value : Nat → Nat → List Char → Except Fault (Value × List Char)
  | 0, _, _ => .error .malformed
  | fuel + 1, depth, cs =>
    match skipBlanks cs, depth with
    | '"' :: rest, _ => match string? rest with
      | some (s, rest) => .ok (.str s, rest)
      | none => .error .malformed
    | '[' :: _, 0 | '{' :: _, 0 => .error .tooDeep
    | '[' :: rest, depth + 1 => match skipBlanks rest with
      | ']' :: rest => .ok (.list [], rest)
      | rest => (elements fuel depth rest).map fun (xs, rest) => (.list xs, rest)
    | '{' :: rest, depth + 1 => match skipBlanks rest with
      | '}' :: rest => .ok (.object [], rest)
      | rest => (members fuel depth rest []).map fun (ms, rest) => (.object ms, rest)
    | cs, _ => match word? cs with
      | some found => .ok found
      | none => numeral cs

def elements : Nat → Nat → List Char → Except Fault (List Value × List Char)
  | 0, _, _ => .error .malformed
  | fuel + 1, depth, cs =>
    match value fuel depth cs with
    | .error f => .error f
    | .ok (v, rest) => match skipBlanks rest with
      | ',' :: rest => (elements fuel depth rest).map fun (vs, rest) => (v :: vs, rest)
      | ']' :: rest => .ok ([v], rest)
      | _ => .error .malformed

def members : Nat → Nat → List Char → Record → Except Fault (Record × List Char)
  | 0, _, _, _ => .error .malformed
  | fuel + 1, depth, cs, seen =>
    match skipBlanks cs with
    | '"' :: rest => match string? rest with
      | none => .error .malformed
      | some (name, rest) => match skipBlanks rest with
        | ':' :: rest => match value fuel depth rest with
          | .error f => .error f
          | .ok (v, rest) => match skipBlanks rest with
            | ',' :: rest => members fuel depth rest (seen.put name v)
            | '}' :: rest => .ok (seen.put name v, rest)
            | _ => .error .malformed
        | _ => .error .malformed
    | _ => .error .malformed

end

def depthLimit : Nat := 985

def read (s : String) : Except Fault Value := do
  let cs := s.toList
  let (v, rest) ← value (2 * cs.length + 2) depthLimit cs
  if skipBlanks rest = [] then return v else throw .malformed

end RecordStore.Json
