import RecordStore.Text.Blank
import RecordStore.Text.Digit
import RecordStore.Text.Split
import RecordStore.Value.Basic

/-! Reading options from values. Each field has its rule; all problems are reported, those of the
fields first, in the order of the fields, then the names that no field has. -/
namespace RecordStore.Options

inductive Rule where
  | boolText
  | boolKind
  | integerKind
  | integerText
  | integerSize
  | wholeNumber
  | finiteNumber
  | atLeast
  | listKind
  | textKind
  | textEncoding
  | objectKind
  | unknownName
deriving DecidableEq

def Rule.code : Rule → String
  | boolText => "bool_parsing"
  | boolKind => "bool_type"
  | integerKind => "int_type"
  | integerText => "int_parsing"
  | integerSize => "int_parsing_size"
  | wholeNumber => "int_from_float"
  | finiteNumber => "finite_number"
  | atLeast => "greater_than_equal"
  | listKind => "list_type"
  | textKind => "string_type"
  | textEncoding => "string_unicode"
  | objectKind => "model_type"
  | unknownName => "extra_forbidden"

/-- A broken rule and where: names of fields and positions in lists. -/
structure Problem where
  location : List String
  rule : Rule
deriving DecidableEq

namespace Problem

def text (p : Problem) : String := ".".intercalate p.location ++ ": " ++ p.rule.code

def within (name : String) (p : Problem) : Problem := { p with location := name :: p.location }

def texts (ps : List Problem) : String := "; ".intercalate (ps.map text)

end Problem

def broken {α : Type} (rule : Rule) : Except (List Problem) α := .error [⟨[], rule⟩]

def boolWord? (s : String) : Option Bool :=
  let word := String.ofList (s.toList.map Char.toLower)
  if word ∈ ["1", "on", "t", "true", "y", "yes"] then some true
  else if word ∈ ["0", "off", "f", "false", "n", "no"] then some false
  else none

def decoded? (bs : List UInt8) : Option String := String.fromUTF8? ⟨bs.toArray⟩

def boolOfWord (word : Option String) : Except (List Problem) Bool :=
  match word.bind boolWord? with
  | some b => .ok b
  | none => broken .boolText

/-- Zero and one stand for no and yes; other integers of a machine word are no words for either. -/
def boolOfInt (inWord : Bool) (i : Int) : Except (List Problem) Bool :=
  if i = 0 then .ok false else if i = 1 then .ok true
  else broken (if inWord then .boolText else .boolKind)

def fitsWord (i : Int) : Bool := -9223372036854775808 ≤ i && i < 9223372036854775808

/-- Whole binary64 numbers that are taken for an integer: those of a machine word but the least. -/
def isMachineSized (i : Int) : Bool := fitsWord i && i != -9223372036854775808

def lenientBool : Value → Except (List Problem) Bool
  | .bool b => .ok b
  | .str s => boolOfWord (some s)
  | .bytes bs => boolOfWord (decoded? bs)
  | .num (.int i) => boolOfInt (fitsWord i) i
  | .num (.float x) => match x.toInt? with
    | some i => boolOfInt (isMachineSized i) i
    | none => broken .boolKind
  | _ => broken .boolKind

def strictBool : Value → Except (List Problem) Bool
  | .bool b => .ok b
  | _ => broken .boolKind

/-- What is left behind zeros and low lines, of which the last is given: from a digit, a minus sign,
or the character before a point on; the last character itself if nothing follows. -/
def behindZeros? (last : Char) : List Char → Option (List Char)
  | [] => some [last]
  | c :: rest =>
    if c = '0' ∨ c = '_' then behindZeros? c rest
    else if c = '.' then some (last :: c :: rest)
    else if c = '-' ∨ c.isDigit then some (c :: rest)
    else none

/-- Drops the zeros that a numeral starts with, and low lines among them. -/
def dropZeros? : List Char → Option (List Char)
  | [] => none
  | c :: rest =>
    if c = '0' then behindZeros? c rest
    else if c = '-' ∨ c.isDigit then some (c :: rest)
    else none

def dropZeroTail (cs : List Char) : List Char :=
  match Text.breakAt (· = '.') cs with
  | (whole, _ :: zeros) => if zeros ≠ [] ∧ zeros.all (· = '0') then whole else cs
  | _ => cs

def dropLowLines (cs : List Char) : List Char :=
  let groups := Text.split '_' cs
  if groups.all (· ≠ []) then groups.flatten else cs

/-- A numeral without a plus sign, leading zeros, low lines, and zeros behind a point. -/
def tidied? (cs : List Char) : Option (List Char) := do
  let cs ← match cs with
    | '-' :: rest => (dropZeros? rest).map ('-' :: ·)
    | '+' :: rest => dropZeros? rest
    | cs => dropZeros? cs
  return dropLowLines (dropZeroTail cs)

def minus : List Char → Bool × List Char
  | '-' :: rest => (true, rest)
  | cs => (false, cs)

/-- The integer of a plain numeral: digits without a leading zero, behind a minus sign or none. -/
def plainInteger? (cs : List Char) : Option Int := do
  let (negative, body) := minus cs
  if Text.numeralLimit < body.length ∨ (body.head? = some '0' ∧ body ≠ ['0']) then none
  else
    let n ← Text.asciiNumeral? body
    return if negative then -(n : Int) else n

/-- Whether a text starts like a plain numeral that has too many digits. -/
def isOversized (cs : List Char) : Bool :=
  let digits := (minus cs).2.takeWhile Char.isDigit
  Text.numeralLimit < digits.length && digits.head? != some '0'

/-- The integer of a plain numeral, or of one that is tidied up. Only of a text that is too long as
it stands the size is at fault. -/
def integerOfText (s : String) : Except (List Problem) Int :=
  let cs := s.toList
  if isOversized cs then broken .integerSize
  else match (plainInteger? cs).or ((tidied? (Text.trim cs)).bind plainInteger?) with
    | some n => .ok n
    | none => broken .integerText

/-- An integer, or a boolean, number or text that stands for one. -/
def lenientInt : Value → Except (List Problem) Int
  | .num (.int i) => .ok i
  | .bool b => .ok (if b then 1 else 0)
  | .num (.float x) => match x with
    | .finite .. => match x.toInt? with
      | some i => if isMachineSized i then .ok i else broken .integerSize
      | none => broken .wholeNumber
    | _ => broken .finiteNumber
  | .str s => integerOfText s
  | .bytes bs => match decoded? bs with
    | some s => integerOfText s
    | none => broken .integerText
  | _ => broken .integerKind

def positiveInt (v : Value) : Except (List Problem) Int := do
  let i ← lenientInt v
  if i < 1 then broken .atLeast else return i

def optionalLimit : Value → Except (List Problem) (Option Int)
  | .null => .ok none
  | v => (positiveInt v).map some

def lenientText : Value → Except (List Problem) String
  | .str s => .ok s
  | .bytes bs | .byteArray bs => match decoded? bs with
    | some s => .ok s
    | none => broken .textEncoding
  | _ => broken .textKind

/-- Texts, the first at this position; problems go by position. -/
def textsFrom (position : Nat) : List Value → Except (List Problem) (List String)
  | [] => .ok []
  | x :: xs =>
    match (lenientText x).mapError (·.map (·.within (toString position))),
      textsFrom (position + 1) xs with
    | .ok s, .ok ss => .ok (s :: ss)
    | .ok _, .error qs => .error qs
    | .error ps, .ok _ => .error ps
    | .error ps, .error qs => .error (ps ++ qs)

def textList : Value → Except (List Problem) (List String)
  | .list xs | .tuple xs | .set xs => textsFrom 0 xs
  | _ => broken .listKind

/-- What reading one field gives: its value or default, its problems, and the name it took. -/
structure Field (α : Type) where
  value : α
  problems : List Problem
  taken : List String

/-- Reads a field under the first of its names that is there, by which its problems go. -/
def field {α : Type} (ms : Record) (name : String) (others : List String) (default : α)
    (read : Value → Except (List Problem) α) : Field α :=
  match (name :: others).find? fun (n : String) => ms.has n with
  | none => ⟨default, [], []⟩
  | some n => match read ((ms.get? n).getD .null) with
    | .ok a => ⟨a, [], [n]⟩
    | .error ps => ⟨default, ps.map (·.within n), [n]⟩

def unknownNames (ms : Record) (taken : List String) : List Problem :=
  (ms.keys.filter fun k => k ∉ taken).map fun k => ⟨[k], .unknownName⟩

end RecordStore.Options
