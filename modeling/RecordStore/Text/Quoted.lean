import RecordStore.Text.Printable

/-! Texts inside messages. A text stands between single quotes, or between double quotes when it
holds a single quote and no double quote; what is not printable is written by its code point. -/
namespace RecordStore.Text

def hexDigit (n : Nat) : Char :=
  if n < 10 then Char.ofNat (48 + n) else Char.ofNat (87 + n)

def hex : Nat → Nat → List Char
  | 0, _ => []
  | width + 1, n => hex width (n / 16) ++ [hexDigit (n % 16)]

/-- The shortest of the three numbered forms that holds the code point. -/
def numbered (n : Nat) : List Char :=
  if n < 0x100 then '\\' :: 'x' :: hex 2 n
  else if n < 0x10000 then '\\' :: 'u' :: hex 4 n
  else '\\' :: 'U' :: hex 8 n

def quoteMark (cs : List Char) : Char :=
  if '\'' ∈ cs ∧ '"' ∉ cs then '"' else '\''

def escaped (mark c : Char) : List Char :=
  if c = mark ∨ c = '\\' then ['\\', c]
  else if c = '\t' then ['\\', 't']
  else if c = '\n' then ['\\', 'n']
  else if c = '\r' then ['\\', 'r']
  else if isPrintable c then [c]
  else numbered c.toNat

def quoted (s : String) : String :=
  let mark := quoteMark s.toList
  String.ofList (mark :: s.toList.flatMap (escaped mark) ++ [mark])

/-- One byte of a byte text; only printable ASCII stands for itself. -/
def escapedByte (mark : Char) (b : UInt8) : List Char :=
  if b < 0x80 ∧ b ≠ 0x7f then escaped mark (Char.ofNat b.toNat) else numbered b.toNat

/-- Bytes between quotes, each written by a function of the quote. -/
def byteText (write : Char → UInt8 → List Char) (bs : List UInt8) : String :=
  let mark := quoteMark (bs.map fun b => Char.ofNat b.toNat)
  String.ofList ('b' :: mark :: bs.flatMap (write mark) ++ [mark])

def quotedBytes (bs : List UInt8) : String := byteText escapedByte bs

/-- Bytes that can change have each single quote escaped, whatever stands around them. -/
def quotedByteArray (bs : List UInt8) : String :=
  byteText (fun mark b => if b = 0x27 then ['\\', '\''] else escapedByte mark b) bs

def commas (xs : List String) : String := ", ".intercalate xs

example : quoted "it's" = "\"it's\"" := by decide +kernel

end RecordStore.Text
