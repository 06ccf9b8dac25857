import RecordStore.Number.Binary64

/-! Decimal text of binary64 numbers: the fewest digits that read back, laid out by a record of
the format's decisions, and the reader of such texts. -/
namespace RecordStore.Decimal

structure Digits where
  digits : Nat
  exponent : Int
deriving DecidableEq

def width (n : Nat) : Nat := (Nat.toDigits 10 n).length

/-- `num / den` over `10 ^ exponent` as a fraction of naturals. -/
def scaled (num den : Nat) (exponent : Int) : Nat × Nat :=
  if 0 ≤ exponent then (num, den * Nat.pow 10 exponent.toNat)
  else (num * Nat.pow 10 (-exponent).toNat, den)

def leading (num den : Nat) : Int :=
  let guess : Int := (width num : Int) - width den
  let (a, b) := scaled num den guess
  if a < b then guess - 1 else guess

/-- Four times the bounds of the reals that round to a magnitude, in smallest units, and whether
the bounds themselves do. -/
structure Interval where
  low : Nat
  high : Nat
  closed : Bool

def intervalOf (units : Nat) : Interval :=
  let step := Binary64.spacing units
  let below := if 1 < step ∧ units = Nat.pow 2 units.log2 then step else 2 * step
  ⟨4 * units - below, 4 * units + 2 * step, units / step % 2 == 0⟩

def Interval.holds (i : Interval) (d : Nat) (exponent : Int) : Bool :=
  let unit := 4 * Binary64.one
  let (p, q) := if 0 ≤ exponent then (d * Nat.pow 10 exponent.toNat * unit, 1)
    else (d * unit, Nat.pow 10 (-exponent).toNat)
  if i.closed then i.low * q ≤ p && p ≤ i.high * q else i.low * q < p && p < i.high * q

/-- The nearer of the two neighbours of the magnitude on the grid of that exponent, among those
that read back; of two equally near ones the even. -/
def onGrid? (units : Nat) (exponent : Int) : Option Nat :=
  let (a, b) := scaled units Binary64.one exponent
  let down := a / b
  let i := intervalOf units
  match i.holds down exponent, i.holds (down + 1) exponent with
  | true, true => some (Binary64.roundDiv a b)
  | true, false => some down
  | false, true => some (down + 1)
  | false, false => none

def shortestFrom (units : Nat) (top : Int) : Nat → Nat → Digits
  | 0, n => ⟨Binary64.roundDiv (scaled units Binary64.one (top - n)).1
      (scaled units Binary64.one (top - n)).2, top - n⟩
  | more + 1, n =>
    match onGrid? units (top - n) with
    | some d => ⟨d, top - n⟩
    | none => shortestFrom units top more (n + 1)

/-- The fewest decimal digits that read back as the magnitude; seventeen always do. -/
def shortest (units : Nat) : Digits :=
  shortestFrom units (leading units Binary64.one) 16 0

def Digits.stripped (d : Digits) : Nat → Digits
  | 0 => d
  | fuel + 1 =>
    if d.digits ≠ 0 ∧ d.digits % 10 = 0 then Digits.stripped ⟨d.digits / 10, d.exponent + 1⟩ fuel
    else d

structure Layout where
  /-- Leading exponents written with positional notation. -/
  positionalFrom : Int
  positionalBelow : Int
  /-- Least number of digits of an exponent. -/
  exponentWidth : Nat
  infinity : String
  nan : String

/-- How numbers stand in answers and messages: positional from 1e-4 up to 1e16, with a digit on
each side of the point; an exponent has a sign and two digits. -/
def Layout.standard : Layout := ⟨-4, 16, 2, "inf", "nan"⟩

def padLeft (width : Nat) (cs : List Char) : List Char :=
  List.replicate (width - cs.length) '0' ++ cs

def positional (digits : List Char) (exponent : Int) : List Char :=
  if 0 ≤ exponent then digits ++ List.replicate exponent.toNat '0' ++ ['.', '0']
  else
    let places := (-exponent).toNat
    let padded := padLeft (places + 1) digits
    padded.take (padded.length - places) ++ '.' :: padded.drop (padded.length - places)

def scientific (layout : Layout) (digits : List Char) (top : Int) : List Char :=
  let tail := match digits with
    | [] => []
    | [c] => [c]
    | c :: rest => c :: '.' :: rest
  let sign := if top < 0 then '-' else '+'
  tail ++ 'e' :: sign :: padLeft layout.exponentWidth (Nat.toDigits 10 top.natAbs)

def layOut (layout : Layout) (d : Digits) : List Char :=
  let cs := Nat.toDigits 10 d.digits
  let top := d.exponent + cs.length - 1
  if layout.positionalFrom ≤ top ∧ top < layout.positionalBelow then positional cs d.exponent
  else scientific layout cs top

def render (layout : Layout) : Binary64 → String
  | .nan _ => layout.nan
  | .infinite s => (if s then "-" else "") ++ layout.infinity
  | .finite s units _ =>
    let body := if units = 0 then positional ['0'] 0
      else layOut layout ((shortest units).stripped 17)
    String.ofList (if s then '-' :: body else body)

def exponentLimit : Int := 5000

def ofDigits (negative : Bool) (digits : Nat) (exponent : Int) : Binary64 :=
  if digits = 0 then .zero negative
  else if exponentLimit < exponent then .infinite negative
  else if exponent + width digits < -exponentLimit then .zero negative
  else if 0 ≤ exponent then .ofRatio negative (digits * Nat.pow 10 exponent.toNat) 1
  else .ofRatio negative digits (Nat.pow 10 (-exponent).toNat)

def digitsValue (cs : List Char) : Nat :=
  cs.foldl (fun acc c => 10 * acc + (c.toNat - 48)) 0

def spanDigits (cs : List Char) : List Char × List Char :=
  (cs.takeWhile Char.isDigit, cs.dropWhile Char.isDigit)

def sign : List Char → Bool × List Char
  | '-' :: rest => (true, rest)
  | '+' :: rest => (false, rest)
  | cs => (false, cs)

/-- An exponent with its sign; none if no digit follows the mark. -/
def exponent? : List Char → Option (Int × List Char)
  | mark :: rest =>
    if mark = 'e' ∨ mark = 'E' then
      let (negative, body) := sign rest
      match spanDigits body with
      | ([], _) => none
      | (ds, rest) => some (if negative then -(digitsValue ds : Int) else digitsValue ds, rest)
    else none
  | [] => none

/-- Reads a whole decimal text, with the names of the layout for the special numbers. -/
def read? (layout : Layout) (s : String) : Option Binary64 :=
  let (negative, body) := sign s.toList
  if body = layout.infinity.toList then some (.infinite negative)
  else if body = layout.nan.toList then some (.nan none)
  else
    let (whole, rest) := spanDigits body
    let (part, rest) := match rest with
      | '.' :: rest => spanDigits rest
      | rest => ([], rest)
    if whole = [] ∧ part = [] then none
    else
      let digits := digitsValue (whole ++ part)
      match rest with
      | [] => some (ofDigits negative digits (-(part.length : Int)))
      | rest => match exponent? rest with
        | some (e, []) => some (ofDigits negative digits (e - part.length))
        | _ => none

end RecordStore.Decimal
