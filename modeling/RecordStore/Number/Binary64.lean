/-! Binary64 numbers as exact naturals. Every finite number is a whole multiple of the smallest
one, 2^-1074, so a number is its sign and that multiple; order, sums, products and quotients are
integer arithmetic, and one function rounds an exact quotient to the nearest number. -/
namespace RecordStore

namespace Binary64

/-- How many smallest units make 1. -/
def one : Nat := Nat.pow 2 1074

/-- Distance between neighbouring magnitudes at a size: 53 significant bits are kept. -/
def spacing (units : Nat) : Nat := Nat.pow 2 (units.log2 - 52)

/-- The multiples of the smallest unit that are magnitudes of finite numbers. -/
def Representable (units : Nat) : Prop :=
  units < Nat.pow 2 2098 ∧ units % spacing units = 0

instance (units : Nat) : Decidable (Representable units) :=
  inferInstanceAs (Decidable (_ ∧ _))

end Binary64

/-- A binary64 number. The two zeros differ. A NaN may have a payload, which tells it from others;
those that arithmetic makes have none. -/
inductive Binary64 where
  | nan (payload : Option Nat)
  | infinite (negative : Bool)
  | finite (negative : Bool) (units : Nat) (fits : Binary64.Representable units)
deriving DecidableEq

namespace Binary64

/-- Quotient rounded to the nearest natural, a half to the even neighbour. -/
def roundDiv (num den : Nat) : Nat :=
  let q := num / den
  let twice := 2 * (num % den)
  if twice < den then q
  else if den < twice then q + 1
  else if q % 2 = 0 then q else q + 1

/-- The finite number of that magnitude, or the infinity beyond the format. -/
def ofUnits (negative : Bool) (units : Nat) : Binary64 :=
  if h : Representable units then .finite negative units h else .infinite negative

def nearest (negative : Bool) (num den : Nat) : Binary64 :=
  let step := spacing (num / den)
  ofUnits negative (roundDiv num (den * step) * step)

def ofRatio (negative : Bool) (num den : Nat) : Binary64 :=
  nearest negative (num * one) den

def zero (negative : Bool) : Binary64 := ofUnits negative 0

def isNegative : Binary64 → Bool
  | nan _ => false
  | infinite s => s
  | finite s _ _ => s

def isNaN : Binary64 → Bool
  | nan _ => true
  | _ => false

def isZero : Binary64 → Bool
  | finite _ 0 _ => true
  | _ => false

/-- Value of a finite number in smallest units. -/
def signedUnits (negative : Bool) (units : Nat) : Int :=
  if negative then -(units : Int) else units

def neg : Binary64 → Binary64
  | nan _ => nan none
  | infinite s => infinite !s
  | finite s u h => finite (!s) u h

def add : Binary64 → Binary64 → Binary64
  | nan _, _ | _, nan _ => nan none
  | infinite s, infinite t => if s = t then infinite s else nan none
  | infinite s, _ | _, infinite s => infinite s
  | finite s u _, finite t v _ =>
    let sum := signedUnits s u + signedUnits t v
    if sum = 0 then zero (s && t) else nearest (sum < 0) sum.natAbs 1

def sub (x y : Binary64) : Binary64 := add x (neg y)

def mul : Binary64 → Binary64 → Binary64
  | nan _, _ | _, nan _ => nan none
  | infinite s, infinite t => infinite (s != t)
  | infinite s, finite t v _ | finite t v _, infinite s =>
    if v = 0 then nan none else infinite (s != t)
  | finite s u _, finite t v _ => nearest (s != t) (u * v) one

def div : Binary64 → Binary64 → Binary64
  | nan _, _ | _, nan _ => nan none
  | infinite _, infinite _ => nan none
  | infinite s, finite t _ _ => infinite (s != t)
  | finite s _ _, infinite t => zero (s != t)
  | finite s u _, finite t v _ =>
    if v = 0 then if u = 0 then nan none else infinite (s != t)
    else ofRatio (s != t) u v

/-- What is left after taking away a whole number of `y`s towards zero; it has the sign of `x`. -/
def remainder : Binary64 → Binary64 → Binary64
  | nan _, _ | _, nan _ => nan none
  | infinite _, _ => nan none
  | x, infinite _ => x
  | finite s u _, finite _ v _ => if v = 0 then nan none else ofUnits s (u % v)

def floor : Binary64 → Binary64
  | finite s u h =>
    if u % one = 0 then finite s u h
    else if s then nearest true ((u / one + 1) * one) 1
    else nearest false (u / one * one) 1
  | x => x

def toInt? : Binary64 → Option Int
  | finite s u _ => if u % one = 0 then some (signedUnits s (u / one)) else none
  | _ => none

/-- The nearest number to an integer; none beyond the finite numbers. -/
def ofInt? (i : Int) : Option Binary64 :=
  match ofRatio (i < 0) i.natAbs 1 with
  | infinite _ => none
  | x => some x

/-- Nearest number to the quotient of an integer and a positive natural; none beyond the finite
numbers. -/
def ofQuotient? (num : Int) (den : Nat) : Option Binary64 :=
  match ofRatio (num < 0) num.natAbs den with
  | infinite _ => none
  | x => some x

end Binary64

end RecordStore
