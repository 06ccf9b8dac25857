import RecordStore.Number.Decimal

/-! Numbers of records: integers of any size and binary64 numbers. Order and equality are exact;
arithmetic of two integers is exact, and any other arithmetic is done in binary64. -/
namespace RecordStore

inductive Num where
  | int (value : Int)
  | float (value : Binary64)
deriving DecidableEq

/-- Where a number other than a NaN stands: at an infinity or at a whole multiple of the smallest
binary64 unit. -/
inductive Place where
  | bottom
  | point (units : Int)
  | top
deriving DecidableEq

namespace Place

def le : Place → Place → Bool
  | bottom, _ => true
  | _, top => true
  | point a, point b => a ≤ b
  | _, _ => false

def lt (p q : Place) : Bool := !q.le p

end Place

namespace Num

def place? : Num → Option Place
  | int i => some (.point (i * Binary64.one))
  | float (.nan _) => none
  | float (.infinite s) => some (if s then .bottom else .top)
  | float (.finite s u _) => some (.point (Binary64.signedUnits s u))

/-- Equal by exact value; a NaN equals nothing. -/
def eq (a b : Num) : Bool :=
  match a.place?, b.place? with
  | some p, some q => p == q
  | _, _ => false

def lt (a b : Num) : Bool :=
  match a.place?, b.place? with
  | some p, some q => p.lt q
  | _, _ => false

def le (a b : Num) : Bool :=
  match a.place?, b.place? with
  | some p, some q => p.le q
  | _, _ => false

def isNaN : Num → Bool
  | float x => x.isNaN
  | int _ => false

def isInt : Num → Bool
  | int _ => true
  | float _ => false

def isZero : Num → Bool
  | int i => i == 0
  | float x => x.isZero

def toBinary64? : Num → Option Binary64
  | int i => Binary64.ofInt? i
  | float x => some x

/-- An operation on integers, or on both numbers in binary64. -/
def lift (onInt : Int → Int → Int) (onFloat : Binary64 → Binary64 → Binary64) :
    Num → Num → Option Num
  | int a, int b => some (int (onInt a b))
  | a, b => do return float (onFloat (← a.toBinary64?) (← b.toBinary64?))

def add : Num → Num → Option Num := lift (· + ·) .add
def sub : Num → Num → Option Num := lift (· - ·) .sub
def mul : Num → Num → Option Num := lift (· * ·) .mul

end Num

namespace Binary64

/-- Whole number of divisors in a dividend, in rounded steps: the remainder is taken first, the
quotient of the rest moves to the divisor's side and snaps to the nearest whole number. -/
def floorDiv (x y : Binary64) : Binary64 :=
  let one := ofUnits false Binary64.one
  let half := ofUnits false (Binary64.one / 2)
  let rest := x.remainder y
  let quotient := (x.sub rest).div y
  let quotient :=
    if !rest.isZero && !rest.isNaN && (y.isNegative != rest.isNegative) then quotient.sub one
    else quotient
  if quotient.isZero then zero (x.div y).isNegative
  else
    let whole := quotient.floor
    if (Num.float half).lt (.float (quotient.sub whole)) then whole.add one else whole

end Binary64

namespace Num

def floorDiv : Num → Num → Option Num := lift Int.fdiv Binary64.floorDiv

/-- The quotient by a count as a binary64 number; none when a number is beyond them. -/
def divCount (a : Num) (count : Nat) : Option Binary64 :=
  match a with
  | int i => Binary64.ofQuotient? i count
  | float x => do return x.div (← Binary64.ofInt? count)

def integral : Num → Num
  | float x => match x.toInt? with
    | some i => int i
    | none => float x
  | n => n

def text : Num → String
  | int i => toString i
  | float x => Decimal.render .standard x

end Num

end RecordStore
