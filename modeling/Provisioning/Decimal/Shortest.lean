import Provisioning.Decimal.Binary64

/-!
# The fewest digits that read back

The reals that round to a finite number form an interval around it, with its ends included when the
mantissa is even. `shortest` gives the decimal with the fewest digits in that interval, and of two with
equally few the one nearer to the number. A `Tie` says which one it is when the number lies halfway between them.
-/

namespace Provisioning.Decimal

/-- Which of two neighbouring naturals stands for what lies halfway between them. -/
inductive Tie
  | toEven
  | upward
deriving DecidableEq, Repr

/-- The choice between `d` and `d + 1`. -/
def Tie.choose : Tie → Nat → Nat
  | .toEven, d => d + d % 2
  | .upward, d => d + 1

/-- Where a decimal `d * 10 ^ p` lies beside a binary number `x * 2 ^ q`: negative when the decimal
is smaller, zero when they are equal. -/
def compareDecimal (d : Nat) (p : Int) (x : Nat) (q : Int) : Int :=
  (d * Nat.pow 10 p.toNat * Nat.pow 2 (-q).toNat : Nat) -
    (x * Nat.pow 2 q.toNat * Nat.pow 10 (-p).toNat : Nat)

/-- Whether `d * 10 ^ p` rounds to `mantissa * 2 ^ exponent`. The neighbour below is half as far away
when the mantissa is the least of its binade. -/
def readsBack (mantissa : Nat) (exponent : Int) (d : Nat) (p : Int) : Bool :=
  let below := if mantissa = Nat.pow 2 52 ∧ -1074 < exponent then 1 else 2
  let low := compareDecimal d p (4 * mantissa - below) (exponent - 2)
  let high := compareDecimal d p (4 * mantissa + 2) (exponent - 2)
  if mantissa % 2 = 0 then decide (0 ≤ low) && decide (high ≤ 0)
  else decide (0 < low) && decide (high < 0)

/-- The exponent `e` with `10 ^ e ≤ mantissa * 2 ^ exponent < 10 ^ (e + 1)`. -/
def decimalExponent (mantissa : Nat) (exponent : Int) : Int :=
  let estimate := ((mantissa.log2 : Int) + exponent) * 30103 / 100000
  if compareDecimal 1 (estimate + 1) mantissa exponent ≤ 0 then estimate + 1
  else if 0 < compareDecimal 1 estimate mantissa exponent then estimate - 1
  else estimate

/-- The greatest `d` with `d * 10 ^ p ≤ mantissa * 2 ^ exponent`. -/
def gridFloor (mantissa : Nat) (exponent : Int) (p : Int) : Nat :=
  mantissa * Nat.pow 2 exponent.toNat * Nat.pow 10 (-p).toNat /
    (Nat.pow 2 (-exponent).toNat * Nat.pow 10 p.toNat)

/-- The better of the two grid points around the number that reads back, if one does. -/
def onGrid (tie : Tie) (mantissa : Nat) (exponent : Int) (p : Int) : Option Nat :=
  let d := gridFloor mantissa exponent p
  match readsBack mantissa exponent d p, readsBack mantissa exponent (d + 1) p with
  | true, false => some d
  | false, true => some (d + 1)
  | false, false => none
  | true, true =>
    -- twice the midpoint of the two grid points, beside twice the number
    let middle := compareDecimal (2 * d + 1) p (2 * mantissa) exponent
    if middle < 0 then some (d + 1)
    else if 0 < middle then some d
    else some (tie.choose d)

/-- Tries one digit more at a time, down from the grid `10 ^ p`. -/
def refine (tie : Tie) (mantissa : Nat) (exponent : Int) : Nat → Int → Nat × Int
  | 0, p => (gridFloor mantissa exponent p, p)
  | steps + 1, p =>
    match onGrid tie mantissa exponent p with
    | some d => (d, p)
    | none => refine tie mantissa exponent steps (p - 1)

/-- The digits and the power of ten of the shortest decimal that reads back as the number
`mantissa * 2 ^ exponent`. Seventeen digits always suffice. -/
def shortest (tie : Tie) (mantissa : Nat) (exponent : Int) : Nat × Int :=
  refine tie mantissa exponent 17 (decimalExponent mantissa exponent)

end Provisioning.Decimal
