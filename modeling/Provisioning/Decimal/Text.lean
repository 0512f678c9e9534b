import Provisioning.Decimal.Shortest

/-!
# Floating-point numbers as text

`Binary64.ofText?` reads decimal text. `NumberStyle.write` prints the shortest digits; the style says
where positional notation ends, which way a tie goes and how the special values are spelled. Two styles are in use:
`NumberStyle.document` for document values and `NumberStyle.message` for values quoted in messages.
-/

namespace Provisioning.Decimal

/-- Splits off the leading decimal digits. -/
def spanDigits (cs : List Char) : List Char × List Char :=
  (cs.takeWhile Char.isDigit, cs.dropWhile Char.isDigit)

/-- The natural number a list of digits spells in the given base. -/
def digitsValue (base : Nat) (cs : List Char) : Nat :=
  cs.foldl (fun n c =>
    let digit :=
      if c.isDigit then c.toNat - '0'.toNat
      else if 'a' ≤ c ∧ c ≤ 'z' then c.toNat - 'a'.toNat + 10
      else c.toNat - 'A'.toNat + 10
    n * base + digit) 0

/-- The exponent part of a decimal: nothing, or `e` with an optional sign and at least one digit. -/
def exponentOf? : List Char → Option Int
  | [] => some 0
  | c :: rest =>
    if c = 'e' ∨ c = 'E' then
      let (negative, digits) := match rest with
        | '-' :: ds => (true, ds)
        | '+' :: ds => (false, ds)
        | ds => (false, ds)
      if digits.isEmpty || !digits.all Char.isDigit then none
      else
        let n : Int := digitsValue 10 digits
        some (if negative then -n else n)
    else none

/-- Reads an unsigned decimal: digits with at most one point, at least one digit, and an optional
exponent. -/
def unsignedOf? (negative : Bool) (cs : List Char) : Option Binary64 :=
  let (whole, rest) := spanDigits cs
  let (fraction, rest) := match rest with
    | '.' :: after => spanDigits after
    | _ => ([], rest)
  if whole.isEmpty && fraction.isEmpty then none
  else do
    let exponent ← exponentOf? rest
    some (.ofDecimal negative (digitsValue 10 (whole ++ fraction)) (exponent - fraction.length))

/-- Reads a decimal with an optional sign. -/
def Binary64.ofText? (s : String) : Option Binary64 :=
  match s.toList with
  | '-' :: cs => unsignedOf? true cs
  | '+' :: cs => unsignedOf? false cs
  | cs => unsignedOf? false cs

/-- How floating-point numbers are written. -/
structure NumberStyle where
  /-- Whether a number whose first digit counts `10 ^ e` is written without an exponent. -/
  isPositional : Int → Bool
  /-- Which of two equally short and equally near decimals is written. -/
  tie : Tie
  notANumber : String
  infinity : String

namespace NumberStyle

/-- Digits with a point and at least one digit on either side of it. -/
def positional (digits : List Char) (exponent : Int) : List Char :=
  let whole := (digits.length : Int) + exponent
  if 0 ≤ exponent then digits ++ List.replicate exponent.toNat '0' ++ ['.', '0']
  else if 0 < whole then digits.take whole.toNat ++ '.' :: digits.drop whole.toNat
  else '0' :: '.' :: List.replicate (-whole).toNat '0' ++ digits

/-- One digit, the rest after a point if there are any, and the power of ten. -/
def scientific (digits : List Char) (exponent : Int) : List Char :=
  let fraction := if digits.length ≤ 1 then [] else '.' :: digits.drop 1
  digits.take 1 ++ fraction ++ 'e' :: (toString (exponent + digits.length - 1)).toList

/-- A number in the given style. -/
def write (style : NumberStyle) : Binary64 → String
  | .notANumber => style.notANumber
  | .infinite negative => (if negative then "-" else "") ++ style.infinity
  | .finite negative mantissa exponent =>
    let sign := if negative then "-" else ""
    if mantissa = 0 then sign ++ "0.0"
    else
      let (d, p) := shortest style.tie mantissa exponent
      let all := Nat.toDigits 10 d
      -- a carry may have left zeros at the end
      let digits := (all.reverse.dropWhile (· = '0')).reverse
      let p := p + (all.length - digits.length : Nat)
      let text :=
        if style.isPositional (p + digits.length - 1) then positional digits p
        else scientific digits p
      sign ++ String.ofList text

/-- Document values: positional from `10 ^ -5` up to below `10 ^ 16`, and a tie goes to the even digit. -/
def document : NumberStyle :=
  ⟨fun e => decide (-5 ≤ e) && decide (e ≤ 15), .toEven, ".nan", ".inf"⟩

/-- Values in messages: always positional, and a tie goes to the greater digit. -/
def message : NumberStyle := ⟨fun _ => true, .upward, "NaN", "inf"⟩

end NumberStyle

end Provisioning.Decimal
