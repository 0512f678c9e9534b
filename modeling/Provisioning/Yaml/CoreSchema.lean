import Provisioning.Yaml.Failure
import Provisioning.Yaml.Token
import Provisioning.TypeName

/-!
# What scalars mean

A plain scalar without a tag is null, a flag, a number or a text, by its spelling; `CoreSchema.plain` decides.
The core tags make a scalar one of these, or fail if its spelling is another. `ScalarNode.value` combines both rules.
-/

namespace Provisioning.Yaml

open Decimal

/-- The meaning of a scalar. Integers may be too large for a document yet. -/
inductive ScalarValue
  | null
  | flag (value : Bool)
  | integer (value : Int)
  | real (value : Binary64)
  | text (value : String)
deriving DecidableEq, Repr

namespace CoreSchema

/-- Whether a spelling means null. The empty text does only where no core tag asks for null. -/
def isNull (s : String) : Bool := ["~", "null", "Null", "NULL"].contains s

/-- The flag that a spelling means. -/
def flag? (s : String) : Option Bool :=
  if ["true", "True", "TRUE"].contains s then some true
  else if ["false", "False", "FALSE"].contains s then some false
  else none

/-- Whether a text is a zero and more digits, which is no number. -/
def isPadded (cs : List Char) : Bool :=
  match cs with
  | '0' :: rest => !rest.isEmpty && rest.all Char.isDigit
  | _ => false

/-- The value of a digit in bases up to sixteen. -/
def digit? (base : Nat) (c : Char) : Option Nat :=
  let value :=
    if c.isDigit then c.toNat - '0'.toNat
    else if 'a' ≤ c ∧ c ≤ 'f' then c.toNat - 'a'.toNat + 10
    else if 'A' ≤ c ∧ c ≤ 'F' then c.toNat - 'A'.toNat + 10
    else base
  if value < base then some value else none

/-- The number that digits spell in a base; at least one digit is needed. -/
def digits? (base : Nat) (cs : List Char) : Option Nat :=
  if cs.isEmpty then none
  else cs.foldlM (fun n c => (digit? base c).map (n * base + ·)) 0

/-- The number that a text without sign spells, in base sixteen, eight, two or ten. -/
def natural? : List Char → Option Nat
  | '0' :: 'x' :: cs => digits? 16 cs
  | '0' :: 'o' :: cs => digits? 8 cs
  | '0' :: 'b' :: cs => digits? 2 cs
  | cs => if isPadded cs then none else digits? 10 cs

/-- The integer that a spelling means. What does not fit into 128 bits is none. -/
def integer? (s : String) : Option Int :=
  match s.toList with
  | '-' :: cs => do
    let n ← natural? cs
    if n ≤ Nat.pow 2 127 then some (-n) else none
  | '+' :: cs => positive? cs
  | cs => positive? cs
where
  /-- The integer that a text without sign spells. -/
  positive? (cs : List Char) : Option Int := do
    let n ← natural? cs
    if n < Nat.pow 2 128 then some n else none

/-- A text without a plus sign in front, unless another sign follows. -/
def withoutPlus? (s : String) : Option String :=
  match s.toList with
  | '+' :: '+' :: _ => none
  | '+' :: '-' :: _ => none
  | '+' :: cs => some (String.ofList cs)
  | _ => some s

/-- The floating-point number that a spelling means. A decimal must be finite. -/
def real? (s : String) : Option Binary64 := do
  let positive ← withoutPlus? s
  if [".inf", ".Inf", ".INF"].contains positive then some (.infinite false)
  else if ["-.inf", "-.Inf", "-.INF"].contains s then some (.infinite true)
  else if [".nan", ".NaN", ".NAN"].contains s then some .notANumber
  else
    let x ← Binary64.ofText? positive
    if x.isFinite then some x else none

/-- The number that a spelling means, or the text itself. -/
def numberOrText (s : String) : ScalarValue :=
  match integer? s with
  | some n => .integer n
  | none =>
    let unsigned := match s.toList with
      | '-' :: cs => cs
      | '+' :: cs => cs
      | cs => cs
    match if isPadded unsigned then none else real? s with
    | some x => .real x
    | none => .text s

/-- The meaning of a plain scalar without tag. -/
def plain (s : String) : ScalarValue :=
  if s = "" || isNull s then .null
  else match flag? s with
    | some b => .flag b
    | none => numberOrText s

end CoreSchema

/-- A scalar of a text: its spelling, how it is written, and its tag. -/
structure ScalarNode where
  text : String
  style : ScalarStyle
  tag : Option (List UInt8)
deriving DecidableEq, Repr

/-- A tag that begins with an exclamation mark, without that; the mark alone stays. A tag that is no
UTF-8 counts as none. -/
def localTag? : Option (List UInt8) → Option String
  | some (octet :: rest) =>
    if octet = '!'.toNat.toUInt8 then
      String.fromUTF8? ⟨(if rest.isEmpty then [octet] else rest).toArray⟩
    else none
  | _ => none

namespace ScalarNode

/-- Whether the tag of a node is the core tag of a name. -/
def hasCoreTag (n : ScalarNode) (name : String) : Bool :=
  n.tag == some (TagRole.corePrefix ++ name).toUTF8.toList

/-- The meaning of a scalar by its spelling alone. -/
def untagged (n : ScalarNode) : ScalarValue :=
  if n.style = .plain then CoreSchema.plain n.text else .text n.text

/-- The meaning of a scalar. Its tag must be one that the scalar does not keep. -/
def value (n : ScalarNode) : Except Complaint ScalarValue :=
  let orElse (wanted : String) (v : Option ScalarValue) : Except Complaint ScalarValue :=
    match v with
    | some v => .ok v
    | none => .error (.badCoreScalar n.text wanted)
  match n.tag with
  | none => .ok n.untagged
  | some tag =>
    if n.hasCoreTag "bool" then orElse "a boolean" ((CoreSchema.flag? n.text).map .flag)
    else if n.hasCoreTag "int" then orElse "an integer" ((CoreSchema.integer? n.text).map .integer)
    else if n.hasCoreTag "float" then orElse "a float" ((CoreSchema.real? n.text).map .real)
    else if n.hasCoreTag "null" then
      orElse "null" (if CoreSchema.isNull n.text then some .null else none)
    else if tag.head? = some '!'.toNat.toUInt8 then .ok n.untagged
    else .ok (.text n.text)

end ScalarNode

namespace ScalarValue

/-- Whether an integer fits into a document: 64 bits, with or without a sign. -/
def fits (n : Int) : Bool := -Int.pow 2 63 ≤ n && n < Int.pow 2 64

/-- A scalar as a tree. -/
def toTree : ScalarValue → Except Complaint Tree
  | .null => .ok .null
  | .flag b => .ok (.flag b)
  | .integer n =>
    if fits n then .ok (.number (.integer n)) else .error (.hugeInteger n "any YAML value")
  | .real x => .ok (.number (.real x))
  | .text s => .ok (.text s)

/-- The complaint that a scalar stands where something else is wanted. -/
def unfit (wanted : Wanted) : ScalarValue → Complaint
  | .null => .unfit .unit wanted
  | .flag b => .unfit (.flag b) wanted
  | .integer n =>
    if fits n then .unfit (.number (.integer n)) wanted else .hugeInteger n wanted.describe
  | .real x => .unfit (.number (.real x)) wanted
  | .text s => .unfit (.text s) wanted

end ScalarValue

end Provisioning.Yaml
