import Provisioning.Schema.Basic
import Provisioning.Text.Quoted

/-!
# Why a node does not fit its shape

A `Mismatch` is the first reason found, in document order. `Mismatch.message` is its wording.
-/

namespace Provisioning

open Decimal

/-- What a node was found to be. -/
inductive Found
  | unit
  | flag (value : Bool)
  | number (value : Number)
  | text (value : String)
  | list
  | map
  | tagged
  /-- A variant named by a bare text. -/
  | bareVariant
deriving DecidableEq, Repr

namespace Found

/-- What a node is, its tags included. -/
def ofTree : Tree → Found
  | .null => .unit
  | .flag b => .flag b
  | .number n => .number n
  | .text s => .text s
  | .list _ => .list
  | .map _ => .map
  | .tagged _ _ => .tagged

/-- The wording in a message. -/
def describe : Found → String
  | .unit => "unit value"
  | .flag b => "boolean `" ++ (if b then "true" else "false") ++ "`"
  | .number (.integer n) => "integer `" ++ toString n ++ "`"
  | .number (.real x) => "floating point `" ++ NumberStyle.message.write x ++ "`"
  | .text s => "string " ++ Text.quoteText s
  | .list => "sequence"
  | .map => "map"
  | .tagged => "enum"
  | .bareVariant => "unit variant"

end Found

/-- What a node should have been. -/
inductive Wanted
  | text
  | flag
  | unsigned (bits : Nat)
  | list
  | dictionary
  | record (name : String)
  | choice
  | fieldName
  | unit
  | contentOfOne
  | contentOfSeveral
  | contentOfFields
  /-- The content of a variant that carries several values, by its full name. -/
  | several (choice variant : String)
deriving DecidableEq, Repr

namespace Wanted

/-- What a node of the given shape should be, once it is there. -/
def ofShape : Shape → Wanted
  | .text => .text
  | .flag => .flag
  | .unsigned bits => .unsigned bits
  | .list _ => .list
  | .distinct _ => .list
  | .dictionary _ => .dictionary
  | .record name => .record name
  | .choice _ => .choice
  | .optional s => ofShape s

/-- The wording in a message. -/
def describe : Wanted → String
  | .text => "a string"
  | .flag => "a boolean"
  | .unsigned bits => "u" ++ toString bits
  | .list => "a sequence"
  | .dictionary => "a map"
  | .record name => "struct " ++ name
  | .choice => "a Value::Tagged enum"
  | .fieldName => "field identifier"
  | .unit => "unit"
  | .contentOfOne => "newtype variant"
  | .contentOfSeveral => "tuple variant"
  | .contentOfFields => "struct variant"
  | .several owner variant => "tuple variant " ++ owner ++ "::" ++ variant

end Wanted

/-- Why a node does not fit its shape. -/
inductive Mismatch
  | wrongKind (found : Found) (wanted : Wanted)
  | outOfRange (value : Int) (wanted : Wanted)
  | missingField (name : String)
  | duplicateField (name : String)
  | unknownVariant (name : String) (known : List String)
  | tooFew (given : Nat) (wanted : Wanted) (needed : Nat)
  | tooMany (given : Nat)
deriving DecidableEq, Repr

namespace Mismatch

/-- A name in back quotes. -/
def quoteName (name : String) : String := "`" ++ name ++ "`"

/-- The names that would have been known, as the end of a message. -/
def expectedOneOf : List String → String
  | [] => "there are no variants"
  | [a] => "expected " ++ quoteName a
  | [a, b] => "expected " ++ quoteName a ++ " or " ++ quoteName b
  | names => "expected one of " ++ ", ".intercalate (names.map quoteName)

/-- The wording of the reason. -/
def message : Mismatch → String
  | .wrongKind found wanted => "invalid type: " ++ found.describe ++ ", expected " ++ wanted.describe
  | .outOfRange n wanted =>
    "invalid value: " ++ (Found.number (.integer n)).describe ++ ", expected " ++ wanted.describe
  | .missingField name => "missing field " ++ quoteName name
  | .duplicateField name => "duplicate field " ++ quoteName name
  | .unknownVariant name known =>
    "unknown variant " ++ quoteName name ++ ", " ++ expectedOneOf known
  | .tooFew given wanted needed =>
    "invalid length " ++ toString given ++ ", expected " ++ wanted.describe ++ " with "
      ++ toString needed ++ (if needed = 1 then " element" else " elements")
  | .tooMany given =>
    "invalid length " ++ toString given ++ ", expected fewer elements in sequence"

end Mismatch

end Provisioning
