import Provisioning.Yaml.Failure

/-!
# Texts as characters

A text arrives in UTF-8 and is decoded in windows of 16384 octets. An octet that is wrong spoils the whole
window it lies in: the characters of earlier windows can still be read, and asking for one more fails.
-/

namespace Provisioning.Yaml

/-- Characters that can be read, and what is wrong after the last of them, if anything is. -/
structure Source where
  chars : List Char
  failure : Option SyntaxError
deriving Inhabited

namespace Source

/-- How many octets are decoded together. -/
def windowSize : Nat := 16384

/-- The number of octets of the character that a leading octet begins, or zero. -/
def sequenceWidth (octet : UInt8) : Nat :=
  if octet < 0x80 then 1
  else if octet &&& 0xE0 == 0xC0 then 2
  else if octet &&& 0xF0 == 0xE0 then 3
  else if octet &&& 0xF8 == 0xF0 then 4
  else 0

/-- Whether a character may stand in a text. -/
def isAllowed (n : Nat) : Bool :=
  n == 0x09 || n == 0x0A || n == 0x0D || (0x20 ≤ n && n ≤ 0x7E) || n == 0x85 ||
    (0xA0 ≤ n && n ≤ 0xD7FF) || (0xE000 ≤ n && n ≤ 0xFFFD) || (0x10000 ≤ n && n ≤ 0x10FFFF)

/-- The value of the trailing octets after the bits of the leading one, or the position of the first that is
not a trailing octet. -/
def trailingValue : Nat → Nat → List UInt8 → Except Nat Nat
  | _, value, [] => .ok value
  | k, value, octet :: rest =>
    if octet &&& 0xC0 == 0x80 then
      trailingValue (k + 1) (value * 64 + (octet &&& 0x3F).toNat) rest
    else .error k

/-- The character of a complete sequence of octets that begins at an offset. -/
def sequenceChar (offset width : Nat) (octet : UInt8) (trailing : List UInt8) :
    Except SyntaxError Char :=
  let leading := if width = 1 then octet.toNat else octet.toNat % Nat.pow 2 (7 - width)
  match trailingValue 1 leading trailing with
  | .error k => .error { problem := .badTrailingOctet, offset := offset + k }
  | .ok n =>
    let least := if width = 2 then 0x80 else if width = 3 then 0x800 else if width = 4 then 0x10000 else 0
    if n < least then .error { problem := .overlongSequence, offset }
    else if (0xD800 ≤ n && n ≤ 0xDFFF) || 0x10FFFF < n then .error { problem := .badCharacter, offset }
    else if !isAllowed n then .error { problem := .controlCharacter, offset }
    else .ok (Char.ofNat n)

/-- Decodes octets from an offset on. Characters of finished windows are in `done`, those of the window at
hand in `window`, both backwards; `left` octets of it remain. -/
def decode (octets : List UInt8) (offset left : Nat) (done window : List Char) : Source :=
  match octets with
  | [] => ⟨(window ++ done).reverse, none⟩
  | octet :: rest =>
    let width := sequenceWidth octet
    let (left, done, window) :=
      if left < max width 1 then (windowSize, window ++ done, []) else (left, done, window)
    if width = 0 then
      ⟨done.reverse, some { problem := .badLeadingOctet, offset }⟩
    else
      let trailing := rest.take (width - 1)
      if trailing.length < width - 1 then
        ⟨(window ++ done).reverse, some { problem := .incompleteSequence, offset }⟩
      else
        match sequenceChar offset width octet trailing with
        | .error e => ⟨done.reverse, some e⟩
        | .ok c =>
          decode (rest.drop (width - 1)) (offset + width) (left - width) done (c :: window)
termination_by octets.length
decreasing_by
  simp only [List.length_drop, List.length_cons]
  omega

/-- The characters of a text. -/
def ofOctets (octets : List UInt8) : Source :=
  decode octets 0 windowSize [] []

end Source

end Provisioning.Yaml
