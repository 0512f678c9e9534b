import Provisioning.Yaml.Token

/-!
# Anchors, tags and directives

The tokens whose text is not content. A tag is a handle and a text; octets in the text may be escaped by
their hexadecimal digits.
-/

namespace Provisioning.Yaml

/-- The octets of characters in UTF-8. -/
def octetsOf (cs : List Char) : List UInt8 := (String.ofList cs).toUTF8.toList

/-- Reads the name of an anchor or an alias. -/
def scanAnchor (c : Cursor) (isAlias : Bool) : Except SyntaxError (Token × Cursor) := do
  let first := c.skip
  first.need 1
  let (name, next) ← first.takeWhile isWord
  let x := next.peek
  let ends := isBlankOrEnd x || x == '?' || x == ':' || x == ',' || x == ']' || x == '\x7d' ||
    x == '%' || x == '@' || x == '\x60'
  if name.isEmpty || !ends then
    next.fail (if isAlias then .aliasName else .anchor) c.mark .badAnchorName
  else
    let name := String.ofList name
    .ok (⟨if isAlias then .aliasOf name else .anchor name, c.mark, next.mark⟩, next)

/-! ## Tags -/

/-- Reads a tag handle: an exclamation mark, word characters, and another mark if there is one. In a directive
the second mark must stand unless the handle is the first one alone. -/
def scanTagHandle (c : Cursor) (start : Mark) (inDirective : Bool) :
    Except SyntaxError (List Char × Cursor) := do
  c.need 1
  if !c.at? '!' then
    c.fail (if inDirective then .tagDirectiveHandle else .tag) start .missingTagMark
  else
    let first := c.skip
    first.need 1
    let (word, next) ← first.takeWhile isWord
    if next.at? '!' then .ok ('!' :: word ++ ['!'], next.skip)
    else if inDirective && !word.isEmpty then
      next.fail .tagDirectiveHandleEnd start .missingTagMark
    else .ok ('!' :: word, next)

/-- Whether a character may stand in a tag's text. Three more may where nothing else can follow. -/
def isTagChar (wide : Bool) (c : Char) : Bool :=
  isWord c || ";/?:@&=+$.%!~*'()".toList.contains c || (wide && ",[]".toList.contains c)

/-- How many octets of an escaped character follow its leading one, or nothing for an octet that cannot lead. -/
def escapedTrail? (octet : Nat) : Option Nat :=
  if octet < 0x80 then some 0
  else if 0xC0 ≤ octet ∧ octet < 0xE0 then some 1
  else if 0xE0 ≤ octet ∧ octet < 0xF0 then some 2
  else if 0xF0 ≤ octet ∧ octet < 0xF8 then some 3
  else none

/-- Reads on in a tag's text. `owed` is the number of escaped octets that the character at hand still needs;
the octets read are backwards. -/
def tagTextRest (wide : Bool) (activity : Activity) (start : Mark) (failure : Option SyntaxError) :
    List Char → Mark → Nat → List UInt8 → Except SyntaxError (List UInt8 × Cursor)
  | [], mark, owed, octets =>
    match failure with
    | some e => .error e
    | none =>
      let here : Cursor := ⟨[], mark, none⟩
      if owed = 0 then .ok (octets, here) else here.fail activity start .badTagEscape
  | '%' :: rest, mark, owed, octets =>
    let here : Cursor := ⟨'%' :: rest, mark, failure⟩
    match rest with
    | h :: l :: rest =>
      match hexDigit? h, hexDigit? l with
      | some high, some low =>
        let octet := high * 16 + low
        let mark := ((mark.next '%').next h).next l
        if owed = 0 then
          match escapedTrail? octet with
          | some trail =>
            tagTextRest wide activity start failure rest mark trail (octet.toUInt8 :: octets)
          | none => here.fail activity start .badLeadingTagOctet
        else if 0x80 ≤ octet ∧ octet < 0xC0 then
          tagTextRest wide activity start failure rest mark (owed - 1) (octet.toUInt8 :: octets)
        else here.fail activity start .badTrailingTagOctet
      | _, _ => here.fail activity start .badTagEscape
    | _ => do
      here.need 3
      here.fail activity start .badTagEscape
  | c :: rest, mark, owed, octets =>
    let here : Cursor := ⟨c :: rest, mark, failure⟩
    if owed ≠ 0 then do
      here.need 3
      here.fail activity start .badTagEscape
    else if isTagChar wide c then
      tagTextRest wide activity start failure rest (mark.next c) 0 (octetsOf [c] ++ octets)
    else .ok (octets, here)

/-- Reads a tag's text after what of it was read as a handle. An escaped NUL ends the text, whatever follows. -/
def scanTagText (c : Cursor) (start : Mark) (wide inDirective : Bool) (head : List Char) :
    Except SyntaxError (List UInt8 × Cursor) := do
  let activity := if inDirective then Activity.tagDirectiveText else .tagText
  let (octets, next) ← tagTextRest wide activity start c.failure c.rest c.mark 0 []
  if octets.isEmpty && head.isEmpty then next.fail activity start .missingTagText
  else .ok ((octetsOf (head.drop 1) ++ octets.reverse).takeWhile (· != 0), next)

/-- The handle and the text of a tag. -/
def scanTagParts (c : Cursor) : Except SyntaxError ((List Char × List UInt8) × Cursor) := do
  c.need 2
  if c.at? '<' 1 then
    let (octets, next) ← scanTagText c.skip.skip c.mark true false []
    if next.at? '>' then .ok (([], octets), next.skip) else next.fail .tag c.mark .unclosedTag
  else
    let (handle, next) ← scanTagHandle c c.mark false
    if 1 < handle.length && handle.getLast? == some '!' then
      let (octets, next) ← scanTagText next c.mark false false []
      .ok ((handle, octets), next)
    else
      let (octets, next) ← scanTagText next c.mark false false handle
      if octets.isEmpty then .ok (([], octetsOf ['!']), next) else .ok ((['!'], octets), next)

/-- Reads a tag. In a flow collection a comma may follow it. -/
def scanTag (c : Cursor) (flow : Bool) : Except SyntaxError (Token × Cursor) := do
  let ((handle, octets), next) ← scanTagParts c
  next.need 1
  if !isBlankOrEnd next.peek && !(flow && next.at? ',') then
    next.fail .tag c.mark .expectedBlankOrLineEnd
  else .ok (⟨.tag (String.ofList handle) octets, c.mark, next.mark⟩, next)

/-! ## Directives -/

/-- Reads a number of a version. -/
def scanVersionNumber (c : Cursor) (start : Mark) : Except SyntaxError (Nat × Cursor) := do
  c.need 1
  let digits := c.rest.takeWhile Char.isDigit
  if 9 < digits.length then (c.skipMany 9).fail .versionDirective start .longVersionNumber
  else
    let (digits, next) ← c.takeWhile Char.isDigit
    if digits.isEmpty then next.fail .versionDirective start .missingVersionNumber
    else .ok (Decimal.digitsValue 10 digits, next)

/-- Reads the version in a directive. -/
def scanVersion (c : Cursor) (start : Mark) : Except SyntaxError (TokenKind × Cursor) := do
  let c ← c.skipWhile isBlank
  let (major, c) ← scanVersionNumber c start
  if !c.at? '.' then c.fail .versionDirective start .badVersionCharacter
  else
    let (minor, c) ← scanVersionNumber c.skip start
    .ok (.versionDirective major minor, c)

/-- Reads the handle and the replacement in a directive. -/
def scanTagReplacement (c : Cursor) (start : Mark) : Except SyntaxError (TokenKind × Cursor) := do
  let c ← c.skipWhile isBlank
  let (handle, c) ← scanTagHandle c start true
  c.need 1
  if !isBlank c.peek then c.fail .tagDirective start .expectedBlank
  else
    let c ← c.skipWhile isBlank
    let (octets, c) ← scanTagText c start true true []
    c.need 1
    if !isBlankOrEnd c.peek then c.fail .tagDirective start .expectedBlankOrLineEnd
    else .ok (.tagDirective (String.ofList handle) octets, c)

/-- Reads a directive with the rest of its line. -/
def scanDirective (c : Cursor) : Except SyntaxError (Token × Cursor) := do
  let first := c.skip
  first.need 1
  let (name, next) ← first.takeWhile isWord
  if name.isEmpty then next.fail .directive c.mark .missingDirectiveName
  else if !isBlankOrEnd next.peek then next.fail .directive c.mark .badDirectiveName
  else
    let (kind, next) ←
      if String.ofList name = "YAML" then scanVersion next c.mark
      else if String.ofList name = "TAG" then scanTagReplacement next c.mark
      else next.fail .directive c.mark .unknownDirective
    let stop := next.mark
    let next ← next.skipWhile isBlank
    let next ← next.skipComment
    if !isBreakOrEnd next.peek then next.fail .directive c.mark .expectedLineEnd
    else
      let next ← next.finishLine
      .ok (⟨kind, c.mark, stop⟩, next)

end Provisioning.Yaml
