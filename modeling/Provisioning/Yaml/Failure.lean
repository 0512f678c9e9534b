import Provisioning.Schema.Mismatch

/-!
# Why a text is no document

A `SyntaxError` says where the text breaks the grammar and what was being read there. A `Complaint` says why a
value cannot be taken, a `NodePath` which one. A `Failure` is either of them, or a limit that was met.
`Failure.message` is the wording, `Failure.mark?` the position it is reported with.
-/

namespace Provisioning.Yaml

/-- A position in a text, counted from zero: the octets before it, its line, and the characters before it in
that line. -/
structure Mark where
  octets : Nat := 0
  line : Nat := 0
  column : Nat := 0
deriving DecidableEq, Repr, Inhabited

namespace Mark

/-- The position after a character within the line. -/
def next (m : Mark) (c : Char) : Mark :=
  { m with octets := m.octets + c.utf8Size, column := m.column + 1 }

/-- The position after a line end of so many octets. -/
def nextLine (m : Mark) (width : Nat) : Mark := ⟨m.octets + width, m.line + 1, 0⟩

/-- Whether this is the first column of the first line, which messages leave out. -/
def isOrigin (m : Mark) : Bool := m.line == 0 && m.column == 0

/-- The position in a message, counted from one. -/
def describe (m : Mark) : String :=
  "line " ++ toString (m.line + 1) ++ " column " ++ toString (m.column + 1)

/-- The position at the end of a message. -/
def suffix (m : Mark) : String := if m.isOrigin then "" else " at " ++ m.describe

end Mark

/-- What is wrong with a text. -/
inductive Problem
  -- characters
  | badLeadingOctet
  | incompleteSequence
  | badTrailingOctet
  | overlongSequence
  | badCharacter
  | controlCharacter
  -- tokens
  | cannotStartToken
  | missingColon
  | misplacedBlockEntry
  | misplacedKey
  | misplacedValue
  | unknownDirective
  | expectedLineEnd
  | missingDirectiveName
  | badDirectiveName
  | badVersionCharacter
  | longVersionNumber
  | missingVersionNumber
  | expectedBlank
  | expectedBlankOrLineEnd
  | badAnchorName
  | unclosedTag
  | missingTagMark
  | missingTagText
  | badTagEscape
  | badLeadingTagOctet
  | badTrailingTagOctet
  | zeroIndentation
  | tabForIndentation
  | documentMarkInside
  | endInside
  | unknownEscape
  | badEscapeDigits
  | badEscapeCode
  | unexpectedColon
  | tabInIndentation
  -- structure
  | missingDocumentStart
  | repeatedVersion
  | unsupportedVersion
  | repeatedTagDirective
  | unknownTagHandle
  | missingContent
  | missingBlockEntry
  | missingBlockKey
  | unclosedFlowSequence
  | unclosedFlowMapping
deriving DecidableEq, Repr

namespace Problem

/-- The wording of a problem. -/
def text : Problem → String
  | .badLeadingOctet => "invalid leading UTF-8 octet"
  | .incompleteSequence => "incomplete UTF-8 octet sequence"
  | .badTrailingOctet => "invalid trailing UTF-8 octet"
  | .overlongSequence => "invalid length of a UTF-8 sequence"
  | .badCharacter => "invalid Unicode character"
  | .controlCharacter => "control characters are not allowed"
  | .cannotStartToken => "found character that cannot start any token"
  | .missingColon => "could not find expected ':'"
  | .misplacedBlockEntry => "block sequence entries are not allowed in this context"
  | .misplacedKey => "mapping keys are not allowed in this context"
  | .misplacedValue => "mapping values are not allowed in this context"
  | .unknownDirective => "found unknown directive name"
  | .expectedLineEnd => "did not find expected comment or line break"
  | .missingDirectiveName => "could not find expected directive name"
  | .badDirectiveName => "found unexpected non-alphabetical character"
  | .badVersionCharacter => "did not find expected digit or '.' character"
  | .longVersionNumber => "found extremely long version number"
  | .missingVersionNumber => "did not find expected version number"
  | .expectedBlank => "did not find expected whitespace"
  | .expectedBlankOrLineEnd => "did not find expected whitespace or line break"
  | .badAnchorName => "did not find expected alphabetic or numeric character"
  | .unclosedTag => "did not find the expected '>'"
  | .missingTagMark => "did not find expected '!'"
  | .missingTagText => "did not find expected tag URI"
  | .badTagEscape => "did not find URI escaped octet"
  | .badLeadingTagOctet => "found an incorrect leading UTF-8 octet"
  | .badTrailingTagOctet => "found an incorrect trailing UTF-8 octet"
  | .zeroIndentation => "found an indentation indicator equal to 0"
  | .tabForIndentation => "found a tab character where an indentation space is expected"
  | .documentMarkInside => "found unexpected document indicator"
  | .endInside => "found unexpected end of stream"
  | .unknownEscape => "found unknown escape character"
  | .badEscapeDigits => "did not find expected hexadecimal number"
  | .badEscapeCode => "found invalid Unicode character escape code"
  | .unexpectedColon => "found unexpected ':'"
  | .tabInIndentation => "found a tab character that violates indentation"
  | .missingDocumentStart => "did not find expected <document start>"
  | .repeatedVersion => "found duplicate %YAML directive"
  | .unsupportedVersion => "found incompatible YAML document"
  | .repeatedTagDirective => "found duplicate %TAG directive"
  | .unknownTagHandle => "found undefined tag handle"
  | .missingContent => "did not find expected node content"
  | .missingBlockEntry => "did not find expected '-' indicator"
  | .missingBlockKey => "did not find expected key"
  | .unclosedFlowSequence => "did not find expected ',' or ']'"
  | .unclosedFlowMapping => "did not find expected ',' or '\x7d'"

end Problem

/-- What was being read when a problem was met. -/
inductive Activity
  | nextToken
  | simpleKey
  | directive
  | versionDirective
  | tagDirective
  | tagDirectiveHandle
  | tagDirectiveHandleEnd
  | tagDirectiveText
  | anchor
  | aliasName
  | tag
  | tagText
  | blockScalar
  | quotedScalar
  | quotedEscape
  | plainScalar
  | node
  | blockNode
  | flowNode
  | blockSequence
  | blockMapping
  | flowSequence
  | flowMapping
deriving DecidableEq, Repr

namespace Activity

/-- The wording of an activity. -/
def text : Activity → String
  | .nextToken => "while scanning for the next token"
  | .simpleKey => "while scanning a simple key"
  | .directive => "while scanning a directive"
  | .versionDirective => "while scanning a %YAML directive"
  | .tagDirective => "while scanning a %TAG directive"
  | .tagDirectiveHandle => "while scanning a tag directive"
  | .tagDirectiveHandleEnd => "while parsing a tag directive"
  | .tagDirectiveText => "while parsing a %TAG directive"
  | .anchor => "while scanning an anchor"
  | .aliasName => "while scanning an alias"
  | .tag => "while scanning a tag"
  | .tagText => "while parsing a tag"
  | .blockScalar => "while scanning a block scalar"
  | .quotedScalar => "while scanning a quoted scalar"
  | .quotedEscape => "while parsing a quoted scalar"
  | .plainScalar => "while scanning a plain scalar"
  | .node => "while parsing a node"
  | .blockNode => "while parsing a block node"
  | .flowNode => "while parsing a flow node"
  | .blockSequence => "while parsing a block collection"
  | .blockMapping => "while parsing a block mapping"
  | .flowSequence => "while parsing a flow sequence"
  | .flowMapping => "while parsing a flow mapping"

end Activity

/-- Where a text breaks the grammar. A problem with the characters themselves has no mark but the offset of
the octet that is wrong. -/
structure SyntaxError where
  problem : Problem
  mark : Mark := {}
  offset : Nat := 0
  during : Option (Activity × Mark) := none
deriving DecidableEq, Repr

namespace SyntaxError

/-- The wording of a syntax error. The place where the activity began is named if it is another one. -/
def message (e : SyntaxError) : String :=
  let place :=
    if !e.mark.isOrigin then e.mark.suffix
    else if e.offset ≠ 0 then " at position " ++ toString e.offset
    else ""
  let activity := match e.during with
    | none => ""
    | some (a, start) =>
      ", " ++ a.text ++
        if start.line = e.mark.line ∧ start.column = e.mark.column then "" else start.suffix
  e.problem.text ++ place ++ activity

end SyntaxError

/-- Why a well-formed value cannot be taken. -/
inductive Complaint
  /-- Two keys of one map are equal. -/
  | duplicateKey (key : Tree)
  /-- A core tag and the text of its scalar do not fit. -/
  | badCoreScalar (text wanted : String)
  /-- An integer beyond 64 bits. -/
  | hugeInteger (value : Int) (wanted : String)
  | unfit (found : Found) (wanted : Wanted)
deriving Repr

namespace Complaint

/-- The wording of a complaint. -/
def message : Complaint → String
  | .duplicateKey .null => "duplicate entry with null key"
  | .duplicateKey (.flag b) =>
    "duplicate entry with key `" ++ (if b then "true" else "false") ++ "`"
  | .duplicateKey (.number n) => "duplicate entry with key " ++ n.text
  | .duplicateKey (.text s) => "duplicate entry with key " ++ Text.quoteText s
  | .duplicateKey _ => "duplicate entry in YAML map"
  | .badCoreScalar text wanted =>
    "invalid value: " ++ (Found.text text).describe ++ ", expected " ++ wanted
  | .hugeInteger n wanted =>
    "invalid type: integer `" ++ toString n ++ "` as " ++ (if n < 0 then "i128" else "u128") ++
      ", expected " ++ wanted
  | .unfit found wanted => (Mismatch.wrongKind found wanted).message

end Complaint

/-- The way from the root of a document to a node, as the text spells it. -/
inductive NodePath
  | root
  | item (parent : NodePath) (index : Nat)
  | entry (parent : NodePath) (key : String)
  /-- The value under a key that is no scalar. -/
  | unnamed (parent : NodePath)
  /-- What an alias stands for. -/
  | copy (parent : NodePath)
deriving DecidableEq, Repr

namespace NodePath

/-- A path as messages write it. The root is a point, but writes nothing in front of a key. -/
def render : NodePath → String
  | .root => "."
  | .item parent index => parent.render ++ "[" ++ toString index ++ "]"
  | .entry .root key => key
  | .entry parent key => parent.render ++ "." ++ key
  | .unnamed .root => "?"
  | .unnamed parent => parent.render ++ ".?"
  | .copy parent => parent.render

/-- The path at the beginning of a message, which leaves out the root. -/
def lead (p : NodePath) : String :=
  if p.render = "." then "" else p.render ++ ": "

end NodePath

/-- Why a text is no document. -/
inductive Failure
  | malformed (error : SyntaxError)
  /-- A value cannot be taken. Where it stands is not always known. -/
  | unacceptable (complaint : Complaint) (place : Option (NodePath × Mark))
  | unknownAnchor (mark : Mark)
  | tooDeep (mark : Mark)
  | tooManyRepetitions
  | severalDocuments
  | incomplete
deriving Repr

namespace Failure

/-- The wording of a failure. -/
def message : Failure → String
  | .malformed e => e.message
  | .unacceptable c (some (path, mark)) => path.lead ++ c.message ++ mark.suffix
  | .unacceptable c none => c.message
  | .unknownAnchor mark => "unknown anchor" ++ mark.suffix
  | .tooDeep mark => "recursion limit exceeded" ++ mark.suffix
  | .tooManyRepetitions => "repetition limit exceeded"
  | .severalDocuments =>
    "deserializing from YAML containing more than one document is not supported"
  | .incomplete => "EOF while parsing a value"

/-- The position a failure is reported with. -/
def mark? : Failure → Option Mark
  | .malformed e => some e.mark
  | .unacceptable _ place => place.map (·.2)
  | .unknownAnchor mark => some mark
  | .tooDeep mark => some mark
  | _ => none

end Failure

end Provisioning.Yaml
