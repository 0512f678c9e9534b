import Provisioning.TypeName
import Provisioning.Yaml.TokenStream

/-!
# Streams of events

Events tell the tree that a text describes, from left to right: scalars, aliases, and the beginnings and ends of
collections and documents. What may come next is a stack of expectations; `EventStream.next` takes one event
from the tokens.
-/

namespace Provisioning.Yaml

/-- What an event tells. The tag of a node is a list of octets, its directives already applied. -/
inductive EventKind
  | streamEnd
  | documentStart
  | documentEnd
  | aliasOf (name : String)
  | scalar (anchor : Option String) (tag : Option (List UInt8)) (text : String) (style : ScalarStyle)
  | sequenceStart (anchor : Option String) (tag : Option (List UInt8))
  | sequenceEnd
  | mappingStart (anchor : Option String) (tag : Option (List UInt8))
  | mappingEnd
deriving DecidableEq, Repr, Inhabited

/-- An event with the place where it begins. -/
structure NodeEvent where
  kind : EventKind
  mark : Mark
deriving DecidableEq, Repr, Inhabited

/-- What is expected next. Inside a collection the mark is where the collection began. -/
inductive Expectation
  | firstDocument
  | laterDocument
  | documentContent
  | documentEnd
  | blockNode
  | blockSequence (start : Mark)
  /-- A sequence whose items stand at the column of the key it belongs to. -/
  | plainSequence
  | blockMappingKey (start : Mark)
  | blockMappingValue (start : Mark)
  | flowSequenceFirst (start : Mark)
  | flowSequence (start : Mark)
  /-- A map of one entry, written as an item of a flow sequence. -/
  | pairKey
  | pairValue
  | pairEnd
  | flowMappingFirst (start : Mark)
  | flowMapping (start : Mark)
  | flowMappingValue (start : Mark)
  | flowMappingNoValue (start : Mark)
  | nothing
deriving DecidableEq, Repr, Inhabited

/-- The tokens that are left, what is expected, and the tag handles of the document. -/
structure EventStream where
  tokens : TokenStream
  expected : Expectation := .firstDocument
  outer : List Expectation := []
  handles : List (String × List UInt8) := []
deriving Inhabited

namespace EventStream

/-- The events of a text. Its first token says only that it begins. -/
def ofSource (source : Source) : EventStream := { tokens := .ofSource source }

/-- An event, and the stream after it. -/
abbrev Step := Except SyntaxError (NodeEvent × EventStream)

/-- Expects something else next. -/
def expect (s : EventStream) (e : Expectation) : EventStream := { s with expected := e }

/-- Expects something once what comes before it is complete. -/
def later (s : EventStream) (e : Expectation) : EventStream := { s with outer := e :: s.outer }

/-- Goes on with what was expected later. -/
def resume (s : EventStream) : EventStream :=
  match s.outer with
  | e :: es => { s with expected := e, outer := es }
  | [] => { s with expected := .nothing }

/-- The next token. -/
def peek (s : EventStream) : Except SyntaxError (Token × EventStream) := do
  let (t, tokens) ← s.tokens.peek
  .ok (t, { s with tokens })

/-- Passes a token. -/
def skip (s : EventStream) : EventStream := { s with tokens := s.tokens.skip }

/-- A scalar that is not there. -/
def emptyScalar (s : EventStream) (mark : Mark) : Step :=
  .ok (⟨.scalar none none "" .plain, mark⟩, s)

/-- Fails at a token, inside something that began at `start`. -/
def failAt (t : Token) (activity : Activity) (start : Mark) (problem : Problem) : Step :=
  .error { problem, mark := t.start, during := some (activity, start) }

/-! ## Nodes -/

/-- What stands before the content of a node. -/
structure Properties where
  anchor : Option String := none
  tag : Option (String × List UInt8 × Mark) := none
  start : Mark

/-- Reads an anchor, if there is one. -/
def anchor? (s : EventStream) : Except SyntaxError (Option String × EventStream) := do
  let (t, s) ← s.peek
  match t.kind with
  | .anchor name => .ok (some name, s.skip)
  | _ => .ok (none, s)

/-- Reads a tag, if there is one. -/
def tag? (s : EventStream) :
    Except SyntaxError (Option (String × List UInt8 × Mark) × EventStream) := do
  let (t, s) ← s.peek
  match t.kind with
  | .tag handle text => .ok (some (handle, text, t.start), s.skip)
  | _ => .ok (none, s)

/-- Reads an anchor and a tag, in either order. -/
def properties (s : EventStream) : Except SyntaxError (Properties × EventStream) := do
  let (first, s) ← s.peek
  match first.kind with
  | .anchor _ => do
    let (anchor, s) ← s.anchor?
    let (tag, s) ← s.tag?
    .ok ({ anchor, tag, start := first.start }, s)
  | .tag _ _ => do
    let (tag, s) ← s.tag?
    let (anchor, s) ← s.anchor?
    .ok ({ anchor, tag, start := first.start }, s)
  | _ => .ok ({ start := first.start }, s)

/-- The octets of a tag, its handle replaced. -/
def tagOctets (s : EventStream) (p : Properties) : Except SyntaxError (Option (List UInt8)) :=
  match p.tag with
  | none => .ok none
  | some (handle, text, mark) =>
    if handle = "" then .ok (some text)
    else match s.handles.lookup handle with
      | some replacement => .ok (some (replacement ++ text))
      | none => .error { problem := .unknownTagHandle, mark, during := some (.node, p.start) }

/-- Reads a node. In `block` context block collections may begin, and with `bare` a sequence whose items are not
indented. -/
def node (s : EventStream) (block : Bool) (bare : Bool := false) : Step := do
  let (first, s) ← s.peek
  match first.kind with
  | .aliasOf name => .ok (⟨.aliasOf name, first.start⟩, s.skip.resume)
  | _ => do
    let (p, s) ← s.properties
    let (t, s) ← s.peek
    let tag ← s.tagOctets p
    match t.kind, bare, block with
    | .blockEntry, true, _ =>
      .ok (⟨.sequenceStart p.anchor tag, p.start⟩, s.expect .plainSequence)
    | .scalar text style, _, _ =>
      .ok (⟨.scalar p.anchor tag text style, p.start⟩, s.skip.resume)
    | .flowSequenceStart, _, _ =>
      .ok (⟨.sequenceStart p.anchor tag, p.start⟩, s.skip.expect (.flowSequenceFirst t.start))
    | .flowMappingStart, _, _ =>
      .ok (⟨.mappingStart p.anchor tag, p.start⟩, s.skip.expect (.flowMappingFirst t.start))
    | .blockSequenceStart, _, true =>
      .ok (⟨.sequenceStart p.anchor tag, p.start⟩, s.skip.expect (.blockSequence t.start))
    | .blockMappingStart, _, true =>
      .ok (⟨.mappingStart p.anchor tag, p.start⟩, s.skip.expect (.blockMappingKey t.start))
    | _, _, _ =>
      if p.anchor.isSome || tag.isSome then
        .ok (⟨.scalar p.anchor tag "" .plain, p.start⟩, s.resume)
      else failAt t (if block then .blockNode else .flowNode) p.start .missingContent

/-! ## Documents -/

/-- The tag handles that every document has. -/
def defaultHandles : List (String × List UInt8) :=
  [("!", octetsOf ['!']), ("!!", octetsOf TagRole.corePrefix.toList)]

/-- Reads the directives of a document, given those already read. -/
def directives : Nat → EventStream → Bool → List (String × List UInt8) →
    Except SyntaxError EventStream
  | 0, s, _, handles => .ok { s with handles }
  | fuel + 1, s, versioned, handles => do
    let (t, s) ← s.peek
    match t.kind with
    | .versionDirective major minor =>
      if versioned then .error { problem := .repeatedVersion, mark := t.start }
      else if major ≠ 1 ∨ (minor ≠ 1 ∧ minor ≠ 2) then
        .error { problem := .unsupportedVersion, mark := t.start }
      else directives fuel s.skip true handles
    | .tagDirective handle replacement =>
      if (handles.lookup handle).isSome then
        .error { problem := .repeatedTagDirective, mark := t.start }
      else directives fuel s.skip versioned (handles ++ [(handle, replacement)])
    | _ => .ok { s with handles := handles ++ defaultHandles }

/-- Passes the lines that end documents. -/
def passDocumentEnds : Nat → EventStream → Except SyntaxError EventStream
  | 0, s => .ok s
  | fuel + 1, s => do
    let (t, s) ← s.peek
    if t.kind = .documentEnd then passDocumentEnds fuel s.skip else .ok s

/-- Reads the beginning of a document, or the end of the text. The first document may begin without a mark. -/
def document (s : EventStream) (first : Bool) : Step := do
  let s ← if first then .ok s else passDocumentEnds s.tokens.bound s
  let (t, s) ← s.peek
  let implicit := match t.kind with
    | .versionDirective _ _ | .tagDirective _ _ | .documentStart | .streamEnd => false
    | _ => first
  if implicit then
    let s ← directives s.tokens.bound s false []
    .ok (⟨.documentStart, t.start⟩, (s.later .documentEnd).expect .blockNode)
  else if t.kind = .streamEnd then .ok (⟨.streamEnd, t.start⟩, s.skip.expect .nothing)
  else
    let start := t.start
    let s ← directives s.tokens.bound s false []
    let (t, s) ← s.peek
    if t.kind ≠ .documentStart then
      .error { problem := .missingDocumentStart, mark := t.start }
    else .ok (⟨.documentStart, start⟩, (s.skip.later .documentEnd).expect .documentContent)

/-! ## The next event -/

/-- Whether a token ends an entry of a block sequence or map before any content. -/
def endsEntry (mapping : Bool) : TokenKind → Bool
  | .blockEnd => true
  | .blockEntry => !mapping
  | .key | .value => mapping
  | _ => false

/-- Reads the content of an entry that began at an indicator: a node, or nothing. -/
def entryContent (s : EventStream) (indicator : Token) (next : Expectation)
    (isEnd : TokenKind → Bool) (bare : Bool) : Step := do
  let (t, s) ← s.skip.peek
  if isEnd t.kind then (s.expect next).emptyScalar indicator.stop
  else (s.later next).node true bare

/-- Reads an item of a flow sequence, or its end. -/
def flowItem (s : EventStream) (t : Token) (start : Mark) : Step :=
  match t.kind with
  | .key => .ok (⟨.mappingStart none none, t.start⟩, (s.skip.later (.flowSequence start)).expect .pairKey)
  | .flowSequenceEnd => .ok (⟨.sequenceEnd, t.start⟩, s.skip.resume)
  | _ => (s.later (.flowSequence start)).node false

/-- Reads a key of a flow map, or its end. -/
def flowKey (s : EventStream) (t : Token) (start : Mark) : Step := do
  match t.kind with
  | .key => do
    let (t, s) ← s.skip.peek
    match t.kind with
    | .value | .flowEntry | .flowMappingEnd => (s.expect (.flowMappingValue start)).emptyScalar t.start
    | _ => (s.later (.flowMappingValue start)).node false
  | .flowMappingEnd => .ok (⟨.mappingEnd, t.start⟩, s.skip.resume)
  | _ => (s.later (.flowMappingNoValue start)).node false

/-- The next event. -/
def next (s : EventStream) : Step := do
  let (t, s) ← s.peek
  match s.expected with
  | .firstDocument => if t.kind = .streamStart then s.skip.document true else s.document true
  | .laterDocument => s.document false
  | .documentContent =>
    match t.kind with
    | .versionDirective _ _ | .tagDirective _ _ | .documentStart | .documentEnd | .streamEnd =>
      s.resume.emptyScalar t.start
    | _ => s.node true
  | .documentEnd =>
    let s := if t.kind = .documentEnd then s.skip else s
    .ok (⟨.documentEnd, t.start⟩, { s with handles := [] }.expect .laterDocument)
  | .blockNode => s.node true
  | .blockSequence start =>
    match t.kind with
    | .blockEntry => s.entryContent t (.blockSequence start) (endsEntry false) false
    | .blockEnd => .ok (⟨.sequenceEnd, t.start⟩, s.skip.resume)
    | _ => failAt t .blockSequence start .missingBlockEntry
  | .plainSequence =>
    match t.kind with
    | .blockEntry =>
      s.entryContent t .plainSequence (fun k => endsEntry false k || endsEntry true k) false
    | _ => .ok (⟨.sequenceEnd, t.start⟩, s.resume)
  | .blockMappingKey start =>
    match t.kind with
    | .key => s.entryContent t (.blockMappingValue start) (endsEntry true) true
    | .blockEnd => .ok (⟨.mappingEnd, t.start⟩, s.skip.resume)
    | _ => failAt t .blockMapping start .missingBlockKey
  | .blockMappingValue start =>
    match t.kind with
    | .value => s.entryContent t (.blockMappingKey start) (endsEntry true) true
    | _ => (s.expect (.blockMappingKey start)).emptyScalar t.start
  | .flowSequenceFirst start => s.flowItem t start
  | .flowSequence start =>
    match t.kind with
    | .flowSequenceEnd => s.flowItem t start
    | .flowEntry => do
      let (t, s) ← s.skip.peek
      s.flowItem t start
    | _ => failAt t .flowSequence start .unclosedFlowSequence
  | .pairKey =>
    match t.kind with
    -- the token that shows the key is missing is passed as well
    | .value | .flowEntry | .flowSequenceEnd => (s.skip.expect .pairValue).emptyScalar t.stop
    | _ => (s.later .pairValue).node false
  | .pairValue =>
    match t.kind with
    | .value => do
      let (t, s) ← s.skip.peek
      match t.kind with
      | .flowEntry | .flowSequenceEnd => (s.expect .pairEnd).emptyScalar t.start
      | _ => (s.later .pairEnd).node false
    | _ => (s.expect .pairEnd).emptyScalar t.start
  | .pairEnd => .ok (⟨.mappingEnd, t.start⟩, s.resume)
  | .flowMappingFirst start => s.flowKey t start
  | .flowMapping start =>
    match t.kind with
    | .flowMappingEnd => s.flowKey t start
    | .flowEntry => do
      let (t, s) ← s.skip.peek
      s.flowKey t start
    | _ => failAt t .flowMapping start .unclosedFlowMapping
  | .flowMappingValue start =>
    match t.kind with
    | .value => do
      let (t, s) ← s.skip.peek
      match t.kind with
      | .flowEntry | .flowMappingEnd => (s.expect (.flowMapping start)).emptyScalar t.start
      | _ => (s.later (.flowMapping start)).node false
    | _ => (s.expect (.flowMapping start)).emptyScalar t.start
  | .flowMappingNoValue start => (s.expect (.flowMapping start)).emptyScalar t.start
  | .nothing => .ok (⟨.streamEnd, t.start⟩, s)

end EventStream

end Provisioning.Yaml
