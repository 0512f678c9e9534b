import Provisioning.Yaml.Scalar
import Provisioning.Yaml.Tag

/-!
# Streams of tokens

Whether a scalar is a map key shows only at the colon after it, so tokens wait in a queue as long as the
first of them may turn out to begin a key; then a key token, and the beginning of a map, are put in front of it.
A key without indicator lies on one line and is no longer than 1024 octets.
-/

namespace Provisioning.Yaml

/-- A place where a key without indicator may begin. -/
structure KeyCandidate where
  possible : Bool := false
  /-- Whether the block structure is broken if no key begins here. -/
  required : Bool := false
  /-- The number of the token that the key would begin with. -/
  position : Nat := 0
  mark : Mark := {}
deriving Inhabited

/-- The text that is left, the tokens read ahead, and the structure that the text is in. -/
structure TokenStream where
  cursor : Cursor
  /-- More than the characters of the text. -/
  bound : Nat
  queue : List Token := []
  /-- How many tokens were taken from the queue. -/
  taken : Nat := 0
  /-- The column of the innermost block collection, `-1` outside of all. -/
  indent : Int := -1
  indents : List Int := []
  /-- How many flow collections are open. -/
  flowLevel : Nat := 0
  /-- The candidates of this and the outer flow levels. -/
  candidates : List KeyCandidate := []
  /-- Whether a key without indicator may begin here. -/
  keyAllowed : Bool := false
  started : Bool := false
deriving Inhabited

namespace TokenStream

/-- The tokens of a text. -/
def ofSource (source : Source) : TokenStream :=
  { cursor := .start source, bound := source.chars.length + 4 }

/-! ## Block structure -/

/-- Puts a token at the end of the queue. -/
def push (s : TokenStream) (t : Token) : TokenStream := { s with queue := s.queue ++ [t] }

/-- Puts a token before the one with a given number. -/
def insertAt (s : TokenStream) (position : Nat) (t : Token) : TokenStream :=
  let k := position - s.taken
  { s with queue := s.queue.take k ++ t :: s.queue.drop k }

/-- Opens a block collection at a column, unless one is open there. Its token goes before the one with the given
number, or to the end. -/
def openBlock (s : TokenStream) (column : Nat) (kind : TokenKind) (mark : Mark)
    (position : Option Nat) : TokenStream :=
  if s.flowLevel = 0 ∧ s.indent < column then
    let s := { s with indents := s.indent :: s.indents, indent := column }
    match position with
    | some p => s.insertAt p ⟨kind, mark, mark⟩
    | none => s.push ⟨kind, mark, mark⟩
  else s

/-- Closes the block collections beyond a column. -/
def closeBlocks (column : Int) (mark : Mark) : List Int → Int → List Token × Int × List Int
  | [], indent => ([], indent, [])
  | outer :: outers, indent =>
    if column < indent then
      let (tokens, rest) := closeBlocks column mark outers outer
      (⟨.blockEnd, mark, mark⟩ :: tokens, rest)
    else ([], indent, outer :: outers)

/-- Closes the block collections beyond a column; inside flow collections columns do not matter. -/
def closeTo (s : TokenStream) (column : Int) : TokenStream :=
  if s.flowLevel = 0 then
    let (tokens, indent, indents) := closeBlocks column s.cursor.mark s.indents s.indent
    { s with queue := s.queue ++ tokens, indent, indents }
  else s

/-! ## Keys without indicator -/

/-- Fails if a key must begin at a place and did not. -/
def giveUp (s : TokenStream) (k : KeyCandidate) : Except SyntaxError KeyCandidate :=
  if k.possible && k.required then s.cursor.fail .simpleKey k.mark .missingColon
  else .ok { k with possible := false }

/-- Gives up the candidate of this flow level. -/
def dropCandidate (s : TokenStream) : Except SyntaxError TokenStream :=
  match s.candidates with
  | [] => .ok s
  | k :: ks => do
    let k ← s.giveUp k
    .ok { s with candidates := k :: ks }

/-- Whether a candidate lies too far back. -/
def isStale (s : TokenStream) (k : KeyCandidate) : Bool :=
  k.possible && (k.mark.line < s.cursor.mark.line || k.mark.octets + 1024 < s.cursor.mark.octets)

/-- Gives up the candidates that lie too far back. -/
def dropStale (s : TokenStream) : Except SyntaxError TokenStream := do
  let candidates ← s.candidates.mapM fun k => if s.isStale k then s.giveUp k else .ok k
  .ok { s with candidates }

/-- Notes that a key may begin here. -/
def saveCandidate (s : TokenStream) : Except SyntaxError TokenStream :=
  if s.keyAllowed then do
    let s ← s.dropCandidate
    let k : KeyCandidate :=
      { possible := true
        required := s.flowLevel == 0 && s.indent == s.cursor.mark.column
        position := s.taken + s.queue.length
        mark := s.cursor.mark }
    .ok { s with candidates := k :: s.candidates.drop 1 }
  else .ok s

/-! ## Single tokens -/

/-- Reads an indicator of `n` characters. -/
def indicator (s : TokenStream) (kind : TokenKind) (n : Nat := 1) : TokenStream :=
  let next := s.cursor.skipMany n
  { s with cursor := next }.push ⟨kind, s.cursor.mark, next.mark⟩

/-- Reads the end of the text. -/
def finish (s : TokenStream) : Except SyntaxError TokenStream := do
  let mark := s.cursor.mark
  let mark := if mark.column = 0 then mark else { mark with line := mark.line + 1, column := 0 }
  let s := { s with cursor := { s.cursor with mark } }.closeTo (-1)
  let s ← s.dropCandidate
  .ok ({ s with keyAllowed := false }.push ⟨.streamEnd, mark, mark⟩)

/-- Reads a directive. -/
def directive (s : TokenStream) : Except SyntaxError TokenStream := do
  let s ← (s.closeTo (-1)).dropCandidate
  let (t, cursor) ← scanDirective s.cursor
  .ok ({ s with cursor, keyAllowed := false }.push t)

/-- Reads a line between documents. -/
def documentMark (s : TokenStream) (kind : TokenKind) : Except SyntaxError TokenStream := do
  let s ← (s.closeTo (-1)).dropCandidate
  .ok ({ s with keyAllowed := false }.indicator kind 3)

/-- Reads the beginning of a flow collection. -/
def flowStart (s : TokenStream) (kind : TokenKind) : Except SyntaxError TokenStream := do
  let s ← s.saveCandidate
  .ok ({ s with
    candidates := {} :: s.candidates, flowLevel := s.flowLevel + 1, keyAllowed := true }.indicator kind)

/-- Reads the end of a flow collection. -/
def flowEnd (s : TokenStream) (kind : TokenKind) : Except SyntaxError TokenStream := do
  let s ← s.dropCandidate
  let s := if s.flowLevel = 0 then s
    else { s with flowLevel := s.flowLevel - 1, candidates := s.candidates.drop 1 }
  .ok ({ s with keyAllowed := false }.indicator kind)

/-- Reads a comma. -/
def flowEntry (s : TokenStream) : Except SyntaxError TokenStream := do
  let s ← s.dropCandidate
  .ok ({ s with keyAllowed := true }.indicator .flowEntry)

/-- Opens a block collection at an indicator. Where no key may begin the indicator is misplaced. -/
def openAtIndicator (s : TokenStream) (kind : TokenKind) (problem : Problem) :
    Except SyntaxError TokenStream :=
  if s.flowLevel ≠ 0 then .ok s
  else if !s.keyAllowed then .error { problem, mark := s.cursor.mark }
  else .ok (s.openBlock s.cursor.mark.column kind s.cursor.mark none)

/-- Reads the indicator of a list item. -/
def blockEntry (s : TokenStream) : Except SyntaxError TokenStream := do
  let s ← s.openAtIndicator .blockSequenceStart .misplacedBlockEntry
  let s ← s.dropCandidate
  .ok ({ s with keyAllowed := true }.indicator .blockEntry)

/-- Reads the indicator of a key. -/
def keyIndicator (s : TokenStream) : Except SyntaxError TokenStream := do
  let s ← s.openAtIndicator .blockMappingStart .misplacedKey
  let s ← s.dropCandidate
  .ok ({ s with keyAllowed := s.flowLevel == 0 }.indicator .key)

/-- Reads the indicator of a value. If a key may have begun before it, that is one. -/
def valueIndicator (s : TokenStream) : Except SyntaxError TokenStream :=
  match s.candidates with
  | k :: ks =>
    if k.possible then
      let s := s.insertAt k.position ⟨.key, k.mark, k.mark⟩
      let s := s.openBlock k.mark.column .blockMappingStart k.mark (some k.position)
      .ok ({ s with candidates := { k with possible := false } :: ks, keyAllowed := false }.indicator
        .value)
    else alone
  | [] => alone
where
  /-- Reads the indicator of a value whose key had one too, or is missing. -/
  alone : Except SyntaxError TokenStream := do
    let s ← s.openAtIndicator .blockMappingStart .misplacedValue
    .ok ({ s with keyAllowed := s.flowLevel == 0 }.indicator .value)

/-- Reads a token that a key may begin with. -/
def keyStart (s : TokenStream) (scan : Cursor → Except SyntaxError (Token × Cursor)) :
    Except SyntaxError TokenStream := do
  let s ← s.saveCandidate
  let (t, cursor) ← scan s.cursor
  .ok ({ s with cursor, keyAllowed := false }.push t)

/-- Reads a plain scalar. If a line ended after it, a key may begin there. -/
def plain (s : TokenStream) : Except SyntaxError TokenStream := do
  let s ← s.saveCandidate
  let (t, broken, cursor) ← scanPlain s.cursor (s.flowLevel != 0) (s.indent + 1)
  .ok ({ s with cursor, keyAllowed := broken }.push t)

/-- Reads a block scalar. -/
def block (s : TokenStream) (literal : Bool) : Except SyntaxError TokenStream := do
  let s ← s.dropCandidate
  let (t, cursor) ← scanBlock s.cursor literal s.indent
  .ok ({ s with cursor, keyAllowed := true }.push t)

/-- Whether a plain scalar can begin at a place. -/
def startsPlain (c : Cursor) (flow : Bool) : Bool :=
  let x := c.peek
  let next := c.peek 1
  !(isBlankOrEnd x || "-?:,[]\x7b\x7d#&*!|>'\"%@\x60".toList.contains x) ||
    (x == '-' && !isBlank next) ||
    (!flow && (x == '?' || x == ':') && !isBlankOrEnd next)

/-! ## The next token -/

/-- Passes blanks, comments and line ends, and at the beginning of a line one byte order mark. A tab cannot indent
a block key. `allowed` says whether a key may begin where the blanks are; after a line end it may, outside flow
collections. -/
def passBlanks (flow : Bool) : Nat → Cursor → Bool → Except SyntaxError (Cursor × Bool)
  | 0, c, allowed => .ok (c, allowed)
  | fuel + 1, c, allowed => do
    c.need 1
    let c := if c.mark.column = 0 && c.at? '\uFEFF' then c.skip else c
    c.need 1
    let c ← c.skipWhile fun x => x == ' ' || ((flow || !allowed) && x == '\t')
    let c ← c.skipComment
    if isBreak c.peek then
      let c ← c.finishLine
      passBlanks flow fuel c (if flow then allowed else true)
    else .ok (c, allowed)

/-- Reads one more token, with the tokens of block structure that come before it. -/
def fetch (s : TokenStream) : Except SyntaxError TokenStream := do
  s.cursor.need 1
  if !s.started then
    let mark := s.cursor.mark
    .ok ({ s with started := true, candidates := [{}], keyAllowed := true }.push
      ⟨.streamStart, mark, mark⟩)
  else
    let flow := s.flowLevel != 0
    let (cursor, keyAllowed) ← passBlanks flow s.bound s.cursor s.keyAllowed
    let s ← { s with cursor, keyAllowed }.dropStale
    let s := s.closeTo s.cursor.mark.column
    let c := s.cursor
    c.need 4
    let x := c.peek
    let next := c.peek 1
    if isEnd x then s.finish
    else if c.mark.column = 0 && x == '%' then s.directive
    else if c.atDocumentMark '-' then s.documentMark .documentStart
    else if c.atDocumentMark '.' then s.documentMark .documentEnd
    else if x == '[' then s.flowStart .flowSequenceStart
    else if x == '\x7b' then s.flowStart .flowMappingStart
    else if x == ']' then s.flowEnd .flowSequenceEnd
    else if x == '\x7d' then s.flowEnd .flowMappingEnd
    else if x == ',' then s.flowEntry
    else if x == '-' && isBlankOrEnd next then s.blockEntry
    else if x == '?' && (flow || isBlankOrEnd next) then s.keyIndicator
    else if x == ':' && (flow || isBlankOrEnd next) then s.valueIndicator
    else if x == '*' then s.keyStart (scanAnchor · true)
    else if x == '&' then s.keyStart (scanAnchor · false)
    else if x == '!' then s.keyStart (scanTag · flow)
    else if x == '|' && !flow then s.block true
    else if x == '>' && !flow then s.block false
    else if x == '\'' then s.keyStart (scanQuoted · '\'')
    else if x == '"' then s.keyStart (scanQuoted · '"')
    else if startsPlain c flow then s.plain
    else c.fail .nextToken c.mark .cannotStartToken

/-- Whether the first token of the queue may still get a key token in front of it. -/
def isWaiting (s : TokenStream) : Bool :=
  s.candidates.any fun k => k.possible && k.position == s.taken

/-- Reads tokens until the first one is settled. -/
def settle : Nat → TokenStream → Except SyntaxError TokenStream
  | 0, s => .ok s
  | fuel + 1, s =>
    if s.queue.isEmpty then do
      let s ← s.fetch
      settle fuel s
    else do
      let s ← s.dropStale
      if s.isWaiting then
        let s ← s.fetch
        settle fuel s
      else .ok s

/-- The next token, which stays in the queue. Every token takes a character or ends the text, which bounds how
many have to be read ahead. -/
def peek (s : TokenStream) : Except SyntaxError (Token × TokenStream) := do
  let s ← s.settle s.bound
  match s.queue with
  | t :: _ => .ok (t, s)
  | [] => s.cursor.fail .nextToken s.cursor.mark .cannotStartToken

/-- Passes the first token of the queue. -/
def skip (s : TokenStream) : TokenStream := { s with queue := s.queue.drop 1, taken := s.taken + 1 }

end TokenStream

end Provisioning.Yaml
