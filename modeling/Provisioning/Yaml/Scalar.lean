import Provisioning.Yaml.Token

/-!
# Scalars

Three ways to write a scalar: plain, between quotes, and as a block of lines. Each is read by one recursion over
the characters, with a phase that says what the last one belonged to. A single line end between words becomes a
space; further line ends stay.
-/

namespace Provisioning.Yaml

/-- The text read so far, backwards, and the blanks or line ends met since. -/
structure Folding where
  text : List Char := []
  /-- Blanks on the line at hand, backwards. -/
  blanks : List Char := []
  /-- The first line end. -/
  leading : List Char := []
  /-- The line ends after the first, in order. -/
  trailing : List Char := []
  /-- Whether a line has ended since the last word. -/
  broken : Bool := false
deriving Inhabited

namespace Folding

/-- Takes a character of a word. -/
def push (f : Folding) (c : Char) : Folding := { f with text := c :: f.text }

/-- Takes a blank; at the beginning of a line it is indentation. -/
def blank (f : Folding) (c : Char) : Folding :=
  if f.broken then f else { f with blanks := c :: f.blanks }

/-- Takes a line end. -/
def lineEnd (f : Folding) (c : List Char) : Folding :=
  if f.broken then { f with trailing := f.trailing ++ c }
  else { f with blanks := [], leading := c, broken := true }

/-- What the line ends since the last word amount to. -/
def folded (leading trailing : List Char) : List Char :=
  match leading with
  | '\n' :: _ => if trailing.isEmpty then [' '] else trailing
  | _ => leading ++ trailing

/-- Puts what stands between two words into the text. -/
def join (f : Folding) : Folding :=
  if f.broken then { text := (folded f.leading f.trailing).reverse ++ f.text }
  else { text := f.blanks ++ f.text }

/-- The text. -/
def result (f : Folding) : String := String.ofList f.text.reverse

end Folding

/-! ## Plain scalars -/

/-- What the last character of a plain scalar belonged to. -/
inductive PlainPhase
  | start
  | word
  | blank
deriving DecidableEq

/-- Whether a plain scalar ends before a character. -/
def endsPlain (flow : Bool) (c next : Char) : Bool :=
  (c == ':' && isBlankOrEnd next) ||
    (flow && (c == ',' || c == '[' || c == ']' || c == '\x7b' || c == '\x7d'))

/-- Whether a colon inside a flow collection is followed by a character that it cannot stand before. -/
def badFlowColon (c next : Char) : Bool :=
  c == ':' && (next == ',' || next == '?' || next == '[' || next == ']' || next == '\x7b' ||
    next == '\x7d')

/-- Reads on in a plain scalar that began at `start`; its further lines are indented by `indent` at least. -/
def plainRest (flow : Bool) (indent : Int) (start : Mark) (failure : Option SyntaxError) :
    List Char → Mark → PlainPhase → Folding → Except SyntaxError (Folding × Cursor)
  | [], mark, _, f =>
    match failure with
    | some e => .error e
    | none => .ok (f, ⟨[], mark, none⟩)
  | c :: rest, mark, phase, f =>
    let here : Cursor := ⟨c :: rest, mark, failure⟩
    if isBlank c then
      if f.broken && decide ((mark.column : Int) < indent) && c == '\t' then
        here.fail .plainScalar start .tabInIndentation
      else plainRest flow indent start failure rest (mark.next c) .blank (f.blank c)
    else if isBreak c then do
      here.need 2
      let f := f.lineEnd here.takeBreak.1
      match c, rest with
      | '\r', '\n' :: rest =>
        plainRest flow indent start failure rest (mark.nextLine 2) .blank f
      | _, rest => plainRest flow indent start failure rest (mark.nextLine c.utf8Size) .blank f
    else if phase = .blank && !flow && decide ((mark.column : Int) < indent) then .ok (f, here)
    else do
      if phase ≠ .word then here.need 4
      if phase ≠ .word && (here.atDocumentBoundary || c == '#') then .ok (f, here)
      else if flow && badFlowColon c (here.peek 1) then here.fail .plainScalar start .unexpectedColon
      else if endsPlain flow c (here.peek 1) then .ok (f, here)
      else
        here.skip.need 2
        plainRest flow indent start failure rest (mark.next c) .word (f.join.push c)

/-- Reads a plain scalar. Also tells whether a line ended after its last word. -/
def scanPlain (c : Cursor) (flow : Bool) (indent : Int) :
    Except SyntaxError (Token × Bool × Cursor) := do
  let (f, next) ← plainRest flow indent c.mark c.failure c.rest c.mark .start {}
  .ok (⟨.scalar f.result .plain, c.mark, next.mark⟩, f.broken, next)

/-! ## Quoted scalars -/

/-- What the last character of a quoted scalar belonged to. -/
inductive QuotedPhase
  | start
  | word
  | blank
  /-- An escape of which `left` digits are to come; they begin at `first`. -/
  | digits (left value : Nat) (first : Mark)
deriving DecidableEq

/-- What the character after a backslash stands for. -/
inductive Escape
  | char (c : Char)
  /-- A code point of so many hexadecimal digits. -/
  | code (digits : Nat)

/-- The meaning of the character after a backslash. -/
def escape? : Char → Option Escape
  | '0' => some (.char '\x00')
  | 'a' => some (.char '\x07')
  | 'b' => some (.char '\x08')
  | 't' => some (.char '\t')
  | '\t' => some (.char '\t')
  | 'n' => some (.char '\n')
  | 'v' => some (.char '\x0b')
  | 'f' => some (.char '\x0c')
  | 'r' => some (.char '\r')
  | 'e' => some (.char '\x1b')
  | ' ' => some (.char ' ')
  | '"' => some (.char '"')
  | '/' => some (.char '/')
  | '\\' => some (.char '\\')
  | 'N' => some (.char '\x85')
  | '_' => some (.char '\xa0')
  | 'L' => some (.char '\u2028')
  | 'P' => some (.char '\u2029')
  | 'x' => some (.code 2)
  | 'u' => some (.code 4)
  | 'U' => some (.code 8)
  | _ => none

/-- Whether a number is the code point of a character. -/
def isCodePoint (n : Nat) : Bool := n < 0xD800 || (0xDFFF < n && n ≤ 0x10FFFF)

/-- Reads on in a scalar between quotes that began at `start`. -/
def quotedRest (quote : Char) (start : Mark) (failure : Option SyntaxError) :
    List Char → Mark → QuotedPhase → Folding → Except SyntaxError (Folding × Cursor)
  | [], mark, phase, _ =>
    match failure with
    | some e => .error e
    | none =>
      match phase with
      | .digits _ _ first =>
        (Cursor.mk [] first none).fail .quotedEscape start .badEscapeDigits
      | _ => (Cursor.mk [] mark none).fail .quotedScalar start .endInside
  | c :: rest, mark, .digits left value first, f =>
    let here : Cursor := ⟨c :: rest, first, failure⟩
    match hexDigit? c with
    | none => here.fail .quotedEscape start .badEscapeDigits
    | some digit => do
      let value := value * 16 + digit
      if 1 < left then
        quotedRest quote start failure rest (mark.next c) (.digits (left - 1) value first) f
      else if !isCodePoint value then here.fail .quotedEscape start .badEscapeCode
      else
        (Cursor.mk rest (mark.next c) failure).need 2
        quotedRest quote start failure rest (mark.next c) .word (f.push (Char.ofNat value))
  | c :: rest, mark, phase, f =>
    let here : Cursor := ⟨c :: rest, mark, failure⟩
    if isBlank c then quotedRest quote start failure rest (mark.next c) .blank (f.blank c)
    else if isBreak c then do
      here.need 2
      let f := f.lineEnd here.takeBreak.1
      match c, rest with
      | '\r', '\n' :: rest => quotedRest quote start failure rest (mark.nextLine 2) .blank f
      | _, rest => quotedRest quote start failure rest (mark.nextLine c.utf8Size) .blank f
    else do
      if phase ≠ .word then here.need 4
      let f := if phase = .blank then f.join else f
      if phase ≠ .word && here.atDocumentBoundary then
        here.fail .quotedScalar start .documentMarkInside
      else if quote == '\'' && c == '\'' && here.at? '\'' 1 then
        match rest with
        | _ :: rest => do
          here.skip.skip.need 2
          quotedRest quote start failure rest ((mark.next c).next c) .word (f.push '\'')
        | [] => .ok (f, here.skip)
      else if c == quote then .ok (f, here.skip)
      else if quote == '"' && c == '\\' && isBreak (here.peek 1) then do
        here.need 3
        let f := { f with broken := true }
        match rest with
        | '\r' :: '\n' :: rest =>
          quotedRest quote start failure rest ((mark.next c).nextLine 2) .blank f
        | x :: rest =>
          quotedRest quote start failure rest ((mark.next c).nextLine x.utf8Size) .blank f
        | [] => .ok (f, here.skip)
      else if quote == '"' && c == '\\' then
        match rest with
        | [] => here.fail .quotedEscape start .unknownEscape
        | e :: rest =>
          match escape? e with
          | none => here.fail .quotedEscape start .unknownEscape
          | some (.char x) => do
            here.skip.skip.need 2
            quotedRest quote start failure rest ((mark.next c).next e) .word (f.push x)
          | some (.code digits) => do
            here.skip.skip.need digits
            let first := (mark.next c).next e
            quotedRest quote start failure rest first (.digits digits 0 first) f
      else do
        here.skip.need 2
        quotedRest quote start failure rest (mark.next c) .word (f.push c)

/-- Reads a scalar between quotes. -/
def scanQuoted (c : Cursor) (quote : Char) : Except SyntaxError (Token × Cursor) := do
  let first := c.skip
  let (f, next) ← quotedRest quote c.mark c.failure first.rest first.mark .start {}
  .ok (⟨.scalar f.result .quoted, c.mark, next.mark⟩, next)

/-! ## Block scalars -/

/-- What happens to the line ends after the last line of a block scalar. -/
inductive Chomping
  | strip
  | clip
  | keep
deriving DecidableEq

/-- The header of a block scalar. -/
structure BlockHeader where
  literal : Bool
  chomping : Chomping := .clip
  /-- The indentation relative to the parent, if it is given. -/
  increment : Nat := 0

/-- The text of a block scalar read so far, backwards, and the line ends since. -/
structure BlockText where
  text : List Char := []
  leading : List Char := []
  trailing : List Char := []
  /-- Whether the last line began with a blank. -/
  indented : Bool := false

namespace BlockText

/-- Begins a line with a character. Between two lines that do not begin with a blank, a folded scalar turns a
single line end into a space. -/
def beginLine (b : BlockText) (literal : Bool) (c : Char) : BlockText :=
  let joined :=
    if !literal && b.leading.head? == some '\n' && !b.indented && !isBlank c then
      (if b.trailing.isEmpty then [' '] else []) ++ b.trailing
    else b.leading ++ b.trailing
  { text := c :: (joined.reverse ++ b.text), indented := isBlank c }

/-- The text, with the line ends that chomping leaves. -/
def result (b : BlockText) (chomping : Chomping) : String :=
  let tail := match chomping with
    | .strip => []
    | .clip => b.leading
    | .keep => b.leading ++ b.trailing
  String.ofList (b.text.reverse ++ tail)

end BlockText

/-- Where the reading of a block scalar stands: between lines, having met indentation up to `widest`, or inside
a line. -/
inductive BlockPhase
  | between (widest : Nat)
  | line

/-- Reads on in a block scalar that began at `start`. As long as `indent` is zero the indentation is that of the
first line, and `least` at least. -/
def blockRest (literal : Bool) (least : Nat) (start : Mark) (failure : Option SyntaxError) :
    List Char → Mark → BlockPhase → Nat → BlockText → Except SyntaxError (BlockText × Cursor)
  | [], mark, _, _, b =>
    match failure with
    | some e => .error e
    | none => .ok (b, ⟨[], mark, none⟩)
  | c :: rest, mark, .line, indent, b =>
    let here : Cursor := ⟨c :: rest, mark, failure⟩
    if isBreak c then do
      here.need 2
      let b := { b with leading := here.takeBreak.1 }
      match c, rest with
      | '\r', '\n' :: rest =>
        blockRest literal least start failure rest (mark.nextLine 2) (.between 0) indent b
      | _, rest =>
        blockRest literal least start failure rest (mark.nextLine c.utf8Size) (.between 0) indent b
    else blockRest literal least start failure rest (mark.next c) .line indent { b with text := c :: b.text }
  | c :: rest, mark, .between widest, indent, b =>
    let here : Cursor := ⟨c :: rest, mark, failure⟩
    let inIndentation := indent == 0 || mark.column < indent
    if inIndentation && c == ' ' then
      blockRest literal least start failure rest (mark.next c) (.between widest) indent b
    else if inIndentation && c == '\t' then here.fail .blockScalar start .tabForIndentation
    else
      let widest := max widest mark.column
      if isBreak c then do
        here.need 2
        let b := { b with trailing := b.trailing ++ here.takeBreak.1 }
        match c, rest with
        | '\r', '\n' :: rest =>
          blockRest literal least start failure rest (mark.nextLine 2) (.between widest) indent b
        | _, rest =>
          blockRest literal least start failure rest (mark.nextLine c.utf8Size) (.between widest) indent b
      else
        let indent := if indent = 0 then max widest (max least 1) else indent
        if mark.column = indent then
          blockRest literal least start failure rest (mark.next c) .line indent (b.beginLine literal c)
        else .ok (b, here)

/-- The chomping that an indicator asks for. -/
def chomping? : Char → Option Chomping
  | '+' => some .keep
  | '-' => some .strip
  | _ => none

/-- Reads an indentation indicator, if one stands here. -/
def scanIncrement (c : Cursor) (start : Mark) : Except SyntaxError (Nat × Cursor) :=
  let x := c.peek
  if !x.isDigit then .ok (0, c)
  else if x == '0' then c.fail .blockScalar start .zeroIndentation
  else .ok (x.toNat - '0'.toNat, c.skip)

/-- Reads the header of a block scalar after its first character: the indicators in either order, and the
rest of the line. -/
def scanBlockHeader (c : Cursor) (start : Mark) (literal : Bool) :
    Except SyntaxError (BlockHeader × Cursor) := do
  c.need 1
  let (header, c) ← match chomping? c.peek with
    | some chomping => do
      let c := c.skip
      c.need 1
      let (increment, c) ← scanIncrement c start
      .ok ({ literal, chomping, increment : BlockHeader }, c)
    | none => do
      let (increment, c) ← scanIncrement c start
      if increment = 0 then .ok ({ literal : BlockHeader }, c)
      else do
        c.need 1
        match chomping? c.peek with
        | some chomping => .ok ({ literal, chomping, increment : BlockHeader }, c.skip)
        | none => .ok ({ literal, increment : BlockHeader }, c)
  let c ← c.skipWhile isBlank
  let c ← c.skipComment
  if !isBreakOrEnd c.peek then c.fail .blockScalar start .expectedLineEnd
  else do
    let c ← c.finishLine
    .ok (header, c)

/-- Reads a block scalar below an indentation of `indent`, which is negative at the top. -/
def scanBlock (c : Cursor) (literal : Bool) (indent : Int) : Except SyntaxError (Token × Cursor) := do
  let (header, first) ← scanBlockHeader c.skip c.mark literal
  let given :=
    if header.increment = 0 then 0
    else if 0 ≤ indent then indent.toNat + header.increment
    else header.increment
  let (b, next) ← blockRest literal (indent + 1).toNat c.mark c.failure first.rest first.mark
    (.between 0) given {}
  .ok (⟨.scalar (b.result header.chomping) .block, c.mark, next.mark⟩, next)

end Provisioning.Yaml
