import Provisioning.Yaml.Source

/-!
# Reading characters

A cursor stands in a text: what is before it is read, and the mark says how much that is. Reading on is pure; that a
character cannot be had because the text is broken there is found out by `Cursor.need`. Past the end of the text
every character is NUL, which stands in no text.
-/

namespace Provisioning.Yaml

/-! ## Character classes -/

/-- The end of the text. -/
def isEnd (c : Char) : Bool := c == '\x00'

/-- A character that ends a line. -/
def isBreak (c : Char) : Bool :=
  c == '\r' || c == '\n' || c == '\x85' || c == '\u2028' || c == '\u2029'

/-- A space or a tab. -/
def isBlank (c : Char) : Bool := c == ' ' || c == '\t'

/-- A line end or the end of the text. -/
def isBreakOrEnd (c : Char) : Bool := isBreak c || isEnd c

/-- A blank, a line end or the end of the text. -/
def isBlankOrEnd (c : Char) : Bool := isBlank c || isBreakOrEnd c

/-- A character of an anchor or of a tag handle. -/
def isWord (c : Char) : Bool := c.isAlphanum || c == '_' || c == '-'

/-- The value of a hexadecimal digit. -/
def hexDigit? (c : Char) : Option Nat :=
  if c.isDigit then some (c.toNat - '0'.toNat)
  else if 'a' ≤ c ∧ c ≤ 'f' then some (c.toNat - 'a'.toNat + 10)
  else if 'A' ≤ c ∧ c ≤ 'F' then some (c.toNat - 'A'.toNat + 10)
  else none

/-! ## Cursors -/

/-- A place in a text. -/
structure Cursor where
  rest : List Char
  mark : Mark
  /-- What is wrong with the text after the characters that are left. -/
  failure : Option SyntaxError
deriving Inhabited

namespace Cursor

/-- The beginning of a text. -/
def start (source : Source) : Cursor := ⟨source.chars, {}, source.failure⟩

/-- The character `k` places on. -/
def peek (c : Cursor) (k : Nat := 0) : Char := c.rest.getD k '\x00'

/-- Whether the character `k` places on is `x`. -/
def at? (c : Cursor) (x : Char) (k : Nat := 0) : Bool := c.peek k == x

/-- Fails where the text is broken before `n` more characters. -/
def need (c : Cursor) (n : Nat) : Except SyntaxError Unit :=
  match c.failure with
  | some e => if (c.rest.drop (n - 1)).isEmpty then .error e else .ok ()
  | none => .ok ()

/-- Passes one character within the line. -/
def skip (c : Cursor) : Cursor :=
  match c.rest with
  | [] => c
  | x :: rest =>
    { c with rest, mark := c.mark.next x }

/-- Passes `n` characters within the line. -/
def skipMany (c : Cursor) : Nat → Cursor
  | 0 => c
  | n + 1 => c.skip.skipMany n

/-- Passes a line end, if there is one, and gives the character it stands for: the two oldest line ends and the
"next line" character are all written as a line feed. -/
def takeBreak (c : Cursor) : List Char × Cursor :=
  match c.rest with
  | '\r' :: '\n' :: rest => (['\n'], { c with rest, mark := c.mark.nextLine 2 })
  | x :: rest =>
    let next : Cursor := { c with rest, mark := c.mark.nextLine x.utf8Size }
    if x == '\u2028' || x == '\u2029' then ([x], next)
    else if isBreak x then (['\n'], next)
    else ([], c)
  | [] => ([], c)

/-- Passes a line end, if there is one. -/
def skipBreak (c : Cursor) : Cursor := c.takeBreak.2

/-- Passes the characters of a class that holds no line end, and gives them. -/
def takeWhile (c : Cursor) (p : Char → Bool) : Except SyntaxError (List Char × Cursor) := do
  let taken := c.rest.takeWhile p
  let next := c.skipMany taken.length
  next.need 1
  .ok (taken, next)

/-- Passes the characters of a class that holds no line end. -/
def skipWhile (c : Cursor) (p : Char → Bool) : Except SyntaxError Cursor := do
  let (_, next) ← c.takeWhile p
  .ok next

/-- Passes a comment, if one begins here, up to its line end. -/
def skipComment (c : Cursor) : Except SyntaxError Cursor :=
  if c.at? '#' then c.skipWhile (fun x => !isBreakOrEnd x) else .ok c

/-- Passes a line end, if there is one, having made sure that it can be read whole. -/
def finishLine (c : Cursor) : Except SyntaxError Cursor :=
  if isBreak c.peek then do
    c.need 2
    .ok c.skipBreak
  else .ok c

/-- Fails at this place, during something that began at `start`. -/
def fail {α : Type} (c : Cursor) (activity : Activity) (start : Mark) (problem : Problem) :
    Except SyntaxError α :=
  .error { problem, mark := c.mark, during := some (activity, start) }

/-- Whether a line of three equal marks, as between documents, begins here. -/
def atDocumentMark (c : Cursor) (x : Char) : Bool :=
  c.mark.column == 0 && c.at? x 0 && c.at? x 1 && c.at? x 2 && isBlankOrEnd (c.peek 3)

/-- Whether a line between documents begins here. -/
def atDocumentBoundary (c : Cursor) : Bool := c.atDocumentMark '-' || c.atDocumentMark '.'

end Cursor

end Provisioning.Yaml
