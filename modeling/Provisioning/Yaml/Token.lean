import Provisioning.Yaml.Cursor

/-!
# Tokens

The words of a text: indicators, the beginnings and ends of collections, and scalars with their text already
folded and unescaped.
-/

namespace Provisioning.Yaml

/-- How a scalar is written. Only plain scalars can be anything but text. -/
inductive ScalarStyle
  | plain
  | quoted
  | block
deriving DecidableEq, Repr, Inhabited

/-- What a token is. A tag's text is a list of octets, since escapes in it may spell anything. -/
inductive TokenKind
  | streamStart
  | streamEnd
  | versionDirective (major minor : Nat)
  | tagDirective (handle : String) (replacement : List UInt8)
  | documentStart
  | documentEnd
  | blockSequenceStart
  | blockMappingStart
  | blockEnd
  | flowSequenceStart
  | flowSequenceEnd
  | flowMappingStart
  | flowMappingEnd
  | blockEntry
  | flowEntry
  | key
  | value
  | aliasOf (name : String)
  | anchor (name : String)
  | tag (handle : String) (text : List UInt8)
  | scalar (text : String) (style : ScalarStyle)
deriving DecidableEq, Repr, Inhabited

/-- A token with its beginning and its end. -/
structure Token where
  kind : TokenKind
  start : Mark
  stop : Mark
deriving DecidableEq, Repr, Inhabited

end Provisioning.Yaml
