import Provisioning.Decode.Decoder
import Provisioning.Profile.ClassList
import Provisioning.Yaml.Document

/-!
# Streams

A stream delivers octets and may fail after them. Nothing of a document is looked at before its stream was read to the
end, so a failure of the stream is all that is reported of it. Whatever goes wrong on the way from a stream to a
document tree is a fault of decoding.
-/

namespace Provisioning

/-- The fault of a text that is no document. Its message ends with the place, if that is known. -/
def Yaml.Failure.toFault (f : Yaml.Failure) : Fault :=
  .ofRefusal f.message (match f.mark? with
    | some mark =>
      " (line " ++ toString (mark.line + 1) ++ ", column " ++ toString (mark.column + 1) ++ ")"
    | none => "")

/-- Octets that are delivered, and what ends them if it is no proper end. -/
structure Stream where
  octets : List UInt8
  failure : Option IoFailure := none
deriving DecidableEq, Repr, Inhabited

namespace Stream

/-- The stream of a text. -/
def ofText (s : String) : Stream := { octets := s.toUTF8.toList }

/-- Reads a stream to its end and takes something off the text. -/
def readWith {α : Type} (read : List UInt8 → Except Yaml.Failure α) (s : Stream) :
    Except Fault α :=
  match s.failure with
  | some failure => .error (.ofRefusal failure.text "")
  | none => (read s.octets).mapError Yaml.Failure.toFault

/-- The document tree that a stream delivers. -/
def readTree (s : Stream) : Except Fault Tree := s.readWith Yaml.readTree

/-- The list of classes that a stream delivers; a document that is null restricts nothing. -/
def readClasses (s : Stream) : Except Fault ClassList := do
  let names ← s.readWith Yaml.readTexts
  .ok (.ofList (names.getD []))

end Stream

namespace Decoder

/-- Decodes a document tree; whatever fails is reported as a fault. -/
def decodeTree (d : Decoder) (schema : Schema) (document : Tree) : Traced Fault Decoded :=
  (d.decode schema document).mapError DecodeFailure.toFault

/-- Decodes the document of a stream. Unless it can be read no event is noted. -/
def decodeStream (d : Decoder) (schema : Schema) (s : Stream) : Traced Fault Decoded :=
  match s.readTree with
  | .ok document => d.decodeTree schema document
  | .error fault => .fail fault

end Decoder

end Provisioning
