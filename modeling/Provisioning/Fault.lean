/-!
# Faults

What an operation reports when it fails: a kind, a message, perhaps the document concerned, and the chain
of causes below it. A cause is another fault or a foreign failure, of which only the text is kept.
-/

namespace Provisioning

/-- The kinds of faults. -/
inductive FaultKind
  | notFound
  | initialization
  | typeResolution
  | decode
  | io
  | verification
deriving DecidableEq, Repr, Inhabited

namespace FaultKind

/-- The words that a fault of this kind is displayed with. -/
def text : FaultKind → String
  | .notFound => "not found"
  | .initialization => "initialization error"
  | .typeResolution => "type resolution error"
  | .decode => "decode error"
  | .io => "I/O error"
  | .verification => "verification failed"

/-- The message of a fault of which nothing but the kind is known. -/
def defaultMessage : FaultKind → String
  | .notFound => "input not found"
  | .initialization => "decoder could not be initialized"
  | .typeResolution => "type could not be resolved"
  | .decode => "document could not be decoded"
  | .io => "input could not be read"
  | .verification => "request does not satisfy profile"

/-- Whether the same call may succeed later. No fault is of that sort. -/
def isRetriable (_ : FaultKind) : Bool := false

/-- Whether the caller set something up wrongly. -/
def isConfiguration (kind : FaultKind) : Bool := kind == .initialization

end FaultKind

/-- One link of the chain below a fault. -/
inductive Cause
  | fault (kind : FaultKind) (message : String) (document : Option String)
  | foreign (text : String)
deriving DecidableEq, Repr, Inhabited

/-- The text of a fault: its kind, its message, and its document if it has one. -/
def faultText (kind : FaultKind) (message : String) (document : Option String) : String :=
  kind.text ++ ": " ++ message ++
    match document with
    | some path => " (document: " ++ path ++ ")"
    | none => ""

namespace Cause

/-- The text of a cause. -/
def display : Cause → String
  | .fault kind message document => faultText kind message document
  | .foreign text => text

/-- The kind of a cause that is itself a fault. -/
def kind? : Cause → Option FaultKind
  | .fault kind _ _ => some kind
  | .foreign _ => none

end Cause

/-- The report of a failure. The causes stand in order, the direct one first. -/
structure Fault where
  kind : FaultKind
  message : String
  document : Option String := none
  causes : List Cause := []
deriving DecidableEq, Repr, Inhabited

namespace Fault

/-- A fault of which nothing but the kind is known. -/
def ofKind (kind : FaultKind) : Fault := ⟨kind, kind.defaultMessage, none, []⟩

/-- The text of the fault, without its causes. -/
def display (f : Fault) : String := faultText f.kind f.message f.document

/-- The fault as a link of another fault's chain. -/
def asCause (f : Fault) : Cause := .fault f.kind f.message f.document

/-- Says which document the fault concerns. -/
def withDocument (f : Fault) (path : String) : Fault := { f with document := some path }

/-- Puts another fault with its whole chain below this one, in place of what was there. -/
def withFault (f cause : Fault) : Fault := { f with causes := cause.asCause :: cause.causes }

/-- Puts a foreign failure below this fault, in place of what was there. -/
def withForeign (f : Fault) (text : String) : Fault := { f with causes := [.foreign text] }

/-- The kind at the bottom of the chain; foreign causes have none. -/
def rootKind (f : Fault) : FaultKind :=
  (f.causes.filterMap Cause.kind?).getLastD f.kind

/-- Whether the same call may succeed later. -/
def isRetriable (f : Fault) : Bool := f.kind.isRetriable

end Fault

/-! ## Failures of reading and writing -/

/-- The kinds of input failures. -/
inductive IoKind
  | notFound
  | other
deriving DecidableEq, Repr, Inhabited

/-- A failure to open or to read input. -/
structure IoFailure where
  kind : IoKind
  text : String
deriving DecidableEq, Repr, Inhabited

namespace Fault

/-- The fault of a failure to open or to read input. -/
def ofIo (failure : IoFailure) : Fault :=
  let kind := match failure.kind with
    | .notFound => FaultKind.notFound
    | .other => FaultKind.io
  ⟨kind, failure.text, none, [.foreign failure.text]⟩

/-- The fault of a document that its reader refused, for a reason that says where if the place is known. -/
def ofRefusal (reason : String) (place : String) : Fault :=
  ⟨.decode, reason ++ place, none, [.foreign reason]⟩

end Fault

end Provisioning
