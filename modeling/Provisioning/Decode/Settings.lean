/-!
# Settings of a decode

Strict and tolerant decoding are one decoder with two settings.
-/

namespace Provisioning

/-- How a document is decoded. -/
structure Settings where
  /-- Whether a key that nothing takes is a failure; otherwise it is dropped with a warning. -/
  strict : Bool := true
  /-- The deepest level of nesting that is decoded. -/
  maxDepth : Nat := 64
deriving DecidableEq, Repr, Inhabited

namespace Settings

/-- Refuses keys that nothing takes. -/
def rejecting : Settings := {}

/-- Drops keys that nothing takes. -/
def tolerant : Settings := { strict := false }

/-- Chooses between refusing and dropping. -/
def withStrict (s : Settings) (strict : Bool) : Settings := { s with strict := strict }

/-- Sets the deepest level, which is at least 1. -/
def withMaxDepth (s : Settings) (maxDepth : Nat) : Settings := { s with maxDepth := max maxDepth 1 }

end Settings

end Provisioning
