/-!
# Journals

What an operation did, told as a list of events beside its outcome. `Event.line?` gives the log line of an
event; looking a name up is an event without one. `Traced` is a computation that may fail and keeps its
events either way.
-/

namespace Provisioning

/-- Something that happened on the way. -/
inductive Event
  | registered (typeName : String)
  | opening (path : String)
  | started (root : String) (strict : Bool)
  | lookedUp (name : String) (found : Bool)
  | resolvedNode (typeName place : String)
  | droppedOtherKeys (typeName : String) (paths : List String)
  | droppedUnknownFields (typeName : String) (paths : List String)
  | finished (root : String) (resolved dropped : Nat)
  | catalogLoaded (size : Nat)
  | requestAccepted (profile : String)
  | requestRejected (profile : String) (violations : Nat)
deriving DecidableEq, Repr

/-- How much a log line matters. -/
inductive Level
  | trace
  | debug
  | info
  | warn
deriving DecidableEq, Repr

namespace Level

/-- The name of a level. -/
def text : Level → String
  | .trace => "trace"
  | .debug => "debug"
  | .info => "info"
  | .warn => "warn"

end Level

/-- The value of a field of a log line. -/
inductive FieldValue
  | text (value : String)
  | number (value : Nat)
  | flag (value : Bool)
deriving DecidableEq, Repr

/-- A line of the log. -/
structure LogLine where
  level : Level
  message : String
  fields : List (String × FieldValue)
deriving DecidableEq, Repr

namespace Event

/-- The log line of an event. -/
def line? : Event → Option LogLine
  | .registered name => some ⟨.debug, "registered plugin type", [("type_name", .text name)]⟩
  | .opening path => some ⟨.debug, "opening document", [("path", .text path)]⟩
  | .started root strict =>
    some ⟨.debug, "decoding document", [("root", .text root), ("strict", .flag strict)]⟩
  | .lookedUp _ _ => none
  | .resolvedNode name place =>
    some ⟨.trace, "resolved tagged node", [("type_name", .text name), ("at", .text place)]⟩
  | .droppedOtherKeys name paths =>
    some ⟨.warn, "ignoring non-string keys",
      [("type_name", .text name), ("keys", .text (", ".intercalate paths))]⟩
  | .droppedUnknownFields name paths =>
    some ⟨.warn, "ignoring unknown fields",
      [("type_name", .text name), ("fields", .text (", ".intercalate paths))]⟩
  | .finished root resolved dropped =>
    some ⟨.debug, "decoded document",
      [("root", .text root), ("tags_resolved", .number resolved),
        ("fields_dropped", .number dropped)]⟩
  | .catalogLoaded size => some ⟨.debug, "loaded catalog", [("profiles", .number size)]⟩
  | .requestAccepted profile =>
    some ⟨.debug, "provision request accepted", [("profile", .text profile)]⟩
  | .requestRejected profile violations =>
    some ⟨.debug, "provision request rejected",
      [("profile", .text profile), ("violations", .number violations)]⟩

/-- The name that was looked up, and whether it was found. -/
def lookup? : Event → Option (String × Bool)
  | .lookedUp name found => some (name, found)
  | _ => none

/-- The paths of the keys that were dropped. -/
def dropped : Event → List String
  | .droppedOtherKeys _ paths => paths
  | .droppedUnknownFields _ paths => paths
  | _ => []

end Event

namespace Journal

/-- The names looked up, in order, with whether each was found. -/
def lookups (events : List Event) : List (String × Bool) := events.filterMap Event.lookup?

/-- How many names were found. -/
def resolvedCount (events : List Event) : Nat := (lookups events).countP (·.2)

/-- How many names were not found. -/
def missCount (events : List Event) : Nat := (lookups events).countP (!·.2)

/-- The paths of all keys dropped, in order. -/
def dropped (events : List Event) : List String := events.flatMap Event.dropped

/-- The log lines, in order. -/
def lines (events : List Event) : List LogLine := events.filterMap Event.line?

end Journal

/-- A computation's events and its outcome. -/
structure Traced (ε α : Type) where
  events : List Event
  outcome : Except ε α

namespace Traced

variable {ε α β : Type}

/-- An outcome without events. -/
def ofExcept (outcome : Except ε α) : Traced ε α := ⟨[], outcome⟩

/-- Fails. -/
def fail (error : ε) : Traced ε α := ⟨[], .error error⟩

/-- Notes an event. -/
def note (event : Event) : Traced ε Unit := ⟨[event], .ok ()⟩

/-- Goes on with the result, if there is one. -/
def andThen (x : Traced ε α) (f : α → Traced ε β) : Traced ε β :=
  match x.outcome with
  | .ok a =>
    let y := f a
    ⟨x.events ++ y.events, y.outcome⟩
  | .error e => ⟨x.events, .error e⟩

instance : Monad (Traced ε) where
  pure a := ⟨[], .ok a⟩
  bind := andThen

/-- The same computation with its failure seen differently. -/
def mapError {δ : Type} (f : ε → δ) (x : Traced ε α) : Traced δ α :=
  ⟨x.events, match x.outcome with | .ok a => .ok a | .error e => .error (f e)⟩

end Traced

end Provisioning
