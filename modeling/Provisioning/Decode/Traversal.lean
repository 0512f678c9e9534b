import Provisioning.Decode.Decoder

/-!
# Traversals with one path

`Surroundings.resolveNode` is told the place of every node. The traversal in this module keeps one text, the way
to where it stands. It writes the last step behind this text before it enters an item or the value of an entry;
afterwards, whether that succeeded or failed, it cuts the text back to as many bytes as it had before. Beside the
path it keeps how many names were found, which keys were dropped, and what was noted.
-/

namespace Provisioning

namespace Text

/-- The characters that fill the first `size` bytes, or all if there are no more bytes. None if a character is not
over when these bytes are. -/
def charsWithin (size : Nat) : List Char → Option (List Char)
  | [] => some []
  | c :: cs =>
    if size = 0 then some []
    else if c.utf8Size ≤ size then (charsWithin (size - c.utf8Size) cs).map (c :: ·)
    else none

/-- A text cut to a number of bytes. It cannot be cut inside a character. -/
def truncate (size : Nat) (text : String) : Option String :=
  (charsWithin size text.toList).map String.ofList

end Text

/-- The state of a traversal. -/
structure Traversal where
  /-- The way to where it stands. -/
  path : String := ""
  /-- How many names were found. -/
  resolved : Nat := 0
  /-- The paths of the keys that were dropped. -/
  dropped : List String := []
  /-- What was noted. -/
  events : List Event := []

/-- What is done on a traversal. If the path cannot be cut back, nothing comes of it, not even a failure. -/
abbrev Traversing := ExceptT DecodeFailure (StateT Traversal Option)

namespace Traversal

/-- The place where a traversal stands. -/
def place (st : Traversal) : Place := ⟨st.path⟩

/-- Where the traversal stands. -/
def here : Traversing Place := do
  let st ← get
  pure st.place

/-- Notes an event. -/
def note (event : Event) : Traversing Unit :=
  modify fun st => { st with events := st.events ++ [event] }

/-- Notes a name that was found, and counts it. -/
def found (name : String) : Traversing Unit := do
  note (.lookedUp name true)
  modify fun st => { st with resolved := st.resolved + 1 }

/-- Notes that keys are dropped, and keeps their paths. -/
def drop (event : Event) (paths : List String) : Traversing Unit := do
  note event
  modify fun st => { st with dropped := st.dropped ++ paths }

/-! ## The path -/

/-- Writes text behind the path. -/
def push (text : String) : Traversing Unit :=
  modify fun st => { st with path := st.path ++ text }

/-- Steps to the value of an entry. -/
def pushKey (key : Tree) : Traversing Unit := do
  let st ← get
  if st.path ≠ "" then push "."
  push key.label

/-- Steps to an item of a list. -/
def pushItem (position : Nat) : Traversing Unit := push ("[" ++ toString position ++ "]")

/-- Cuts the path to a number of bytes. -/
def truncatePath (size : Nat) : Traversing Unit :=
  ExceptT.mk fun st => (Text.truncate size st.path).map fun path => (.ok (), { st with path })

/-- Does something after a step down, and steps up again before it looks at the outcome. -/
def inside {α : Type} (stepDown : Traversing Unit) (x : Traversing α) : Traversing α := do
  let st ← get
  let size := st.path.utf8ByteSize
  stepDown
  let outcome ← ExceptT.lift x.run
  truncatePath size
  ExceptT.mk (pure outcome)

/-! ## Single steps -/

variable (s : Surroundings)

/-- Looks up the name in a tag. -/
def lookUp (name : String) : Traversing Descriptor :=
  match s.context.resolve name with
  | some d => do
    found name
    pure d
  | none => do
    note (.lookedUp name false)
    let place ← here
    throw (.unresolved name place s.context.typeNames)

/-- Applies strictness to the keys that a build skipped, and gives the node without those dropped. -/
def accept (typeName : String) (node : Tree) (skipped : List KeyPath) : Traversing Tree :=
  if skipped.isEmpty then pure node
  else do
    let place ← here
    let paths := place.qualifyAll skipped
    if s.settings.strict then throw (.unknownFields typeName paths)
    else
      drop (.droppedUnknownFields typeName paths) paths
      pure (skipped.foldl (fun t path => t.remove path) node)

/-- Builds a node and applies strictness. A tolerant build that fails on a node with keys that are not text is tried
once more without them. -/
def buildChecked (typeName : String) (build : Tree → Except DecodeFailure (Built Instance)) (node : Tree) :
    Traversing (Instance × Tree) :=
  match build node with
  | .ok built => do
    let rest ← accept s typeName node built.skipped
    pure (built.value, rest)
  | .error failure =>
    if !s.settings.strict && node.hasOtherKeys then do
      let place ← here
      let paths := place.qualifyAll node.otherKeyPaths
      drop (.droppedOtherKeys typeName paths) paths
      let cleaned := node.withTextKeys
      let built ← ExceptT.mk (pure (build cleaned))
      let rest ← accept s typeName cleaned built.skipped
      pure (built.value, rest)
    else throw failure

/-- Builds a tagged node below the root, and gives what is left of its content. -/
def buildNested (d : Descriptor) (content : Tree) : Traversing Tree := do
  let place ← here
  note (.resolvedNode d.name place.describe)
  let built ← buildChecked s d.name (fun node => (s.build d.decl node).mapError (.nested d.name place)) content
  pure built.2

/-- Fails below the deepest level allowed. -/
def checkDepth (depth : Nat) : Traversing Unit :=
  if s.settings.maxDepth < depth then do
    let place ← here
    throw (.tooDeep s.settings.maxDepth place)
  else pure ()

/-! ## The traversal -/

mutual

/-- Resolves every tag in a node at a depth. -/
def resolveNode (depth : Nat) (node : Tree) : Traversing Tree := do
  checkDepth s depth
  match node with
  | .tagged tag content =>
    match TagRole.ofTag tag with
    | .core => resolveNode (depth + 1) content
    | .variant => do
      let content ← resolveNode (depth + 1) content
      pure (.tagged tag content)
    | .type name => do
      let d ← lookUp s name
      let content ← resolveNode (depth + 1) content
      buildNested s d content
  | .map entries => do
    let entries ← resolveEntries (depth + 1) [] entries
    pure (.map entries)
  | .list items => do
    let items ← resolveItems (depth + 1) 0 items
    pure (.list items)
  | scalar => pure scalar
termination_by structural node

/-- Resolves the items of a list, the first of which stands at `position`. -/
def resolveItems (depth position : Nat) : List Tree → Traversing (List Tree)
  | [] => pure []
  | t :: ts => do
    let first ← inside (pushItem position) (resolveNode depth t)
    let rest ← resolveItems depth (position + 1) ts
    pure (first :: rest)

/-- Resolves map entries after those already `done`. The key is resolved before the traversal steps down. -/
def resolveEntries (depth : Nat) (done : List (Tree × Tree)) :
    List (Tree × Tree) → Traversing (List (Tree × Tree))
  | [] => pure done
  | (k, v) :: rest => do
    let key ← resolveNode depth k
    let value ← inside (pushKey key) (resolveNode depth v)
    resolveEntries depth (Tree.insert key value done) rest

end

/-- Resolves the tags of a document, but for a type tag at its root. -/
def resolveRoot (document : Tree) : Traversing Surroundings.ResolvedRoot :=
  match document with
  | .tagged tag content =>
    match TagRole.ofTag tag with
    | .core => do
      let content ← resolveNode s 1 content
      pure (.plain content)
    | .variant => do
      let content ← resolveNode s 1 content
      pure (.plain (.tagged tag content))
    | .type name => do
      let d ← lookUp s name
      let content ← resolveNode s 1 content
      pure (.typed d content)
  | document => do
    let tree ← resolveNode s 0 document
    pure (.plain tree)

/-! ## Whole decodes -/

/-- Builds a document of a root type. -/
def finishTyped (decl : TypeDecl) : Surroundings.ResolvedRoot → Traversing Instance
  | .typed d content => do
    let built ← buildChecked s d.name (s.build d.decl) content
    if d.isOf decl then pure built.1
    else do
      let rebuilt ← buildChecked s decl.name (s.build decl) built.2
      pure rebuilt.1
  | .plain tree => do
    let built ← buildChecked s decl.name (s.build decl) tree
    pure built.1

/-- Builds a document of root any. -/
def finishAny : Surroundings.ResolvedRoot → Traversing Decoded
  | .typed d content => do
    let built ← buildChecked s d.name (s.build d.decl) content
    pure (.typed d built.1)
  | .plain tree => pure (.untyped tree)

/-- Resolves and builds a document. -/
def run (d : Decoder) (schema : Schema) (document : Tree) : Traversing Decoded := do
  let s := d.surroundings schema
  let resolved ← resolveRoot s document
  match d.root with
  | .type decl => do
    let value ← finishTyped s decl resolved
    pure (.built value)
  | .any => finishAny s resolved

/-- Decodes a document tree. What its end says was counted on the way. -/
def decode (d : Decoder) (schema : Schema) (document : Tree) : Traversing Decoded := do
  note (.started d.root.name d.settings.strict)
  let decoded ← run d schema document
  let st ← get
  note (.finished d.root.name st.resolved st.dropped.length)
  pure decoded

end Traversal

end Provisioning
