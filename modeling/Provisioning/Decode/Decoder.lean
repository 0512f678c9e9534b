import Provisioning.Decode.Resolution

/-!
# Decoders

A decoder binds a root, a context and settings; it never takes a context that nobody chose.
`Decoder.decode` decodes a document tree, and tells in its events what was looked up and dropped.
-/

namespace Provisioning

/-- What a document is decoded as. -/
inductive Root
  | type (decl : TypeDecl)
  /-- Whatever the document says it is. -/
  | any
deriving DecidableEq, Repr, Inhabited

namespace Root

/-- The name of a root in messages. -/
def name : Root → String
  | .type decl => decl.name
  | .any => "any"

end Root

/-- The result of a decode. -/
inductive Decoded
  /-- An instance of the root type. -/
  | built (value : Instance)
  /-- Root any, and the document named its type. -/
  | typed (descriptor : Descriptor) (value : Instance)
  /-- Root any, and the document named no type. -/
  | untyped (tree : Tree)

namespace Decoded

/-- The name by which a document of root any said its type. -/
def typeName? : Decoded → Option String
  | .typed d _ => some d.name
  | _ => none

/-- Whether a document of root any was built as the given type. -/
def isOf (decl : TypeDecl) : Decoded → Bool
  | .typed d _ => d.isOf decl
  | _ => false

/-- The instance of a document of root any, if it was built as the given type. -/
def downcast? (decl : TypeDecl) : Decoded → Option Instance
  | .typed d value => if d.isOf decl then some value else none
  | _ => none

end Decoded

/-- Why a decoder cannot be made. -/
inductive DecoderProblem
  | noHomeContext (root : Root)
  | noContext (root : Root)
deriving DecidableEq, Repr

namespace DecoderProblem

/-- The wording of a problem. -/
def message : DecoderProblem → String
  | .noHomeContext root =>
    "root type `" ++ root.name ++ "` has no resolution context of its own; supply one explicitly"
  | .noContext root => "a resolution context must be provided to decode `" ++ root.name ++ "`"

/-- The fault of a decoder that cannot be made. -/
def toFault (p : DecoderProblem) : Fault := { kind := .initialization, message := p.message }

end DecoderProblem

/-- A root, the context its tags are resolved in, and settings. -/
structure Decoder where
  root : Root
  context : Context
  settings : Settings := {}

namespace Decoder

/-- A decoder in the context of its own that the root type has. -/
def atHome (root : Root) (home : Option Context) : Except DecoderProblem Decoder :=
  match home with
  | some context => .ok { root, context }
  | none => .error (.noHomeContext root)

/-- A decoder in a given context, which must be there. -/
def within (root : Root) (context : Option Context) : Except DecoderProblem Decoder :=
  match context with
  | some context => .ok { root, context }
  | none => .error (.noContext root)

/-- A decoder for whatever a document says it is. -/
def any (context : Context) : Decoder := { root := .any, context }

/-- The same decoder with other settings. -/
def withSettings (d : Decoder) (settings : Settings) : Decoder := { d with settings := settings }

/-- Looks a name up in the decoder's context. -/
def resolveTypeName (d : Decoder) (name : String) : Except Fault Descriptor :=
  match d.context.resolve name with
  | some descriptor => .ok descriptor
  | none =>
    .error
      { kind := .typeResolution
        message := DecodeFailure.unknownTypeMessage name d.context.typeNames }

/-- What the traversal of a document needs to know. -/
def surroundings (d : Decoder) (schema : Schema) : Surroundings := ⟨schema, d.context, d.settings⟩

/-- Builds a document of a root type. If the root names a type, the document is built as that first; if this
is the root type, its instance is the result. -/
def finishTyped (s : Surroundings) (decl : TypeDecl) :
    Surroundings.ResolvedRoot → Traced DecodeFailure Instance
  | .typed d content => do
    let built ← s.buildChecked d.name .root (s.build d.decl) content
    if d.isOf decl then pure built.1
    else do
      let rebuilt ← s.buildChecked decl.name .root (s.build decl) built.2
      pure rebuilt.1
  | .plain tree => do
    let built ← s.buildChecked decl.name .root (s.build decl) tree
    pure built.1

/-- Builds a document of root any. -/
def finishAny (s : Surroundings) : Surroundings.ResolvedRoot → Traced DecodeFailure Decoded
  | .typed d content => do
    let built ← s.buildChecked d.name .root (s.build d.decl) content
    pure (.typed d built.1)
  | .plain tree => pure (.untyped tree)

/-- Resolves and builds a document. -/
def run (d : Decoder) (schema : Schema) (document : Tree) : Traced DecodeFailure Decoded := do
  let s := d.surroundings schema
  let resolved ← s.resolveRoot document
  match d.root with
  | .type decl => do
    let value ← finishTyped s decl resolved
    pure (.built value)
  | .any => finishAny s resolved

/-- Decodes a document tree. Its beginning is always noted, its end if it succeeds. -/
def decode (d : Decoder) (schema : Schema) (document : Tree) : Traced DecodeFailure Decoded := do
  let inner := d.run schema document
  .note (.started d.root.name d.settings.strict)
  let decoded ← inner
  .note (.finished d.root.name (Journal.resolvedCount inner.events)
    (Journal.dropped inner.events).length)
  pure decoded

end Decoder

end Provisioning
