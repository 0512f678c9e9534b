import Provisioning.Context.Plugins
import Provisioning.Context.Tally
import Provisioning.Profile.Types

/-!
# Workspaces

Plugins, layers, contexts, tallies and decoders under names, as a running service holds them. A context is held by a
handle: two handles are the same if one was made as a second name of the other, however alike two contexts made apart
may be. Every look-up in a context is noted in the tallies that watch it.
-/

namespace Provisioning

/-- A context as it was made at one time. -/
structure Handle where
  serial : Nat
  context : Context

/-- What is held under names. The later of two things under one name counts. -/
structure Workspace where
  /-- How many contexts were made. -/
  made : Nat := 1
  contexts : List (String × Handle) := [("builtin", ⟨0, .builtin⟩)]
  plugins : List (String × Plugins) := []
  layers : List (String × Layer) := []
  /-- The tallies, in the order they were made. -/
  tallies : List Tally := []
  /-- The numbers of the tallies. -/
  tallyNumbers : List (String × Nat) := []
  /-- The decoders, with the serials of their contexts. -/
  decoders : List (String × Decoder × Nat) := []

namespace Workspace

/-! ## Contexts -/

/-- The handle under a name. A name that holds none stands for a context that knows nothing. -/
def handle (w : Workspace) (name : String) : Handle :=
  (w.contexts.lookup name).getD ⟨w.made, .nothing⟩

/-- The context under a name. -/
def context (w : Workspace) (name : String) : Context := (w.handle name).context

/-- The context under a name that may be missing. -/
def context? (w : Workspace) (name : Option String) : Option Context := name.map w.context

/-- Holds a new context under a name. -/
def make (w : Workspace) (name : String) (context : Context) : Workspace :=
  { w with contexts := (name, ⟨w.made, context⟩) :: w.contexts, made := w.made + 1 }

/-- Holds a handle under one more name. -/
def share (w : Workspace) (name of : String) : Workspace :=
  { w with contexts := (name, w.handle of) :: w.contexts }

/-- Whether two names hold the same context. -/
def isSame (w : Workspace) (a b : String) : Bool := (w.handle a).serial == (w.handle b).serial

/-- Makes a context that lists no names. -/
def makeUnlisted (w : Workspace) (name of : String) : Workspace :=
  w.make name (.unlisted (w.context of))

/-! ## Look-ups and tallies -/

/-- The tally with a number. -/
def tallyAt (w : Workspace) (number : Nat) : Tally := w.tallies.getD number {}

/-- The number of the tally under a name. -/
def tallyNumber (w : Workspace) (name : String) : Nat := (w.tallyNumbers.lookup name).getD 0

/-- The tally under a name. -/
def tally (w : Workspace) (name : String) : Tally := w.tallyAt (w.tallyNumber name)

/-- Makes a context that is watched by a new tally. -/
def makeWatched (w : Workspace) (name of : String) : Workspace :=
  let number := w.tallies.length
  let w := w.make name (.watched number (w.context of))
  { w with tallies := w.tallies ++ [{}], tallyNumbers := (name, number) :: w.tallyNumbers }

/-- Empties a tally. -/
def reset (w : Workspace) (name : String) : Workspace :=
  { w with tallies := w.tallies.set (w.tallyNumber name) {} }

/-- Notes a look-up in the tallies that watch a context. -/
def noteLookup (w : Workspace) (context : Context) (name : String) : Workspace :=
  (context.watchers name).foldl
    (fun w (number, found) =>
      { w with tallies := w.tallies.set number ((w.tallyAt number).note name found) })
    w

/-- Looks a name up in a context. -/
def resolve (w : Workspace) (of name : String) : Option Descriptor × Workspace :=
  let context := w.context of
  (context.resolve name, w.noteLookup context name)

/-! ## Layers and plugins -/

/-- Builds a layer and holds it, and the context that it is. -/
def makeLayer (w : Workspace) (name : String) (descriptors : List Descriptor)
    (parent : Option String) : Except Fault (Layer × Workspace) :=
  match Layer.build descriptors (w.context? parent) with
  | .ok layer => .ok (layer, { w with layers := (name, layer) :: w.layers }.make name layer.toContext)
  | .error problems => .error (.ofRegistration problems)

/-- The layer under a name. -/
def layer (w : Workspace) (name : String) : Layer := (w.layers.lookup name).getD ⟨.empty, none⟩

/-- Whether a layer, or its parent, knows a type name. -/
def layerKnows (w : Workspace) (name typeName : String) : Bool × Workspace :=
  let context := (w.layer name).toContext
  ((context.resolve typeName).isSome, w.noteLookup context typeName)

/-- Holds new plugins. -/
def makePlugins (w : Workspace) (name : String) (parent : Option String) : Workspace :=
  { w with plugins := (name, .ofParent (w.context? parent)) :: w.plugins }

/-- The plugins under a name. -/
def pluginsOf (w : Workspace) (name : String) : Plugins := (w.plugins.lookup name).getD (.ofParent none)

/-- Holds changed plugins. -/
def setPlugins (w : Workspace) (name : String) (p : Plugins) : Workspace :=
  { w with plugins := (name, p) :: w.plugins }

/-- Registers a type with plugins. -/
def register (w : Workspace) (name : String) (d : Descriptor) : Traced Fault Workspace := do
  let p ← (w.pluginsOf name).registerNoting d
  pure (w.setPlugins name p)

/-- Forgets a type of plugins, and tells whether it was registered. -/
def unregister (w : Workspace) (name typeName : String) : Bool × Workspace :=
  let (p, removed) := (w.pluginsOf name).unregister typeName
  (removed, w.setPlugins name p)

/-- Makes a context of the types that plugins have now. -/
def makeSnapshot (w : Workspace) (name of : String) : Workspace :=
  w.make name (w.pluginsOf of).snapshot

/-! ## Decoders -/

/-- Holds a decoder that is bound to a context with a serial. -/
def setDecoder (w : Workspace) (name : String) (d : Decoder) (serial : Nat) : Workspace :=
  { w with decoders := (name, d, serial) :: w.decoders }

/-- The decoder under a name. -/
def decoder (w : Workspace) (name : String) : Decoder :=
  ((w.decoders.lookup name).map (·.1)).getD (.any .nothing)

/-- Holds a decoder for a root in the context of its own that the root has. The serial of a home context that is not
the built-in one is new. -/
def makeDecoderAtHome (w : Workspace) (name : String) (root : Root) (home : Option Context)
    (isBuiltin : Bool) (settings : Option Settings) : Except Fault (Decoder × Workspace) :=
  match Decoder.atHome root home with
  | .error problem => .error problem.toFault
  | .ok d =>
    let d := d.withSettings (settings.getD d.settings)
    let serial := if isBuiltin then 0 else w.made
    .ok (d, { w with made := w.made + 1 }.setDecoder name d serial)

/-- Holds a decoder for a root in a context. -/
def makeDecoder (w : Workspace) (name : String) (root : Root) (context : Option String)
    (settings : Option Settings) : Except Fault (Decoder × Workspace) :=
  match Decoder.within root (w.context? context) with
  | .error problem => .error problem.toFault
  | .ok d =>
    let d := d.withSettings (settings.getD d.settings)
    let serial := (context.map fun c => (w.handle c).serial).getD w.made
    .ok (d, w.setDecoder name d serial)

/-- Whether a decoder is bound to the built-in context. -/
def isBuiltinDecoder (w : Workspace) (name : String) : Bool :=
  match w.decoders.lookup name with
  | some (_, serial) => serial == 0
  | none => false

/-- Looks a type name up in the context of a decoder. -/
def resolveTypeName (w : Workspace) (name typeName : String) :
    Except Fault Descriptor × Workspace :=
  let d := w.decoder name
  (d.resolveTypeName typeName, w.noteLookup d.context typeName)

/-- Notes the look-ups of a decode. -/
def noteDecode (w : Workspace) (name : String) (events : List Event) : Workspace :=
  let context := (w.decoder name).context
  (Journal.lookups events).foldl (fun w l => w.noteLookup context l.1) w

end Workspace

end Provisioning
