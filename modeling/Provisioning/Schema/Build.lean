import Provisioning.Schema.Mismatch
import Provisioning.Directory

/-!
# Building instances

`Schema.build` builds a node as a shape. It recurses on the tree alone: records refer to declarations by
name, and stripping the optional layers of a shape goes no deeper. Besides the instance it lists the
document keys that no field took, as paths from the node, in document order. Below such a key nothing is
looked at.
-/

namespace Provisioning

/-- An instance, and the ways to the document keys that it has no use for. -/
structure Built (α : Type) where
  value : α
  skipped : List KeyPath
deriving Repr, Inhabited

namespace Built

/-- The same result seen from the node one step above. -/
def below {α : Type} (step : Step) (b : Built α) : Built α :=
  { b with skipped := b.skipped.map (step :: ·) }

end Built

/-- Completes a record from the fields a document gave. A field that is not given takes its fallback; a
required one is missing, and the first missing one in the order of declaration is the failure. -/
def completeFields (given : List (String × Instance)) :
    List Field → Except Mismatch (List (String × Instance))
  | [] => .ok []
  | f :: fs => do
    let value ← match given.lookup f.name, f.fallback with
      | some v, _ => .ok v
      | none, some v => .ok v
      | none, none => .error (.missingField f.name)
    let rest ← completeFields given fs
    if f.elided && value == .absent then .ok rest else .ok ((f.name, value) :: rest)

/-- A whole number as an unsigned number of the given width. -/
def unsignedOf (bits : Nat) (n : Int) : Except Mismatch Instance :=
  if 0 ≤ n ∧ n < Int.pow 2 bits then .ok (.unsigned n.toNat)
  else .error (.outOfRange n (.unsigned bits))

/-- A variant named by a bare text: only one that carries nothing can be. -/
def bareVariant (variants : List (String × Payload)) (name : String) : Except Mismatch Instance :=
  match variants.lookup name with
  | none => .error (.unknownVariant name (variants.map (·.1)))
  | some .nothing => .ok (.bare name)
  | some (.one _) => .error (.wrongKind .bareVariant .contentOfOne)
  | some (.several _) => .error (.wrongKind .bareVariant .contentOfSeveral)
  | some (.fields _) => .error (.wrongKind .bareVariant .contentOfFields)

namespace Schema

mutual

/-- Builds a node as a shape. A tag names the variant of a choice. What a variant carries stands there without a
further tag, unless it is one value: like every other shape, that one is looked for through tags. -/
def build (σ : Schema) : Tree → Shape → Except Mismatch (Built Instance)
  | .null, shape =>
    if shape.isOptional then .ok ⟨.absent, []⟩
    else match shape with
      | .list _ => .ok ⟨.list [], []⟩
      | .distinct _ => .ok ⟨.list [], []⟩
      | .dictionary _ => .ok ⟨.dictionary [], []⟩
      | .record name => do
        let fields ← completeFields [] (σ.fields name)
        .ok ⟨.record fields, []⟩
      | other => .error (.wrongKind .unit (.ofShape other))
  | .flag b, shape =>
    match shape.base with
    | .flag => .ok ⟨.flag b, []⟩
    | other => .error (.wrongKind (.flag b) (.ofShape other))
  | .number n, shape =>
    match n, shape.base with
    | .integer i, .unsigned bits => do
      let value ← unsignedOf bits i
      .ok ⟨value, []⟩
    | n, other => .error (.wrongKind (.number n) (.ofShape other))
  | .text s, shape =>
    match shape.base with
    | .text => .ok ⟨.text s, []⟩
    | .choice name => do
      let value ← bareVariant (σ.variants name) s
      .ok ⟨value, []⟩
    | other => .error (.wrongKind (.text s) (.ofShape other))
  | .list items, shape =>
    match shape.base with
    | .list item => do
      let built ← buildItems σ items 0 item
      .ok ⟨.list built.value, built.skipped⟩
    | .distinct item => do
      let built ← buildItems σ items 0 item
      .ok ⟨.list (firstOccurrences built.value), built.skipped⟩
    | other => .error (.wrongKind .list (.ofShape other))
  | .map entries, shape =>
    match shape.base with
    | .record name => do
      let given ← buildFields σ entries (σ.fields name) []
      let fields ← completeFields given.value (σ.fields name)
      .ok ⟨.record fields, given.skipped⟩
    | .dictionary value => do
      let built ← buildEntries σ entries value []
      .ok ⟨.dictionary built.value, built.skipped⟩
    | other => .error (.wrongKind .map (.ofShape other))
  | .tagged tag content, shape =>
    match shape.base with
    | .choice name =>
      match (σ.variants name).lookup tag with
      | none => .error (.unknownVariant tag ((σ.variants name).map (·.1)))
      | some .nothing =>
        match content with
        | .null => .ok ⟨.bare tag, []⟩
        | other => .error (.wrongKind (.ofTree other) .unit)
      | some (.one inner) => do
        let built ← build σ content inner
        .ok ((Built.mk (.variant tag built.value) built.skipped).below .variant)
      | some (.several shapes) =>
        match content with
        | .list [] => .error (.wrongKind .unit (.several name tag))
        | .list items => do
          let built ← buildSeveral σ items 0 shapes
          match built.value.2 with
          | some 0 => .ok ⟨.variant tag (.list built.value.1), built.skipped⟩
          | some _ => .error (.tooMany items.length)
          | none => .error (.tooFew items.length (.several name tag) shapes.length)
        | other => .error (.wrongKind (.ofTree other) .contentOfSeveral)
      | some (.fields fields) =>
        match content with
        | .map entries => do
          let given ← buildFields σ entries fields []
          let values ← completeFields given.value fields
          .ok ⟨.variant tag (.record values), given.skipped⟩
        | other => .error (.wrongKind (.ofTree other) .contentOfFields)
    | base => build σ content base
termination_by structural t => t

/-- Builds the items of a list, the first of which stands at `position`. -/
def buildItems (σ : Schema) : List Tree → Nat → Shape → Except Mismatch (Built (List Instance))
  | [], _, _ => .ok ⟨[], []⟩
  | t :: ts, position, shape => do
    let first ← build σ t shape
    let rest ← buildItems σ ts (position + 1) shape
    .ok ⟨first.value :: rest.value, (first.below (.index position)).skipped ++ rest.skipped⟩

/-- Builds items with a shape each. Together with the values comes the number of items left over, or
nothing if there were too few. -/
def buildSeveral (σ : Schema) :
    List Tree → Nat → List Shape → Except Mismatch (Built (List Instance × Option Nat))
  | ts, _, [] => .ok ⟨([], some ts.length), []⟩
  | [], _, _ :: _ => .ok ⟨([], none), []⟩
  | t :: ts, position, shape :: shapes => do
    let first ← build σ t shape
    let rest ← buildSeveral σ ts (position + 1) shapes
    .ok ⟨(first.value :: rest.value.1, rest.value.2),
      (first.below (.index position)).skipped ++ rest.skipped⟩

/-- Builds the fields that map entries give, after those already `given`. A key that gives no field is
skipped with all that is below it; a field given twice is a failure, met before its second value. -/
def buildFields (σ : Schema) : List (Tree × Tree) → List Field → List (String × Instance) →
    Except Mismatch (Built (List (String × Instance)))
  | [], _, given => .ok ⟨given, []⟩
  | (k, v) :: rest, fields, given =>
    match k.untagged with
    | .text key =>
      match fields.find? (·.isGivenBy key) with
      | some f =>
        if (given.lookup f.name).isSome then .error (.duplicateField f.name)
        else do
          let first ← build σ v f.shape
          let others ← buildFields σ rest fields (given ++ [(f.name, first.value)])
          .ok ⟨others.value, (first.below (.key key)).skipped ++ others.skipped⟩
      | none => do
        let others ← buildFields σ rest fields given
        .ok ⟨others.value, [.key key] :: others.skipped⟩
    | other => .error (.wrongKind (.ofTree other) .fieldName)

/-- Builds the entries of a dictionary, after those already `given`. Of two entries under one text the
later one stays. -/
def buildEntries (σ : Schema) : List (Tree × Tree) → Shape → List (String × Instance) →
    Except Mismatch (Built (List (String × Instance)))
  | [], _, given => .ok ⟨given, []⟩
  | (k, v) :: rest, shape, given =>
    match k.untagged with
    | .text key => do
      let first ← build σ v shape
      let others ← buildEntries σ rest shape (insertSorted key first.value given)
      .ok ⟨others.value, (first.below (.key key)).skipped ++ others.skipped⟩
    | other => .error (.wrongKind (.ofTree other) .text)

end

end Schema

end Provisioning
