import Provisioning.Yaml.EventStream
import Provisioning.Yaml.CoreSchema

/-!
# Documents

A document is the list of its events, with what follows the event that each anchor stands at. Reading takes values
off the events: `Document.readTree` any value, `Document.readTexts` a list of texts. A syntax error counts only once the
events before it are used up, so what is wrong with an earlier value is reported first.
-/

namespace Provisioning.Yaml

/-- An event of a document. Aliases say which anchor they stand for; the ends of documents are left out. -/
inductive ContentKind
  | aliasOf (anchor : Nat)
  | scalar (node : ScalarNode)
  | listStart (tag : Option (List UInt8))
  | listEnd
  | mapStart (tag : Option (List UInt8))
  | mapEnd
deriving DecidableEq, Repr

/-- An event with the place where it begins. -/
structure Content where
  kind : ContentKind
  mark : Mark
deriving DecidableEq, Repr

/-- The events of a document, and what is wrong after them. The number of an anchor leads to the events from its
node on. -/
structure Document where
  events : List Content := []
  anchored : List (Nat × List Content) := []
  failure : Option Failure := none
deriving Repr

namespace Document

/-! ## Collecting events -/

/-- What was collected so far: events backwards, the anchor names with their numbers, and the numbers with the
positions of their events. -/
structure Draft where
  events : List Content := []
  count : Nat := 0
  names : List (String × Nat) := []
  positions : List (Nat × Nat) := []

namespace Draft

/-- Adds an event. -/
def push (d : Draft) (kind : ContentKind) (mark : Mark) : Draft :=
  { d with events := ⟨kind, mark⟩ :: d.events, count := d.count + 1 }

/-- Notes that an anchor, if there is one, stands at the event to come. It gets the number of names known; a name used
again does not add to them, so the next new name takes over its number. -/
def anchor (d : Draft) : Option String → Draft
  | none => d
  | some name =>
    let number := d.names.length
    { d with
      names := (name, number) :: d.names.filter (·.1 != name)
      positions := (number, d.count) :: d.positions.filter (·.1 != number) }

/-- The document made of what was collected. -/
def finish (d : Draft) (failure : Option Failure) : Document :=
  let events := d.events.reverse
  { events, anchored := d.positions.map fun (n, k) => (n, events.drop k), failure }

/-- Adds an event of a node, or fails on an alias whose anchor is unknown. -/
def add (d : Draft) (e : NodeEvent) : Except Failure Draft :=
  match e.kind with
  | .aliasOf name =>
    match d.names.lookup name with
    | some n => .ok (d.push (.aliasOf n) e.mark)
    | none => .error (.unknownAnchor e.mark)
  | .scalar anchor tag text style => .ok ((d.anchor anchor).push (.scalar ⟨text, style, tag⟩) e.mark)
  | .sequenceStart anchor tag => .ok ((d.anchor anchor).push (.listStart tag) e.mark)
  | .sequenceEnd => .ok (d.push .listEnd e.mark)
  | .mappingStart anchor tag => .ok ((d.anchor anchor).push (.mapStart tag) e.mark)
  | .mappingEnd => .ok (d.push .mapEnd e.mark)
  | .documentStart | .documentEnd | .streamEnd => .ok d

end Draft

/-- Collects the events up to the end of a document. No text has more events than `fuel`. -/
def collect : Nat → EventStream → Draft → Document × EventStream
  | 0, s, d => (d.finish none, s)
  | fuel + 1, s, d =>
    match s.next with
    | .error e => (d.finish (some (.malformed e)), s)
    | .ok (e, s) =>
      match e.kind with
      | .streamEnd | .documentEnd => (d.finish none, s)
      | _ =>
        match d.add e with
        | .ok d => collect fuel s d
        | .error failure => (d.finish (some failure), s)

/-- Whether a stream has ended. A failure counts as something more. -/
def isOver (s : EventStream) : Bool :=
  match s.next with
  | .ok (⟨.streamEnd, _⟩, _) => true
  | _ => false

/-- The first document of a text, and whether something follows it. A character gives at most four tokens, and a token
is followed by less than four events that take none. -/
def first (octets : List UInt8) : Document × Bool :=
  let s := EventStream.ofSource (.ofOctets octets)
  let (document, rest) := collect (16 * s.tokens.bound) s {}
  (document, !isOver rest)

/-! ## Reading values -/

/-- Where a reader stands: the events left, and how often it may still follow an alias. -/
structure Position where
  events : List Content
  jumps : Nat

/-- Reads something from a position and says where it ends. -/
abbrev Reader (α : Type) := Position → Except Failure (α × Position)

/-- The failure of a reader that needs one more event. -/
def endFailure (d : Document) : Failure := d.failure.getD .incomplete

/-- Follows an alias that stands before `rest`. -/
def follow (d : Document) (anchor : Nat) (jumps : Nat) : Except Failure Position :=
  match jumps, d.anchored.lookup anchor with
  | 0, _ => .error .tooManyRepetitions
  | jumps + 1, some events => .ok { events, jumps }
  | _ + 1, none => .error d.endFailure

/-- Reads the items of a list up to its end. Each takes an event at least, so `fuel` is the number of events. -/
def readItems (d : Document) {α : Type} (read : Nat → Reader α) : Nat → Nat → Reader (List α)
  | 0, _, _ => .error d.endFailure
  | fuel + 1, index, p =>
    match p.events with
    | [] => .error d.endFailure
    | ⟨.listEnd, _⟩ :: rest => .ok ([], { p with events := rest })
    | _ => do
      let (x, p) ← read index p
      let (xs, p) ← d.readItems read fuel (index + 1) p
      .ok (x :: xs, p)

/-- The path to the value of an entry whose key begins with an event. -/
def entryPath (path : NodePath) (key : Content) : NodePath :=
  match key.kind with
  | .scalar node => .entry path node.text
  | _ => .unnamed path

/-- Reads the entries of a map up to its end, after those in `known`. Keys belong to the path of the map itself; a key
that is there already is an error before its value is read. -/
def readEntries (d : Document) (read : NodePath → Reader Tree) (path : NodePath) (start : Mark) :
    Nat → List (Tree × Tree) → Reader (List (Tree × Tree))
  | 0, _, _ => .error d.endFailure
  | fuel + 1, known, p =>
    match p.events with
    | [] => .error d.endFailure
    | ⟨.mapEnd, _⟩ :: rest => .ok (known.reverse, { p with events := rest })
    | first :: _ => do
      let (key, p) ← read path p
      match known.find? (fun e => e.1.same key) with
      | some (earlier, _) => .error (.unacceptable (.duplicateKey earlier) (some (path, start)))
      | none =>
        let (value, p) ← read (entryPath path first) p
        d.readEntries read path start fuel ((key, value) :: known) p

/-- A tree with the tag of its node, if the node keeps one. -/
def withTag (tag : Option (List UInt8)) (tree : Tree) : Tree :=
  match localTag? tag with
  | some name => .tagged (tagName name) tree
  | none => tree

/-- The tree of a scalar. A scalar that keeps its tag is read by its spelling. -/
def scalarTree (node : ScalarNode) : Except Complaint Tree := do
  let value ← match localTag? node.tag with
    | some _ => .ok node.untagged
    | none => node.value
  let tree ← value.toTree
  .ok (withTag node.tag tree)

/-- Reads a node that is no alias. What lies inside a collection is read by `inner`, which is missing where
collections may not be nested any deeper. -/
def readContent (d : Document) (inner : Option (NodePath → Reader Tree)) (path : NodePath) :
    Reader Tree := fun p =>
  match p.events with
  | ⟨.scalar node, mark⟩ :: rest =>
    match scalarTree node with
    | .ok tree => .ok (tree, { p with events := rest })
    | .error c => .error (.unacceptable c (some (path, mark)))
  | ⟨.listStart tag, mark⟩ :: rest =>
    match inner with
    | none => .error (.tooDeep mark)
    | some read => do
      let (items, p) ←
        d.readItems (fun i => read (.item path i)) (rest.length + 1) 0 { p with events := rest }
      .ok (withTag tag (.list items), p)
  | ⟨.mapStart tag, mark⟩ :: rest =>
    match inner with
    | none => .error (.tooDeep mark)
    | some read => do
      let (entries, p) ← d.readEntries read path mark (rest.length + 1) [] { p with events := rest }
      .ok (withTag tag (.map entries), p)
  | _ => .error d.endFailure

/-- Reads a node. After an alias reading goes on where the alias was. -/
def readNode (d : Document) (inner : Option (NodePath → Reader Tree)) (path : NodePath) :
    Reader Tree := fun p =>
  match p.events with
  | ⟨.aliasOf anchor, _⟩ :: rest => do
    let target ← d.follow anchor p.jumps
    let (tree, p) ← d.readContent inner (.copy path) target
    .ok (tree, { p with events := rest })
  | _ => d.readContent inner path p

/-- Reads a node with collections nested at most `depth` deep. -/
def readNested (d : Document) : Nat → NodePath → Reader Tree
  | 0 => d.readNode none
  | depth + 1 => d.readNode (some (d.readNested depth))

/-- How deep collections may be nested. -/
def maxDepth : Nat := 128

/-- The beginning of a document. All its aliases together may be followed a hundred times as often as it has events. -/
def start (d : Document) : Position := ⟨d.events, d.events.length * 100⟩

/-- The whole document as a tree. -/
def readTree (d : Document) : Except Failure Tree :=
  match d.events, d.failure with
  | [], none => .ok .null
  | _, _ => (d.readNested maxDepth .root d.start).map (·.1)

/-! ## Lists of texts -/

/-- The complaint that a node is not what is wanted. -/
def unfit (wanted : Wanted) : ContentKind → Complaint
  | .scalar node =>
    match node.value with
    | .ok v => v.unfit wanted
    | .error c => c
  | .listStart _ => .unfit .list wanted
  | _ => .unfit .map wanted

/-- Reads a text. Every scalar is one, whatever it would mean elsewhere. -/
def readText (d : Document) (index : Nat) : Reader String := fun p => do
  let (events, rest) ← match p.events with
    | ⟨.aliasOf anchor, _⟩ :: rest => do
      let target ← d.follow anchor p.jumps
      .ok (target.events, rest)
    | events => .ok (events, events.drop 1)
  match events with
  | ⟨.scalar node, _⟩ :: _ => .ok (node.text, { p with events := rest })
  | e :: _ => .error (.unacceptable (unfit .text e.kind) (some (.item .root index, e.mark)))
  | [] => .error d.endFailure

/-- Whether a scalar stands for no list at all. The core tag for null fits only a null. -/
def isAbsent (node : ScalarNode) : Except Complaint Bool :=
  if node.style ≠ .plain then .ok false
  else if node.hasCoreTag "null" then
    if CoreSchema.isNull node.text then .ok true else .error (.badCoreScalar node.text "null")
  else .ok (node.tag.isNone && (node.text = "" || CoreSchema.isNull node.text))

/-- The whole document as a list of texts; null is none. -/
def readTexts (d : Document) : Except Failure (Option (List String)) :=
  match d.events, d.failure with
  | [], none => .ok none
  | [], some failure => .error failure
  | ⟨.scalar node, mark⟩ :: _, _ =>
    match isAbsent node with
    | .error c => .error (.unacceptable c none)
    | .ok true => .ok none
    | .ok false =>
      if node.text = "" ∧ node.style = .plain then .ok (some [])
      else .error (.unacceptable (unfit .list (.scalar node)) (some (.root, mark)))
  | ⟨.listStart _, _⟩ :: rest, _ => do
    let (texts, _) ← d.readItems d.readText (rest.length + 1) 0 { d.start with events := rest }
    .ok (some texts)
  | e :: _, _ => .error (.unacceptable (unfit .list e.kind) (some (.root, e.mark)))

end Document

/-! ## Texts -/

/-- Reads the only document of a text. -/
def readOnly {α : Type} (read : Document → Except Failure α) (octets : List UInt8) :
    Except Failure α := do
  let (document, more) := Document.first octets
  let value ← read document
  match document.failure with
  | some failure => .error failure
  | none => if more then .error .severalDocuments else .ok value

/-- The tree that a text describes. -/
def readTree (octets : List UInt8) : Except Failure Tree := readOnly Document.readTree octets

/-- The list of texts that a text describes; null is none. -/
def readTexts (octets : List UInt8) : Except Failure (Option (List String)) :=
  readOnly Document.readTexts octets

end Provisioning.Yaml
