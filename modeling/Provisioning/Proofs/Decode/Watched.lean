import Provisioning.Samples.Equipment
import Provisioning.Workspace
import Provisioning.Proofs.Decode.Contexts
import Provisioning.Proofs.Decode.Course
import Provisioning.Proofs.Decode.Strictness

/-!
# A decode that is watched

A context may be watched by a tally, which notes every look-up. Watching changes nothing about a decode
(`Decoder.alike_decode`), and the tally notes the look-ups of the decode and no others (`Workspace.adds_noteDecode`).
So the tally tells the order that `Course` is about.
-/

namespace Provisioning

/-- A tally that does not watch a context, nor any context inside it. -/
def Context.Unwatched (c : Context) (tally : Nat) : Prop := ∀ name, ∀ w ∈ c.watchers name, w.1 ≠ tally

namespace Workspace

/-! ## What a tally notes -/

/-- A tally has noted further look-ups, and all tallies are still under their names and numbers. -/
structure Adds (tally : Nat) (lookups : List (String × Bool)) (w w' : Workspace) : Prop where
  lookups_eq : (w'.tallyAt tally).lookups = (w.tallyAt tally).lookups ++ lookups
  length_eq : w'.tallies.length = w.tallies.length
  numbers_eq : w'.tallyNumbers = w.tallyNumbers

variable {tally : Nat} {w w' w'' : Workspace} {lookups lookups' : List (String × Bool)}

theorem Adds.refl (w : Workspace) : Adds tally [] w w := ⟨(List.append_nil _).symm, rfl, rfl⟩

theorem Adds.trans (h : Adds tally lookups w w') (h' : Adds tally lookups' w' w'') :
    Adds tally (lookups ++ lookups') w w'' where
  lookups_eq := by rw [h'.lookups_eq, h.lookups_eq, List.append_assoc]
  length_eq := h'.length_eq.trans h.length_eq
  numbers_eq := h'.numbers_eq.trans h.numbers_eq

/-- One tally notes one look-up. -/
def noteAt (w : Workspace) (watcher : Nat × Bool) (name : String) : Workspace :=
  { w with tallies := w.tallies.set watcher.1 ((w.tallyAt watcher.1).note name watcher.2) }

theorem noteLookup_eq (w : Workspace) (context : Context) (name : String) :
    w.noteLookup context name = (context.watchers name).foldl (fun w watcher => w.noteAt watcher name) w := rfl

theorem adds_noteAt_self (h : tally < w.tallies.length) (found : Bool) (name : String) :
    Adds tally [(name, found)] w (w.noteAt (tally, found) name) := by
  refine ⟨?_, List.length_set, rfl⟩
  have hself : (w.noteAt (tally, found) name).tallyAt tally = (w.tallyAt tally).note name found := by
    rw [tallyAt, noteAt, List.getD_eq_getElem?_getD, List.getElem?_set_self h]
    rfl
  rw [hself]
  rfl

theorem adds_noteAt_other {watcher : Nat × Bool} (h : watcher.1 ≠ tally) (name : String) :
    Adds tally [] w (w.noteAt watcher name) := by
  refine ⟨?_, List.length_set, rfl⟩
  rw [tallyAt, noteAt, List.getD_eq_getElem?_getD, List.getElem?_set_ne h, List.append_nil, tallyAt,
    List.getD_eq_getElem?_getD]

theorem adds_foldl_noteAt {watchers : List (Nat × Bool)} (h : ∀ watcher ∈ watchers, watcher.1 ≠ tally)
    (name : String) : ∀ w : Workspace,
      Adds tally [] w (watchers.foldl (fun w watcher => w.noteAt watcher name) w) := by
  induction watchers with
  | nil => exact Adds.refl
  | cons watcher rest ih =>
    intro w
    obtain ⟨hfirst, hrest⟩ := List.forall_mem_cons.1 h
    exact (adds_noteAt_other hfirst name).trans (ih hrest _)

variable {inner : Context}

/-- A look-up in a watched context is noted once by its tally. -/
theorem adds_noteLookup (hinner : inner.Unwatched tally) (h : tally < w.tallies.length) (name : String) :
    Adds tally [(name, (inner.resolve name).isSome)] w (w.noteLookup (.watched tally inner) name) := by
  rw [noteLookup_eq, Context.watchers, List.foldl_append]
  -- the tallies inside note it first
  have hothers := adds_foldl_noteAt (hinner name) name w
  have hlength := hothers.length_eq
  exact hothers.trans (adds_noteAt_self (by omega) _ name)

/-- The tally of a decoder's context notes the look-ups of a decode. -/
theorem adds_noteDecode {name : String} {events : List Event}
    (hcontext : (w.decoder name).context = .watched tally inner) (hinner : inner.Unwatched tally)
    (h : tally < w.tallies.length) (hfound : ∀ l ∈ Journal.lookups events, l.2 = (inner.resolve l.1).isSome) :
    Adds tally (Journal.lookups events) w (w.noteDecode name events) := by
  rw [noteDecode, hcontext]
  generalize Journal.lookups events = lookups at hfound ⊢
  clear hcontext
  induction lookups generalizing w with
  | nil => exact Adds.refl w
  | cons l rest ih =>
    obtain ⟨hfirst, hrest⟩ := List.forall_mem_cons.1 hfound
    have hnoted := adds_noteLookup hinner h l.1
    rw [← hfirst] at hnoted
    have hlength := hnoted.length_eq
    exact hnoted.trans (ih (by omega) hrest)

end Workspace

/-! ## The decode and its tally -/

namespace Decoder

variable {σ : Schema} {document : Tree}

theorem decode_watched_eq (σ : Schema) (root : Root) (tally : Nat) (inner : Context) (settings : Settings)
    (document : Tree) :
    decode ⟨root, .watched tally inner, settings⟩ σ document = decode ⟨root, inner, settings⟩ σ document := by
  have halike : Traced.Alike Eq (decode ⟨root, .watched tally inner, settings⟩ σ document)
      (decode ⟨root, inner, settings⟩ σ document) := alike_decode (fun _ => rfl) (fun _ _ => rfl) fun _ _ => rfl
  exact halike.eq

/-- The last event of a decode that succeeds counts the type tags. -/
theorem getLast?_events_decode {d : Decoder} {r : Decoded} (h : (d.decode σ document).outcome = .ok r) :
    ∃ dropped, (d.decode σ document).events.getLast? =
      some (.finished d.root.name document.typeTags.length dropped) := by
  have hrun : (d.run σ document).outcome = .ok r := decode_eq_ok.1 h
  have hlookups : Journal.lookups (d.run σ document).events = document.typeTags.map (·, true) :=
    ((course_run d document).of_ok hrun).1
  have hcount : Journal.resolvedCount (d.run σ document).events = document.typeTags.length := by
    rw [Journal.resolvedCount, hlookups, List.countP_eq_length.2 (Course.forall_found _), List.length_map]
  rw [events_decode hrun, List.getLast?_concat, hcount]
  exact ⟨_, rfl⟩

end Decoder

namespace Workspace

variable {w : Workspace} {inside watched name : String} {events : List Event}

/-- A tally that was empty holds the look-ups of a decode, and nothing else. -/
theorem lookups_tally_noteDecode {number : Nat} {inner : Context} (hnumber : w.tallyNumber watched = number)
    (hempty : w.tallyAt number = {}) (hlength : number < w.tallies.length)
    (hcontext : (w.decoder name).context = .watched number inner) (hinner : inner.Unwatched number)
    (hfound : ∀ l ∈ Journal.lookups events, l.2 = (inner.resolve l.1).isSome) :
    ((w.noteDecode name events).tally watched).lookups = Journal.lookups events := by
  have hadds : Adds number (Journal.lookups events) w (w.noteDecode name events) :=
    adds_noteDecode hcontext hinner hlength hfound
  have hsame : (w.noteDecode name events).tallyNumber watched = number := by
    rw [tallyNumber, hadds.numbers_eq]
    exact hnumber
  rw [tally, hsame, hadds.lookups_eq, hempty]
  rfl

theorem context_makeWatched :
    (w.makeWatched watched inside).context watched = .watched w.tallies.length (w.context inside) := by
  simp [makeWatched, context, handle, make]

theorem tallyNumber_makeWatched : (w.makeWatched watched inside).tallyNumber watched = w.tallies.length := by
  simp [makeWatched, tallyNumber]

theorem tallyAt_makeWatched : (w.makeWatched watched inside).tallyAt w.tallies.length = {} := by
  show (w.tallies ++ [({} : Tally)]).getD w.tallies.length {} = {}
  rw [List.getD_eq_getElem?_getD, List.getElem?_concat_length]
  rfl

theorem decoder_setDecoder (d : Decoder) (serial : Nat) : (w.setDecoder name d serial).decoder name = d := by
  simp [decoder, setDecoder]

/-- **Every tag goes through the context once, in document order.** Decode a document in a context held in a
workspace, with a new tally that watches it. The decode is the one without the tally. If it succeeds, the tally holds
the names in the type tags of the document, each tag before its content and each key before its value, all of them
found; the last event counts them; and the tagged nodes below the root are noted as built from the inside out. If
it fails, the tally holds the first of these names, and the last one it holds was not found exactly if that is why
the decode failed. -/
theorem decode_watched (σ : Schema) (w : Workspace) (inside watched name : String) (serial : Nat) (root : Root)
    (settings : Settings) (document : Tree) (hnew : (w.context inside).Unwatched w.tallies.length) :
    let watching := w.makeWatched watched inside
    let decoder : Decoder := ⟨root, watching.context watched, settings⟩
    let decoded := decoder.decode σ document
    let tally := ((watching.setDecoder name decoder serial).noteDecode name decoded.events).tally watched
    decoded = Decoder.decode ⟨root, w.context inside, settings⟩ σ document ∧
    (∀ r, decoded.outcome = .ok r →
      tally.names = document.typeTags ∧ tally.misses = 0 ∧
      (∃ dropped, decoded.events.getLast? = some (.finished root.name document.typeTags.length dropped)) ∧
      (Journal.builtNodes decoded.events).map some = document.builtNodes.map (w.context inside).report) ∧
    ∀ f, decoded.outcome = .error f →
      tally.names <+: document.typeTags ∧ (∀ l ∈ tally.lookups.dropLast, l.2 = true) ∧
      ((∃ l ∈ tally.lookups.getLast?, l.2 = false) ↔ f.toFault.rootKind = .typeResolution) := by
  intro watching decoder decoded tally
  have hcontext : watching.context watched = .watched w.tallies.length (w.context inside) := context_makeWatched
  have hsame : decoded = Decoder.decode ⟨root, w.context inside, settings⟩ σ document := by
    show Decoder.decode ⟨root, watching.context watched, settings⟩ σ document = _
    rw [hcontext]
    exact Decoder.decode_watched_eq _ _ _ _ _ _
  have hcourse : Course (w.context inside) document.typeTags document.builtNodes decoded := by
    rw [hsame]
    exact @Decoder.course_decode σ ⟨root, w.context inside, settings⟩ document
  have htally : tally.lookups = Journal.lookups decoded.events := by
    have hlength : w.tallies.length < watching.tallies.length := by
      have : watching.tallies.length = w.tallies.length + 1 := List.length_append
      omega
    refine lookups_tally_noteDecode tallyNumber_makeWatched tallyAt_makeWatched hlength ?_ hnew hcourse.found_eq
    rw [decoder_setDecoder]
    exact hcontext
  refine ⟨hsame, fun r hr => ?_, fun f hf => ?_⟩
  · obtain ⟨hlookups, hbuilt⟩ := hcourse.of_ok hr
    refine ⟨?_, ?_, ?_, hbuilt⟩
    · rw [Tally.names, htally, hlookups, Course.map_fst_found]
    · rw [Tally.misses, htally, hlookups, List.countP_eq_zero]
      intro l hl
      rw [Course.forall_found _ l hl]
      decide
    · exact Decoder.getLast?_events_decode hr
  · have herror := hcourse.of_error hf
    rw [Tally.names, htally]
    exact herror

/-- A machine and its disk, both with a tag. -/
def taggedServer : Tree :=
  .tagged "test.Server" (.map [(.text "name", .text "db"),
    (.text "disks", .list [.tagged "test.Disk" (.map [(.text "size_gb", .number (.integer 4))])])])

/-- A workspace that holds a context of the sample types for machines. -/
def machines : Workspace :=
  ({} : Workspace).make "machines"
    (.layer (.ofList [("test.Disk", .own Samples.disk), ("test.Server", .own Samples.server)]) .nothing)

/-- The tag of the machine is looked up first, and its disk is built first. -/
theorem decode_watched_taggedServer :
    let watching := machines.makeWatched "watched" "machines"
    let decoder : Decoder := ⟨.any, watching.context "watched", .rejecting⟩
    let decoded := decoder.decode Samples.schema taggedServer
    let tally := ((watching.setDecoder "d" decoder 0).noteDecode "d" decoded.events).tally "watched"
    tally.names = ["test.Server", "test.Disk"] ∧ tally.misses = 0 ∧
      (Journal.builtNodes decoded.events).map some = [some ("test.Disk", "disks[0]")] := by
  intro watching decoder decoded tally
  have hnew : (machines.context "machines").Unwatched machines.tallies.length := by
    intro name w hw
    have hnone : (machines.context "machines").watchers name = [] := by
      show (if _ then [] else []) = _
      exact ite_self _
    rw [hnone] at hw
    cases hw
  have hdecoded : decoded.outcome = .ok (.typed (.own Samples.server) (.record [("name", .text "db"),
      ("disks", .list [.record [("size_gb", .unsigned 4), ("ssd", .flag false)]])])) := by rfl
  obtain ⟨-, hok, -⟩ := decode_watched Samples.schema machines "machines" "watched" "d" 0 .any .rejecting
    taggedServer hnew
  obtain ⟨hnames, hmisses, -, hbuilt⟩ := hok _ hdecoded
  have htags : taggedServer.typeTags = ["test.Server", "test.Disk"] := by decide
  have hnodes : taggedServer.builtNodes.map (machines.context "machines").report =
      [some ("test.Disk", "disks[0]")] := by decide
  exact ⟨hnames.trans htags, hmisses, hbuilt.trans hnodes⟩

end Workspace

end Provisioning
