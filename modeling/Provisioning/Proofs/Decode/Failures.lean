import Provisioning.Input.Stream
import Provisioning.Proofs.Decode.Course

/-!
# Why a decode fails

There are five reasons for which a decode can fail, and `Blames` says of each when it is given. One of them only, a
name that the context does not know, leaves a fault of another kind than decoding below the one that is reported. It
is given exactly if the last thing that was noted is a look-up that found nothing: a decode stops there, and a tolerant
second attempt, which makes good for the failure of a build, comes after all look-ups below it.
-/

namespace Provisioning

namespace Surroundings

variable {α β : Type} {s : Surroundings} {names names' : List String} {deepest deepest' : Nat}
  {events : List Event} {f : DecodeFailure} {x : Traced DecodeFailure α} {place : Place}

/-! ## Reasons -/

/-- A node does not fit a type, and decoding it once more without some of its keys is no way out. -/
def Unfit (s : Surroundings) (decl : TypeDecl) (reason : Mismatch) : Prop :=
  ∃ node, s.schema.build node decl.shape = .error reason ∧
    (s.settings.strict = true ∨ node.hasOtherKeys = false)

/-- Why a decode fails that noted some events by then. Its document has type tags with these names, and the deepest of
its nodes lies at this level. -/
inductive Blames (s : Surroundings) (names : List String) (deepest : Nat) (events : List Event) : DecodeFailure → Prop
  /-- A node lies deeper than allowed. -/
  | tooDeep (place : Place) : s.settings.maxDepth < deepest →
      Blames s names deepest events (.tooDeep s.settings.maxDepth place)
  /-- The context does not know the name in a tag. It was asked for it, and that was all. -/
  | missed (place : Place) {name : String} : name ∈ names → s.context.resolve name = none →
      events.getLast? = some (.lookedUp name false) →
      Blames s names deepest events (.unresolved name place s.context.typeNames)
  /-- Some keys are skipped, and decoding is strict. -/
  | skipped (typeName : String) {paths : List String} : s.settings.strict = true → paths ≠ [] →
      Blames s names deepest events (.unknownFields typeName paths)
  /-- The document does not fit the type of its root. -/
  | unfit {decl : TypeDecl} {reason : Mismatch} : s.Unfit decl reason →
      Blames s names deepest events (.unbuildable decl.name reason)
  /-- What a tag below the root stands on does not fit the type that the tag names. -/
  | nested (place : Place) {name : String} {d : Descriptor} {reason : Mismatch} : name ∈ names →
      s.context.resolve name = some d → s.Unfit d.decl reason →
      Blames s names deepest events (.nested d.name place (.unbuildable d.decl.name reason))

/-- What holds of a part of a document holds of the whole. -/
theorem Blames.mono (h : s.Blames names deepest events f) (hnames : names ⊆ names') (hdeepest : deepest ≤ deepest') :
    s.Blames names' deepest' events f := by
  cases h with
  | tooDeep place hdeep => exact .tooDeep place (by omega)
  | missed place hname hmiss hlast => exact .missed place (hnames hname) hmiss hlast
  | skipped typeName hstrict hpaths => exact .skipped typeName hstrict hpaths
  | unfit hunfit => exact .unfit hunfit
  | nested place hname hd hunfit => exact .nested place (hnames hname) hd hunfit

/-- What was noted before does not matter. -/
theorem Blames.after (h : s.Blames names deepest events f) (before : List Event) :
    s.Blames names deepest (before ++ events) f := by
  cases h with
  | tooDeep place hdeep => exact .tooDeep place hdeep
  | missed place hname hmiss hlast =>
    refine .missed place hname hmiss ?_
    rw [List.getLast?_append, hlast]
    rfl
  | skipped typeName hstrict hpaths => exact .skipped typeName hstrict hpaths
  | unfit hunfit => exact .unfit hunfit
  | nested place hname hd hunfit => exact .nested place hname hd hunfit

/-- All failures of a computation are accounted for. -/
def Explains (s : Surroundings) (names : List String) (deepest : Nat) (x : Traced DecodeFailure α) : Prop :=
  ∀ f, x.outcome = .error f → s.Blames names deepest x.events f

theorem explains_pure (a : α) : s.Explains names deepest (pure a : Traced DecodeFailure α) := nofun

theorem explains_note (event : Event) :
    s.Explains names deepest (Traced.note event : Traced DecodeFailure Unit) := nofun

theorem explains_ofExcept {outcome : Except DecodeFailure α}
    (h : ∀ f, outcome = .error f → s.Blames names deepest [] f) :
    s.Explains names deepest (Traced.ofExcept outcome) := h

theorem explains_fail (h : s.Blames names deepest [] f) :
    s.Explains names deepest (Traced.fail f : Traced DecodeFailure α) := by
  intro g hg
  obtain rfl := Except.error.inj hg
  exact h

/-- **One computation after another.** It fails where the first one fails, or where the second one does after it. -/
theorem Explains.bind {g : α → Traced DecodeFailure β} (h : s.Explains names deepest x)
    (hg : ∀ a, x.outcome = .ok a → s.Explains names deepest (g a)) : s.Explains names deepest (x >>= g) := by
  intro f hf
  cases hx : x.outcome with
  | ok a =>
    rw [Traced.outcome_bind_of_ok hx] at hf
    rw [Traced.events_bind_of_ok hx]
    exact (hg a hx f hf).after _
  | error e =>
    rw [Traced.outcome_bind_of_error hx] at hf
    obtain rfl := Except.error.inj hf
    rw [Traced.events_bind_of_error hx]
    exact h e hx

theorem Explains.mono (h : s.Explains names deepest x) (hnames : names ⊆ names') (hdeepest : deepest ≤ deepest') :
    s.Explains names' deepest' x := fun f hf => (h f hf).mono hnames hdeepest

/-! ## One step -/

theorem explains_checkDepth {depth : Nat} (h : depth ≤ deepest) :
    s.Explains names deepest (s.checkDepth depth place) := by
  unfold checkDepth
  split
  · rename_i hdeep
    exact explains_fail (.tooDeep place (by omega))
  · exact explains_pure ()

/-- A look-up that finds nothing is noted, and nothing is noted after it. -/
theorem explains_lookUp {name : String} (h : name ∈ names) : s.Explains names deepest (s.lookUp name place) := by
  intro f hf
  unfold lookUp at hf ⊢
  cases hresolve : s.context.resolve name with
  | some d =>
    rw [hresolve] at hf
    cases hf
  | none =>
    rw [hresolve] at hf
    obtain rfl := Except.error.inj hf
    exact .missed place h hresolve rfl

theorem explains_accept (typeName : String) (node : Tree) (skipped : List KeyPath) :
    s.Explains names deepest (s.accept typeName place node skipped) := by
  unfold accept
  split
  · exact explains_pure _
  · rename_i hskipped
    dsimp only
    split
    · rename_i hstrict
      refine explains_fail (.skipped typeName hstrict fun hnil => hskipped ?_)
      rw [List.map_eq_nil_iff.1 hnil]
      rfl
    · exact nofun

/-- The failure of a first attempt counts only if there is no second one, and the second one is made on a node in which
all keys are text. -/
theorem explains_buildChecked {build : Tree → Except DecodeFailure (Built Instance)}
    (hbuild : ∀ node f, build node = .error f → s.settings.strict = true ∨ node.hasOtherKeys = false →
      s.Blames names deepest [] f) (typeName : String) (node : Tree) :
    s.Explains names deepest (s.buildChecked typeName place build node) := by
  have haccept : ∀ t (built : Built Instance), s.Explains names deepest
      (s.accept typeName place t built.skipped >>= fun rest => pure (built.value, rest)) := fun t built =>
    (explains_accept typeName t built.skipped).bind fun _ _ => explains_pure _
  unfold buildChecked
  split
  · exact haccept _ _
  · rename_i failure hfailure
    split
    -- the second attempt: what the first one failed with is forgotten
    · refine (explains_note _).bind fun _ _ => (explains_ofExcept fun f hf => ?_).bind fun built _ => haccept _ built
      exact hbuild _ f hf (.inr (Tree.hasOtherKeys_withTextKeys node))
    · rename_i hfinal
      refine explains_fail (hbuild node failure hfailure ?_)
      by_cases hstrict : s.settings.strict = true
      · exact .inl hstrict
      · -- a tolerant decode gives up at once only if there is no key to drop
        refine .inr (Bool.eq_false_iff.2 fun hkeys => hfinal ?_)
        rw [Bool.eq_false_iff.2 hstrict, hkeys]
        rfl

theorem explains_buildChecked_build (typeName : String) (decl : TypeDecl) (node : Tree) :
    s.Explains names deepest (s.buildChecked typeName place (s.build decl) node) := by
  refine explains_buildChecked (fun node f hf hfinal => ?_) typeName node
  obtain ⟨reason, hreason, rfl⟩ := build_eq_error hf
  exact .unfit ⟨node, hreason, hfinal⟩

theorem explains_buildNested {name : String} {d : Descriptor} (hname : name ∈ names)
    (hd : s.context.resolve name = some d) (content : Tree) :
    s.Explains names deepest (s.buildNested d place content) := by
  refine (explains_note _).bind fun _ _ =>
    (explains_buildChecked (fun node f hf hfinal => ?_) d.name content).bind fun _ _ => explains_pure _
  cases hb : s.build d.decl node with
  | ok built =>
    rw [hb] at hf
    cases hf
  | error inner =>
    rw [hb] at hf
    obtain rfl := Except.error.inj hf
    obtain ⟨reason, hreason, rfl⟩ := build_eq_error hb
    exact .nested place hname hd ⟨node, hreason, hfinal⟩

/-! ## The whole traversal -/

/-- All failures of the traversal of a node are accounted for, at whatever depth and place. -/
def Accounts (s : Surroundings) (t : Tree) : Prop :=
  ∀ depth place, s.Explains t.typeTags (depth + t.depth) (s.resolveNode depth place t)

theorem explains_resolveItems {items : List Tree} (ih : ∀ t ∈ items, s.Accounts t) (depth : Nat) (place : Place)
    (hdepth : ∀ t ∈ items, depth + t.depth ≤ deepest) :
    ∀ position, s.Explains (items.flatMap Tree.typeTags) deepest (s.resolveItems depth place position items) := by
  induction items with
  | nil => exact fun _ => explains_pure _
  | cons t ts ihts =>
    intro position
    obtain ⟨ht, hts⟩ := List.forall_mem_cons.1 hdepth
    have hrest := ihts (fun u hu => ih u (List.mem_cons_of_mem _ hu)) hts (position + 1)
    rw [List.flatMap_cons]
    refine ((ih t List.mem_cons_self _ _).mono (List.subset_append_left _ _) ht).bind fun _ _ => ?_
    exact (hrest.mono (List.subset_append_right _ _) (Nat.le_refl _)).bind fun _ _ => explains_pure _

theorem explains_resolveEntries {entries : List (Tree × Tree)}
    (ih : ∀ e ∈ entries, s.Accounts e.1 ∧ s.Accounts e.2) (depth : Nat) (place : Place)
    (hdepth : ∀ e ∈ entries, depth + e.1.depth ≤ deepest ∧ depth + e.2.depth ≤ deepest) :
    ∀ done, s.Explains (entries.flatMap fun e => e.1.typeTags ++ e.2.typeTags) deepest
      (s.resolveEntries depth place done entries) := by
  induction entries with
  | nil => exact fun _ => explains_pure _
  | cons e rest ihrest =>
    intro done
    obtain ⟨⟨hkey, hvalue⟩, hrest⟩ := List.forall_mem_cons.1 hdepth
    obtain ⟨hk, hv⟩ := ih e List.mem_cons_self
    have hafter := ihrest (fun e he => ih e (List.mem_cons_of_mem _ he)) hrest
    rw [List.flatMap_cons, List.append_assoc]
    refine ((hk _ _).mono (List.subset_append_left _ _) hkey).bind fun _ _ => ?_
    refine ((hv _ _).mono ?_ hvalue).bind fun _ _ => (hafter _).mono ?_ (Nat.le_refl _)
    · exact List.Subset.trans (List.subset_append_left _ _) (List.subset_append_right _ _)
    · exact List.Subset.trans (List.subset_append_right _ _) (List.subset_append_right _ _)

/-- **No other failures of a traversal.** The induction is on the node; a list, a map or a tag passes on what its parts
are blamed for, one level up. -/
theorem accounts (t : Tree) : s.Accounts t := by
  induction t using Tree.induct with
  | null | flag | number | text =>
    exact fun depth _ => (explains_checkDepth (Nat.le_add_right _ _)).bind fun _ _ => explains_pure _
  | list items ih =>
    intro depth place
    have hdepth : ∀ t ∈ items, depth + 1 + t.depth ≤ depth + (Tree.list items).depth := by
      intro t ht
      have hle := Tree.itemsDepth_le_iff.1 (Nat.le_refl (Tree.itemsDepth items)) t ht
      rw [Tree.depth]
      omega
    rw [Tree.typeTags_list]
    exact (explains_checkDepth (Nat.le_add_right _ _)).bind fun _ _ =>
      (explains_resolveItems ih _ _ hdepth _).bind fun _ _ => explains_pure _
  | map entries ih =>
    intro depth place
    have hdepth : ∀ e ∈ entries, depth + 1 + e.1.depth ≤ depth + (Tree.map entries).depth ∧
        depth + 1 + e.2.depth ≤ depth + (Tree.map entries).depth := by
      intro e he
      have hle := Tree.entriesDepth_le_iff.1 (Nat.le_refl (Tree.entriesDepth entries)) e he
      rw [Tree.depth]
      omega
    rw [Tree.typeTags_map]
    exact (explains_checkDepth (Nat.le_add_right _ _)).bind fun _ _ =>
      (explains_resolveEntries ih _ _ hdepth _).bind fun _ _ => explains_pure _
  | tagged tag content ih =>
    intro depth place
    have hcontent : s.Explains content.typeTags (depth + (Tree.tagged tag content).depth)
        (s.resolveNode (depth + 1) place content) := by
      refine (ih (depth + 1) place).mono (List.Subset.refl _) ?_
      rw [Tree.depth]
      omega
    refine (explains_checkDepth (Nat.le_add_right _ _)).bind fun _ _ => ?_
    cases hrole : TagRole.ofTag tag with
    | core =>
      rw [Tree.typeTags_of_ne_type (by simp [hrole])]
      exact hcontent
    | variant =>
      rw [Tree.typeTags_of_ne_type (by simp [hrole])]
      exact hcontent.bind fun _ _ => explains_pure _
    | type name =>
      rw [Tree.typeTags_of_type hrole]
      refine (explains_lookUp List.mem_cons_self).bind fun d hd => ?_
      refine (hcontent.mono (List.subset_cons_self _ _) (Nat.le_refl _)).bind fun inner _ => ?_
      exact explains_buildNested List.mem_cons_self (lookUp_eq_ok.1 hd) inner

theorem explains_resolveRoot (document : Tree) :
    s.Explains document.typeTags document.depth (s.resolveRoot document) := by
  cases hroot : document.rootType? with
  | none =>
    rw [resolveRoot_of_none hroot]
    refine ((accounts document 0 .root).mono (List.Subset.refl _) ?_).bind fun _ _ => explains_pure _
    omega
  | some root =>
    rw [resolveRoot_of_type hroot]
    obtain ⟨tag, hrole, rfl⟩ := Tree.eq_of_rootType? hroot
    rw [Tree.typeTags_of_type hrole]
    refine (explains_lookUp List.mem_cons_self).bind fun d _ => ?_
    refine ((accounts root.2 1 .root).mono (List.subset_cons_self _ _) ?_).bind fun _ _ => explains_pure _
    rw [Tree.depth]
    omega

end Surroundings

namespace Decoder

open Surroundings (Explains explains_pure explains_note explains_buildChecked_build)

variable {s : Surroundings} {σ : Schema} {names : List String} {deepest : Nat}

theorem explains_finishTyped (decl : TypeDecl) (resolved : Surroundings.ResolvedRoot) :
    s.Explains names deepest (finishTyped s decl resolved) := by
  cases resolved with
  | plain tree => exact (explains_buildChecked_build _ _ _).bind fun _ _ => explains_pure _
  | typed d content =>
    refine (explains_buildChecked_build _ _ _).bind fun built _ => ?_
    split
    · exact explains_pure _
    · exact (explains_buildChecked_build _ _ _).bind fun _ _ => explains_pure _

theorem explains_finishAny (resolved : Surroundings.ResolvedRoot) :
    s.Explains names deepest (finishAny s resolved) := by
  cases resolved with
  | plain tree => exact explains_pure _
  | typed d content => exact (explains_buildChecked_build _ _ _).bind fun _ _ => explains_pure _

theorem explains_run (d : Decoder) (document : Tree) :
    (d.surroundings σ).Explains document.typeTags document.depth (d.run σ document) := by
  refine (Surroundings.explains_resolveRoot document).bind fun resolved _ => ?_
  cases d.root with
  | type decl => exact (explains_finishTyped decl resolved).bind fun _ _ => explains_pure _
  | any => exact explains_finishAny resolved

/-- **No other failures of a decode.** -/
theorem explains_decode (d : Decoder) (document : Tree) :
    (d.surroundings σ).Explains document.typeTags document.depth (d.decode σ document) :=
  (explains_note _).bind fun _ _ => (explains_run d document).bind fun _ _ =>
    (explains_note _).bind fun _ _ => explains_pure _

end Decoder

/-! ## Kinds of faults -/

namespace Surroundings.Blames

variable {s : Surroundings} {names : List String} {deepest : Nat} {events : List Event} {f : DecodeFailure}

/-- A name that is not known is the one reason below which a fault of another kind stands. -/
theorem kinds (h : s.Blames names deepest events f) :
    (f.toFault.rootKind = .typeResolution ∧ ∃ name ∈ names, s.context.resolve name = none ∧
      events.getLast? = some (.lookedUp name false) ∧
      f.causes = [.fault .typeResolution (DecodeFailure.unknownTypeMessage name s.context.typeNames) none]) ∨
    (f.toFault.rootKind = .decode ∧ ∀ cause ∈ f.causes, ∀ kind, cause.kind? = some kind → kind = .decode) := by
  cases h with
  | missed place hname hmiss hlast => exact .inl ⟨rfl, _, hname, hmiss, hlast, rfl⟩
  | tooDeep | skipped => exact .inr ⟨rfl, by simp [DecodeFailure.causes]⟩
  | unfit => exact .inr ⟨rfl, by simp [DecodeFailure.causes, Cause.kind?]⟩
  | nested => exact .inr ⟨rfl, by simp [DecodeFailure.causes, Cause.kind?]⟩

end Surroundings.Blames

/-- A look-up that stands last in a journal is the last look-up. -/
theorem Journal.getLast?_lookups {events : List Event} {name : String} {found : Bool}
    (h : events.getLast? = some (.lookedUp name found)) : (lookups events).getLast? = some (name, found) := by
  obtain ⟨front, rfl⟩ := List.getLast?_eq_some_iff.1 h
  rw [lookups, List.filterMap_append]
  exact List.getLast?_concat

namespace Decoder

/-- **What a failed decode reports.** It is a fault of decoding without a document. At the bottom of its chain is a
fault of type resolution exactly if the decode stopped when the context had nothing for a name in a type tag of the
document, and then that fault stands directly below; whatever else went wrong, at any depth, the bottom of the chain
is a fault of decoding. No link of the chain is of another kind, and there are no reasons but those of `Blames`. -/
theorem fault_of_decodeTree (σ : Schema) (d : Decoder) (document : Tree) (fault : Fault)
    (h : (d.decodeTree σ document).outcome = .error fault) :
    let events := (d.decodeTree σ document).events
    (fault.kind = .decode ∧ fault.document = none) ∧
    (fault.rootKind = .typeResolution ↔ ∃ name ∈ document.typeTags, d.context.resolve name = none ∧
      events.getLast? = some (.lookedUp name false)) ∧
    (∀ name, events.getLast? = some (.lookedUp name false) → fault.causes =
      [.fault .typeResolution (DecodeFailure.unknownTypeMessage name d.context.typeNames) none]) ∧
    (fault.rootKind ≠ .typeResolution → fault.rootKind = .decode ∧
      ∀ cause ∈ fault.causes, ∀ kind, cause.kind? = some kind → kind = .decode) ∧
    ∃ f, fault = f.toFault ∧ (d.surroundings σ).Blames document.typeTags document.depth events f := by
  intro events
  obtain ⟨f, hf, rfl⟩ := Traced.outcome_mapError_eq_error.1 h
  have hblames : (d.surroundings σ).Blames document.typeTags document.depth events f := explains_decode d document f hf
  have hstop : ∀ name, events.getLast? = some (.lookedUp name false) → f.toFault.rootKind = .typeResolution := by
    intro name hlast
    -- every look-up but the last one was successful, so the last one tells what kind of failure it is
    refine ((course_decode (σ := σ) d document).of_error hf).2.2.1 ⟨(name, false), ?_, rfl⟩
    exact Journal.getLast?_lookups hlast
  refine ⟨⟨rfl, rfl⟩, ⟨fun hroot => ?_, fun hmiss => ?_⟩, fun name hlast => ?_, fun hroot => ?_, f, rfl, hblames⟩
  · rcases hblames.kinds with ⟨-, name, hname, hmiss, hlast, -⟩ | ⟨hdecode, -⟩
    · exact ⟨name, hname, hmiss, hlast⟩
    · rw [hdecode] at hroot
      cases hroot
  · obtain ⟨name, -, -, hlast⟩ := hmiss
    exact hstop name hlast
  · rcases hblames.kinds with ⟨-, name', -, -, hlast', hcauses⟩ | ⟨hdecode, -⟩
    · -- there is one last event, so both names are one
      have hsame := hlast.symm.trans hlast'
      simp only [Option.some.injEq, Event.lookedUp.injEq, and_true] at hsame
      rw [hsame]
      exact hcauses
    · rw [hstop name hlast] at hdecode
      cases hdecode
  · rcases hblames.kinds with ⟨htype, -⟩ | hdecode
    · exact absurd htype hroot
    · exact hdecode

/-- A tape in a context that knows disks only, and keeps this to itself. -/
theorem fault_of_decodeTree_spareTape :
    let disks : Context := .unlisted (.layer (.ofList [(Samples.disk.name, .own Samples.disk)]) .nothing)
    let d : Decoder := ⟨.any, disks, .tolerant⟩
    let document : Tree := .map [(.text "spare", .tagged "test.Tape" (.map []))]
    let fault : Fault :=
      { kind := .decode
        message := "cannot resolve tag `!test.Tape` at `spare`"
        causes := [.fault .typeResolution "no type named `test.Tape` in the resolution context" none] }
    (d.decodeTree Samples.schema document).outcome = .error fault ∧
      ∃ name ∈ document.typeTags, d.context.resolve name = none ∧
        (d.decodeTree Samples.schema document).events.getLast? = some (.lookedUp name false) := by
  intro disks d document fault
  have hmessage : fault = (DecodeFailure.unresolved "test.Tape" ⟨"spare"⟩ []).toFault := by decide +kernel
  have hfault : (d.decodeTree Samples.schema document).outcome = .error fault := by
    rw [hmessage]
    rfl
  obtain ⟨-, hstop, -⟩ := fault_of_decodeTree Samples.schema d document fault hfault
  exact ⟨hfault, hstop.1 rfl⟩

end Decoder

end Provisioning
