import Provisioning.Proofs.Decode.Course
import Provisioning.Proofs.Decode.PathTexts
import Provisioning.Proofs.Schema.ReadParts
import Provisioning.Proofs.Tree.Outline

/-!
# The paths in reports

A report of skipped keys names the type that a node was built as and the path of each key. Where it comes from: a
type-tagged node that stands somewhere in the document, or the document as the root type, and the keys are those that
such a build skips (`reportsInside`). How a path is written depends on where the node stands; the root build
writes the whole path in one piece. Both writings of a key agree exactly under the conditions of
`Place.qualify_along_eq_iff` (`decode_reports_paths`).
-/

namespace Provisioning

namespace Tree

/-- A node stands in a document at the end of a way: through list items, map values and tags, of which those that name
variants stay. A key is called by its label without tags, and what is inside of a key stands where its map does. -/
inductive Stands (node : Tree) : KeyPath → Tree → Prop
  | here : Stands node [] node
  | item {ts : List Tree} {i : Nat} {t : Tree} {way : KeyPath} :
      ts[i]? = some t → Stands node way t → Stands node (.index i :: way) (.list ts)
  | key {es : List (Tree × Tree)} {k v : Tree} {way : KeyPath} :
      (k, v) ∈ es → Stands node way k → Stands node way (.map es)
  | value {es : List (Tree × Tree)} {k v : Tree} {way : KeyPath} :
      (k, v) ∈ es → Stands node way v → Stands node (.key k.bare.label :: way) (.map es)
  | variant {tag : String} {content : Tree} {way : KeyPath} :
      TagRole.ofTag tag = .variant → Stands node way content → Stands node (.variant :: way) (.tagged tag content)
  | dropped {tag : String} {content : Tree} {way : KeyPath} :
      TagRole.ofTag tag ≠ .variant → Stands node way content → Stands node way (.tagged tag content)

end Tree

/-! ## Reports -/

/-- The type and the paths of keys that an event tells of. -/
def Event.report? : Event → Option (String × List String)
  | .droppedOtherKeys typeName paths => some (typeName, paths)
  | .droppedUnknownFields typeName paths => some (typeName, paths)
  | _ => none

/-- The type and the paths of keys that a failure tells of. -/
def DecodeFailure.report? : DecodeFailure → Option (String × List String)
  | .unknownFields typeName paths => some (typeName, paths)
  | .nested _ _ inner => inner.report?
  | _ => none

namespace Traced

variable {α β : Type}

/-- All that a computation tells of skipped keys, in its events and in its failure. -/
def reports (x : Traced DecodeFailure α) : List (String × List String) :=
  x.events.filterMap Event.report? ++
    match x.outcome with
    | .ok _ => []
    | .error failure => failure.report?.toList

/-- Every report of a computation has the property. -/
def Reports (p : String × List String → Prop) (x : Traced DecodeFailure α) : Prop := ∀ r ∈ x.reports, p r

variable {p q : String × List String → Prop} {x : Traced DecodeFailure α} {f : α → Traced DecodeFailure β}

theorem reports_pure (a : α) : Reports p (pure a : Traced DecodeFailure α) := fun _ h => absurd h List.not_mem_nil

theorem reports_fail {failure : DecodeFailure} (h : ∀ r, failure.report? = some r → p r) :
    Reports p (fail failure : Traced DecodeFailure α) := by
  intro r hr
  exact h r (Option.mem_toList.1 hr)

theorem reports_of_event {event : Event} {a : α} (h : ∀ r, event.report? = some r → p r) :
    Reports p (⟨[event], .ok a⟩ : Traced DecodeFailure α) := by
  intro r hr
  rw [reports, List.append_nil] at hr
  obtain ⟨e, he, hreport⟩ := List.mem_filterMap.1 hr
  obtain rfl := List.mem_singleton.1 he
  exact h r hreport

theorem reports_note {event : Event} (h : ∀ r, event.report? = some r → p r) :
    Reports p (note event : Traced DecodeFailure Unit) := reports_of_event h

theorem Reports.imp (h : Reports p x) (hpq : ∀ r, p r → q r) : Reports q x := fun r hr => hpq r (h r hr)

theorem Reports.bind (hx : Reports p x) (hf : ∀ a, x.outcome = .ok a → Reports p (f a)) : Reports p (x >>= f) := by
  intro r hr
  cases houtcome : x.outcome with
  | ok a =>
    rw [reports, events_bind_of_ok houtcome, outcome_bind_of_ok houtcome, List.filterMap_append,
      List.append_assoc] at hr
    rcases List.mem_append.1 hr with hr | hr
    · exact hx r (List.mem_append_left _ hr)
    · exact hf a houtcome r hr
  | error failure =>
    rw [reports, events_bind_of_error houtcome, outcome_bind_of_error houtcome] at hr
    refine hx r ?_
    rw [reports, houtcome]
    exact hr

end Traced

namespace Surroundings

variable {s : Surroundings} {shape : Shape} {node : Tree} {place : Place} {typeName : String}

/-- What is told of when a node is built as a shape: the keys that the build skips. If it fails in tolerant decoding,
the keys that are not text, and the keys that it skips without these. -/
inductive Skips (s : Surroundings) (shape : Shape) (node : Tree) : List KeyPath → Prop
  | built {b : Built Instance} : s.schema.build node shape = .ok b → Skips s shape node b.skipped
  | others : (∀ b, s.schema.build node shape ≠ .ok b) → s.settings.strict = false →
      Skips s shape node node.otherKeyPaths
  | again {b : Built Instance} : (∀ b, s.schema.build node shape ≠ .ok b) → s.settings.strict = false →
      s.schema.build node.withTextKeys shape = .ok b → Skips s shape node b.skipped

/-- A report of a build at a place: the name of the type, and the keys of the node as they are called from there. -/
def ReportsSkipped (s : Surroundings) (typeName : String) (shape : Shape) (place : Place) (node : Tree)
    (r : String × List String) : Prop :=
  ∃ paths, s.Skips shape node paths ∧ r = (typeName, place.qualifyAll paths)

theorem reports_accept (t : Tree) (skipped : List KeyPath) :
    Traced.Reports (· = (typeName, place.qualifyAll skipped)) (s.accept typeName place t skipped) := by
  unfold accept
  split
  · exact Traced.reports_pure _
  · dsimp only
    split
    · exact Traced.reports_fail fun r hr => (Option.some.inj hr).symm
    · exact Traced.reports_of_event fun r hr => (Option.some.inj hr).symm

theorem reports_buildChecked {build : Tree → Except DecodeFailure (Built Instance)}
    (hbuild : ∀ t b, build t = .ok b ↔ s.schema.build t shape = .ok b)
    (hfail : ∀ t failure, build t = .error failure → failure.report? = none) (node : Tree) :
    Traced.Reports (s.ReportsSkipped typeName shape place node) (s.buildChecked typeName place build node) := by
  have haccept {t : Tree} {skipped : List KeyPath} (h : s.Skips shape node skipped) :
      Traced.Reports (s.ReportsSkipped typeName shape place node) (s.accept typeName place t skipped) :=
    (reports_accept t skipped).imp fun r hr => ⟨skipped, h, hr⟩
  have hsilent {α : Type} {t : Tree} {failure : DecodeFailure} (h : build t = .error failure) :
      Traced.Reports (s.ReportsSkipped typeName shape place node) (Traced.fail failure : Traced DecodeFailure α) :=
    Traced.reports_fail fun r hr => by
      rw [hfail t failure h] at hr
      cases hr
  unfold buildChecked
  cases hfirst : build node with
  | ok built => exact (haccept (.built ((hbuild _ _).1 hfirst))).bind fun _ _ => Traced.reports_pure _
  | error failure =>
    dsimp only
    split
    · rename_i hretry
      rw [Bool.and_eq_true, Bool.not_eq_true'] at hretry
      have hnone (b : Built Instance) : s.schema.build node shape ≠ .ok b := by
        rw [Ne, ← hbuild, hfirst]
        exact nofun
      refine (Traced.reports_note fun r hr => ?_).bind fun _ _ => ?_
      · exact ⟨_, .others hnone hretry.1, (Option.some.inj hr).symm⟩
      · cases hagain : build node.withTextKeys with
        | ok built =>
          exact Traced.Reports.bind (Traced.reports_pure built) fun b hb => by
            obtain rfl := Traced.outcome_pure_eq_ok.1 hb
            exact (haccept (.again hnone hretry.1 ((hbuild _ _).1 hagain))).bind fun _ _ => Traced.reports_pure _
        | error failure => exact (hsilent hagain).bind fun _ hb => nomatch hb
    · exact hsilent hfirst

theorem reports_build (decl : TypeDecl) (node : Tree) :
    Traced.Reports (s.ReportsSkipped typeName decl.shape place node)
      (s.buildChecked typeName place (s.build decl) node) := by
  refine reports_buildChecked (fun _ _ => build_eq_ok) (fun t failure h => ?_) node
  obtain ⟨reason, -, rfl⟩ := build_eq_error h
  rfl

theorem reports_buildNested (d : Descriptor) (node : Tree) :
    Traced.Reports (s.ReportsSkipped d.name d.decl.shape place node) (s.buildNested d place node) := by
  refine (Traced.reports_note fun _ h => nomatch h).bind fun _ _ => ?_
  refine (reports_buildChecked (fun _ _ => mapError_build_eq_ok) (fun t failure h => ?_) node).bind
    fun _ _ => Traced.reports_pure _
  cases hbuilt : s.build d.decl t with
  | ok b =>
    rw [hbuilt] at h
    cases h
  | error inner =>
    rw [hbuilt] at h
    obtain ⟨reason, -, rfl⟩ := build_eq_error hbuilt
    obtain rfl := Except.error.inj h
    rfl

/-! ## Where the node stands -/

/-- A report of a type-tagged node that stands in a tree: the name of its type, and keys that are skipped where its
resolved content is built as that, as they are called from the place of the node. -/
def ReportedIn (s : Surroundings) (place : Place) (t : Tree) (r : String × List String) : Prop :=
  ∃ way tag name content d depth inner, Tree.Stands (.tagged tag content) way t ∧ TagRole.ofTag tag = .type name ∧
    s.context.resolve name = some d ∧ s.Resolves depth content inner ∧
    s.ReportsSkipped d.name d.decl.shape (place.along way) inner r

/-- What is reported in a part of a tree is reported in the tree, if the way and the place lead on to the part. -/
theorem ReportedIn.of_part {t u : Tree} {place below : Place} {r : String × List String}
    (hpart : ∀ node way, Tree.Stands node way t → ∃ way', Tree.Stands node way' u ∧ place.along way' = below.along way)
    (h : s.ReportedIn below t r) : s.ReportedIn place u r := by
  obtain ⟨way, tag, name, content, d, depth, inner, hstands, hrole, hd, hinner, hr⟩ := h
  obtain ⟨way', hstands', halong⟩ := hpart _ _ hstands
  exact ⟨way', tag, name, content, d, depth, inner, hstands', hrole, hd, hinner, halong ▸ hr⟩

/-- All reports of the traversal of a node, at whatever depth and place, are of nodes in it. -/
def ReportsInside (s : Surroundings) (t : Tree) : Prop :=
  ∀ depth place, Traced.Reports (s.ReportedIn place t) (s.resolveNode depth place t)

theorem reports_checkDepth {p : String × List String → Prop} (depth : Nat) :
    Traced.Reports p (s.checkDepth depth place) := by
  unfold checkDepth
  split
  · exact Traced.reports_fail fun _ h => nomatch h
  · exact Traced.reports_pure _

theorem reports_lookUp {p : String × List String → Prop} (name : String) :
    Traced.Reports p (s.lookUp name place) := by
  unfold lookUp
  split
  · exact Traced.reports_of_event fun _ h => nomatch h
  · exact (Traced.reports_note fun _ h => nomatch h).bind fun _ _ => Traced.reports_fail fun _ h => nomatch h

theorem reports_resolveItems {items : List Tree} (hall : ∀ t ∈ items, s.ReportsInside t) (depth : Nat) (place : Place) :
    ∀ (front rest : List Tree), front ++ rest = items →
      Traced.Reports (s.ReportedIn place (.list items)) (s.resolveItems depth place front.length rest) := by
  intro front rest
  induction rest generalizing front with
  | nil => exact fun _ => Traced.reports_pure _
  | cons t rest ih =>
    intro hitems
    have hget : items[front.length]? = some t := by simp [← hitems]
    have hfirst := hall t (List.mem_of_getElem? hget) depth (place.item front.length)
    have hrest := ih (front ++ [t]) (by rw [← hitems, List.append_assoc]; rfl)
    rw [List.length_append] at hrest
    exact (hfirst.imp fun r hr => hr.of_part fun node way hstands => ⟨_, .item hget hstands, rfl⟩).bind fun _ _ =>
      hrest.bind fun _ _ => Traced.reports_pure _

theorem reports_resolveEntries {es : List (Tree × Tree)} (hall : ∀ e ∈ es, s.ReportsInside e.1 ∧ s.ReportsInside e.2)
    (depth : Nat) (place : Place) :
    ∀ (rest done : List (Tree × Tree)), rest ⊆ es →
      Traced.Reports (s.ReportedIn place (.map es)) (s.resolveEntries depth place done rest) := by
  intro rest
  induction rest with
  | nil => exact fun _ _ => Traced.reports_pure _
  | cons e rest ih =>
    intro done hsub
    obtain ⟨k, v⟩ := e
    obtain ⟨hmem, hrest⟩ := List.cons_subset.1 hsub
    obtain ⟨hk, hv⟩ := hall _ hmem
    refine ((hk depth place).imp fun r hr => hr.of_part fun node way hstands => ⟨_, .key hmem hstands, rfl⟩).bind
      fun key hkey => ?_
    -- the value stands below what its key is called once that is resolved
    have hlabel : key.label = k.bare.label := (settling k _ _ ((placeless k _ _ _).1 hkey)).2.label_eq
    rw [hlabel]
    refine ((hv depth _).imp fun r hr => hr.of_part fun node way hstands => ⟨_, .value hmem hstands, rfl⟩).bind
      fun value _ => ?_
    exact ih _ hrest

/-- **Where reports come from.** -/
theorem reportsInside (t : Tree) : s.ReportsInside t := by
  induction t using Tree.induct with
  | null | flag | number | text =>
    exact fun depth place => (reports_checkDepth depth).bind fun _ _ => Traced.reports_pure _
  | list items ih =>
    exact fun depth place => (reports_checkDepth depth).bind fun _ _ =>
      (reports_resolveItems ih (depth + 1) place [] items rfl).bind fun _ _ => Traced.reports_pure _
  | map entries ih =>
    exact fun depth place => (reports_checkDepth depth).bind fun _ _ =>
      (reports_resolveEntries ih (depth + 1) place entries [] (List.Subset.refl _)).bind fun _ _ =>
        Traced.reports_pure _
  | tagged tag content ih =>
    intro depth place
    have hcontent (hrole : TagRole.ofTag tag ≠ .variant) :=
      (ih (depth + 1) place).imp fun r hr => hr.of_part fun node way hstands => ⟨_, .dropped hrole hstands, rfl⟩
    refine (reports_checkDepth depth).bind fun _ _ => ?_
    cases hrole : TagRole.ofTag tag with
    | core => exact hcontent (by simp [hrole])
    | variant =>
      exact ((ih (depth + 1) place).imp fun r hr =>
        hr.of_part fun node way hstands => ⟨_, .variant hrole hstands, rfl⟩).bind fun _ _ => Traced.reports_pure _
    | type name =>
      refine (reports_lookUp name).bind fun d hd => (hcontent (by simp [hrole])).bind fun inner hinner => ?_
      exact (reports_buildNested d inner).imp fun r hr => ⟨[], tag, name, content, d, depth + 1, inner, .here, hrole,
        lookUp_eq_ok.1 hd, (placeless content _ _ _).1 hinner, hr⟩

theorem reports_resolveRoot (document : Tree) :
    Traced.Reports (s.ReportedIn .root document) (s.resolveRoot document) := by
  cases hroot : document.rootType? with
  | none =>
    rw [resolveRoot_of_none hroot]
    exact (reportsInside document 0 .root).bind fun _ _ => Traced.reports_pure _
  | some root =>
    rw [resolveRoot_of_type hroot]
    obtain ⟨tag, hrole, rfl⟩ := Tree.eq_of_rootType? hroot
    have hcontent : Traced.Reports (s.ReportedIn .root (.tagged tag root.2)) (s.resolveNode 1 .root root.2) :=
      (reportsInside root.2 1 .root).imp fun r hr => hr.of_part fun node way hstands =>
        ⟨_, .dropped (by simp [hrole]) hstands, rfl⟩
    exact (reports_lookUp _).bind fun _ _ => hcontent.bind fun _ _ => Traced.reports_pure _

/-- What is left to be built as a type that the root names is what the content of the root resolves to. -/
theorem typed_of_resolveRoot {document content : Tree} {d : Descriptor}
    (h : (s.resolveRoot document).outcome = .ok (.typed d content)) :
    ∃ tag name raw, document = .tagged tag raw ∧ TagRole.ofTag tag = .type name ∧ s.context.resolve name = some d ∧
      s.Resolves 1 raw content := by
  cases hroot : document.rootType? with
  | none =>
    rw [resolveRoot_of_none hroot] at h
    obtain ⟨_, -, h⟩ := Traced.outcome_bind_eq_ok.1 h
    cases Traced.outcome_pure_eq_ok.1 h
  | some root =>
    rw [resolveRoot_of_type hroot] at h
    obtain ⟨tag, hrole, rfl⟩ := Tree.eq_of_rootType? hroot
    obtain ⟨_, hd, h⟩ := Traced.outcome_bind_eq_ok.1 h
    obtain ⟨_, hcontent, h⟩ := Traced.outcome_bind_eq_ok.1 h
    cases Traced.outcome_pure_eq_ok.1 h
    exact ⟨tag, root.1, root.2, rfl, hrole, lookUp_eq_ok.1 hd, hcontent⟩

/-- A node is what is built as the root type of a document: what its tags leave of it and, if the root names a type
itself, the build of that type. -/
inductive BuiltAtRoot (s : Surroundings) (document : Tree) : Tree → Prop
  | plain {tree : Tree} : (s.resolveRoot document).outcome = .ok (.plain tree) → BuiltAtRoot s document tree
  | typed {d : Descriptor} {content rest : Tree} {x : Instance} :
      (s.resolveRoot document).outcome = .ok (.typed d content) →
      (s.buildChecked d.name .root (s.build d.decl) content).outcome = .ok (x, rest) → BuiltAtRoot s document rest

/-! ## What the keys are -/

theorem shown_ne_nil_of_readsParts {σ : Schema} {reader : PartsReader} {t : Tree} {b : Built Instance}
    (h : Schema.ReadsParts σ reader t b) : ∀ path ∈ b.skipped, KeyPath.shown path ≠ [] := by
  intro path hpath
  cases h with
  | items finish hbs =>
    obtain ⟨i, c, q, -, -, rfl⟩ := mem_skippedInItems hpath
    exact List.cons_ne_nil _ _
  | entries hrs hfinish =>
    obtain ⟨e, -, r, hentry, hr⟩ := Schema.exists_of_mem_allSkipped hrs hpath
    obtain ⟨key, -, hkey⟩ := hentry.exists_key
    obtain ⟨q, rfl⟩ := hkey path hr
    exact List.cons_ne_nil _ _

/-- The path to a skipped key always shows something. -/
theorem shown_ne_nil_of_build {σ : Schema} {t : Tree} : ∀ {shape : Shape} {b : Built Instance},
    σ.build t shape = .ok b → ∀ path ∈ b.skipped, KeyPath.shown path ≠ [] := by
  induction t using Tree.induct with
  | tagged tag content ih =>
    intro shape b h
    cases Schema.build_tagged_eq_ok_iff.1 h with
    | scalar hscalar => cases hscalar
    | parts _ hparts => cases hparts
    | bare => exact fun _ hpath => absurd hpath List.not_mem_nil
    | one _ _ hcontent =>
      intro path hpath
      obtain ⟨q, hq, rfl⟩ := List.mem_map.1 hpath
      exact ih hcontent q hq
    | payload _ _ _ hparts => exact fun path hpath => shown_ne_nil_of_readsParts hparts path hpath
    | through _ hcontent => exact ih hcontent
  | _ =>
    intro shape b h
    cases Schema.build_eq_ok_iff.1 h with
    | scalar => exact fun _ hpath => absurd hpath List.not_mem_nil
    | parts _ hparts => exact shown_ne_nil_of_readsParts hparts

theorem shown_ne_nil_of_otherKeyPaths {t : Tree} : ∀ path ∈ t.otherKeyPaths, KeyPath.shown path ≠ [] := by
  intro path hpath
  rw [Tree.otherKeyPaths_eq] at hpath
  obtain ⟨m, hm, rfl⟩ := List.mem_map.1 hpath
  have hkey := (List.mem_filter.1 hm).2
  obtain ⟨way, part⟩ := m
  cases part with
  | key k =>
    rw [Tree.Mark.keyPath, KeyPath.shown_append]
    simp [KeyPath.shown]
  | _ => cases hkey

theorem Skips.shown_ne_nil {paths : List KeyPath} (h : s.Skips shape node paths) :
    ∀ path ∈ paths, KeyPath.shown path ≠ [] := by
  cases h with
  | built hbuilt => exact shown_ne_nil_of_build hbuilt
  | others => exact shown_ne_nil_of_otherKeyPaths
  | again _ _ hbuilt => exact shown_ne_nil_of_build hbuilt

end Surroundings

namespace Decoder

open Surroundings

variable {σ : Schema}

/-- A report of a decode: of a type-tagged node in the document, or of the document as the root type. -/
def Reported (s : Surroundings) (root : Root) (document : Tree) (r : String × List String) : Prop :=
  s.ReportedIn .root document r ∨
    ∃ decl node, root = .type decl ∧ s.BuiltAtRoot document node ∧
      s.ReportsSkipped decl.name decl.shape .root node r

theorem reports_run (d : Decoder) (document : Tree) :
    Traced.Reports (Reported (d.surroundings σ) d.root document) (d.run σ document) := by
  have htyped {found : Descriptor} {content : Tree}
      (h : ((d.surroundings σ).resolveRoot document).outcome = .ok (.typed found content)) :
      Traced.Reports (Reported (d.surroundings σ) d.root document)
        ((d.surroundings σ).buildChecked found.name .root ((d.surroundings σ).build found.decl) content) := by
    obtain ⟨tag, name, raw, rfl, hrole, hd, hcontent⟩ := typed_of_resolveRoot h
    exact (reports_build found.decl content).imp fun r hr =>
      .inl ⟨[], tag, name, raw, found, 1, content, .here, hrole, hd, hcontent, hr⟩
  refine ((reports_resolveRoot document).imp fun r hr => .inl hr).bind fun resolved hresolved => ?_
  cases hroot : d.root with
  | type decl =>
    have hbuild {tree : Tree} (htree : (d.surroundings σ).BuiltAtRoot document tree) :
        Traced.Reports (Reported (d.surroundings σ) (.type decl) document)
          ((d.surroundings σ).buildChecked decl.name .root ((d.surroundings σ).build decl) tree) :=
      (reports_build decl tree).imp fun r hr => .inr ⟨decl, tree, rfl, htree, hr⟩
    rw [hroot] at htyped
    refine Traced.Reports.bind ?_ fun _ _ => Traced.reports_pure _
    cases resolved with
    | plain tree => exact (hbuild (.plain hresolved)).bind fun _ _ => Traced.reports_pure _
    | typed found content =>
      refine (htyped hresolved).bind fun built hbuilt => ?_
      split
      · exact Traced.reports_pure _
      · exact (hbuild (.typed hresolved hbuilt)).bind fun _ _ => Traced.reports_pure _
  | any =>
    rw [hroot] at htyped
    cases resolved with
    | plain tree => exact Traced.reports_pure _
    | typed found content => exact (htyped hresolved).bind fun _ _ => Traced.reports_pure _

theorem reports_decode (d : Decoder) (document : Tree) :
    Traced.Reports (Reported (d.surroundings σ) d.root document) (d.decode σ document) := by
  refine (Traced.reports_note fun _ h => nomatch h).bind fun _ _ => (reports_run d document).bind fun _ _ => ?_
  exact (Traced.reports_note fun _ h => nomatch h).bind fun _ _ => Traced.reports_pure _

/-- **One key, one path, where it joins.**

Whatever a decode reports, in its events or in its failure, are keys that were skipped in a type-tagged node of the
document, or in the document as the root type. The root build writes their paths in one piece. For a node at the end
of a way each path is joined to the text of the way, and this is the text of the whole path from the root exactly if
the two join: always for a node that stands at the root, and else if the whole path does not begin with an empty key
and another key, and the path from the node does not begin with a key whose text is taken for an item.

A node that the root build reads itself, at some path, skips the same keys there: they are reported behind that path,
written in one piece. So that report and the one of the type-tagged node, wherever both stand at the same way, call
the same key by the same text exactly if it joins. -/
theorem decode_reports_paths (σ : Schema) (root : Root) (context : Context) (settings : Settings) (document : Tree) :
    let s : Surroundings := ⟨σ, context, settings⟩
    let decoded := decode ⟨root, context, settings⟩ σ document
    (∀ typeName texts, (typeName, texts) ∈ decoded.reports →
      (∃ decl node paths, root = .type decl ∧ typeName = decl.name ∧ s.BuiltAtRoot document node ∧
        s.Skips decl.shape node paths ∧ texts = paths.map KeyPath.render) ∨
      ∃ way tag name content d depth inner paths, Tree.Stands (.tagged tag content) way document ∧
        TagRole.ofTag tag = .type name ∧ context.resolve name = some d ∧ typeName = d.name ∧
        s.Resolves depth content inner ∧ s.Skips d.decl.shape inner paths ∧
        texts = paths.map fun path => (Place.root.along way).qualify path.render) ∧
    (∀ shape node paths, s.Skips shape node paths → ∀ path ∈ paths, ∀ way,
      (Place.root.along way).qualify path.render = KeyPath.render (way ++ path) ↔ KeyPath.Joins way path) ∧
    (∀ node target tree shape way b c, σ.ReadsAt node target tree shape way → σ.build tree shape = .ok b →
      σ.build node target = .ok c → ∀ path ∈ c.skipped, way ++ path ∈ b.skipped ∧
        ∀ way', KeyPath.shown way' = KeyPath.shown way →
          ((Place.root.along way').qualify path.render = Place.root.qualify (KeyPath.render (way ++ path)) ↔
            KeyPath.Joins way' path)) := by
  intro s decoded
  have hjoins {path : KeyPath} (hshown : path.shown ≠ []) (way : KeyPath) :
      (Place.root.along way).qualify path.render = KeyPath.render (way ++ path) ↔ KeyPath.Joins way path :=
    Place.qualify_along_eq_iff hshown way
  refine ⟨fun typeName texts hr => ?_, fun shape node paths hskips path hpath way => ?_, ?_⟩
  · rcases reports_decode (σ := σ) ⟨root, context, settings⟩ document _ hr with
      ⟨way, tag, name, content, d, depth, inner, hstands, hrole, hd, hinner, paths, hskips, hreport⟩ |
      ⟨decl, node, hroot, hnode, paths, hskips, hreport⟩
    · obtain ⟨rfl, rfl⟩ := Prod.mk.inj hreport
      exact .inr ⟨way, tag, name, content, d, depth, inner, paths, hstands, hrole, hd, rfl, hinner, hskips, rfl⟩
    · obtain ⟨rfl, rfl⟩ := Prod.mk.inj hreport
      exact .inl ⟨decl, node, paths, hroot, rfl, hnode, hskips, rfl⟩
  · exact hjoins (hskips.shown_ne_nil path hpath) way
  · intro node target tree shape way b c hreads hb hc path hpath
    refine ⟨Schema.skipped_of_readsAt hreads hb hc path hpath, fun way' hway => ?_⟩
    have hwhole : KeyPath.render (way ++ path) = KeyPath.render (way' ++ path) := by
      rw [← KeyPath.render_shown, ← KeyPath.render_shown (way' ++ path), KeyPath.shown_append, KeyPath.shown_append,
        hway]
    have hroot (text : String) : Place.root.qualify text = text := rfl
    rw [hroot, hwhole]
    exact hjoins (shown_ne_nil_of_build hc path hpath) way'

/-- A record with a key that no such record has and that begins as an item does. -/
def bracketNode : Tree := .map [(.text "[x", .number (.integer 1))]

/-- Such a record in another one, and its tag. -/
def bracketChild : Tree := .map [(.text "child", .tagged "test.Node" bracketNode)]

/-- With the tag, the point is missing between the two keys. Without it, the root build reads the same record at the
same place as the same type, and writes the point. -/
theorem bracket_key_runs_on :
    let reports (document : Tree) :=
      (decode ⟨.type Samples.node, nodesOnly, ⟨true, 64⟩⟩ Samples.schema document).reports
    Tree.Stands (.tagged "test.Node" bracketNode) [.key "child"] bracketChild ∧
    Samples.schema.ReadsAt bracketNode Samples.node.shape bracketChild.bare Samples.node.shape [.key "child"] ∧
    reports bracketChild = [("test.Node", ["child[x"])] ∧
    reports bracketChild.bare = [("test.Node", ["child.[x"])] ∧
    KeyPath.render [.key "child", .key "[x"] = "child.[x" ∧ reports bracketChild ≠ reports bracketChild.bare := by
  intro reports
  have htagged : reports bracketChild = [("test.Node", ["child[x"])] := by rfl
  have hbare : reports bracketChild.bare = [("test.Node", ["child.[x"])] := by rfl
  refine ⟨.value (k := .text "child") List.mem_cons_self .here, ?_, htagged, hbare, rfl, ?_⟩
  · exact .part (.record "Node") (.value List.mem_cons_self rfl rfl) (.here rfl)
  · rw [htagged, hbare]
    decide

end Decoder

end Provisioning
