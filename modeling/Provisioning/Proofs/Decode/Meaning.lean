import Provisioning.Decode.Decoder
import Provisioning.Proofs.Traced
import Provisioning.Proofs.Tree.OtherKeys

/-!
# What it means that a document decodes without a warning

The traversal looks names up, counts levels, builds tagged nodes from the inside out and treats the root
apart. A run of it that succeeds and warns of nothing says no more than this about a document:

* no node lies deeper than allowed;
* every type tag is known, and what it stands on, without its tags, builds as that type with no key skipped;
* the result is read off the document without its tags.

Nothing in this depends on strictness. So a strict success is a tolerant success without a warning, and
the other way round.
-/

namespace Provisioning

theorem Descriptor.isOf_iff {d : Descriptor} {decl : TypeDecl} : d.isOf decl = true ↔ d.decl = decl := by
  rw [isOf, beq_iff_eq]

/-- The type that the outermost tag of a document names, and what the tag stands on. -/
def Tree.rootType? : Tree → Option (String × Tree)
  | .tagged tag content =>
    match TagRole.ofTag tag with
    | .type name => some (name, content)
    | _ => none
  | _ => none

theorem Tree.eq_of_rootType? {t content : Tree} {name : String} (h : t.rootType? = some (name, content)) :
    ∃ tag, TagRole.ofTag tag = .type name ∧ t = .tagged tag content := by
  cases t with
  | tagged tag inner =>
    cases hrole : TagRole.ofTag tag with
    | type other =>
      simp only [rootType?, hrole, Option.some.injEq, Prod.mk.injEq] at h
      obtain ⟨rfl, rfl⟩ := h
      exact ⟨tag, hrole, rfl⟩
    | core => simp [rootType?, hrole] at h
    | variant => simp [rootType?, hrole] at h
  | _ => simp [rootType?] at h

namespace Context

/-- Every type tag in a tree, map keys included, is known to the context. -/
def KnowsTags (c : Context) (t : Tree) : Prop :=
  ∀ tag content name, .tagged tag content ∈ t.nodes → TagRole.ofTag tag = .type name →
    (c.resolve name).isSome

/-- What a type tag in a tree stands on, without its own tags, builds as the type with no key skipped. -/
def FitsTags (c : Context) (σ : Schema) (t : Tree) : Prop :=
  ∀ tag content name d, .tagged tag content ∈ t.nodes → TagRole.ofTag tag = .type name →
    c.resolve name = some d → ∃ x, σ.build content.bare d.decl.shape = .ok ⟨x, []⟩

end Context

namespace Surroundings

variable {s : Surroundings} {depth : Nat} {place : Place}

/-! ## One step -/

theorem yields_lookUp {name : String} {d : Descriptor} :
    (s.lookUp name place).Yields d ↔ s.context.resolve name = some d := by
  unfold lookUp
  cases s.context.resolve name with
  | none => simp [Traced.Yields]
  | some found => simp [Traced.Yields, Event.warns, Event.line?]

theorem yields_checkDepth {u : Unit} :
    (s.checkDepth depth place).Yields u ↔ depth ≤ s.settings.maxDepth := by
  unfold checkDepth
  split
  · rename_i h
    simpa using h
  · rename_i h
    simpa using h

/-- Keys that were skipped are either a failure or a warning. -/
theorem yields_accept {typeName : String} {node t : Tree} {skipped : List KeyPath} :
    (s.accept typeName place node skipped).Yields t ↔ skipped = [] ∧ t = node := by
  cases skipped with
  | nil => simp [accept]
  | cons path paths =>
    cases hs : s.settings.strict with
    | true => simp [accept, hs]
    | false => simp [accept, hs, Traced.Yields, Event.warns, Event.line?]

/-- The second attempt of a tolerant build warns first, so only the first one can pass quietly. -/
theorem yields_buildChecked {typeName : String} {build : Tree → Except DecodeFailure (Built Instance)}
    {node t : Tree} {x : Instance} :
    (s.buildChecked typeName place build node).Yields (x, t) ↔ build node = .ok ⟨x, []⟩ ∧ t = node := by
  unfold buildChecked
  cases hb : build node with
  | ok built =>
    obtain ⟨value, skipped⟩ := built
    simp only [Traced.yields_bind, yields_accept, Traced.yields_pure, Prod.mk.injEq, Except.ok.injEq,
      Built.mk.injEq]
    refine ⟨fun h => ?_, fun h => ?_⟩
    · obtain ⟨u, ⟨hskip, rfl⟩, rfl, rfl⟩ := h
      exact ⟨⟨rfl, hskip⟩, rfl⟩
    · obtain ⟨⟨rfl, hskip⟩, rfl⟩ := h
      exact ⟨t, ⟨hskip, rfl⟩, rfl, rfl⟩
  | error failure =>
    dsimp only
    split
    · simp [Traced.yields_bind, Event.warns, Event.line?]
    · simp

/-- A type's own wording of its failures does not touch what it builds. -/
theorem build_eq_ok {decl : TypeDecl} {node : Tree} {b : Built Instance} :
    s.build decl node = .ok b ↔ s.schema.build node decl.shape = .ok b := by
  unfold build
  cases s.schema.build node decl.shape <;> simp

theorem yields_buildNested {d : Descriptor} {content t : Tree} :
    (s.buildNested d place content).Yields t ↔
      (∃ x, s.schema.build content d.decl.shape = .ok ⟨x, []⟩) ∧ t = content := by
  have hmap : ∀ x, (s.build d.decl content).mapError (DecodeFailure.nested d.name place) = .ok ⟨x, []⟩ ↔
      s.schema.build content d.decl.shape = .ok ⟨x, []⟩ := by
    intro x
    rw [← build_eq_ok]
    cases s.build d.decl content with
    | ok b => exact ⟨fun h => congrArg _ (Except.ok.inj h), fun h => congrArg _ (Except.ok.inj h)⟩
    | error failure => exact ⟨nofun, nofun⟩
  unfold buildNested
  simp only [Traced.yields_bind, Traced.yields_note, Traced.yields_pure, Prod.exists,
    yields_buildChecked, hmap]
  refine ⟨fun h => ?_, fun h => ?_⟩
  · obtain ⟨_, _, x, u, ⟨hx, rfl⟩, rfl⟩ := h
    exact ⟨⟨x, hx⟩, rfl⟩
  · obtain ⟨⟨x, hx⟩, rfl⟩ := h
    exact ⟨(), rfl, x, t, ⟨hx, rfl⟩, rfl⟩

/-! ## The whole traversal -/

/-- A node that names no type, or one that its content without tags is built as with no key skipped. -/
def Fits (s : Surroundings) (n : Tree) : Prop :=
  ∀ tag content name, n = .tagged tag content → TagRole.ofTag tag = .type name →
    ∃ d x, s.context.resolve name = some d ∧ s.schema.build content.bare d.decl.shape = .ok ⟨x, []⟩

/-- Every node fits the type it names. -/
def Resolvable (s : Surroundings) (t : Tree) : Prop := ∀ n ∈ t.nodes, s.Fits n

/-- Resolvable is known and fitting, asked of all nodes. -/
theorem resolvable_iff {t : Tree} :
    s.Resolvable t ↔ s.context.KnowsTags t ∧ s.context.FitsTags s.schema t := by
  refine ⟨fun h => ⟨fun tag content name hn hrole => ?_, fun tag content name d hn hrole hd => ?_⟩, fun h => ?_⟩
  · obtain ⟨d, x, hd, -⟩ := h _ hn tag content name rfl hrole
    rw [hd]
    rfl
  · obtain ⟨d', x, hd', hx⟩ := h _ hn tag content name rfl hrole
    obtain rfl := Option.some.inj (hd.symm.trans hd')
    exact ⟨x, hx⟩
  · intro n hn tag content name heq hrole
    obtain ⟨hknown, hfit⟩ := h
    subst heq
    obtain ⟨d, hd⟩ := Option.isSome_iff_exists.1 (hknown tag content name hn hrole)
    obtain ⟨x, hx⟩ := hfit tag content name d hn hrole hd
    exact ⟨d, x, hd, hx⟩

theorem resolvable_list {items : List Tree} :
    s.Resolvable (.list items) ↔ ∀ t ∈ items, s.Resolvable t := by
  unfold Resolvable
  rw [Tree.forall_nodes_list]
  simp [Fits]

theorem resolvable_map {entries : List (Tree × Tree)} :
    s.Resolvable (.map entries) ↔ ∀ e ∈ entries, s.Resolvable e.1 ∧ s.Resolvable e.2 := by
  unfold Resolvable
  rw [Tree.forall_nodes_map]
  simp [Fits]

theorem resolvable_tagged {tag : String} {content : Tree} :
    s.Resolvable (.tagged tag content) ↔ s.Fits (.tagged tag content) ∧ s.Resolvable content :=
  Tree.forall_nodes_tagged

theorem fits_tagged_of_type {tag name : String} {content : Tree} (h : TagRole.ofTag tag = .type name) :
    s.Fits (.tagged tag content) ↔ ∃ d x, s.context.resolve name = some d ∧
      s.schema.build content.bare d.decl.shape = .ok ⟨x, []⟩ := by
  refine ⟨fun hf => ?_, fun hx tag' content' name' heq hname => ?_⟩
  · exact hf tag content name rfl h
  · obtain ⟨rfl, rfl⟩ := Tree.tagged.inj heq
    rw [h] at hname
    exact TagRole.type.inj hname ▸ hx

theorem fits_tagged_of_ne_type {tag : String} {content : Tree}
    (h : ∀ name, TagRole.ofTag tag ≠ .type name) : s.Fits (.tagged tag content) := by
  intro tag' content' name heq hname
  obtain ⟨rfl, rfl⟩ := Tree.tagged.inj heq
  exact absurd hname (h name)

/-- The traversal of a node passes quietly exactly if nothing lies too deep and every tag fits, and it gives
the node without its tags. -/
def ReadsBare (s : Surroundings) (t : Tree) : Prop :=
  ∀ depth place u, (s.resolveNode depth place t).Yields u ↔
    depth + t.depth ≤ s.settings.maxDepth ∧ s.Resolvable t ∧ u = t.bare

theorem yields_resolveItems {items : List Tree} (ih : ∀ t ∈ items, s.ReadsBare t) :
    ∀ (position : Nat) (us : List Tree), (s.resolveItems depth place position items).Yields us ↔
      (∀ t ∈ items, depth + t.depth ≤ s.settings.maxDepth ∧ s.Resolvable t) ∧ us = items.map Tree.bare := by
  induction items with
  | nil =>
    intro position us
    simp [resolveItems]
  | cons t ts ihts =>
    intro position us
    have ht := ih t List.mem_cons_self
    have hts := ihts fun u hu => ih u (List.mem_cons_of_mem _ hu)
    simp only [resolveItems, Traced.yields_bind, Traced.yields_pure, ht _ _ _, hts, List.forall_mem_cons,
      List.map_cons]
    refine ⟨fun h => ?_, fun h => ?_⟩
    · obtain ⟨_, ⟨hd, hr, rfl⟩, _, ⟨hall, rfl⟩, rfl⟩ := h
      exact ⟨⟨⟨hd, hr⟩, hall⟩, rfl⟩
    · obtain ⟨⟨⟨hd, hr⟩, hall⟩, rfl⟩ := h
      exact ⟨_, ⟨hd, hr, rfl⟩, _, ⟨hall, rfl⟩, rfl⟩

theorem yields_resolveEntries {entries : List (Tree × Tree)}
    (ih : ∀ e ∈ entries, s.ReadsBare e.1 ∧ s.ReadsBare e.2) :
    ∀ done es : List (Tree × Tree), (s.resolveEntries depth place done entries).Yields es ↔
      (∀ e ∈ entries, (depth + e.1.depth ≤ s.settings.maxDepth ∧ s.Resolvable e.1) ∧
        depth + e.2.depth ≤ s.settings.maxDepth ∧ s.Resolvable e.2) ∧
      es = (Tree.entriesBare entries).foldl (fun es e => Tree.insert e.1 e.2 es) done := by
  induction entries with
  | nil =>
    intro done es
    simp [resolveEntries, Tree.entriesBare]
  | cons e rest ihrest =>
    intro done es
    obtain ⟨k, v⟩ := e
    obtain ⟨hk, hv⟩ := ih (k, v) List.mem_cons_self
    have hrest := ihrest fun e he => ih e (List.mem_cons_of_mem _ he)
    simp only [resolveEntries, Traced.yields_bind, hk _ _ _, hv _ _ _, hrest, List.forall_mem_cons,
      Tree.entriesBare, List.foldl_cons]
    refine ⟨fun h => ?_, fun h => ?_⟩
    · obtain ⟨_, ⟨hdk, hrk, rfl⟩, _, ⟨hdv, hrv, rfl⟩, hall, rfl⟩ := h
      exact ⟨⟨⟨⟨hdk, hrk⟩, hdv, hrv⟩, hall⟩, rfl⟩
    · obtain ⟨⟨⟨⟨hdk, hrk⟩, hdv, hrv⟩, hall⟩, rfl⟩ := h
      exact ⟨_, ⟨hdk, hrk, rfl⟩, _, ⟨hdv, hrv, rfl⟩, hall, rfl⟩

theorem readsBare_list {items : List Tree} (ih : ∀ t ∈ items, s.ReadsBare t) :
    s.ReadsBare (.list items) := by
  intro depth place u
  simp only [Surroundings.resolveNode, Traced.yields_bind, yields_checkDepth, yields_resolveItems ih,
    Traced.yields_pure, resolvable_list, Tree.bare, Tree.itemsBare_eq, Tree.depth]
  refine ⟨fun h => ?_, fun h => ?_⟩
  · obtain ⟨_, hd, _, ⟨hall, rfl⟩, rfl⟩ := h
    refine ⟨?_, fun t ht => (hall t ht).2, rfl⟩
    have hmax : Tree.itemsDepth items ≤ s.settings.maxDepth - depth := by
      rw [Tree.itemsDepth_le_iff]
      intro t ht
      have := (hall t ht).1
      omega
    omega
  · obtain ⟨hd, hr, rfl⟩ := h
    refine ⟨(), by omega, _, ⟨fun t ht => ⟨?_, hr t ht⟩, rfl⟩, rfl⟩
    have := Tree.itemsDepth_le_iff.1 (Nat.le_refl _) t ht
    omega

theorem readsBare_map {entries : List (Tree × Tree)}
    (ih : ∀ e ∈ entries, s.ReadsBare e.1 ∧ s.ReadsBare e.2) : s.ReadsBare (.map entries) := by
  intro depth place u
  simp only [Surroundings.resolveNode, Traced.yields_bind, yields_checkDepth, yields_resolveEntries ih,
    Traced.yields_pure, resolvable_map, Tree.bare, Tree.ofEntries, Tree.depth]
  refine ⟨fun h => ?_, fun h => ?_⟩
  · obtain ⟨_, hd, _, ⟨hall, rfl⟩, rfl⟩ := h
    refine ⟨?_, fun e he => ⟨(hall e he).1.2, (hall e he).2.2⟩, rfl⟩
    have hmax : Tree.entriesDepth entries ≤ s.settings.maxDepth - depth := by
      rw [Tree.entriesDepth_le_iff]
      intro e he
      have hk := (hall e he).1.1
      have hv := (hall e he).2.1
      omega
    omega
  · obtain ⟨hd, hr, rfl⟩ := h
    refine ⟨(), by omega, _, ⟨fun e he => ?_, rfl⟩, rfl⟩
    have := Tree.entriesDepth_le_iff.1 (Nat.le_refl _) e he
    exact ⟨⟨by omega, (hr e he).1⟩, by omega, (hr e he).2⟩

theorem readsBare_tagged {tag : String} {content : Tree} (ih : s.ReadsBare content) :
    s.ReadsBare (.tagged tag content) := by
  intro depth place u
  rw [resolvable_tagged]
  simp only [Surroundings.resolveNode, Traced.yields_bind, yields_checkDepth, Tree.bare, Tree.depth]
  cases hrole : TagRole.ofTag tag with
  | core =>
    have hfits : s.Fits (.tagged tag content) := fits_tagged_of_ne_type (by simp [hrole])
    simp only [ih _ _ _, hfits, true_and]
    refine ⟨fun h => ?_, fun h => ?_⟩
    · obtain ⟨_, -, hd, hr, rfl⟩ := h
      exact ⟨by omega, hr, rfl⟩
    · obtain ⟨hd, hr, rfl⟩ := h
      exact ⟨(), by omega, by omega, hr, rfl⟩
  | variant =>
    have hfits : s.Fits (.tagged tag content) := fits_tagged_of_ne_type (by simp [hrole])
    simp only [Traced.yields_bind, Traced.yields_pure, ih _ _ _, hfits, true_and]
    refine ⟨fun h => ?_, fun h => ?_⟩
    · obtain ⟨_, -, _, ⟨hd, hr, rfl⟩, rfl⟩ := h
      exact ⟨by omega, hr, rfl⟩
    · obtain ⟨hd, hr, rfl⟩ := h
      exact ⟨(), by omega, _, ⟨by omega, hr, rfl⟩, rfl⟩
  | type name =>
    -- the node is built from what is left of its content, which is the content without its tags
    simp only [Traced.yields_bind, yields_lookUp, yields_buildNested, ih _ _ _, fits_tagged_of_type hrole]
    refine ⟨fun h => ?_, fun h => ?_⟩
    · obtain ⟨_, -, d, hres, _, ⟨hd, hr, rfl⟩, ⟨x, hx⟩, rfl⟩ := h
      exact ⟨by omega, ⟨⟨d, x, hres, hx⟩, hr⟩, rfl⟩
    · obtain ⟨hd, ⟨⟨d, x, hres, hx⟩, hr⟩, rfl⟩ := h
      exact ⟨(), by omega, d, hres, _, ⟨by omega, hr, rfl⟩, ⟨x, hx⟩, rfl⟩

/-- **The quiet traversal of any node, at any depth and place.** -/
theorem readsBare (t : Tree) : s.ReadsBare t := by
  induction t using Tree.induct with
  | null | flag | number | text =>
    intro depth place u
    simp [Surroundings.resolveNode, Traced.yields_bind, yields_checkDepth, Tree.depth, Tree.bare,
      Resolvable, Tree.nodes, Fits]
  | list items ih => exact readsBare_list ih
  | map entries ih => exact readsBare_map ih
  | tagged tag content ih => exact readsBare_tagged ih

/-! ## The root -/

/-- The level of the root is allowed whatever the limit is, so a root that names no type is resolved like any node. -/
theorem resolveRoot_of_none {document : Tree} (h : document.rootType? = none) :
    s.resolveRoot document = s.resolveNode 0 .root document >>= fun tree => pure (.plain tree) := by
  have hdepth : s.checkDepth 0 .root = pure () := if_neg (Nat.not_lt_zero _)
  cases document with
  | tagged tag content =>
    rw [resolveNode, hdepth, resolveRoot]
    cases hrole : TagRole.ofTag tag with
    | core => rfl
    | variant =>
      have hgroup := Traced.bind_bind (s.resolveNode 1 .root content) (fun inner => pure (Tree.tagged tag inner))
        fun tree => pure (ResolvedRoot.plain tree)
      exact hgroup.symm
    | type name => simp [Tree.rootType?, hrole] at h
  | _ => rfl

/-- A root that names a type is looked up; the rest of the document is resolved like any node, but the root
itself is not built yet. -/
theorem resolveRoot_of_type {document content : Tree} {name : String}
    (h : document.rootType? = some (name, content)) :
    s.resolveRoot document = s.lookUp name .root >>= fun d =>
      s.resolveNode 1 .root content >>= fun content => pure (.typed d content) := by
  obtain ⟨tag, hrole, rfl⟩ := Tree.eq_of_rootType? h
  rw [resolveRoot, hrole]

theorem yields_resolveRoot_of_type {document content : Tree} {name : String} {r : ResolvedRoot}
    (h : document.rootType? = some (name, content)) :
    (s.resolveRoot document).Yields r ↔
      document.depth ≤ s.settings.maxDepth ∧ s.Resolvable content ∧
        ∃ d, s.context.resolve name = some d ∧ r = .typed d content.bare := by
  rw [resolveRoot_of_type h]
  obtain ⟨tag, -, rfl⟩ := Tree.eq_of_rootType? h
  simp only [Traced.yields_bind, Traced.yields_pure, yields_lookUp, readsBare content _ _ _, Tree.depth]
  refine ⟨fun hy => ?_, fun hy => ?_⟩
  · obtain ⟨d, hd, _, ⟨hdepth, hr, rfl⟩, rfl⟩ := hy
    exact ⟨by omega, hr, d, hd, rfl⟩
  · obtain ⟨hdepth, hr, d, hd, rfl⟩ := hy
    exact ⟨d, hd, _, ⟨by omega, hr, rfl⟩, rfl⟩

theorem yields_resolveRoot_of_none {document : Tree} {r : ResolvedRoot} (h : document.rootType? = none) :
    (s.resolveRoot document).Yields r ↔
      document.depth ≤ s.settings.maxDepth ∧ s.Resolvable document ∧ r = .plain document.bare := by
  rw [resolveRoot_of_none h]
  simp only [Traced.yields_bind, Traced.yields_pure, readsBare document _ _ _, Nat.zero_add]
  refine ⟨fun hy => ?_, fun hy => ?_⟩
  · obtain ⟨_, ⟨hdepth, hr, rfl⟩, rfl⟩ := hy
    exact ⟨hdepth, hr, rfl⟩
  · obtain ⟨hdepth, hr, rfl⟩ := hy
    exact ⟨_, ⟨hdepth, hr, rfl⟩, rfl⟩

end Surroundings

namespace Decoder

variable {σ : Schema} {context : Context} {settings : Settings} {document : Tree}

theorem yields_buildChecked_build {s : Surroundings} {typeName : String} {place : Place} {decl : TypeDecl}
    {node t : Tree} {x : Instance} :
    (s.buildChecked typeName place (s.build decl) node).Yields (x, t) ↔
      s.schema.build node decl.shape = .ok ⟨x, []⟩ ∧ t = node := by
  rw [Surroundings.yields_buildChecked, Surroundings.build_eq_ok]

/-- The two attempts at a root that names a type agree if the type is the root type. -/
theorem yields_finishTyped_typed {s : Surroundings} {decl : TypeDecl} {d : Descriptor} {content : Tree}
    {x : Instance} :
    (finishTyped s decl (.typed d content)).Yields x ↔
      (∃ y, s.schema.build content d.decl.shape = .ok ⟨y, []⟩) ∧
        s.schema.build content decl.shape = .ok ⟨x, []⟩ := by
  unfold finishTyped
  simp only [Traced.yields_bind, Prod.exists, yields_buildChecked_build]
  cases hof : d.isOf decl with
  | true =>
    simp only [if_true, Traced.yields_pure, Descriptor.isOf_iff.1 hof]
    refine ⟨fun h => ?_, fun h => ?_⟩
    · obtain ⟨y, _, ⟨hy, rfl⟩, rfl⟩ := h
      exact ⟨⟨x, hy⟩, hy⟩
    · obtain ⟨-, hx⟩ := h
      exact ⟨x, content, ⟨hx, rfl⟩, rfl⟩
  | false =>
    simp only [Bool.false_eq_true, if_false, Traced.yields_bind, Prod.exists, yields_buildChecked_build,
      Traced.yields_pure]
    refine ⟨fun h => ?_, fun h => ?_⟩
    · obtain ⟨y, _, ⟨hy, rfl⟩, _, _, ⟨hx, -⟩, rfl⟩ := h
      exact ⟨⟨y, hy⟩, hx⟩
    · obtain ⟨⟨y, hy⟩, hx⟩ := h
      exact ⟨y, content, ⟨hy, rfl⟩, x, content, ⟨hx, rfl⟩, rfl⟩

theorem yields_finishTyped_plain {s : Surroundings} {decl : TypeDecl} {tree : Tree} {x : Instance} :
    (finishTyped s decl (.plain tree)).Yields x ↔ s.schema.build tree decl.shape = .ok ⟨x, []⟩ := by
  simp [finishTyped, Traced.yields_bind, yields_buildChecked_build]

theorem bare_of_rootType? {content : Tree} {name : String} (h : document.rootType? = some (name, content)) :
    document.bare = content.bare := by
  obtain ⟨tag, hrole, rfl⟩ := Tree.eq_of_rootType? h
  simp [Tree.bare, hrole]

theorem resolvable_of_rootType? {s : Surroundings} {content : Tree} {name : String}
    (h : document.rootType? = some (name, content)) :
    s.Resolvable document ↔ s.Resolvable content ∧ ∃ d y, s.context.resolve name = some d ∧
      s.schema.build content.bare d.decl.shape = .ok ⟨y, []⟩ := by
  obtain ⟨tag, hrole, rfl⟩ := Tree.eq_of_rootType? h
  rw [Surroundings.resolvable_tagged, Surroundings.fits_tagged_of_type hrole, and_comm]

/-- **The meaning of a quiet decode as a type.** -/
theorem yields_run_type {decl : TypeDecl} {r : Decoded} :
    (run ⟨.type decl, context, settings⟩ σ document).Yields r ↔
      document.depth ≤ settings.maxDepth ∧ Surroundings.Resolvable ⟨σ, context, settings⟩ document ∧
        ∃ x, σ.build document.bare decl.shape = .ok ⟨x, []⟩ ∧ r = .built x := by
  simp only [run, surroundings, Traced.yields_bind, Traced.yields_pure]
  cases hroot : document.rootType? with
  | none =>
    simp only [Surroundings.yields_resolveRoot_of_none hroot]
    refine ⟨fun h => ?_, fun h => ?_⟩
    · obtain ⟨_, ⟨hdepth, hr, rfl⟩, x, hx, rfl⟩ := h
      exact ⟨hdepth, hr, x, yields_finishTyped_plain.1 hx, rfl⟩
    · obtain ⟨hdepth, hr, x, hx, rfl⟩ := h
      exact ⟨_, ⟨hdepth, hr, rfl⟩, x, yields_finishTyped_plain.2 hx, rfl⟩
  | some root =>
    obtain ⟨name, content⟩ := root
    rw [bare_of_rootType? hroot, resolvable_of_rootType? hroot]
    simp only [Surroundings.yields_resolveRoot_of_type hroot]
    refine ⟨fun h => ?_, fun h => ?_⟩
    · obtain ⟨_, ⟨hdepth, hr, d, hd, rfl⟩, x, hx, rfl⟩ := h
      obtain ⟨⟨y, hy⟩, hx⟩ := yields_finishTyped_typed.1 hx
      exact ⟨hdepth, ⟨hr, d, y, hd, hy⟩, x, hx, rfl⟩
    · obtain ⟨hdepth, ⟨hr, d, y, hd, hy⟩, x, hx, rfl⟩ := h
      exact ⟨_, ⟨hdepth, hr, d, hd, rfl⟩, x, yields_finishTyped_typed.2 ⟨⟨y, hy⟩, hx⟩, rfl⟩

/-- What a document of root any is decoded to: an instance of the type that its outermost tag names, or
the document without its tags. -/
def MeansAny (s : Surroundings) (document : Tree) (r : Decoded) : Prop :=
  match document.rootType? with
  | some (name, content) => ∃ d x, s.context.resolve name = some d ∧
      s.schema.build content.bare d.decl.shape = .ok ⟨x, []⟩ ∧ r = .typed d x
  | none => r = .untyped document.bare

/-- **The meaning of a quiet decode of root any.** -/
theorem yields_run_any {r : Decoded} :
    (run ⟨.any, context, settings⟩ σ document).Yields r ↔
      document.depth ≤ settings.maxDepth ∧ Surroundings.Resolvable ⟨σ, context, settings⟩ document ∧
        MeansAny ⟨σ, context, settings⟩ document r := by
  simp only [run, surroundings, Traced.yields_bind]
  cases hroot : document.rootType? with
  | none =>
    simp only [Surroundings.yields_resolveRoot_of_none hroot, MeansAny, hroot]
    refine ⟨fun h => ?_, fun h => ?_⟩
    · obtain ⟨_, ⟨hdepth, hr, rfl⟩, hx⟩ := h
      exact ⟨hdepth, hr, Traced.yields_pure.1 hx⟩
    · obtain ⟨hdepth, hr, rfl⟩ := h
      exact ⟨_, ⟨hdepth, hr, rfl⟩, Traced.yields_pure.2 rfl⟩
  | some root =>
    obtain ⟨name, content⟩ := root
    simp only [Surroundings.yields_resolveRoot_of_type hroot, resolvable_of_rootType? hroot, MeansAny,
      hroot]
    refine ⟨fun h => ?_, fun h => ?_⟩
    · obtain ⟨_, ⟨hdepth, hr, d, hd, rfl⟩, hx⟩ := h
      simp only [finishAny, Traced.yields_bind, Prod.exists, yields_buildChecked_build,
        Traced.yields_pure] at hx
      obtain ⟨x, _, ⟨hx, -⟩, rfl⟩ := hx
      exact ⟨hdepth, ⟨hr, d, x, hd, hx⟩, d, x, hd, hx, rfl⟩
    · obtain ⟨hdepth, ⟨hr, -⟩, d, x, hd, hx, rfl⟩ := h
      refine ⟨_, ⟨hdepth, hr, d, hd, rfl⟩, ?_⟩
      simp only [finishAny, Traced.yields_bind, Prod.exists, yields_buildChecked_build,
        Traced.yields_pure]
      exact ⟨x, content.bare, ⟨hx, rfl⟩, rfl⟩

end Decoder

end Provisioning
