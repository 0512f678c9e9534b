import Mathlib.Data.List.Forall2
import Provisioning.Proofs.Decode.Strictness
import Provisioning.Proofs.Schema.Reading

/-!
# What a decode comes to

Where a node stands is told in messages, and nothing else depends on it. So what a traversal leaves of a node is a
relation of the node, the depth and the settings alone (`Surroundings.Resolves`), and so is whether a node passes
its build (`Surroundings.Passes`). One equation a constructor says what either can be; the results of a decode are
made of them, and no later proof steps through a traversal again.
-/

namespace Provisioning

namespace Surroundings

variable {s : Surroundings} {depth : Nat} {place : Place} {typeName : String} {node t u : Tree} {x : Instance}

/-! ## Checked builds -/

/-- What strictness leaves of a node whose build skipped some keys. -/
def Accepts (s : Surroundings) (node : Tree) (skipped : List KeyPath) (rest : Tree) : Prop :=
  (skipped = [] ∨ s.settings.strict = false) ∧ rest = skipped.foldl (fun t path => t.remove path) node

/-- A node is built as a shape, at the first attempt or, if that fails, without the keys that are not text, and
strictness leaves the rest of it. -/
inductive Passes (s : Surroundings) (shape : Shape) (node : Tree) : Instance → Tree → Prop
  | first {b : Built Instance} {rest : Tree} : s.schema.build node shape = .ok b →
      s.Accepts node b.skipped rest → Passes s shape node b.value rest
  | second {b : Built Instance} {reason : Mismatch} {rest : Tree} : s.schema.build node shape = .error reason →
      s.settings.strict = false → node.hasOtherKeys = true → s.schema.build node.withTextKeys shape = .ok b →
      s.Accepts node.withTextKeys b.skipped rest → Passes s shape node b.value rest

/-- At whichever attempt a node passed, there is a build of it, and the rest is what strictness has left of that. -/
theorem Passes.exists_build {shape : Shape} {rest : Tree} (h : s.Passes shape node x rest) :
    ∃ t b, s.schema.build t shape = .ok b ∧ b.value = x ∧ s.Accepts t b.skipped rest := by
  cases h with
  | first hbuild haccepts => exact ⟨node, _, hbuild, rfl, haccepts⟩
  | second _ _ _ hbuild haccepts => exact ⟨node.withTextKeys, _, hbuild, rfl, haccepts⟩

/-- A node that can be built passes as nothing else. -/
theorem Passes.eq_of_build {shape : Shape} {rest : Tree} {b : Built Instance} (h : s.Passes shape node x rest)
    (hbuild : s.schema.build node shape = .ok b) : x = b.value := by
  cases h with
  | first hbuild' =>
    obtain rfl := Except.ok.inj (hbuild.symm.trans hbuild')
    rfl
  | second herror => exact nomatch hbuild.symm.trans herror

theorem accept_eq_ok {skipped : List KeyPath} :
    (s.accept typeName place node skipped).outcome = .ok t ↔ s.Accepts node skipped t := by
  unfold accept Accepts
  cases skipped with
  | nil =>
    simp [Traced.outcome_pure_eq_ok]
  | cons path paths =>
    cases s.settings.strict with
    | true => simp [Traced.fail]
    | false => simp [eq_comm]

/-- What a checked build comes to, whatever builds the node. -/
theorem buildChecked_eq_ok_iff {build : Tree → Except DecodeFailure (Built Instance)} :
    (s.buildChecked typeName place build node).outcome = .ok (x, t) ↔
      (∃ b, build node = .ok b ∧ x = b.value ∧ s.Accepts node b.skipped t) ∨
      ∃ failure b, build node = .error failure ∧ s.settings.strict = false ∧ node.hasOtherKeys = true ∧
        build node.withTextKeys = .ok b ∧ x = b.value ∧ s.Accepts node.withTextKeys b.skipped t := by
  unfold buildChecked
  cases build node with
  | ok b =>
    simp only [Traced.outcome_bind_eq_ok, accept_eq_ok, Traced.outcome_pure_eq_ok, Prod.mk.injEq]
    refine ⟨fun h => ?_, fun h => ?_⟩
    · obtain ⟨rest, hrest, rfl, rfl⟩ := h
      exact .inl ⟨b, rfl, rfl, hrest⟩
    · obtain ⟨b', hb, rfl, hrest⟩ | ⟨_, _, hfailure, -⟩ := h
      · obtain rfl := Except.ok.inj hb
        exact ⟨t, hrest, rfl, rfl⟩
      · cases hfailure
  | error failure =>
    dsimp only
    -- a build that failed is tried once more only if it is tolerant and there are keys to drop
    split
    · rename_i htry
      rw [Bool.and_eq_true, Bool.not_eq_true'] at htry
      simp only [Traced.outcome_bind_eq_ok, accept_eq_ok, Traced.outcome_pure_eq_ok, Prod.mk.injEq]
      refine ⟨fun h => ?_, fun h => ?_⟩
      · obtain ⟨_, _, b, hb, rest, hrest, rfl, rfl⟩ := h
        exact .inr ⟨failure, b, rfl, htry.1, htry.2, hb, rfl, hrest⟩
      · obtain ⟨_, hb, -⟩ | ⟨_, b, -, -, -, hb, rfl, hrest⟩ := h
        · cases hb
        · exact ⟨(), rfl, b, hb, t, hrest, rfl, rfl⟩
    · rename_i htry
      refine ⟨nofun, fun h => ?_⟩
      obtain ⟨_, hb, -⟩ | ⟨_, _, -, hstrict, hkeys, -⟩ := h
      · cases hb
      · rw [hstrict, hkeys] at htry
        exact absurd rfl htry

/-- Whatever a build says when it fails, a checked build depends on what it builds only. -/
theorem buildChecked_eq_ok {shape : Shape} {build : Tree → Except DecodeFailure (Built Instance)}
    (hbuild : ∀ node b, build node = .ok b ↔ s.schema.build node shape = .ok b) :
    (s.buildChecked typeName place build node).outcome = .ok (x, t) ↔ s.Passes shape node x t := by
  rw [buildChecked_eq_ok_iff]
  refine ⟨fun h => ?_, fun h => ?_⟩
  · obtain ⟨b, hb, rfl, hrest⟩ | ⟨failure, b, hfailure, hstrict, hkeys, hb, rfl, hrest⟩ := h
    · exact .first ((hbuild node b).1 hb) hrest
    · cases hschema : s.schema.build node shape with
      | ok b' => exact nomatch hfailure.symm.trans ((hbuild node b').2 hschema)
      | error reason => exact .second hschema hstrict hkeys ((hbuild _ b).1 hb) hrest
  · cases h with
    | first hb hrest => exact .inl ⟨_, (hbuild node _).2 hb, rfl, hrest⟩
    | @second b reason _ hreason hstrict hkeys hb hrest =>
      cases hfailure : build node with
      | ok b' => exact nomatch hreason.symm.trans ((hbuild node b').1 hfailure)
      | error failure => exact .inr ⟨failure, b, rfl, hstrict, hkeys, (hbuild _ b).2 hb, rfl, hrest⟩

theorem buildChecked_build_eq_ok {decl : TypeDecl} :
    (s.buildChecked typeName place (s.build decl) node).outcome = .ok (x, t) ↔ s.Passes decl.shape node x t :=
  buildChecked_eq_ok fun _ _ => build_eq_ok

theorem mapError_build_eq_ok {decl : TypeDecl} {f : DecodeFailure → DecodeFailure} {b : Built Instance} :
    (s.build decl node).mapError f = .ok b ↔ s.schema.build node decl.shape = .ok b := by
  rw [← build_eq_ok]
  cases s.build decl node with
  | ok b' => exact Iff.rfl
  | error failure => exact ⟨nofun, nofun⟩

theorem buildNested_eq_ok {d : Descriptor} :
    (s.buildNested d place node).outcome = .ok t ↔ ∃ x, s.Passes d.decl.shape node x t := by
  unfold buildNested
  simp only [Traced.outcome_bind_eq_ok, Traced.outcome_pure_eq_ok, Prod.exists,
    buildChecked_eq_ok fun _ _ => mapError_build_eq_ok]
  refine ⟨fun h => ?_, fun h => ?_⟩
  · obtain ⟨_, -, x, rest, hpasses, rfl⟩ := h
    exact ⟨x, hpasses⟩
  · obtain ⟨x, hpasses⟩ := h
    exact ⟨(), rfl, x, t, hpasses, rfl⟩

/-! ## The traversal -/

theorem lookUp_eq_ok {name : String} {d : Descriptor} :
    (s.lookUp name place).outcome = .ok d ↔ s.context.resolve name = some d := by
  unfold lookUp
  cases s.context.resolve name with
  | none => exact ⟨nofun, nofun⟩
  | some found => exact ⟨fun h => congrArg some (Except.ok.inj h), fun h => congrArg Except.ok (Option.some.inj h)⟩

theorem checkDepth_eq_ok {a : Unit} : (s.checkDepth depth place).outcome = .ok a ↔ depth ≤ s.settings.maxDepth := by
  unfold checkDepth
  split
  · rename_i hdeep
    exact ⟨nofun, fun h => absurd hdeep (Nat.not_lt.2 h)⟩
  · rename_i hdeep
    exact ⟨fun _ => Nat.not_lt.1 hdeep, fun _ => rfl⟩

/-- Resolving the tags of a node at a depth leaves a tree. -/
def Resolves (s : Surroundings) (depth : Nat) (t u : Tree) : Prop := (s.resolveNode depth .root t).outcome = .ok u

/-- The same for an entry. -/
def ResolvesEntry (s : Surroundings) (depth : Nat) (e f : Tree × Tree) : Prop :=
  s.Resolves depth e.1 f.1 ∧ s.Resolves depth e.2 f.2

/-- It does not matter where a node stands. -/
def Placeless (s : Surroundings) (t : Tree) : Prop :=
  ∀ depth place u, (s.resolveNode depth place t).outcome = .ok u ↔ s.Resolves depth t u

theorem resolveItems_eq_ok {items : List Tree} (h : ∀ t ∈ items, s.Placeless t) :
    ∀ position us, (s.resolveItems depth place position items).outcome = .ok us ↔
      List.Forall₂ (s.Resolves depth) items us := by
  induction items with
  | nil =>
    intro position us
    rw [resolveItems, Traced.outcome_pure_eq_ok, List.forall₂_nil_left_iff]
  | cons t ts ih =>
    intro position us
    obtain ⟨ht, hts⟩ := List.forall_mem_cons.1 h
    simp only [resolveItems, Traced.outcome_bind_eq_ok, Traced.outcome_pure_eq_ok, ht _ _ _, ih hts,
      List.forall₂_cons_left_iff]
    refine ⟨fun h => ?_, fun h => ?_⟩
    · obtain ⟨first, hfirst, rest, hrest, rfl⟩ := h
      exact ⟨first, rest, hfirst, hrest, rfl⟩
    · obtain ⟨first, rest, hfirst, hrest, rfl⟩ := h
      exact ⟨first, hfirst, rest, hrest, rfl⟩

/-- The entries are resolved one by one, and set behind those already done. -/
theorem resolveEntries_eq_ok {entries : List (Tree × Tree)}
    (h : ∀ e ∈ entries, s.Placeless e.1 ∧ s.Placeless e.2) :
    ∀ done rs, (s.resolveEntries depth place done entries).outcome = .ok rs ↔
      ∃ es, List.Forall₂ (s.ResolvesEntry depth) entries es ∧
        rs = es.foldl (fun es e => Tree.insert e.1 e.2 es) done := by
  induction entries with
  | nil =>
    intro done rs
    simp only [resolveEntries, Traced.outcome_pure_eq_ok, List.forall₂_nil_left_iff, exists_eq_left, List.foldl_nil]
  | cons e rest ih =>
    intro done rs
    obtain ⟨k, v⟩ := e
    obtain ⟨⟨hk, hv⟩, hrest⟩ := List.forall_mem_cons.1 h
    simp only [resolveEntries, Traced.outcome_bind_eq_ok, hk _ _ _, hv _ _ _, ih hrest, List.forall₂_cons_left_iff]
    refine ⟨fun h => ?_, fun h => ?_⟩
    · obtain ⟨key, hkey, value, hvalue, es, hes, rfl⟩ := h
      exact ⟨(key, value) :: es, ⟨(key, value), es, ⟨hkey, hvalue⟩, hes, rfl⟩, rfl⟩
    · obtain ⟨_, ⟨⟨key, value⟩, es, ⟨hkey, hvalue⟩, hes, rfl⟩, rfl⟩ := h
      exact ⟨key, hkey, value, hvalue, es, hes, rfl⟩

theorem resolveNode_list_eq_ok {items : List Tree} (h : ∀ t ∈ items, s.Placeless t) :
    (s.resolveNode depth place (.list items)).outcome = .ok u ↔ depth ≤ s.settings.maxDepth ∧
      ∃ us, List.Forall₂ (s.Resolves (depth + 1)) items us ∧ u = .list us := by
  simp only [resolveNode, Traced.outcome_bind_eq_ok, checkDepth_eq_ok, resolveItems_eq_ok h,
    Traced.outcome_pure_eq_ok, exists_and_left, exists_const]

theorem resolveNode_map_eq_ok {entries : List (Tree × Tree)}
    (h : ∀ e ∈ entries, s.Placeless e.1 ∧ s.Placeless e.2) :
    (s.resolveNode depth place (.map entries)).outcome = .ok u ↔ depth ≤ s.settings.maxDepth ∧
      ∃ es, List.Forall₂ (s.ResolvesEntry (depth + 1)) entries es ∧ u = Tree.ofEntries es := by
  simp only [resolveNode, Traced.outcome_bind_eq_ok, checkDepth_eq_ok, resolveEntries_eq_ok h,
    Traced.outcome_pure_eq_ok, exists_and_left, exists_const, Tree.ofEntries]
  refine and_congr_right fun _ => ⟨fun h => ?_, fun h => ?_⟩
  · obtain ⟨_, ⟨es, hes, rfl⟩, rfl⟩ := h
    exact ⟨es, hes, rfl⟩
  · obtain ⟨es, hes, rfl⟩ := h
    exact ⟨_, ⟨es, hes, rfl⟩, rfl⟩

/-- What a tag leaves of its content: a variant stays around it, and a type is built of it. -/
def ResolvesTagged (s : Surroundings) (tag : String) (content u : Tree) : Prop :=
  match TagRole.ofTag tag with
  | .core => u = content
  | .variant => u = .tagged tag content
  | .type name => ∃ d x, s.context.resolve name = some d ∧ s.Passes d.decl.shape content x u

theorem resolveNode_tagged_eq_ok {tag : String} {content : Tree} (h : s.Placeless content) :
    (s.resolveNode depth place (.tagged tag content)).outcome = .ok u ↔ depth ≤ s.settings.maxDepth ∧
      ∃ inner, s.Resolves (depth + 1) content inner ∧ s.ResolvesTagged tag inner u := by
  rw [resolveNode, Traced.outcome_bind_eq_ok]
  unfold ResolvesTagged
  cases TagRole.ofTag tag with
  | core =>
    simp only [checkDepth_eq_ok, h _ _ _, exists_and_left, exists_const]
    refine and_congr_right fun _ => ⟨fun hu => ⟨u, hu, rfl⟩, fun hu => ?_⟩
    obtain ⟨_, hu, rfl⟩ := hu
    exact hu
  | variant =>
    simp only [Traced.outcome_bind_eq_ok, Traced.outcome_pure_eq_ok, checkDepth_eq_ok, h _ _ _, exists_and_left,
      exists_const]
  | type name =>
    simp only [Traced.outcome_bind_eq_ok, checkDepth_eq_ok, lookUp_eq_ok, buildNested_eq_ok, h _ _ _,
      exists_and_left, exists_const]
    refine and_congr_right fun _ => ⟨fun h => ?_, fun h => ?_⟩
    · obtain ⟨d, hd, inner, hinner, x, hx⟩ := h
      exact ⟨inner, hinner, d, hd, x, hx⟩
    · obtain ⟨inner, hinner, d, hd, x, hx⟩ := h
      exact ⟨d, hd, inner, hinner, x, hx⟩

/-- **Where a node stands changes what is noted, and nothing else.** -/
theorem placeless (t : Tree) : s.Placeless t := by
  induction t using Tree.induct with
  | null | flag | number | text =>
    intro depth place u
    unfold Resolves
    simp only [resolveNode, Traced.outcome_bind_eq_ok, checkDepth_eq_ok]
  | list items ih =>
    intro depth place u
    rw [Resolves, resolveNode_list_eq_ok ih, resolveNode_list_eq_ok ih]
  | map entries ih =>
    intro depth place u
    rw [Resolves, resolveNode_map_eq_ok ih, resolveNode_map_eq_ok ih]
  | tagged tag content ih =>
    intro depth place u
    rw [Resolves, resolveNode_tagged_eq_ok ih, resolveNode_tagged_eq_ok ih]

theorem resolves_of_isScalar (h : t.isScalar = true) :
    s.Resolves depth t u ↔ depth ≤ s.settings.maxDepth ∧ u = t := by
  unfold Resolves
  cases t with
  | list | map | tagged => exact Bool.noConfusion h
  | null | flag | number | text =>
    simp only [resolveNode, Traced.outcome_bind_eq_ok, Traced.outcome_pure_eq_ok, checkDepth_eq_ok, exists_const]

theorem resolves_list {items : List Tree} :
    s.Resolves depth (.list items) u ↔ depth ≤ s.settings.maxDepth ∧
      ∃ us, List.Forall₂ (s.Resolves (depth + 1)) items us ∧ u = .list us :=
  resolveNode_list_eq_ok fun t _ => placeless t

theorem resolves_map {entries : List (Tree × Tree)} :
    s.Resolves depth (.map entries) u ↔ depth ≤ s.settings.maxDepth ∧
      ∃ es, List.Forall₂ (s.ResolvesEntry (depth + 1)) entries es ∧ u = Tree.ofEntries es :=
  resolveNode_map_eq_ok fun e _ => ⟨placeless e.1, placeless e.2⟩

theorem resolves_tagged {tag : String} {content : Tree} :
    s.Resolves depth (.tagged tag content) u ↔ depth ≤ s.settings.maxDepth ∧
      ∃ inner, s.Resolves (depth + 1) content inner ∧ s.ResolvesTagged tag inner u :=
  resolveNode_tagged_eq_ok (placeless content)

end Surroundings

namespace Decoder

variable {σ : Schema} {context : Context} {settings : Settings} {document : Tree} {r : Decoded}

/-! ## The root -/

/-- An instance of a root type is built of a document that names no type, or of what the type it names has left. -/
def ResultsIn (s : Surroundings) (decl : TypeDecl) (document : Tree) (x : Instance) : Prop :=
  match document.rootType? with
  | none => ∃ tree rest, s.Resolves 0 document tree ∧ s.Passes decl.shape tree x rest
  | some (name, content) => ∃ d inner y rest, s.context.resolve name = some d ∧ s.Resolves 1 content inner ∧
      s.Passes d.decl.shape inner y rest ∧
      if d.isOf decl then x = y else ∃ rest', s.Passes decl.shape rest x rest'

theorem finishTyped_plain_eq_ok {s : Surroundings} {decl : TypeDecl} {tree : Tree} {x : Instance} :
    (finishTyped s decl (.plain tree)).outcome = .ok x ↔ ∃ rest, s.Passes decl.shape tree x rest := by
  simp [finishTyped, Traced.outcome_bind_eq_ok, Traced.outcome_pure_eq_ok,
    Surroundings.buildChecked_build_eq_ok]

theorem finishTyped_typed_eq_ok {s : Surroundings} {decl : TypeDecl} {d : Descriptor} {content : Tree}
    {x : Instance} :
    (finishTyped s decl (.typed d content)).outcome = .ok x ↔ ∃ y rest, s.Passes d.decl.shape content y rest ∧
      if d.isOf decl then x = y else ∃ rest', s.Passes decl.shape rest x rest' := by
  simp only [finishTyped, Traced.outcome_bind_eq_ok, Prod.exists, Surroundings.buildChecked_build_eq_ok]
  cases d.isOf decl with
  | true => simp only [if_true, Traced.outcome_pure_eq_ok]
  | false =>
    simp [Traced.outcome_bind_eq_ok, Traced.outcome_pure_eq_ok, Surroundings.buildChecked_build_eq_ok]

/-- **The results of a decode as a type.** -/
theorem decode_type_eq_ok {decl : TypeDecl} :
    (decode ⟨.type decl, context, settings⟩ σ document).outcome = .ok r ↔
      ∃ x, ResultsIn ⟨σ, context, settings⟩ decl document x ∧ r = .built x := by
  rw [decode_eq_ok]
  simp only [run, surroundings, Traced.outcome_bind_eq_ok, Traced.outcome_pure_eq_ok, ResultsIn]
  cases hroot : document.rootType? with
  | none =>
    rw [Surroundings.resolveRoot_of_none hroot]
    simp only [Traced.outcome_bind_eq_ok, Traced.outcome_pure_eq_ok]
    refine ⟨fun h => ?_, fun h => ?_⟩
    · obtain ⟨_, ⟨tree, htree, rfl⟩, x, hx, rfl⟩ := h
      obtain ⟨rest, hrest⟩ := finishTyped_plain_eq_ok.1 hx
      exact ⟨x, ⟨tree, rest, htree, hrest⟩, rfl⟩
    · obtain ⟨x, ⟨tree, rest, htree, hrest⟩, rfl⟩ := h
      exact ⟨_, ⟨tree, htree, rfl⟩, x, finishTyped_plain_eq_ok.2 ⟨rest, hrest⟩, rfl⟩
  | some root =>
    obtain ⟨name, content⟩ := root
    rw [Surroundings.resolveRoot_of_type hroot]
    simp only [Traced.outcome_bind_eq_ok, Traced.outcome_pure_eq_ok, Surroundings.lookUp_eq_ok]
    refine ⟨fun h => ?_, fun h => ?_⟩
    · obtain ⟨_, ⟨d, hd, inner, hinner, rfl⟩, x, hx, rfl⟩ := h
      obtain ⟨y, rest, hpasses, hfinish⟩ := finishTyped_typed_eq_ok.1 hx
      exact ⟨x, ⟨d, inner, y, rest, hd, hinner, hpasses, hfinish⟩, rfl⟩
    · obtain ⟨x, ⟨d, inner, y, rest, hd, hinner, hpasses, hfinish⟩, rfl⟩ := h
      exact ⟨_, ⟨d, hd, inner, hinner, rfl⟩, x, finishTyped_typed_eq_ok.2 ⟨y, rest, hpasses, hfinish⟩, rfl⟩

/-- **The results of a decode of root any.** -/
theorem decode_any_eq_ok :
    (decode ⟨.any, context, settings⟩ σ document).outcome = .ok r ↔
      let s : Surroundings := ⟨σ, context, settings⟩
      match document.rootType? with
      | none => ∃ tree, s.Resolves 0 document tree ∧ r = .untyped tree
      | some (name, content) => ∃ d inner x rest, context.resolve name = some d ∧ s.Resolves 1 content inner ∧
          s.Passes d.decl.shape inner x rest ∧ r = .typed d x := by
  rw [decode_eq_ok]
  simp only [run, surroundings, Traced.outcome_bind_eq_ok]
  cases hroot : document.rootType? with
  | none =>
    rw [Surroundings.resolveRoot_of_none hroot]
    simp only [Traced.outcome_bind_eq_ok, Traced.outcome_pure_eq_ok]
    refine ⟨fun h => ?_, fun h => ?_⟩
    · obtain ⟨_, ⟨tree, htree, rfl⟩, hr⟩ := h
      exact ⟨tree, htree, Traced.outcome_pure_eq_ok.1 hr⟩
    · obtain ⟨tree, htree, rfl⟩ := h
      exact ⟨_, ⟨tree, htree, rfl⟩, rfl⟩
  | some root =>
    obtain ⟨name, content⟩ := root
    rw [Surroundings.resolveRoot_of_type hroot]
    simp only [Traced.outcome_bind_eq_ok, Traced.outcome_pure_eq_ok, Surroundings.lookUp_eq_ok]
    refine ⟨fun h => ?_, fun h => ?_⟩
    · obtain ⟨_, ⟨d, hd, inner, hinner, rfl⟩, hr⟩ := h
      simp only [finishAny, Traced.outcome_bind_eq_ok, Prod.exists, Surroundings.buildChecked_build_eq_ok,
        Traced.outcome_pure_eq_ok] at hr
      obtain ⟨x, rest, hpasses, rfl⟩ := hr
      exact ⟨d, inner, x, rest, hd, hinner, hpasses, rfl⟩
    · obtain ⟨d, inner, x, rest, hd, hinner, hpasses, rfl⟩ := h
      refine ⟨_, ⟨d, hd, inner, hinner, rfl⟩, ?_⟩
      simp only [finishAny, Traced.outcome_bind_eq_ok, Prod.exists, Surroundings.buildChecked_build_eq_ok,
        Traced.outcome_pure_eq_ok]
      exact ⟨x, rest, hpasses, rfl⟩

end Decoder

end Provisioning
