import Provisioning.Proofs.Decode.Course
import Provisioning.Proofs.Decode.Tolerance

/-!
# The result of an untyped decode is a normal form

A document that is decoded to a tree has nothing left to resolve. The tree is decoded to itself, in whatever context,
and as a type it means what the document means: whatever the first decode dropped, it would have been dropped before
the root type gets to see it.
-/

namespace Provisioning

/-- Where all tags name variants, there is no name to look up. -/
theorem Tree.typeTags_of_onlyVariantTags {t : Tree} (h : t.OnlyVariantTags) : t.typeTags = [] := by
  rw [typeTags, List.filterMap_eq_nil_iff]
  intro n hn
  have hvariant := h n hn
  cases n with
  | tagged tag content =>
    rw [tagIsVariant, beq_iff_eq] at hvariant
    exact typeTag?_eq_none fun name hname => by simp [hvariant] at hname
  | _ => rfl

namespace Decoder

variable {σ : Schema} {context : Context} {settings : Settings} {document tree : Tree}

/-- Of root any, an untyped result is the document as it was resolved. -/
theorem resolveRoot_of_untyped (h : (run ⟨.any, context, settings⟩ σ document).outcome = .ok (.untyped tree)) :
    (Surroundings.resolveRoot ⟨σ, context, settings⟩ document).outcome = .ok (.plain tree) := by
  obtain ⟨resolved, hresolved, h⟩ := Traced.outcome_bind_eq_ok.1 h
  cases resolved with
  | plain resolved =>
    obtain rfl := Decoded.untyped.inj (Except.ok.inj h)
    exact hresolved
  | typed d content =>
    obtain ⟨built, -, h⟩ := Traced.outcome_bind_eq_ok.1 h
    cases h

/-- Documents that are resolved to the same tree decode alike as a type, whatever they were resolved in. -/
theorem decode_type_eq_of_resolveRoot {c c' : Context} {document' : Tree} (decl : TypeDecl)
    (h : (Surroundings.resolveRoot ⟨σ, c, settings⟩ document).outcome = .ok (.plain tree))
    (h' : (Surroundings.resolveRoot ⟨σ, c', settings⟩ document').outcome = .ok (.plain tree)) :
    (decode ⟨.type decl, c', settings⟩ σ document').outcome =
      (decode ⟨.type decl, c, settings⟩ σ document).outcome := by
  have hfinish : ∀ (c : Context) (d : Tree),
      (Surroundings.resolveRoot ⟨σ, c, settings⟩ d).outcome = .ok (.plain tree) →
      (decode ⟨.type decl, c, settings⟩ σ d).outcome =
        (finishTyped ⟨σ, c, settings⟩ decl (.plain tree) >>= fun x => pure (Decoded.built x)).outcome := by
    intro c d hd
    rw [outcome_decode]
    exact Traced.outcome_bind_of_ok hd
  -- nothing of the context is left in what remains to be built
  rw [hfinish c document h, hfinish c' document' h']
  rfl

/-- A tree with nothing to resolve in it is the result of its own decode. -/
theorem yields_run_any_self (htags : tree.OnlyVariantTags) (hkeys : tree.DistinctKeys)
    (hdepth : tree.depth ≤ settings.maxDepth) :
    (run ⟨.any, context, settings⟩ σ tree).Yields (.untyped tree) := by
  have hroot : (Surroundings.resolveRoot ⟨σ, context, settings⟩ tree).Yields (.plain tree) :=
    Surroundings.yields_resolveRoot htags hkeys hdepth
  exact Traced.yields_bind.2 ⟨_, hroot, Traced.yields_pure.2 rfl⟩

/-- **An untyped result is a normal form.** It has no type tags and no core tags, not in its keys either. Decoded
again, strictly or not and in whatever context, it stays what it is; no name is looked up for that and nothing is
dropped. As a type, whatever its shape, it decodes as the document does. -/
theorem decode_untyped_normal (σ : Schema) (context : Context) (settings : Settings) (document tree : Tree)
    (h : (decode ⟨.any, context, settings⟩ σ document).outcome = .ok (.untyped tree)) :
    tree.OnlyVariantTags ∧
    (∀ (context' : Context) (strict : Bool),
      let again := decode ⟨.any, context', ⟨strict, settings.maxDepth⟩⟩ σ tree
      again.outcome = .ok (.untyped tree) ∧ Journal.lookups again.events = [] ∧
        Journal.dropped again.events = []) ∧
    ∀ (decl : TypeDecl) (context' : Context),
      (decode ⟨.type decl, context', settings⟩ σ tree).outcome =
        (decode ⟨.type decl, context, settings⟩ σ document).outcome := by
  have hroot : (Surroundings.resolveRoot ⟨σ, context, settings⟩ document).outcome = .ok (.plain tree) :=
    resolveRoot_of_untyped (decode_eq_ok.1 h)
  obtain ⟨hdocument, hsettles⟩ := Surroundings.settles_of_resolveRoot hroot
  have htags := hsettles.onlyVariantTags
  have hkeys := hsettles.distinctKeys
  have hdepth : tree.depth ≤ settings.maxDepth := Nat.le_trans hsettles.depth_le hdocument
  refine ⟨htags, fun context' strict => ?_, fun decl context' => ?_⟩
  · intro again
    have hyields : (run ⟨.any, context', ⟨strict, settings.maxDepth⟩⟩ σ tree).Yields (.untyped tree) :=
      yields_run_any_self htags hkeys hdepth
    obtain ⟨hagain, hdropped⟩ := yields_run_iff.1 hyields
    have hlookups : Journal.lookups again.events = tree.typeTags.map (·, true) :=
      ((course_decode _ tree).of_ok hagain).1
    rw [Tree.typeTags_of_onlyVariantTags htags] at hlookups
    exact ⟨hagain, hlookups, hdropped⟩
  · have hself : (Surroundings.resolveRoot ⟨σ, context', settings⟩ tree).Yields (.plain tree) :=
      Surroundings.yields_resolveRoot htags hkeys hdepth
    exact decode_type_eq_of_resolveRoot decl hroot hself.1

/-- A document with a tagged key, and with a tagged node that has a key too many. -/
def cooledNode : Tree :=
  .map [(.tagged "tag:yaml.org,2002:str" (.text "name"), .text "db"),
    (.text "attrs", .tagged "acme.CoolingProfile" (.map [(.text "label", .text "cold"),
      (.text "fans", .number (.integer 2))]))]

/-- The same document resolved. -/
def resolvedNode : Tree :=
  .map [(.text "name", .text "db"), (.text "attrs", .map [(.text "label", .text "cold")])]

/-- It stays as it is, without a context and strictly, and it means the same node. -/
theorem decode_untyped_normal_cooledNode :
    (decode ⟨.any, Samples.coolingHome, .tolerant⟩ Samples.schema cooledNode).outcome =
      .ok (.untyped resolvedNode) ∧
    (decode ⟨.any, .nothing, .rejecting⟩ Samples.schema resolvedNode).outcome = .ok (.untyped resolvedNode) ∧
    (decode ⟨.type Samples.node, .nothing, .tolerant⟩ Samples.schema resolvedNode).outcome =
      (decode ⟨.type Samples.node, Samples.coolingHome, .tolerant⟩ Samples.schema cooledNode).outcome := by
  have hdecoded : (decode ⟨.any, Samples.coolingHome, .tolerant⟩ Samples.schema cooledNode).outcome =
      .ok (.untyped resolvedNode) := by rfl
  obtain ⟨-, hagain, htype⟩ := decode_untyped_normal Samples.schema Samples.coolingHome .tolerant cooledNode
    resolvedNode hdecoded
  exact ⟨hdecoded, (hagain .nothing true).1, htype Samples.node .nothing⟩

end Decoder

end Provisioning
