import Provisioning.Proofs.Decode.Strictness
import Provisioning.Proofs.Schema.ReadsLike
import Provisioning.Proofs.Schema.Skipped
import Provisioning.Proofs.Tree.Dropping

/-!
# What a tolerant decode does with the keys it drops

A document without type tags and core tags is built as it stands, once or, if it has keys that are not text,
twice. Of a plain document the tolerant decode drops exactly the keys that its build skips, and what is left
decodes strictly to the same instance.
-/

namespace Provisioning

namespace Surroundings

variable {s : Surroundings} {typeName : String} {place : Place} {node : Tree}
  {build : Tree → Except DecodeFailure (Built Instance)}

/-! ## Tolerant builds -/

theorem accept_of_tolerant (h : s.settings.strict = false) (skipped : List KeyPath) :
    (s.accept typeName place node skipped).outcome =
        .ok (skipped.foldl (fun t path => t.remove path) node) ∧
      Journal.dropped (s.accept typeName place node skipped).events = place.qualifyAll skipped := by
  unfold accept
  cases skipped with
  | nil => exact ⟨rfl, rfl⟩
  | cons path paths =>
    rw [h]
    refine ⟨rfl, ?_⟩
    exact List.append_nil _

/-- A build that succeeds is kept, and the keys it skips are dropped. -/
theorem buildChecked_of_ok (h : s.settings.strict = false) {b : Built Instance} (hb : build node = .ok b) :
    (s.buildChecked typeName place build node).outcome =
        .ok (b.value, b.skipped.foldl (fun t path => t.remove path) node) ∧
      Journal.dropped (s.buildChecked typeName place build node).events = place.qualifyAll b.skipped := by
  obtain ⟨haccept, hdropped⟩ := @accept_of_tolerant s typeName place node h b.skipped
  unfold buildChecked
  rw [hb]
  refine ⟨Traced.outcome_bind_eq_ok.2 ⟨_, haccept, rfl⟩, ?_⟩
  rw [Traced.events_bind_of_ok haccept, Traced.events_pure, List.append_nil]
  exact hdropped

/-- A build that fails is tried again without the keys that are not text, if there are any. -/
theorem buildChecked_of_error (h : s.settings.strict = false) {failure : DecodeFailure}
    (hb : build node = .error failure) {result : Instance × Tree} :
    (s.buildChecked typeName place build node).outcome = .ok result ↔
      node.hasOtherKeys = true ∧ ∃ b, build node.withTextKeys = .ok b ∧
        result = (b.value, b.skipped.foldl (fun t path => t.remove path) node.withTextKeys) := by
  unfold buildChecked
  rw [hb, h]
  cases hkeys : node.hasOtherKeys with
  | false =>
    refine ⟨fun hfail => ?_, fun hfail => ?_⟩
    · cases hfail
    · exact Bool.noConfusion hfail.1
  | true =>
    refine ⟨fun hok => ?_, fun hok => ?_⟩
    · obtain ⟨_, -, hok⟩ := Traced.outcome_bind_eq_ok.1 hok
      obtain ⟨b, hbuilt, hok⟩ := Traced.outcome_bind_eq_ok.1 hok
      obtain ⟨rest, hrest, hok⟩ := Traced.outcome_bind_eq_ok.1 hok
      rw [(accept_of_tolerant h b.skipped).1] at hrest
      obtain rfl := Except.ok.inj hrest
      exact ⟨rfl, b, hbuilt, (Except.ok.inj hok).symm⟩
    · obtain ⟨-, b, hbuilt, rfl⟩ := hok
      refine Traced.outcome_bind_eq_ok.2 ⟨(), rfl, Traced.outcome_bind_eq_ok.2 ⟨b, hbuilt, ?_⟩⟩
      exact Traced.outcome_bind_eq_ok.2 ⟨_, (accept_of_tolerant h b.skipped).1, rfl⟩

/-! ## Documents that need no resolving -/

theorem resolvable_of_onlyVariantTags {document : Tree} (h : document.OnlyVariantTags) :
    s.Resolvable document := by
  intro n hn tag content name heq hrole
  have hvariant := h n hn
  rw [heq, Tree.tagIsVariant, hrole] at hvariant
  cases hvariant

end Surroundings

theorem Tree.rootType?_eq_none {document : Tree} (h : document.OnlyVariantTags) :
    document.rootType? = none := by
  cases document with
  | tagged tag content =>
    rw [rootType?, (onlyVariantTags_tagged.1 h).1]
  | _ => rfl

namespace Surroundings

variable {s : Surroundings} {document : Tree}

/-- A document without type tags and core tags is left as it is. -/
theorem yields_resolveRoot (htags : document.OnlyVariantTags) (hkeys : document.DistinctKeys)
    (hdepth : document.depth ≤ s.settings.maxDepth) : (s.resolveRoot document).Yields (.plain document) := by
  refine (yields_resolveRoot_of_none (Tree.rootType?_eq_none htags)).2
    ⟨hdepth, resolvable_of_onlyVariantTags htags, ?_⟩
  rw [Tree.bare_eq_self htags hkeys]

end Surroundings

namespace Decoder

variable {σ : Schema} {decl : TypeDecl} {context : Context} {settings : Settings} {document : Tree}

/-- So all that is left to do is to build it. -/
theorem decode_eq_buildChecked (htags : document.OnlyVariantTags) (hkeys : document.DistinctKeys)
    (hdepth : document.depth ≤ settings.maxDepth) :
    let s : Surroundings := ⟨σ, context, settings⟩
    let checked := s.buildChecked decl.name .root (s.build decl) document
    let decoded := decode ⟨.type decl, context, settings⟩ σ document
    (∀ r, decoded.outcome = .ok r ↔ ∃ b, checked.outcome = .ok b ∧ r = .built b.1) ∧
      ∀ r, decoded.outcome = .ok r → Journal.dropped decoded.events = Journal.dropped checked.events := by
  intro s checked decoded
  have hresolve : (s.resolveRoot document).Yields (.plain document) :=
    Surroundings.yields_resolveRoot htags hkeys hdepth
  have hrun : run ⟨.type decl, context, settings⟩ σ document =
      s.resolveRoot document >>= fun resolved => finishTyped s decl resolved >>= fun x => pure (.built x) := rfl
  have hfinish : finishTyped s decl (.plain document) = checked >>= fun built => pure built.1 := rfl
  have houtcome : ∀ r, decoded.outcome = .ok r ↔ ∃ b, checked.outcome = .ok b ∧ r = .built b.1 := by
    intro r
    rw [decode_eq_ok, hrun, Traced.outcome_bind_eq_ok]
    refine ⟨fun h => ?_, fun h => ?_⟩
    · obtain ⟨resolved, hres, h⟩ := h
      rw [hresolve.1] at hres
      obtain rfl := Except.ok.inj hres
      obtain ⟨x, hx, h⟩ := Traced.outcome_bind_eq_ok.1 h
      obtain ⟨b, hb, hx⟩ := Traced.outcome_bind_eq_ok.1 hx
      obtain rfl := Except.ok.inj hx
      exact ⟨b, hb, (Except.ok.inj h).symm⟩
    · obtain ⟨b, hb, rfl⟩ := h
      refine ⟨_, hresolve.1, Traced.outcome_bind_eq_ok.2 ⟨b.1, ?_, rfl⟩⟩
      exact Traced.outcome_bind_eq_ok.2 ⟨b, hb, rfl⟩
  refine ⟨houtcome, fun r h => ?_⟩
  obtain ⟨b, hb, rfl⟩ := (houtcome r).1 h
  have hquiet : Journal.dropped (s.resolveRoot document).events = [] :=
    List.flatMap_eq_nil_iff.2 fun e he => Event.dropped_of_not_warns (hresolve.2 e he)
  have hbuilt : (finishTyped s decl (.plain document)).outcome = .ok b.1 :=
    Traced.outcome_bind_eq_ok.2 ⟨b, hb, rfl⟩
  rw [dropped_decode (decode_eq_ok.1 h), hrun, Traced.events_bind_of_ok hresolve.1,
    Traced.events_bind_of_ok hbuilt, hfinish, Traced.events_bind_of_ok hb]
  simp only [Traced.events_pure, List.append_nil]
  rw [Journal.dropped, List.flatMap_append]
  exact (congrArg (· ++ _) hquiet).trans (List.nil_append _)

end Decoder

end Provisioning
