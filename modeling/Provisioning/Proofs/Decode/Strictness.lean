import Provisioning.Proofs.Decode.Meaning
import Provisioning.Samples.Equipment

/-!
# Strict and tolerant decoding are one decoder

A strict decode never warns, and a warning of a tolerant decode always names a key that was dropped. With
the meaning of a quiet decode, which does not ask for strictness, this settles both directions: what a
strict decode accepts, and how it compares with the tolerant decode of the same document.
-/

namespace Provisioning

namespace Surroundings

variable {s : Surroundings} {p : Event → Prop}

/-! ## What a traversal notes -/

/-- What each step of a traversal notes has the property: look-ups, tagged nodes, and checked builds. -/
structure StepsNote (s : Surroundings) (p : Event → Prop) : Prop where
  lookedUp : ∀ name found, p (.lookedUp name found)
  resolvedNode : ∀ typeName place, p (.resolvedNode typeName place)
  buildChecked : ∀ typeName place build node, Traced.Notes p (s.buildChecked typeName place build node)

theorem notes_lookUp (h : s.StepsNote p) (name : String) (place : Place) :
    Traced.Notes p (s.lookUp name place) := by
  unfold lookUp
  split <;> exact fun _ he => List.mem_singleton.1 he ▸ h.lookedUp _ _

theorem notes_checkDepth (depth : Nat) (place : Place) : Traced.Notes p (s.checkDepth depth place) := by
  unfold checkDepth
  split
  · exact Traced.notes_fail _
  · exact Traced.notes_pure _

theorem notes_buildNested (h : s.StepsNote p) (d : Descriptor) (place : Place) (content : Tree) :
    Traced.Notes p (s.buildNested d place content) :=
  Traced.notes_bind (Traced.notes_note (h.resolvedNode _ _)) fun _ =>
    Traced.notes_bind (h.buildChecked _ _ _ _) fun _ => Traced.notes_pure _

theorem notes_resolveItems {items : List Tree}
    (ih : ∀ t ∈ items, ∀ depth place, Traced.Notes p (s.resolveNode depth place t)) :
    ∀ depth place position, Traced.Notes p (s.resolveItems depth place position items) := by
  induction items with
  | nil => exact fun _ _ _ => Traced.notes_pure _
  | cons t ts ihts =>
    intro depth place position
    exact Traced.notes_bind (ih t List.mem_cons_self _ _) fun _ =>
      Traced.notes_bind (ihts (fun u hu => ih u (List.mem_cons_of_mem _ hu)) _ _ _) fun _ =>
        Traced.notes_pure _

theorem notes_resolveEntries {entries : List (Tree × Tree)}
    (ih : ∀ e ∈ entries, (∀ depth place, Traced.Notes p (s.resolveNode depth place e.1)) ∧
      ∀ depth place, Traced.Notes p (s.resolveNode depth place e.2)) :
    ∀ depth place done, Traced.Notes p (s.resolveEntries depth place done entries) := by
  induction entries with
  | nil => exact fun _ _ _ => Traced.notes_pure _
  | cons e rest ihrest =>
    intro depth place done
    obtain ⟨hk, hv⟩ := ih e List.mem_cons_self
    exact Traced.notes_bind (hk _ _) fun _ => Traced.notes_bind (hv _ _) fun _ =>
      ihrest (fun f hf => ih f (List.mem_cons_of_mem _ hf)) _ _ _

/-- What every step notes, the whole traversal of a node notes. -/
theorem notes_resolveNode (h : s.StepsNote p) (t : Tree) :
    ∀ depth place, Traced.Notes p (s.resolveNode depth place t) := by
  induction t using Tree.induct with
  | null | flag | number | text =>
    intro depth place
    exact Traced.notes_bind (notes_checkDepth _ _) fun _ => Traced.notes_pure _
  | list items ih =>
    intro depth place
    exact Traced.notes_bind (notes_checkDepth _ _) fun _ =>
      Traced.notes_bind (notes_resolveItems ih _ _ _) fun _ => Traced.notes_pure _
  | map entries ih =>
    intro depth place
    exact Traced.notes_bind (notes_checkDepth _ _) fun _ =>
      Traced.notes_bind (notes_resolveEntries ih _ _ _) fun _ => Traced.notes_pure _
  | tagged tag content ih =>
    intro depth place
    refine Traced.notes_bind (notes_checkDepth _ _) fun _ => ?_
    cases TagRole.ofTag tag with
    | core => exact ih _ _
    | variant => exact Traced.notes_bind (ih _ _) fun _ => Traced.notes_pure _
    | type name =>
      exact Traced.notes_bind (notes_lookUp h _ _) fun _ =>
        Traced.notes_bind (ih _ _) fun _ => notes_buildNested h _ _ _

theorem notes_resolveRoot (h : s.StepsNote p) (document : Tree) :
    Traced.Notes p (s.resolveRoot document) := by
  cases hroot : document.rootType? with
  | none =>
    rw [resolveRoot_of_none hroot]
    exact Traced.notes_bind (notes_resolveNode h _ _ _) fun _ => Traced.notes_pure _
  | some root =>
    rw [resolveRoot_of_type hroot]
    exact Traced.notes_bind (notes_lookUp h _ _) fun _ =>
      Traced.notes_bind (notes_resolveNode h _ _ _) fun _ => Traced.notes_pure _

/-! ## Warnings -/

/-- Strictness turns every skipped key into a failure. -/
theorem stepsNote_quiet (h : s.settings.strict = true) : s.StepsNote (fun e => e.warns = false) where
  lookedUp := fun _ _ => rfl
  resolvedNode := fun _ _ => rfl
  buildChecked := by
    intro typeName place build node
    have haccept : ∀ t skipped, Traced.Notes (fun e => e.warns = false)
        (s.accept typeName place t skipped) := by
      intro t skipped
      unfold accept
      rw [h]
      split
      · exact Traced.notes_pure _
      · exact Traced.notes_fail _
    unfold Surroundings.buildChecked
    rw [h]
    split
    · exact Traced.notes_bind (haccept _ _) fun _ => Traced.notes_pure _
    · exact Traced.notes_fail _

/-- A warning of a traversal names a key that was dropped. -/
theorem stepsNote_named : s.StepsNote (fun e => e.warns = true → e.dropped ≠ []) where
  lookedUp := fun _ _ hw => Bool.noConfusion hw
  resolvedNode := fun _ _ hw => Bool.noConfusion hw
  buildChecked := by
    intro typeName place build node
    have haccept : ∀ t skipped, Traced.Notes (fun e => e.warns = true → e.dropped ≠ [])
        (s.accept typeName place t skipped) := by
      intro t skipped
      unfold accept
      split
      · exact Traced.notes_pure _
      · rename_i hne
        dsimp only
        split
        · exact Traced.notes_fail _
        · intro e he hw hnil
          obtain rfl := List.mem_singleton.1 he
          exact hne (by simpa [Event.dropped, Place.qualifyAll] using hnil)
    unfold Surroundings.buildChecked
    split
    · exact Traced.notes_bind (haccept _ _) fun _ => Traced.notes_pure _
    · split
      · rename_i hkeys
        refine Traced.notes_bind (Traced.notes_note fun _ hnil => ?_) fun _ =>
          Traced.notes_bind (Traced.notes_ofExcept _) fun _ =>
            Traced.notes_bind (haccept _ _) fun _ => Traced.notes_pure _
        have hnone : node.hasOtherKeys = false :=
          (Tree.otherKeyPaths_eq_nil_iff node).1
            (by simpa [Event.dropped, Place.qualifyAll] using hnil)
        simp [hnone] at hkeys
      · exact Traced.notes_fail _

end Surroundings

/-- What is no warning drops no key. -/
theorem Event.dropped_of_not_warns {e : Event} (h : e.warns = false) : e.dropped = [] := by
  cases e with
  | droppedOtherKeys | droppedUnknownFields => exact Bool.noConfusion h
  | _ => rfl

/-- The log has a line of the level of warnings exactly if an event is a warning. -/
theorem Journal.warn_mem_lines_iff {events : List Event} :
    Level.warn ∈ (Journal.lines events).map (·.level) ↔ ∃ e ∈ events, e.warns = true := by
  simp only [Journal.lines, List.mem_map, List.mem_filterMap]
  refine ⟨fun h => ?_, fun h => ?_⟩
  · obtain ⟨line, ⟨e, he, hline⟩, hlevel⟩ := h
    exact ⟨e, he, by simp [Event.warns, hline, hlevel]⟩
  · obtain ⟨e, he, hw⟩ := h
    cases hline : e.line? with
    | none => simp [Event.warns, hline] at hw
    | some line => exact ⟨line, ⟨e, he, hline⟩, by simpa [Event.warns, hline] using hw⟩

namespace Decoder

variable {σ : Schema} {p : Event → Prop}

/-- What every step notes, a whole decode notes between its beginning and its end. -/
theorem notes_run {d : Decoder} (h : (d.surroundings σ).StepsNote p) (document : Tree) :
    Traced.Notes p (d.run σ document) := by
  refine Traced.notes_bind (Surroundings.notes_resolveRoot h document) fun resolved => ?_
  cases d.root with
  | type decl =>
    refine Traced.notes_bind ?_ fun _ => Traced.notes_pure _
    cases resolved with
    | typed found content =>
      refine Traced.notes_bind (h.buildChecked _ _ _ _) fun built => ?_
      split
      · exact Traced.notes_pure _
      · exact Traced.notes_bind (h.buildChecked _ _ _ _) fun _ => Traced.notes_pure _
    | plain tree => exact Traced.notes_bind (h.buildChecked _ _ _ _) fun _ => Traced.notes_pure _
  | any =>
    cases resolved with
    | typed found content => exact Traced.notes_bind (h.buildChecked _ _ _ _) fun _ => Traced.notes_pure _
    | plain tree => exact Traced.notes_pure _

/-- A decode ends as its run does; its events are those of the run between a beginning and an end. -/
theorem outcome_decode {d : Decoder} {document : Tree} :
    (d.decode σ document).outcome = (d.run σ document).outcome := by
  unfold decode
  rw [Traced.outcome_bind_of_ok (a := ()) rfl]
  cases hrun : (d.run σ document).outcome with
  | ok r =>
    rw [Traced.outcome_bind_of_ok hrun]
    exact Traced.outcome_bind_of_ok rfl
  | error f => exact Traced.outcome_bind_of_error hrun

theorem decode_eq_ok {d : Decoder} {document : Tree} {r : Decoded} :
    (d.decode σ document).outcome = .ok r ↔ (d.run σ document).outcome = .ok r := by
  rw [outcome_decode]

theorem events_decode {d : Decoder} {document : Tree} {r : Decoded}
    (h : (d.run σ document).outcome = .ok r) :
    (d.decode σ document).events = .started d.root.name d.settings.strict :: (d.run σ document).events ++
      [.finished d.root.name (Journal.resolvedCount (d.run σ document).events)
        (Journal.dropped (d.run σ document).events).length] := by
  unfold decode
  rw [Traced.events_bind_of_ok (a := ()) rfl, Traced.events_bind_of_ok h,
    Traced.events_bind_of_ok (a := ()) rfl]
  rfl

variable {root : Root} {context : Context} {settings : Settings} {document : Tree} {r : Decoded}

/-- Neither the beginning nor the end of a decode drops anything. -/
theorem dropped_decode {d : Decoder} (h : (d.run σ document).outcome = .ok r) :
    Journal.dropped (d.decode σ document).events = Journal.dropped (d.run σ document).events := by
  rw [events_decode h]
  simp [Journal.dropped, Event.dropped]

/-- A decode that succeeds drops nothing exactly if it warns of nothing. -/
theorem dropped_eq_nil_iff {d : Decoder} (h : (d.run σ document).outcome = .ok r) :
    Journal.dropped (d.decode σ document).events = [] ↔ ∀ e ∈ (d.run σ document).events, e.warns = false := by
  have hnamed := notes_run (d := d) (σ := σ) Surroundings.stepsNote_named document
  rw [dropped_decode h, Journal.dropped, List.flatMap_eq_nil_iff]
  refine ⟨fun hnil e he => ?_, ?_⟩
  · rw [← Bool.not_eq_true]
    exact fun hw => hnamed e he hw (hnil e he)
  · exact fun hquiet e he => Event.dropped_of_not_warns (hquiet e he)

/-- So a decode yields its result exactly if it succeeds and drops nothing. -/
theorem yields_run_iff {d : Decoder} : (d.run σ document).Yields r ↔
    (d.decode σ document).outcome = .ok r ∧ Journal.dropped (d.decode σ document).events = [] := by
  rw [decode_eq_ok]
  refine ⟨fun h => ?_, fun h => ?_⟩
  · exact ⟨h.1, (dropped_eq_nil_iff h.1).2 h.2⟩
  · exact ⟨h.1, (dropped_eq_nil_iff h.1).1 h.2⟩

/-- A strict success is a quiet one. -/
theorem decode_strict_eq_ok_iff_yields {limit : Nat} :
    (decode ⟨root, context, ⟨true, limit⟩⟩ σ document).outcome = .ok r ↔
      (run ⟨root, context, ⟨true, limit⟩⟩ σ document).Yields r := by
  rw [decode_eq_ok]
  refine ⟨?_, ?_⟩
  · exact fun h => ⟨h, notes_run (Surroundings.stepsNote_quiet rfl) document⟩
  · exact fun h => h.1

/-- Whether a decode yields its result does not depend on strictness. -/
theorem yields_run_strict_irrel {limit : Nat} (strict strict' : Bool) :
    (run ⟨root, context, ⟨strict, limit⟩⟩ σ document).Yields r ↔
      (run ⟨root, context, ⟨strict', limit⟩⟩ σ document).Yields r := by
  cases root with
  | type decl => rw [yields_run_type, yields_run_type]; rfl
  | any => rw [yields_run_any, yields_run_any]; rfl

/-- Of the log of a decode, only lines of the run itself are warnings. -/
theorem dropped_eq_nil_iff_no_warning {d : Decoder} (h : (d.run σ document).outcome = .ok r) :
    Journal.dropped (d.decode σ document).events = [] ↔
      Level.warn ∉ (Journal.lines (d.decode σ document).events).map (·.level) := by
  rw [dropped_eq_nil_iff h, Journal.warn_mem_lines_iff, events_decode h]
  refine ⟨fun hquiet hy => ?_, fun hno e he => ?_⟩
  · obtain ⟨e, he, hw⟩ := hy
    rcases List.mem_append.1 he with he | he
    · rcases List.mem_cons.1 he with rfl | he
      · exact Bool.noConfusion hw
      · rw [hquiet e he] at hw
        exact Bool.noConfusion hw
    · obtain rfl := List.mem_singleton.1 he
      exact Bool.noConfusion hw
  · rw [← Bool.not_eq_true]
    exact fun hw => hno ⟨e, List.mem_append_left _ (List.mem_cons_of_mem _ he), hw⟩

/-- The last event of a decode counts the keys that were dropped. -/
theorem dropped_eq_nil_iff_finished {d : Decoder} (h : (d.run σ document).outcome = .ok r) :
    Journal.dropped (d.decode σ document).events = [] ↔
      ∃ n, (d.decode σ document).events.getLast? = some (.finished d.root.name n 0) := by
  rw [dropped_decode h, events_decode h, List.getLast?_concat]
  simp

/-! ## The two results -/

/-- **What a strict decode accepts, and what it gives.**

As a type, a document decodes strictly exactly if no node lies deeper than allowed, every type tag is
known, the content of every type-tagged node builds as the type it names with no key skipped, and the whole
document builds so as the root type; contents and document are taken without their tags. A document of
root any decodes under the first three conditions, to the document without its tags if its outermost tag
names no type, and otherwise to the instance of that type. -/
theorem decode_strict_eq_ok_iff (σ : Schema) (context : Context) (limit : Nat) (document : Tree) :
    (∀ decl r, (decode ⟨.type decl, context, ⟨true, limit⟩⟩ σ document).outcome = .ok r ↔
      document.depth ≤ limit ∧ context.KnowsTags document ∧ context.FitsTags σ document ∧
        ∃ x, σ.build document.bare decl.shape = .ok ⟨x, []⟩ ∧ r = .built x) ∧
    (∀ r, (decode ⟨.any, context, ⟨true, limit⟩⟩ σ document).outcome = .ok r ↔
      document.depth ≤ limit ∧ context.KnowsTags document ∧ context.FitsTags σ document ∧
        match document.rootType? with
        | none => r = .untyped document.bare
        | some (name, content) => ∃ d x, context.resolve name = some d ∧
            σ.build content.bare d.decl.shape = .ok ⟨x, []⟩ ∧ r = .typed d x) := by
  refine ⟨fun decl r => ?_, fun r => ?_⟩
  · rw [decode_strict_eq_ok_iff_yields, yields_run_type, Surroundings.resolvable_iff, and_assoc]
  · rw [decode_strict_eq_ok_iff_yields, yields_run_any, Surroundings.resolvable_iff, and_assoc, MeansAny]
    cases document.rootType? <;> rfl

/-- A document whose only list is empty. -/
def emptyKids : Tree := .map [(.text "kids", .list [])]

/-- The height does not bound strict decodes: an empty list is one level, and none of its nodes is there to
lie too deep. -/
theorem height_does_not_bound_decode :
    ¬((decode ⟨.type Samples.node, .nothing, ⟨true, 1⟩⟩ Samples.schema emptyKids).outcome =
        .ok (.built (.record [("name", .text ""), ("child", .absent), ("kids", .list []),
          ("attrs", .dictionary []), ("profile", .absent)])) →
      emptyKids.height ≤ 1) := by
  intro h
  exact absurd (h rfl) (by decide)

/-- **Strict and tolerant decoding are one decoder.** A strict decode succeeds with a result exactly if the
tolerant decode does and drops no key, which can be seen from the keys it names, from its warnings, and
from the count in its last event. -/
theorem decode_strict_iff_tolerant (σ : Schema) (root : Root) (context : Context) (limit : Nat)
    (document : Tree) (r : Decoded) :
    let strict := decode ⟨root, context, ⟨true, limit⟩⟩ σ document
    let tolerant := decode ⟨root, context, ⟨false, limit⟩⟩ σ document
    (strict.outcome = .ok r ↔ tolerant.outcome = .ok r ∧ Journal.dropped tolerant.events = []) ∧
    (strict.outcome = .ok r ↔ tolerant.outcome = .ok r ∧
      Level.warn ∉ (Journal.lines tolerant.events).map (·.level)) ∧
    (strict.outcome = .ok r ↔ tolerant.outcome = .ok r ∧
      ∃ n, tolerant.events.getLast? = some (.finished root.name n 0)) := by
  intro strict tolerant
  have hdropped : strict.outcome = .ok r ↔
      tolerant.outcome = .ok r ∧ Journal.dropped tolerant.events = [] := by
    rw [decode_strict_eq_ok_iff_yields, yields_run_strict_irrel true false, yields_run_iff]
  refine ⟨hdropped, ?_, ?_⟩
  · rw [hdropped]
    exact and_congr_right fun h => dropped_eq_nil_iff_no_warning (decode_eq_ok.1 h)
  · rw [hdropped]
    exact and_congr_right fun h => dropped_eq_nil_iff_finished (decode_eq_ok.1 h)

end Decoder

end Provisioning
