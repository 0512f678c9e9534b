import Provisioning.Decode.Traversal
import Provisioning.Proofs.Traced
import Provisioning.Proofs.Tree.Nodes

/-!
# One path is enough

A traversal that keeps one path does what is done by the computation that is told the place of every node: it ends in
the same way and notes the same events, and counts and drops what these events say (`Follows`). However it ends, the
path is the one it began with, so it can be cut back.

That a traversal follows a computation is shown for each of its steps and goes through `>>=`. A step down is the only
thing that moves the path, and `inside` encloses it, for any computation (`follows_inside`).
-/

namespace Provisioning

namespace Text

/-- What takes up the first bytes of a text can be cut out of it. -/
theorem charsWithin_append (cs rest : List Char) :
    charsWithin (String.ofList cs).utf8ByteSize (cs ++ rest) = some cs := by
  induction cs with
  | nil => cases rest <;> rfl
  | cons c cs ih =>
    have hsize : (String.ofList (c :: cs)).utf8ByteSize = c.utf8Size + (String.ofList cs).utf8ByteSize := by
      rw [String.ofList_cons, String.utf8ByteSize_append, String.utf8ByteSize_singleton]
    have hpos := c.utf8Size_pos
    rw [List.cons_append, charsWithin, if_neg (by omega), if_pos (by omega), hsize, Nat.add_sub_cancel_left, ih]
    rfl

theorem truncate_append (text rest : String) : truncate text.utf8ByteSize (text ++ rest) = some text := by
  have hchars := charsWithin_append text.toList rest.toList
  rw [String.ofList_toList] at hchars
  rw [truncate, String.toList_append, hchars, Option.map_some, String.ofList_toList]

end Text

namespace Traversal

/-- The state once some events were noted. The path is that of before. -/
def after (st : Traversal) (events : List Event) : Traversal where
  path := st.path
  resolved := st.resolved + Journal.resolvedCount events
  dropped := st.dropped ++ Journal.dropped events
  events := st.events ++ events

theorem after_nil (st : Traversal) : st.after [] = st := by
  simp [after, Journal.resolvedCount, Journal.lookups, Journal.dropped]

theorem after_append (st : Traversal) (events events' : List Event) :
    st.after (events ++ events') = (st.after events).after events' := by
  simp [after, Journal.resolvedCount, Journal.lookups, Journal.dropped, Nat.add_assoc]

/-- A traversal that stands at the place does what the computation does. -/
def Follows {α : Type} (place : Place) (x : Traversing α) (y : Traced DecodeFailure α) : Prop :=
  ∀ st : Traversal, st.place = place → x.run st = some (y.outcome, st.after y.events)

variable {α β : Type} {place : Place} {x : Traversing α} {y : Traced DecodeFailure α} {f : α → Traversing β}
  {g : α → Traced DecodeFailure β} {st : Traversal}

/-! ## Binds -/

theorem run_bind_of_ok {st' : Traversal} {a : α} (h : x.run st = some (.ok a, st')) :
    (x >>= f).run st = (f a).run st' := by
  show (x.run st).bind _ = _
  rw [h]
  rfl

theorem run_bind_of_error {st' : Traversal} {e : DecodeFailure} (h : x.run st = some (.error e, st')) :
    (x >>= f).run st = some (.error e, st') := by
  show (x.run st).bind _ = _
  rw [h]
  rfl

theorem run_get (st : Traversal) : (get : Traversing Traversal).run st = some (.ok st, st) := rfl

theorem follows_ofExcept (outcome : Except DecodeFailure α) :
    Follows place (ExceptT.mk (pure outcome)) (.ofExcept outcome) := by
  intro st _
  show some (_, st) = some (_, st.after [])
  rw [after_nil]
  rfl

theorem follows_pure (a : α) : Follows place (pure a) (pure a) := follows_ofExcept (.ok a)

theorem follows_throw (failure : DecodeFailure) : Follows place (throw failure : Traversing α) (.fail failure) :=
  follows_ofExcept (.error failure)

theorem follows_bind (hx : Follows place x y) (hf : ∀ a, Follows place (f a) (g a)) :
    Follows place (x >>= f) (y >>= g) := by
  intro st hst
  have hrun := hx st hst
  cases hy : y.outcome with
  | ok a =>
    rw [hy] at hrun
    rw [run_bind_of_ok hrun, hf a (st.after y.events) hst, Traced.outcome_bind_of_ok hy, Traced.events_bind_of_ok hy,
      after_append]
  | error e =>
    rw [hy] at hrun
    rw [run_bind_of_error hrun, Traced.outcome_bind_of_error hy, Traced.events_bind_of_error hy]

/-- The place that is read off the path is the one that is told. -/
theorem follows_here {f : Place → Traversing α} (hf : Follows place (f place) y) : Follows place (here >>= f) y := by
  intro st hst
  have hhere : here.run st = some (.ok place, st) := hst ▸ rfl
  rw [run_bind_of_ok hhere, hf st hst]

/-! ## Steps down and up -/

/-- What is done inside is done at the place that the step leads to. The path is cut back however that ends. -/
theorem follows_inside {stepDown : Traversing Unit} {below : Place}
    (hstep : ∀ st : Traversal, st.place = place → ∃ text,
      stepDown.run st = some (.ok (), { st with path := st.path ++ text }) ∧ below = ⟨st.path ++ text⟩)
    (hx : Follows below x y) : Follows place (inside stepDown x) y := by
  intro st hst
  obtain ⟨text, hdown, rfl⟩ := hstep st hst
  let down : Traversal := { st with path := st.path ++ text }
  have hrun : (ExceptT.lift x.run : Traversing (Except DecodeFailure α)).run down =
      some (.ok y.outcome, down.after y.events) := by
    show (x.run down).bind _ = _
    rw [hx down rfl]
    rfl
  have hup : (truncatePath st.path.utf8ByteSize).run (down.after y.events) = some (.ok (), st.after y.events) := by
    show (Text.truncate st.path.utf8ByteSize (st.path ++ text)).map _ = _
    rw [Text.truncate_append]
    rfl
  rw [inside, run_bind_of_ok (run_get st), run_bind_of_ok hdown, run_bind_of_ok hrun, run_bind_of_ok hup]
  rfl

theorem follows_item {position : Nat} (hx : Follows (place.item position) x y) :
    Follows place (inside (pushItem position) x) y := by
  refine follows_inside (fun st hst => ⟨"[" ++ toString position ++ "]", rfl, ?_⟩) hx
  subst hst
  simp only [Traversal.place, Place.item, String.append_assoc]

theorem follows_entry {key : Tree} (hx : Follows (place.entry key.label) x y) :
    Follows place (inside (pushKey key) x) y := by
  refine follows_inside (fun st hst => ?_) hx
  subst hst
  by_cases hroot : st.path = ""
  · refine ⟨key.label, ?_, by simp [Traversal.place, Place.entry, hroot]⟩
    rw [pushKey, run_bind_of_ok (run_get st), if_neg fun h => h hroot]
    rfl
  · refine ⟨"." ++ key.label, ?_, by simp [Traversal.place, Place.entry, hroot, String.append_assoc]⟩
    rw [pushKey, run_bind_of_ok (run_get st), if_pos hroot, ← String.append_assoc]
    rfl

/-! ## Single steps -/

theorem follows_note {event : Event} (hcount : Journal.resolvedCount [event] = 0) (hdrop : event.dropped = []) :
    Follows place (note event) (.note event) := by
  intro st _
  have hafter : st.after [event] = { st with events := st.events ++ [event] } := by
    simp [after, hcount, Journal.dropped, hdrop]
  show some (_, _) = some (_, st.after [event])
  rw [hafter]
  rfl

theorem follows_found (name : String) : Follows place (found name) (.note (.lookedUp name true)) := by
  intro st _
  have hafter : st.after [.lookedUp name true] =
      { st with resolved := st.resolved + 1, events := st.events ++ [.lookedUp name true] } := by
    simp [after, Journal.resolvedCount, Journal.lookups, Journal.dropped, Event.lookup?, Event.dropped]
  show some (_, _) = some (_, st.after [.lookedUp name true])
  rw [hafter]
  rfl

theorem follows_drop {event : Event} {paths : List String} (hcount : Journal.resolvedCount [event] = 0)
    (hdrop : event.dropped = paths) : Follows place (drop event paths) (.note event) := by
  intro st _
  have hafter : st.after [event] = { st with dropped := st.dropped ++ paths, events := st.events ++ [event] } := by
    simp [after, hcount, Journal.dropped, hdrop]
  show some (_, _) = some (_, st.after [event])
  rw [hafter]
  rfl

variable {s : Surroundings}

theorem follows_lookUp (name : String) : Follows place (lookUp s name) (s.lookUp name place) := by
  unfold lookUp Surroundings.lookUp
  cases s.context.resolve name with
  | some d => exact follows_bind (follows_found name) fun _ => follows_pure d
  | none =>
    exact follows_bind (g := fun _ => .fail (.unresolved name place s.context.typeNames)) (follows_note rfl rfl)
      fun _ => follows_here (follows_throw _)

theorem follows_checkDepth (depth : Nat) : Follows place (checkDepth s depth) (s.checkDepth depth place) := by
  unfold checkDepth Surroundings.checkDepth
  split
  · exact follows_here (follows_throw _)
  · exact follows_pure ()

theorem follows_accept (typeName : String) (node : Tree) (skipped : List KeyPath) :
    Follows place (accept s typeName node skipped) (s.accept typeName place node skipped) := by
  unfold accept Surroundings.accept
  split
  · exact follows_pure node
  · refine follows_here ?_
    dsimp only
    split
    · exact follows_throw _
    · exact follows_bind (follows_drop rfl rfl) fun _ => follows_pure _

theorem follows_buildChecked (typeName : String) (build : Tree → Except DecodeFailure (Built Instance))
    (node : Tree) : Follows place (buildChecked s typeName build node) (s.buildChecked typeName place build node) := by
  unfold buildChecked Surroundings.buildChecked
  cases build node with
  | ok built => exact follows_bind (follows_accept _ _ _) fun _ => follows_pure _
  | error failure =>
    dsimp only
    split
    · exact follows_here (follows_bind (follows_drop rfl rfl) fun _ => follows_bind (follows_ofExcept _) fun _ =>
        follows_bind (follows_accept _ _ _) fun _ => follows_pure _)
    · exact follows_throw _

theorem follows_buildNested (d : Descriptor) (content : Tree) :
    Follows place (buildNested s d content) (s.buildNested d place content) :=
  follows_here (follows_bind (follows_note rfl rfl) fun _ =>
    follows_bind (follows_buildChecked _ _ _) fun _ => follows_pure _)

/-! ## The traversal -/

theorem follows_resolveItems {items : List Tree}
    (ih : ∀ t ∈ items, ∀ depth place, Follows place (resolveNode s depth t) (s.resolveNode depth place t)) :
    ∀ depth place position,
      Follows place (resolveItems s depth position items) (s.resolveItems depth place position items) := by
  induction items with
  | nil => exact fun _ _ _ => follows_pure []
  | cons t ts ihts =>
    intro depth place position
    obtain ⟨ht, hts⟩ := List.forall_mem_cons.1 ih
    exact follows_bind (follows_item (ht depth _)) fun _ =>
      follows_bind (ihts hts depth place (position + 1)) fun _ => follows_pure _

theorem follows_resolveEntries {entries : List (Tree × Tree)}
    (ih : ∀ e ∈ entries, (∀ depth place, Follows place (resolveNode s depth e.1) (s.resolveNode depth place e.1)) ∧
      ∀ depth place, Follows place (resolveNode s depth e.2) (s.resolveNode depth place e.2)) :
    ∀ depth place done,
      Follows place (resolveEntries s depth done entries) (s.resolveEntries depth place done entries) := by
  induction entries with
  | nil => exact fun _ _ done => follows_pure done
  | cons e rest ihrest =>
    intro depth place done
    obtain ⟨⟨hkey, hvalue⟩, hrest⟩ := List.forall_mem_cons.1 ih
    exact follows_bind (hkey depth place) fun key => follows_bind (follows_entry (hvalue depth _)) fun value =>
      ihrest hrest depth place (Tree.insert key value done)

/-- What is done in a node is what is done if the place is told. -/
theorem follows_resolveNode (t : Tree) :
    ∀ depth place, Follows place (resolveNode s depth t) (s.resolveNode depth place t) := by
  induction t using Tree.induct with
  | null | flag | number | text =>
    exact fun depth place => follows_bind (follows_checkDepth depth) fun _ => follows_pure _
  | list items ih =>
    exact fun depth place => follows_bind (follows_checkDepth depth) fun _ =>
      follows_bind (follows_resolveItems ih (depth + 1) place 0) fun _ => follows_pure _
  | map entries ih =>
    exact fun depth place => follows_bind (follows_checkDepth depth) fun _ =>
      follows_bind (follows_resolveEntries ih (depth + 1) place []) fun _ => follows_pure _
  | tagged tag content ih =>
    intro depth place
    unfold resolveNode Surroundings.resolveNode
    refine follows_bind (follows_checkDepth depth) fun _ => ?_
    dsimp only
    cases TagRole.ofTag tag with
    | core => exact ih (depth + 1) place
    | variant => exact follows_bind (ih (depth + 1) place) fun _ => follows_pure _
    | type name =>
      exact follows_bind (follows_lookUp name) fun d => follows_bind (ih (depth + 1) place) fun content =>
        follows_buildNested d content

/-! ## Whole decodes -/

theorem follows_resolveRoot (document : Tree) :
    Follows .root (resolveRoot s document) (s.resolveRoot document) := by
  unfold resolveRoot Surroundings.resolveRoot
  cases document with
  | null | flag | number | text | list | map =>
    exact follows_bind (follows_resolveNode _ 0 .root) fun _ => follows_pure _
  | tagged tag content =>
    dsimp only
    cases TagRole.ofTag tag with
    | core | variant => exact follows_bind (follows_resolveNode content 1 .root) fun _ => follows_pure _
    | type name =>
      exact follows_bind (follows_lookUp name) fun _ =>
        follows_bind (follows_resolveNode content 1 .root) fun _ => follows_pure _

theorem follows_finishTyped (decl : TypeDecl) (resolved : Surroundings.ResolvedRoot) :
    Follows .root (finishTyped s decl resolved) (Decoder.finishTyped s decl resolved) := by
  cases resolved with
  | typed d content =>
    refine follows_bind (follows_buildChecked _ _ _) fun built => ?_
    split
    · exact follows_pure _
    · exact follows_bind (follows_buildChecked _ _ _) fun _ => follows_pure _
  | plain tree => exact follows_bind (follows_buildChecked _ _ _) fun _ => follows_pure _

theorem follows_finishAny (resolved : Surroundings.ResolvedRoot) :
    Follows .root (finishAny s resolved) (Decoder.finishAny s resolved) := by
  cases resolved with
  | typed d content => exact follows_bind (follows_buildChecked _ _ _) fun _ => follows_pure _
  | plain tree => exact follows_pure _

theorem follows_run (d : Decoder) (σ : Schema) (document : Tree) :
    Follows .root (run d σ document) (d.run σ document) := by
  refine follows_bind (follows_resolveRoot document) fun resolved => ?_
  cases d.root with
  | type decl => exact follows_bind (follows_finishTyped decl resolved) fun _ => follows_pure _
  | any => exact follows_finishAny resolved

/-- What is counted by the end of a run is what its events tell. -/
theorem run_decode (d : Decoder) (σ : Schema) (document : Tree) :
    (decode d σ document).run {} =
      some ((d.decode σ document).outcome, ({} : Traversal).after (d.decode σ document).events) := by
  let begun : Traversal := ({} : Traversal).after [.started d.root.name d.settings.strict]
  have hstarted : (note (.started d.root.name d.settings.strict)).run {} = some (.ok (), begun) :=
    follows_note rfl rfl {} rfl
  have hrun := follows_run d σ document begun rfl
  rw [decode, run_bind_of_ok hstarted, Decoder.decode]
  rw [Traced.outcome_bind_of_ok (a := ()) rfl, Traced.events_bind_of_ok (a := ()) rfl, after_append]
  cases houtcome : (d.run σ document).outcome with
  | error failure =>
    rw [houtcome] at hrun
    rw [run_bind_of_error hrun, Traced.outcome_bind_of_error houtcome, Traced.events_bind_of_error houtcome]
    rfl
  | ok decoded =>
    rw [houtcome] at hrun
    -- the counts that the last event is given
    have hresolved : (begun.after (d.run σ document).events).resolved =
        Journal.resolvedCount (d.run σ document).events := by
      simp [begun, after, Journal.resolvedCount, Journal.lookups, Event.lookup?]
    have hdropped : (begun.after (d.run σ document).events).dropped = Journal.dropped (d.run σ document).events := by
      simp [begun, after, Journal.dropped, Event.dropped]
    have hfinished (resolved dropped : Nat) :
        Follows .root (note (.finished d.root.name resolved dropped))
          (.note (.finished d.root.name resolved dropped)) :=
      follows_note rfl rfl
    have hend := follows_bind (hfinished (Journal.resolvedCount (d.run σ document).events)
      (Journal.dropped (d.run σ document).events).length) fun _ => follows_pure decoded
    rw [run_bind_of_ok hrun, run_bind_of_ok (run_get _), hresolved, hdropped,
      hend (begun.after (d.run σ document).events) rfl, Traced.outcome_bind_of_ok houtcome,
      Traced.events_bind_of_ok houtcome, after_append]
    rfl

/-- **One path is enough.** In any node, at any depth and in any state, the traversal that keeps one path comes to an
end, and to the same one as the traversal that is told the place of the node, with the same events; the keys dropped
and the names found are those of these events, and the path is the one it began with, after a failure too. Told its
place is every node: of an entry the key has the place of the map, and the value the one below the label of the key
once this is resolved. So a whole decode is the same one, with what it notes at its end. -/
theorem traversal_exact (s : Surroundings) :
    (∀ (depth : Nat) (node : Tree) (st : Traversal),
      let told := s.resolveNode depth ⟨st.path⟩ node
      (resolveNode s depth node).run st = some (told.outcome,
        { path := st.path
          resolved := st.resolved + Journal.resolvedCount told.events
          dropped := st.dropped ++ Journal.dropped told.events
          events := st.events ++ told.events })) ∧
    (∀ (depth : Nat) (place : Place) (done : List (Tree × Tree)) (k v : Tree) (rest : List (Tree × Tree)),
      s.resolveEntries depth place done ((k, v) :: rest) = do
        let key ← s.resolveNode depth place k
        let value ← s.resolveNode depth (place.entry key.label) v
        s.resolveEntries depth place (Tree.insert key value done) rest) ∧
    (∀ (root : Root) (document : Tree),
      let told := Decoder.decode ⟨root, s.context, s.settings⟩ s.schema document
      (decode ⟨root, s.context, s.settings⟩ s.schema document).run {} = some (told.outcome,
        { path := ""
          resolved := Journal.resolvedCount told.events
          dropped := Journal.dropped told.events
          events := told.events })) := by
  refine ⟨fun depth node st => ?_, fun _ _ _ _ _ _ => rfl, fun root document => ?_⟩
  · exact follows_resolveNode node depth ⟨st.path⟩ st rfl
  · rw [run_decode]
    simp [after]

end Traversal

end Provisioning
