import Provisioning.Proofs.Decode.KeyTags
import Provisioning.Proofs.Decode.LostEntries
import Provisioning.Proofs.Decode.Tolerance
import Provisioning.Proofs.Schema.SkippedWays

/-!
# Which keys are reported as dropped

The entries of a document are a stock of ways, and every report of a dropped key takes one of them
(`Traced.Tallies`): what a node has left once it is resolved or built has none of the ways that were taken, so nothing
that comes later can report one of them again. This needs that no text key keeps a tag when the document is resolved
(`Tree.TextKeysLoseTags`). A build looks through the tag of a variant around a key and reports its text, but the
removal finds bare texts only, so such an entry stays and is met again by every build around it.
-/

namespace Provisioning

/-! ## Ways and their texts -/

namespace Place

/-- The place that a way leads to. -/
def along (place : Place) : KeyPath → Place
  | [] => place
  | .key label :: way => (place.entry label).along way
  | .index i :: way => (place.item i).along way
  | .variant :: way => place.along way

/-- A report at a place tells of the entry that a way leads to: it names the place of some node on the way, and the
path to the entry from there. -/
def Tells (place : Place) (way : KeyPath) (text : String) : Prop :=
  ∃ n ≤ way.length, text = (place.along (way.take n)).qualify (KeyPath.render (way.drop n))

variable {place : Place} {way : KeyPath} {text : String}

theorem tells_shown (place : Place) (path : KeyPath) : place.Tells path.shown (place.qualify path.render) :=
  ⟨0, Nat.zero_le _, by rw [List.take_zero, List.drop_zero, KeyPath.render_shown]; rfl⟩

theorem Tells.key {label : String} (h : (place.entry label).Tells way text) : place.Tells (.key label :: way) text := by
  obtain ⟨n, hn, rfl⟩ := h
  exact ⟨n + 1, Nat.succ_le_succ hn, rfl⟩

theorem Tells.index {i : Nat} (h : (place.item i).Tells way text) : place.Tells (.index i :: way) text := by
  obtain ⟨n, hn, rfl⟩ := h
  exact ⟨n + 1, Nat.succ_le_succ hn, rfl⟩

/-- What is reported of paths are the ways that they show. -/
theorem forall₂_tells_qualifyAll (place : Place) (paths : List KeyPath) :
    List.Forall₂ place.Tells (paths.map KeyPath.shown) (place.qualifyAll paths) := by
  rw [qualifyAll, List.forall₂_map_left_iff, List.forall₂_map_right_iff, List.forall₂_same]
  exact fun path _ => tells_shown place path

end Place

/-! ## Computations that take ways from a stock -/

namespace Traced

variable {ε α β : Type} {place : Place} {stock stock' : Multiset KeyPath} {left left' : α → Multiset KeyPath}
  {x : Traced ε α}

/-- The keys that a computation reports as dropped tell ways from a stock, each as often as it is there. If it
succeeds, what its result has left is in the stock besides. -/
def Tallies (place : Place) (stock : Multiset KeyPath) (left : α → Multiset KeyPath) (x : Traced ε α) : Prop :=
  ∃ ways : List KeyPath, List.Forall₂ place.Tells ways (Journal.dropped x.events) ∧ (ways : Multiset KeyPath) ≤ stock ∧
    ∀ a, x.outcome = .ok a → (ways : Multiset KeyPath) + left a ≤ stock

/-- Nothing is reported. -/
theorem tallies_of_quiet (h : Journal.dropped x.events = []) (hleft : ∀ a, x.outcome = .ok a → left a ≤ stock) :
    Tallies place stock left x := by
  refine ⟨[], ?_, zero_le, fun a ha => ?_⟩
  · rw [h]
    exact .nil
  · exact (zero_add (left a)).le.trans (hleft a ha)

theorem tallies_pure {a : α} (h : left a ≤ stock) : Tallies place stock left (pure a : Traced ε α) :=
  tallies_of_quiet rfl fun b hb => by
    obtain rfl := outcome_pure_eq_ok.1 hb
    exact h

theorem tallies_fail {e : ε} : Tallies place stock left (fail e : Traced ε α) := tallies_of_quiet rfl nofun

/-- **One computation after another.** The second one takes from what the first one left. -/
theorem Tallies.bind {f : α → Traced ε β} {left' : β → Multiset KeyPath} (h : Tallies place stock left x)
    (hf : ∀ a, x.outcome = .ok a → Tallies place (left a) left' (f a)) : Tallies place stock left' (x >>= f) := by
  obtain ⟨ways, htells, hways, hleft⟩ := h
  cases hx : x.outcome with
  | error e =>
    refine ⟨ways, ?_, hways, fun b hb => ?_⟩
    · rw [events_bind_of_error hx]
      exact htells
    · rw [outcome_bind_of_error hx] at hb
      exact nomatch hb
  | ok a =>
    obtain ⟨ways', htells', hways', hleft'⟩ := hf a hx
    have hstock := hleft a hx
    refine ⟨ways ++ ways', ?_, ?_, fun b hb => ?_⟩
    · rw [events_bind_of_ok hx, Journal.dropped_append]
      exact List.rel_append htells htells'
    · rw [← Multiset.coe_add]
      exact (add_le_add_right hways' _).trans hstock
    · rw [outcome_bind_of_ok hx] at hb
      rw [← Multiset.coe_add, add_assoc]
      exact (add_le_add_right (hleft' b hb) _).trans hstock

/-- What the computation does not touch stays. -/
theorem Tallies.frame (rest : Multiset KeyPath) (h : Tallies place stock left x) :
    Tallies place (stock + rest) (fun a => left a + rest) x := by
  obtain ⟨ways, htells, hways, hleft⟩ := h
  refine ⟨ways, htells, hways.trans le_self_add, fun a ha => ?_⟩
  rw [← add_assoc]
  exact add_le_add_left (hleft a ha) rest

theorem Tallies.mono (h : Tallies place stock left x) (hstock : stock ≤ stock')
    (hleft : ∀ a, x.outcome = .ok a → left' a ≤ left a) : Tallies place stock' left' x := by
  obtain ⟨ways, htells, hways, htaken⟩ := h
  refine ⟨ways, htells, hways.trans hstock, fun a ha => ?_⟩
  exact (add_le_add_right (hleft a ha) _).trans ((htaken a ha).trans hstock)

/-- Seen from above, all ways begin with the step that leads to the computation. -/
theorem Tallies.below {above : Place} {step : Step}
    (hstep : ∀ {way text}, place.Tells way text → above.Tells (step :: way) text) (h : Tallies place stock left x) :
    Tallies above (stock.map (step :: ·)) (fun a => (left a).map (step :: ·)) x := by
  obtain ⟨ways, htells, hways, hleft⟩ := h
  refine ⟨ways.map (step :: ·), ?_, ?_, fun a ha => ?_⟩
  · rw [List.forall₂_map_left_iff]
    exact htells.imp fun _ _ => hstep
  · exact Multiset.map_le_map hways
  · have htaken := Multiset.map_le_map (f := (step :: ·)) (hleft a ha)
    rw [Multiset.map_add] at htaken
    exact htaken

end Traced

namespace Surroundings

variable {s : Surroundings} {depth : Nat} {place : Place}

/-! ## One build -/

variable {typeName : String} {node rest t : Tree} {shape : Shape} {b : Built Instance}
  {build : Tree → Except DecodeFailure (Built Instance)}

theorem tallies_accept (hkeys : t.Addressable) (hb : s.schema.build t shape = .ok b) :
    Traced.Tallies place t.reportable Tree.reportable (s.accept typeName place t b.skipped) := by
  cases hstrict : s.settings.strict with
  | true =>
    unfold accept
    split
    · exact Traced.tallies_pure (le_refl _)
    · exact Traced.tallies_fail
  | false =>
    obtain ⟨hrest, hdropped⟩ := @accept_of_tolerant s typeName place t hstrict b.skipped
    have hways := Schema.ways_of_build hkeys hb
    refine ⟨b.skipped.map KeyPath.shown, ?_, le_self_add.trans hways, fun rest h => ?_⟩
    · rw [hdropped]
      exact place.forall₂_tells_qualifyAll b.skipped
    · rw [hrest] at h
      obtain rfl := Except.ok.inj h
      rw [(Tree.foldl_remove_reordered b.skipped hkeys.distinctKeys).reportable]
      exact hways

/-- **One build.** What it reports, at one attempt or two, is taken from the ways of the node. -/
theorem tallies_buildChecked (hbuild : ∀ node b, build node = .ok b ↔ s.schema.build node shape = .ok b)
    (hkeys : node.Addressable) :
    Traced.Tallies place node.reportable (fun built => built.2.reportable)
      (s.buildChecked typeName place build node) := by
  have haccept {t : Tree} {b : Built Instance} (ht : t.Addressable) (hb : build t = .ok b) :
      Traced.Tallies place t.reportable (fun built : Instance × Tree => built.2.reportable)
        (s.accept typeName place t b.skipped >>= fun rest => pure (b.value, rest)) :=
    (tallies_accept ht ((hbuild t b).1 hb)).bind fun _ _ => Traced.tallies_pure (le_refl _)
  unfold buildChecked
  cases hb : build node with
  | ok b => exact haccept hkeys hb
  | error failure =>
    dsimp only
    split
    · have hways := node.reportable_withTextKeys
      have hnote : Traced.Tallies place node.reportable (fun _ => node.withTextKeys.reportable)
          (Traced.note (.droppedOtherKeys typeName (place.qualifyAll node.otherKeyPaths)) :
            Traced DecodeFailure Unit) := by
        refine ⟨node.otherKeyPaths.map KeyPath.shown, ?_, le_self_add.trans hways.le, fun _ _ => hways.le⟩
        show List.Forall₂ place.Tells _ (place.qualifyAll node.otherKeyPaths ++ [])
        rw [List.append_nil]
        exact place.forall₂_tells_qualifyAll node.otherKeyPaths
      have hagain : Traced.Tallies place node.withTextKeys.reportable (fun _ => node.withTextKeys.reportable)
          (Traced.ofExcept (build node.withTextKeys)) := Traced.tallies_of_quiet rfl fun _ _ => le_refl _
      exact hnote.bind fun _ _ => hagain.bind fun b hb =>
        haccept ((Tree.sheds_withTextKeys node).addressable hkeys) hb
    · exact Traced.tallies_fail

/-- What is reported of a node as dropped are keys of it, and none of them is left. -/
def DropsReported (place : Place) (node rest : Tree) (events : List Event) : Prop :=
  ∃ others paths : List KeyPath, Journal.dropped events = place.qualifyAll (others ++ paths) ∧
    (others = [] ∨ others = node.otherKeyPaths ∧ rest.hasOtherKeys = false) ∧ paths.Nodup ∧
    ∀ path ∈ paths, node.LeadsTo path ∧ ¬rest.LeadsTo path

/-- The skipped keys of a tree are gone once they are removed. -/
theorem gone_of_accepts (hkeys : t.Addressable) (hb : s.schema.build t shape = .ok b)
    (h : s.Accepts t b.skipped rest) :
    b.skipped.Nodup ∧ ∀ path ∈ b.skipped, t.LeadsTo path ∧ ¬rest.LeadsTo path := by
  obtain ⟨-, rfl⟩ := h
  have hlocated := Schema.located_of_build hkeys hb
  refine ⟨hlocated.nodup, fun path hpath => ⟨hlocated.leads path hpath, fun hlead => ?_⟩⟩
  have hleft := (Tree.foldl_remove_reordered b.skipped hkeys.distinctKeys).leadsTo hlead
  exact t.not_leadsTo_without b.skipped path hpath hleft

theorem dropped_accept {skipped : List KeyPath} (h : (s.accept typeName place t skipped).outcome = .ok rest) :
    Journal.dropped (s.accept typeName place t skipped).events = place.qualifyAll skipped := by
  rcases (accept_eq_ok.1 h).1 with rfl | hstrict
  · rfl
  · exact (accept_of_tolerant hstrict skipped).2

/-- What a build that is accepted leaves of a tree, and what it reports. -/
theorem accepts_of_accepted {x y : Instance} {skipped : List KeyPath}
    (h : (s.accept typeName place t skipped >>= fun rest => pure (y, rest)).outcome = .ok (x, rest)) :
    s.Accepts t skipped rest ∧
      Journal.dropped (s.accept typeName place t skipped >>= fun rest => pure (y, rest)).events =
        place.qualifyAll skipped := by
  obtain ⟨rest', hrest, h⟩ := Traced.outcome_bind_eq_ok.1 h
  obtain ⟨-, rfl⟩ := Prod.mk.inj (Traced.outcome_pure_eq_ok.1 h)
  refine ⟨accept_eq_ok.1 hrest, ?_⟩
  rw [Traced.events_bind_of_ok hrest, Traced.events_pure, List.append_nil]
  exact dropped_accept hrest

/-- **What is reported is gone.** -/
theorem dropsReported_buildChecked {x : Instance}
    (hbuild : ∀ node b, build node = .ok b ↔ s.schema.build node shape = .ok b) (hkeys : node.Addressable)
    (h : (s.buildChecked typeName place build node).outcome = .ok (x, rest)) :
    DropsReported place node rest (s.buildChecked typeName place build node).events := by
  unfold buildChecked at h ⊢
  cases hb : build node with
  | ok b =>
    rw [hb] at h
    obtain ⟨haccepts, hdropped⟩ := accepts_of_accepted h
    exact ⟨[], b.skipped, hdropped, .inl rfl, gone_of_accepts hkeys ((hbuild _ _).1 hb) haccepts⟩
  | error failure =>
    rw [hb] at h
    dsimp only at h ⊢
    split at h
    · rename_i hretry
      rw [if_pos hretry]
      have hsheds := Tree.sheds_withTextKeys node
      obtain ⟨_, hnote, h⟩ := Traced.outcome_bind_eq_ok.1 h
      obtain ⟨b, hagain, h⟩ := Traced.outcome_bind_eq_ok.1 h
      obtain ⟨haccepts, hdropped⟩ := accepts_of_accepted h
      obtain ⟨hnodup, hgone⟩ := gone_of_accepts (hsheds.addressable hkeys) ((hbuild _ _).1 hagain) haccepts
      refine ⟨node.otherKeyPaths, b.skipped, ?_, .inr ⟨rfl, ?_⟩, hnodup, fun path hpath => ?_⟩
      · rw [Traced.events_bind_of_ok hnote, Traced.events_bind_of_ok hagain, Journal.dropped_append,
          Journal.dropped_append, hdropped, Place.qualifyAll, Place.qualifyAll, Place.qualifyAll, List.map_append]
        exact congrArg (· ++ _) (List.append_nil _)
      · rw [haccepts.2]
        exact (Tree.sheds_foldl_remove _ _).hasOtherKeys_eq_false node.hasOtherKeys_withTextKeys
      · exact ⟨hsheds.leadsTo (hgone path hpath).1, (hgone path hpath).2⟩
    · cases h

theorem dropsReported_buildNested {d : Descriptor} (hkeys : node.Addressable)
    (h : (s.buildNested d place node).outcome = .ok rest) :
    DropsReported place node rest (s.buildNested d place node).events := by
  obtain ⟨_, hnote, h⟩ := Traced.outcome_bind_eq_ok.1 h
  obtain ⟨built, hbuilt, h⟩ := Traced.outcome_bind_eq_ok.1 h
  obtain rfl := Traced.outcome_pure_eq_ok.1 h
  obtain ⟨others, paths, hdropped, hgone⟩ :=
    dropsReported_buildChecked (fun _ _ => mapError_build_eq_ok) hkeys hbuilt
  refine ⟨others, paths, ?_, hgone⟩
  rw [← hdropped, buildNested, Traced.events_bind_of_ok hnote, Traced.events_bind_of_ok hbuilt, Traced.events_pure,
    List.append_nil]
  rfl

/-! ## The whole traversal -/

/-- What is reported of a node, at whatever depth and place, is taken from its ways. -/
def Tallied (s : Surroundings) (t : Tree) : Prop :=
  ∀ depth place, Traced.Tallies place t.entryWays Tree.reportable (s.resolveNode depth place t)

theorem tallies_checkDepth (stock : Multiset KeyPath) :
    Traced.Tallies place stock (fun _ => stock) (s.checkDepth depth place) := by
  unfold checkDepth
  split
  · exact Traced.tallies_fail
  · exact Traced.tallies_pure (le_refl _)

theorem tallies_lookUp (name : String) (stock : Multiset KeyPath) :
    Traced.Tallies place stock (fun _ => stock) (s.lookUp name place) := by
  unfold lookUp
  split <;> exact Traced.tallies_of_quiet rfl fun _ _ => le_refl _

theorem tallies_buildNested (d : Descriptor) (hkeys : node.Addressable) :
    Traced.Tallies place node.reportable Tree.reportable (s.buildNested d place node) := by
  have hnote : Traced.Tallies place node.reportable (fun _ => node.reportable)
      (Traced.note (.resolvedNode d.name place.describe) : Traced DecodeFailure Unit) :=
    Traced.tallies_of_quiet rfl fun _ _ => le_refl _
  exact hnote.bind fun _ _ => (tallies_buildChecked (fun _ _ => mapError_build_eq_ok) hkeys).bind
    fun _ _ => Traced.tallies_pure (le_refl _)

theorem tallies_resolveItems {items : List Tree} (ih : ∀ t ∈ items, s.Tallied t) (depth : Nat) (place : Place) :
    ∀ position, Traced.Tallies place (Tree.itemsEntryWays position items) (Tree.itemsReportable position)
      (s.resolveItems depth place position items) := by
  induction items with
  | nil => exact fun _ => Traced.tallies_pure (le_refl _)
  | cons t ts ihts =>
    intro position
    obtain ⟨ht, hts⟩ := List.forall_mem_cons.1 ih
    have hfirst := ((ht depth (place.item position)).below Place.Tells.index).frame
      (Tree.itemsEntryWays (position + 1) ts)
    refine hfirst.bind fun u _ => ?_
    have hrest := (ihts hts (position + 1)).frame (u.reportable.map (.index position :: ·))
    rw [add_comm (Tree.itemsEntryWays _ _)] at hrest
    exact hrest.bind fun us _ => Traced.tallies_pure (add_comm _ _).le

/-- The ways below a key are those below what the key is called, and what comes to stand there brings no others. -/
theorem tallies_resolveEntries {entries : List (Tree × Tree)} (ih : ∀ e ∈ entries, s.Tallied e.1 ∧ s.Tallied e.2)
    (depth : Nat) (place : Place) :
    ∀ done, Traced.Tallies place (Tree.entriesReportable done + Tree.entriesEntryWays entries) Tree.entriesReportable
      (s.resolveEntries depth place done entries) := by
  induction entries with
  | nil => exact fun done => Traced.tallies_pure le_self_add
  | cons e rest ihrest =>
    intro done
    obtain ⟨k, v⟩ := e
    obtain ⟨⟨hk, hv⟩, hrest⟩ := List.forall_mem_cons.1 ih
    dsimp only at hk hv
    rw [Tree.entriesEntryWays]
    -- nothing that is left in the key can be reported
    have hkey : Traced.Tallies place k.entryWays (fun _ => 0) (s.resolveNode depth place k) :=
      (hk depth place).mono (le_refl _) fun _ _ => zero_le
    have hframed := hkey.frame
      (Tree.entriesReportable done + KeyPath.fromKey k.bare.label v.entryWays + Tree.entriesEntryWays rest)
    refine (hframed.mono (le_of_eq (by abel)) fun _ _ => le_refl _).bind fun key hkeyResolves => ?_
    have hlabel : key.label = k.bare.label := (settling k _ _ ((placeless k _ _ _).1 hkeyResolves)).2.label_eq
    rw [← hlabel]
    have hvalue := ((hv depth (place.entry key.label)).below Place.Tells.key).frame
      ({[.key key.label]} + Tree.entriesReportable done + Tree.entriesEntryWays rest)
    refine (hvalue.mono (le_of_eq (by rw [KeyPath.fromKey]; abel)) fun _ _ => le_refl _).bind fun value _ => ?_
    refine (ihrest hrest _).mono ?_ fun _ _ => le_refl _
    refine (add_le_add_left (Tree.reportable_insert_le key value done) _).trans (le_of_eq ?_)
    rw [KeyPath.fromKey]
    abel

/-- **The whole traversal.** -/
theorem tallied (t : Tree) : t.TextKeysLoseTags → s.Tallied t := by
  induction t using Tree.induct with
  | null | flag | number | text =>
    exact fun _ depth place => (tallies_checkDepth _).bind fun _ _ => Traced.tallies_pure (le_refl _)
  | list items ih =>
    intro hkeys depth place
    rw [Tree.textKeysLoseTags_list] at hkeys
    have hitems := tallies_resolveItems (fun t ht => ih t ht (hkeys t ht)) (depth + 1) place 0
    exact (tallies_checkDepth _).bind fun _ _ => hitems.bind fun _ _ => Traced.tallies_pure (le_refl _)
  | map entries ih =>
    intro hkeys depth place
    have hbelow := (Tree.textKeysLoseTags_map.1 hkeys).2
    have hentries := tallies_resolveEntries
      (fun e he => ⟨(ih e he).1 (hbelow e he).1, (ih e he).2 (hbelow e he).2⟩) (depth + 1) place []
    rw [Tree.entriesReportable, zero_add] at hentries
    exact (tallies_checkDepth _).bind fun _ _ => hentries.bind fun _ _ => Traced.tallies_pure (le_refl _)
  | tagged tag content ih =>
    intro hkeys depth place
    rw [Tree.textKeysLoseTags_tagged] at hkeys
    have hcontent := ih hkeys (depth + 1) place
    refine (tallies_checkDepth _).bind fun _ _ => ?_
    cases hrole : TagRole.ofTag tag with
    | core => exact hcontent
    | variant => exact hcontent.bind fun _ _ => Traced.tallies_pure (le_refl _)
    | type name =>
      refine (tallies_lookUp name _).bind fun d _ => hcontent.bind fun inner hinner => ?_
      exact tallies_buildNested d (addressable_of_resolves hkeys ((placeless content _ _ _).1 hinner))

/-- The document as a whole, less a type tag at its root. -/
theorem tallies_resolveRoot {document : Tree} (hkeys : document.TextKeysLoseTags) :
    Traced.Tallies .root document.entryWays (fun resolved => resolved.tree.reportable) (s.resolveRoot document) := by
  cases hroot : document.rootType? with
  | none =>
    rw [resolveRoot_of_none hroot]
    exact (tallied document hkeys 0 .root).bind fun _ _ => Traced.tallies_pure (le_refl _)
  | some root =>
    rw [resolveRoot_of_type hroot]
    obtain ⟨tag, hrole, rfl⟩ := Tree.eq_of_rootType? hroot
    exact (tallies_lookUp _ _).bind fun _ _ => (tallied root.2 (Tree.textKeysLoseTags_tagged.1 hkeys) 1 .root).bind
      fun _ _ => Traced.tallies_pure (le_refl _)

end Surroundings

namespace Decoder

variable {σ : Schema}

/-- The build of the type at the root leaves to the build of the root type what it did not report. -/
theorem tallies_finishTyped (s : Surroundings) (decl : TypeDecl) {resolved : Surroundings.ResolvedRoot}
    (hkeys : resolved.tree.Addressable) :
    Traced.Tallies .root resolved.tree.reportable (fun _ => 0) (finishTyped s decl resolved) := by
  have hbuild (typeName : String) (decl : TypeDecl) {tree : Tree} (htree : tree.Addressable) :
      Traced.Tallies .root tree.reportable (fun built => built.2.reportable)
        (s.buildChecked typeName .root (s.build decl) tree) :=
    Surroundings.tallies_buildChecked (fun _ _ => Surroundings.build_eq_ok) htree
  cases resolved with
  | plain tree => exact (hbuild _ _ hkeys).bind fun _ _ => Traced.tallies_pure zero_le
  | typed d content =>
    refine (hbuild _ _ hkeys).bind fun built hbuilt => ?_
    split
    · exact Traced.tallies_pure zero_le
    · have hsheds := (Surroundings.buildChecked_build_eq_ok.1 hbuilt).sheds
      exact (hbuild _ _ (hsheds.addressable hkeys)).bind fun _ _ => Traced.tallies_pure zero_le

theorem tallies_finishAny (s : Surroundings) {resolved : Surroundings.ResolvedRoot}
    (hkeys : resolved.tree.Addressable) :
    Traced.Tallies .root resolved.tree.reportable (fun _ => 0) (finishAny s resolved) := by
  cases resolved with
  | plain tree => exact Traced.tallies_pure zero_le
  | typed d content =>
    exact (Surroundings.tallies_buildChecked (fun _ _ => Surroundings.build_eq_ok) hkeys).bind
      fun _ _ => Traced.tallies_pure zero_le

theorem tallies_run (d : Decoder) {document : Tree} (hkeys : document.TextKeysLoseTags) :
    Traced.Tallies .root document.entryWays (fun _ => 0) (d.run σ document) := by
  refine (Surroundings.tallies_resolveRoot hkeys).bind fun resolved hresolved => ?_
  have htree := Surroundings.addressable_of_resolveRoot hkeys hresolved
  cases d.root with
  | type decl => exact (tallies_finishTyped _ decl htree).bind fun _ _ => Traced.tallies_pure (le_refl _)
  | any => exact tallies_finishAny _ htree

theorem tallies_decode (d : Decoder) {document : Tree} (hkeys : document.TextKeysLoseTags) :
    Traced.Tallies .root document.entryWays (fun _ => 0) (d.decode σ document) := by
  have hquiet (event : Event) (hevent : event.dropped = []) (stock : Multiset KeyPath) :
      Traced.Tallies .root stock (fun _ => stock) (Traced.note event : Traced DecodeFailure Unit) := by
    refine Traced.tallies_of_quiet ?_ fun _ _ => le_refl _
    exact List.flatMap_eq_nil_iff.2 fun e he => List.mem_singleton.1 he ▸ hevent
  exact (hquiet _ rfl _).bind fun _ _ => (tallies_run d hkeys).bind fun _ _ =>
    (hquiet _ rfl _).bind fun _ _ => Traced.tallies_pure (le_refl _)

/-- **A dropped key is gone.** Let no text key of a document keep a tag when it is resolved. Then a decode reports no
entry as dropped more than once, whether it succeeds or fails: its reports tell different entries of the document. If
it succeeds, its last event counts them. And where a tagged node is built, at the root or below it, the keys that are
reported are keys of the node, and none of them is left in what the decode goes on with. -/
theorem decode_reports_once (σ : Schema) (root : Root) (context : Context) (settings : Settings) (document : Tree)
    (hkeys : document.TextKeysLoseTags) :
    let s : Surroundings := ⟨σ, context, settings⟩
    let decoded := decode ⟨root, context, settings⟩ σ document
    (∃ ways : List KeyPath, (ways : Multiset KeyPath) ≤ document.entryWays ∧
      List.Forall₂ Place.root.Tells ways (Journal.dropped decoded.events) ∧
      ∀ r, decoded.outcome = .ok r →
        ∃ resolved, decoded.events.getLast? = some (.finished root.name resolved ways.length)) ∧
    ∀ tag content, .tagged tag content ∈ document.nodes →
      ∀ depth inner d place rest, s.Resolves depth content inner →
        ((s.buildNested d place inner).outcome = .ok rest →
          Surroundings.DropsReported place inner rest (s.buildNested d place inner).events) ∧
        ∀ x, (s.buildChecked d.name place (s.build d.decl) inner).outcome = .ok (x, rest) →
          Surroundings.DropsReported place inner rest (s.buildChecked d.name place (s.build d.decl) inner).events := by
  intro s decoded
  obtain ⟨ways, htells, hways, -⟩ := tallies_decode (σ := σ) ⟨root, context, settings⟩ hkeys
  refine ⟨⟨ways, hways, htells, fun r h => ?_⟩, fun tag content hnode depth inner d place rest hinner => ?_⟩
  · have hrun := decode_eq_ok.1 h
    rw [events_decode hrun, List.getLast?_concat, htells.length_eq, dropped_decode hrun]
    exact ⟨_, rfl⟩
  · have hcontent := Tree.textKeysLoseTags_tagged.1 (Tree.forall_nodes_of_forall_nodes hkeys _ hnode)
    have hkeys' := Surroundings.addressable_of_resolves hcontent hinner
    exact ⟨fun h => Surroundings.dropsReported_buildNested hkeys' h, fun x h =>
      Surroundings.dropsReported_buildChecked (fun _ _ => Surroundings.build_eq_ok) hkeys' h⟩

/-- A server with a key that no server has, and on it a disk with two that no disk has, one of them a number. -/
def crowdedServer : Tree := .map [
  (.text "name", .text "s"),
  (.text "disks", .list [.tagged "test.Disk" (.map [(.number (.integer 0), .text "junk"),
    (.text "rpm", .number (.integer 7200)), (.text "size_gb", .number (.integer 1))])]),
  (.text "rack", .text "r1")]

/-- Each of the three is reported once. -/
theorem decode_reports_once_crowdedServer :
    let decoded := decode ⟨.type Samples.server, disks, ⟨false, 64⟩⟩ Samples.schema crowdedServer
    crowdedServer.TextKeysLoseTags ∧
    Journal.dropped decoded.events = ["disks[0].0", "disks[0].rpm", "rack"] ∧
    ∃ ways : List KeyPath, (ways : Multiset KeyPath) ≤ crowdedServer.entryWays ∧
      List.Forall₂ Place.root.Tells ways (Journal.dropped decoded.events) ∧
      ∀ r, decoded.outcome = .ok r →
        ∃ resolved, decoded.events.getLast? = some (.finished "test.Server" resolved ways.length) := by
  intro decoded
  have hkeys : crowdedServer.TextKeysLoseTags := by decide
  exact ⟨hkeys, rfl,
    (decode_reports_once Samples.schema (.type Samples.server) disks ⟨false, 64⟩ crowdedServer hkeys).1⟩

/-- The context that knows the sample record that holds its like. -/
def nodesOnly : Context := .layer (.ofList [("test.Node", .own Samples.node)]) .nothing

/-- A record in another one, with two keys that no such record has, and each of them has a tag. -/
def taggedChild : Tree := .map [(.text "child", .tagged "test.Node" (.map [
  (.tagged "k" (.text "a"), .number (.integer 1)), (.tagged "k" (.text "b"), .number (.integer 2))]))]

/-- The build of the record reports both keys, and so does the build around it: there are fewer entries than reports. -/
theorem tagged_keys_reported_again :
    let decoded := decode ⟨.type Samples.node, nodesOnly, ⟨false, 64⟩⟩ Samples.schema taggedChild
    Journal.dropped decoded.events = ["child.a", "child.b", "child.a", "child.b"] ∧
    decoded.events.getLast? = some (.finished "test.Node" 1 4) ∧ taggedChild.entryCount = 3 ∧
    ¬∃ ways : List KeyPath, (ways : Multiset KeyPath) ≤ taggedChild.entryWays ∧
      List.Forall₂ Place.root.Tells ways (Journal.dropped decoded.events) := by
  intro decoded
  have hdropped : Journal.dropped decoded.events = ["child.a", "child.b", "child.a", "child.b"] := by rfl
  have hcount : taggedChild.entryCount = 3 := by rfl
  refine ⟨hdropped, rfl, hcount, fun ⟨ways, hways, htells⟩ => ?_⟩
  have hle := Multiset.card_le_card hways
  rw [Tree.card_entryWays, hcount, Multiset.coe_card, htells.length_eq, hdropped] at hle
  exact absurd hle (by decide)

end Decoder

end Provisioning
