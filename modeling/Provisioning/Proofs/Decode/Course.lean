import Provisioning.Proofs.Decode.Settled

/-!
# The order in which a decode looks names up and builds nodes

A traversal meets the type tags of a document from the outside in: a tag before its content, a key before its value.
It looks up the name in each of them once. The nodes are built from the inside out, once everything below them is
resolved. `Course` says both of any computation, and of one that fails how far it got with the names.
-/

namespace Provisioning

namespace Tree

/-! ## Nodes behind those below them -/

mutual

/-- A tree and every node below it with the places where they stand, each behind those below it and each map key
before its value. -/
def postorder (place : Place) : Tree → List (Place × Tree)
  | .list items => itemsPostorder place 0 items ++ [(place, .list items)]
  | .map entries => entriesPostorder place entries ++ [(place, .map entries)]
  | .tagged tag content => postorder place content ++ [(place, .tagged tag content)]
  | t => [(place, t)]

/-- The nodes of the items of a list, the first of which stands at `position`. -/
def itemsPostorder (place : Place) (position : Nat) : List Tree → List (Place × Tree)
  | [] => []
  | t :: ts => postorder (place.item position) t ++ itemsPostorder place (position + 1) ts

/-- The nodes of map entries. A key stands where its map stands, and a value below what its key is called without
tags. -/
def entriesPostorder (place : Place) : List (Tree × Tree) → List (Place × Tree)
  | [] => []
  | (k, v) :: es => postorder place k ++ (postorder (place.entry k.bare.label) v ++ entriesPostorder place es)

end

/-- The type tags of nodes, with the places of the nodes. -/
def typedAmong (nodes : List (Place × Tree)) : List (String × Place) :=
  nodes.filterMap fun n => n.2.typeTag?.map fun name => (name, n.1)

theorem typedAmong_append (ns ms : List (Place × Tree)) :
    typedAmong (ns ++ ms) = typedAmong ns ++ typedAmong ms := List.filterMap_append

theorem typedAmong_concat_of_type {tag name : String} (h : TagRole.ofTag tag = .type name)
    (ns : List (Place × Tree)) (place : Place) (content : Tree) :
    typedAmong (ns ++ [(place, .tagged tag content)]) = typedAmong ns ++ [(name, place)] := by
  have htag : (Tree.tagged tag content).typeTag? = some name := by rw [typeTag?, h]
  rw [typedAmong_append, typedAmong, typedAmong, List.filterMap_cons, htag]
  rfl

theorem typedAmong_concat_of_none {t : Tree} (h : t.typeTag? = none) (ns : List (Place × Tree)) (place : Place) :
    typedAmong (ns ++ [(place, t)]) = typedAmong ns := by
  rw [typedAmong_append, typedAmong, typedAmong, List.filterMap_cons, h]
  exact List.append_nil _

/-- The type-tagged nodes of a document but for its root, each behind those below it. -/
def builtNodes (document : Tree) : List (String × Place) := typedAmong (document.postorder .root).dropLast

theorem builtNodes_tagged (tag : String) (content : Tree) :
    (Tree.tagged tag content).builtNodes = typedAmong (content.postorder .root) := by
  rw [builtNodes, postorder, List.dropLast_concat]

theorem typeTag?_of_rootType? {document : Tree} (h : document.rootType? = none) : document.typeTag? = none := by
  cases document with
  | tagged tag content => exact typeTag?_eq_none fun name hname => by simp [rootType?, hname] at h
  | _ => rfl

/-- A root that names no type would not be among them anyway. -/
theorem builtNodes_of_none {document : Tree} (h : document.typeTag? = none) :
    document.builtNodes = typedAmong (document.postorder .root) := by
  obtain ⟨below, hbelow⟩ : ∃ below, document.postorder .root = below ++ [(Place.root, document)] := by
    cases document with
    | null | flag | number | text => exact ⟨[], rfl⟩
    | list | map | tagged => exact ⟨_, rfl⟩
  rw [builtNodes, hbelow, List.dropLast_concat, typedAmong_concat_of_none h]

end Tree

/-! ## What a computation is asked to look up and to build -/

/-- The type name and the place of a tagged node that is built. -/
def Event.builtNode? : Event → Option (String × String)
  | .resolvedNode typeName place => some (typeName, place)
  | _ => none

/-- The tagged nodes that were built, in order. -/
def Journal.builtNodes (events : List Event) : List (String × String) := events.filterMap Event.builtNode?

/-- How the building of a node at a place is noted: with the name of the type that the context knows. -/
def Context.report (c : Context) (node : String × Place) : Option (String × String) :=
  (c.resolve node.1).map fun d => (d.name, node.2.describe)

variable {α β : Type} {c : Context} {names names' : List String} {nodes nodes' : List (String × Place)}

/-- The course of a computation that has names to look up and nodes to build, both in order. -/
inductive Course (c : Context) (names : List String) (nodes : List (String × Place)) :
    Traced DecodeFailure α → Prop
  /-- It knows all names and builds all nodes. -/
  | through {events : List Event} (a : α) : (∀ name ∈ names, (c.resolve name).isSome) →
      Journal.lookups events = names.map (·, true) →
      (Journal.builtNodes events).map some = nodes.map c.report → Course c names nodes ⟨events, .ok a⟩
  /-- It fails on the way for a reason that has nothing to do with names. -/
  | stopped {events : List Event} {asked rest : List String} {f : DecodeFailure} : names = asked ++ rest →
      (∀ name ∈ asked, (c.resolve name).isSome) → Journal.lookups events = asked.map (·, true) →
      f.toFault.rootKind ≠ .typeResolution → Course c names nodes ⟨events, .error f⟩
  /-- It fails at the first name that is not known. -/
  | missed {events : List Event} {asked rest : List String} {name : String} {f : DecodeFailure} :
      names = asked ++ name :: rest → (∀ name ∈ asked, (c.resolve name).isSome) → c.resolve name = none →
      Journal.lookups events = asked.map (·, true) ++ [(name, false)] →
      f.toFault.rootKind = .typeResolution → Course c names nodes ⟨events, .error f⟩

namespace Course

theorem of_pure (a : α) : Course c [] [] (pure a : Traced DecodeFailure α) := .through a (by simp) rfl rfl

theorem of_fail {f : DecodeFailure} (h : f.toFault.rootKind ≠ .typeResolution) :
    Course c names nodes (Traced.fail f : Traced DecodeFailure α) :=
  .stopped (List.nil_append names).symm (by simp) rfl h

theorem of_except {outcome : Except DecodeFailure α}
    (h : ∀ f, outcome = .error f → f.toFault.rootKind ≠ .typeResolution) :
    Course c [] [] (Traced.ofExcept outcome) := by
  cases outcome with
  | ok a => exact .of_pure a
  | error f => exact .of_fail (h f rfl)

theorem of_note {event : Event} (hlookup : event.lookup? = none) (hbuilt : event.builtNode? = none) :
    Course c [] [] (Traced.note event : Traced DecodeFailure Unit) := by
  refine .through () (by simp) ?_ ?_
  · exact List.filterMap_cons_none hlookup
  · rw [Journal.builtNodes, List.filterMap_cons_none hbuilt]
    rfl

/-- **One computation after another.** What the second is asked for comes behind what the first is asked for. -/
theorem bind {x : Traced DecodeFailure α} {f : α → Traced DecodeFailure β} (h : Course c names nodes x)
    (hf : ∀ a, x.outcome = .ok a → Course c names' nodes' (f a)) :
    Course c (names ++ names') (nodes ++ nodes') (x >>= f) := by
  have hlookups : ∀ events events', Journal.lookups (events ++ events') =
      Journal.lookups events ++ Journal.lookups events' := fun _ _ => List.filterMap_append
  cases h with
  | @through events a hknown hasked hbuilt =>
    have hx : ((⟨events, .ok a⟩ : Traced DecodeFailure α) >>= f) = ⟨events ++ (f a).events, (f a).outcome⟩ := rfl
    have ha := hf a rfl
    -- the second one goes on where the first one got through, so all names of the first are behind it
    rw [hx]
    generalize f a = y at ha ⊢
    cases ha with
    | through b hknown' hasked' hbuilt' =>
      refine .through b (List.forall_mem_append.2 ⟨hknown, hknown'⟩) ?_ ?_
      · rw [hlookups, hasked, hasked', List.map_append]
      · rw [Journal.builtNodes, List.filterMap_append, List.map_append, List.map_append]
        exact congrArg₂ _ hbuilt hbuilt'
    | @stopped events' asked rest _ hnames hknown' hasked' hkind =>
      have hsplit : names ++ names' = (names ++ asked) ++ rest := by rw [hnames, List.append_assoc]
      refine .stopped hsplit (List.forall_mem_append.2 ⟨hknown, hknown'⟩) ?_ hkind
      rw [hlookups, hasked, hasked', List.map_append]
    | @missed events' asked rest name _ hnames hknown' hmiss hasked' hkind =>
      have hsplit : names ++ names' = (names ++ asked) ++ name :: rest := by rw [hnames, List.append_assoc]
      refine .missed hsplit (List.forall_mem_append.2 ⟨hknown, hknown'⟩) hmiss ?_ hkind
      rw [hlookups, hasked, hasked', List.map_append, List.append_assoc]
  -- a failure keeps its course, whatever else is still to be looked up
  | @stopped events asked rest _ hnames hknown hasked hkind =>
    have hsplit : names ++ names' = asked ++ (rest ++ names') := by rw [hnames, List.append_assoc]
    exact .stopped hsplit hknown hasked hkind
  | @missed events asked rest name _ hnames hknown hmiss hasked hkind =>
    have hsplit : names ++ names' = asked ++ name :: (rest ++ names') := by rw [hnames, List.append_assoc]; rfl
    exact .missed hsplit hknown hmiss hasked hkind

/-- Nothing was looked up or built so far. -/
theorem bind_first {x : Traced DecodeFailure α} {f : α → Traced DecodeFailure β} (h : Course c [] [] x)
    (hf : ∀ a, Course c names nodes (f a)) : Course c names nodes (x >>= f) := h.bind fun a _ => hf a

/-- Nothing is left to look up or to build. -/
theorem bind_rest {x : Traced DecodeFailure α} {f : α → Traced DecodeFailure β} (h : Course c names nodes x)
    (hf : ∀ a, Course c [] [] (f a)) : Course c names nodes (x >>= f) := by
  rw [← List.append_nil names, ← List.append_nil nodes]
  exact h.bind fun a _ => hf a

/-! ## How far a course got -/

variable {x : Traced DecodeFailure α}

theorem map_fst_found (asked : List String) : (asked.map (·, true)).map (·.1) = asked := by
  rw [List.map_map]
  exact List.map_id asked

theorem forall_found (asked : List String) : ∀ l ∈ asked.map (·, true), l.2 = true := by
  intro l hl
  obtain ⟨name, -, rfl⟩ := List.mem_map.1 hl
  rfl

/-- A look-up is noted as found exactly if the context knows the name. -/
theorem found_eq (h : Course c names nodes x) :
    ∀ l ∈ Journal.lookups x.events, l.2 = (c.resolve l.1).isSome := by
  have hall : ∀ asked : List String, (∀ name ∈ asked, (c.resolve name).isSome) →
      ∀ l ∈ asked.map (·, true), l.2 = (c.resolve l.1).isSome := by
    intro asked hknown l hl
    obtain ⟨name, hname, rfl⟩ := List.mem_map.1 hl
    exact (hknown name hname).symm
  cases h with
  | through a hknown hasked =>
    rw [hasked]
    exact hall _ hknown
  | stopped hnames hknown hasked =>
    rw [hasked]
    exact hall _ hknown
  | missed hnames hknown hmiss hasked =>
    rw [hasked]
    refine List.forall_mem_append.2 ⟨hall _ hknown, List.forall_mem_singleton.2 ?_⟩
    rw [hmiss]
    rfl

theorem of_ok (h : Course c names nodes x) {a : α} (hx : x.outcome = .ok a) :
    Journal.lookups x.events = names.map (·, true) ∧
      (Journal.builtNodes x.events).map some = nodes.map c.report := by
  cases h with
  | through _ _ hasked hbuilt => exact ⟨hasked, hbuilt⟩
  | stopped | missed => cases hx

/-- A failure looked up some of the names, from the first one on. All are known, but for the last one if the failure
is that it is not. -/
theorem of_error (h : Course c names nodes x) {f : DecodeFailure} (hx : x.outcome = .error f) :
    (Journal.lookups x.events).map (·.1) <+: names ∧ (∀ l ∈ (Journal.lookups x.events).dropLast, l.2 = true) ∧
      ((∃ l ∈ (Journal.lookups x.events).getLast?, l.2 = false) ↔ f.toFault.rootKind = .typeResolution) := by
  cases h with
  | through => cases hx
  | @stopped _ asked rest _ hnames hknown hasked hkind =>
    obtain rfl := Except.error.inj hx
    rw [hasked, map_fst_found, hnames]
    refine ⟨List.prefix_append _ _, fun l hl => ?_, fun hlast => ?_, fun heq => absurd heq hkind⟩
    · exact forall_found asked l ((List.dropLast_sublist _).subset hl)
    · obtain ⟨l, hl, hmissed⟩ := hlast
      rw [forall_found asked l (List.mem_of_getLast? hl)] at hmissed
      cases hmissed
  | @missed _ asked rest name _ hnames hknown hmiss hasked hkind =>
    obtain rfl := Except.error.inj hx
    rw [hasked, List.map_append, map_fst_found, hnames, List.dropLast_concat, List.getLast?_concat]
    refine ⟨?_, forall_found asked, fun _ => hkind, fun _ => ⟨_, rfl, rfl⟩⟩
    exact ⟨rest, by rw [List.append_assoc]; rfl⟩

end Course

namespace Surroundings

variable {s : Surroundings} {place : Place}

/-! ## One step -/

theorem course_lookUp (name : String) : Course s.context [name] [] (s.lookUp name place) := by
  unfold lookUp
  split
  · rename_i d hd
    refine .through d (List.forall_mem_singleton.2 ?_) rfl rfl
    rw [hd]
    rfl
  · rename_i hmiss
    have hsplit : [name] = [] ++ name :: [] := rfl
    exact .missed hsplit (by simp) hmiss rfl rfl

theorem course_checkDepth (depth : Nat) : Course c [] [] (s.checkDepth depth place) := by
  unfold checkDepth
  split
  · exact .of_fail nofun
  · exact .of_pure ()

theorem course_accept (typeName : String) (node : Tree) (skipped : List KeyPath) :
    Course c [] [] (s.accept typeName place node skipped) := by
  unfold accept
  split
  · exact .of_pure _
  · dsimp only
    split
    · exact .of_fail nofun
    · exact .through _ (by simp) rfl rfl

/-- However often a node is built, no name is looked up for it. -/
theorem course_buildChecked (typeName : String) {build : Tree → Except DecodeFailure (Built Instance)}
    (hbuild : ∀ node f, build node = .error f → f.toFault.rootKind ≠ .typeResolution) (node : Tree) :
    Course c [] [] (s.buildChecked typeName place build node) := by
  have haccept : ∀ t (built : Built Instance), Course c [] []
      (s.accept typeName place t built.skipped >>= fun rest => pure (built.value, rest)) := fun t built =>
    (course_accept typeName t built.skipped).bind_rest fun _ => .of_pure _
  unfold buildChecked
  split
  · exact haccept _ _
  · rename_i failure hfailure
    split
    · exact (Course.of_note rfl rfl).bind_rest fun _ => (Course.of_except (hbuild _)).bind_rest fun built =>
        haccept _ built
    · exact .of_fail (hbuild _ failure hfailure)

/-- A type says of a node that does not fit what is wrong with it. -/
theorem build_eq_error {decl : TypeDecl} {node : Tree} {f : DecodeFailure} (h : s.build decl node = .error f) :
    ∃ reason, s.schema.build node decl.shape = .error reason ∧ f = .unbuildable decl.name reason := by
  unfold build at h
  split at h
  · cases h
  · rename_i reason hreason
    exact ⟨reason, hreason, (Except.error.inj h).symm⟩

theorem course_buildChecked_build (typeName : String) (decl : TypeDecl) (node : Tree) :
    Course c [] [] (s.buildChecked typeName place (s.build decl) node) := by
  refine course_buildChecked typeName (fun node f hf => ?_) node
  obtain ⟨reason, -, rfl⟩ := build_eq_error hf
  nofun

theorem course_buildNested {name : String} {d : Descriptor} (h : c.resolve name = some d) (content : Tree) :
    Course c [] [(name, place)] (s.buildNested d place content) := by
  have hnote : Course c [] [(name, place)]
      (Traced.note (.resolvedNode d.name place.describe) : Traced DecodeFailure Unit) := by
    refine .through () (by simp) rfl ?_
    rw [List.map_singleton, Context.report, h]
    rfl
  refine hnote.bind_rest fun _ => (course_buildChecked d.name (fun node f hf => ?_) content).bind_rest
    fun _ => .of_pure _
  cases hb : s.build d.decl node with
  | ok built =>
    rw [hb] at hf
    cases hf
  | error inner =>
    obtain ⟨reason, -, rfl⟩ := build_eq_error hb
    rw [hb] at hf
    obtain rfl := Except.error.inj hf
    nofun

/-! ## The whole traversal -/

/-- A node is traversed in this order, at whatever depth and place. -/
def Ordered (s : Surroundings) (t : Tree) : Prop :=
  ∀ depth place, Course s.context t.typeTags (Tree.typedAmong (t.postorder place)) (s.resolveNode depth place t)

theorem course_resolveItems {items : List Tree} (ih : ∀ t ∈ items, s.Ordered t) (depth : Nat) (place : Place) :
    ∀ position, Course s.context (items.flatMap Tree.typeTags)
      (Tree.typedAmong (Tree.itemsPostorder place position items)) (s.resolveItems depth place position items) := by
  induction items with
  | nil => exact fun _ => .of_pure _
  | cons t ts ihts =>
    intro position
    have hts := ihts (fun u hu => ih u (List.mem_cons_of_mem _ hu)) (position + 1)
    rw [List.flatMap_cons, Tree.itemsPostorder, Tree.typedAmong_append]
    exact (ih t List.mem_cons_self _ _).bind fun _ _ => hts.bind_rest fun _ => .of_pure _

/-- A value stands below what its key is called; resolving the key leaves it that name. -/
theorem course_resolveEntries {entries : List (Tree × Tree)} (ih : ∀ e ∈ entries, s.Ordered e.1 ∧ s.Ordered e.2)
    (depth : Nat) (place : Place) :
    ∀ done, Course s.context (entries.flatMap fun e => e.1.typeTags ++ e.2.typeTags)
      (Tree.typedAmong (Tree.entriesPostorder place entries)) (s.resolveEntries depth place done entries) := by
  induction entries with
  | nil => exact fun _ => .of_pure _
  | cons e rest ihrest =>
    intro done
    obtain ⟨k, v⟩ := e
    obtain ⟨hk, hv⟩ := ih (k, v) List.mem_cons_self
    have hrest := ihrest fun e he => ih e (List.mem_cons_of_mem _ he)
    rw [List.flatMap_cons, List.append_assoc, Tree.entriesPostorder, Tree.typedAmong_append, Tree.typedAmong_append]
    refine (hk _ _).bind fun key hkey => ?_
    have hlabel : key.label = k.bare.label := (settling k _ _ ((placeless k _ _ _).1 hkey)).2.label_eq
    rw [← hlabel]
    exact (hv _ _).bind fun value _ => hrest _

/-- **The order of a traversal.** -/
theorem ordered (t : Tree) : s.Ordered t := by
  induction t using Tree.induct with
  | null | flag | number | text => exact fun _ _ => (course_checkDepth _).bind_rest fun _ => .of_pure _
  | list items ih =>
    intro depth place
    rw [Tree.typeTags_list, Tree.postorder, Tree.typedAmong_concat_of_none rfl]
    exact (course_checkDepth _).bind_first fun _ =>
      (course_resolveItems ih _ _ _).bind_rest fun _ => .of_pure _
  | map entries ih =>
    intro depth place
    rw [Tree.typeTags_map, Tree.postorder, Tree.typedAmong_concat_of_none rfl]
    exact (course_checkDepth _).bind_first fun _ =>
      (course_resolveEntries ih _ _ _).bind_rest fun _ => .of_pure _
  | tagged tag content ih =>
    intro depth place
    refine (course_checkDepth depth).bind_first fun _ => ?_
    rw [Tree.postorder]
    cases hrole : TagRole.ofTag tag with
    | core =>
      have htag : ∀ name, TagRole.ofTag tag ≠ .type name := by simp [hrole]
      rw [Tree.typeTags_of_ne_type htag, Tree.typedAmong_concat_of_none (Tree.typeTag?_eq_none htag)]
      exact ih _ _
    | variant =>
      have htag : ∀ name, TagRole.ofTag tag ≠ .type name := by simp [hrole]
      rw [Tree.typeTags_of_ne_type htag, Tree.typedAmong_concat_of_none (Tree.typeTag?_eq_none htag)]
      exact (ih _ _).bind_rest fun _ => .of_pure _
    | type name =>
      rw [Tree.typeTags_of_type hrole, Tree.typedAmong_concat_of_type hrole]
      -- the name is looked up before the content is resolved, and the node is built after it
      have hcontent : ∀ d, (s.lookUp name place).outcome = .ok d →
          Course s.context content.typeTags (Tree.typedAmong (content.postorder place) ++ [(name, place)])
            (s.resolveNode (depth + 1) place content >>= fun inner => s.buildNested d place inner) := by
        intro d hd
        rw [← List.append_nil content.typeTags]
        exact (ih _ _).bind fun inner _ => course_buildNested (lookUp_eq_ok.1 hd) inner
      exact (course_lookUp name).bind hcontent

/-- Of a document, the root itself is not built by the traversal. -/
theorem course_resolveRoot (document : Tree) :
    Course s.context document.typeTags document.builtNodes (s.resolveRoot document) := by
  cases hroot : document.rootType? with
  | none =>
    rw [resolveRoot_of_none hroot, Tree.builtNodes_of_none (Tree.typeTag?_of_rootType? hroot)]
    exact (ordered document 0 .root).bind_rest fun _ => .of_pure _
  | some root =>
    rw [resolveRoot_of_type hroot]
    obtain ⟨tag, hrole, rfl⟩ := Tree.eq_of_rootType? hroot
    rw [Tree.typeTags_of_type hrole, Tree.builtNodes_tagged]
    exact (course_lookUp root.1).bind fun d _ => (ordered root.2 1 .root).bind_rest fun _ => .of_pure _

end Surroundings

namespace Decoder

variable {σ : Schema}

/-- What is left to be built once the tags of a document are resolved needs no look-up. -/
theorem course_finishTyped (s : Surroundings) (decl : TypeDecl) (resolved : Surroundings.ResolvedRoot) :
    Course c [] [] (finishTyped s decl resolved) := by
  have hbuilt : ∀ typeName decl tree, Course c [] [] (s.buildChecked typeName .root (s.build decl) tree) :=
    Surroundings.course_buildChecked_build
  cases resolved with
  | plain tree => exact (hbuilt _ _ _).bind_rest fun _ => .of_pure _
  | typed d content =>
    refine (hbuilt _ _ _).bind_rest fun built => ?_
    split
    · exact .of_pure _
    · exact (hbuilt _ _ _).bind_rest fun _ => .of_pure _

theorem course_finishAny (s : Surroundings) (resolved : Surroundings.ResolvedRoot) :
    Course c [] [] (finishAny s resolved) := by
  cases resolved with
  | plain tree => exact .of_pure _
  | typed d content =>
    exact (Surroundings.course_buildChecked_build _ _ _).bind_rest fun _ => .of_pure _

theorem course_run (d : Decoder) (document : Tree) :
    Course d.context document.typeTags document.builtNodes (d.run σ document) := by
  have hroot : Course d.context document.typeTags document.builtNodes
      ((d.surroundings σ).resolveRoot document) := @Surroundings.course_resolveRoot (d.surroundings σ) document
  refine hroot.bind_rest fun resolved => ?_
  cases d.root with
  | type decl => exact (course_finishTyped _ decl resolved).bind_rest fun _ => .of_pure _
  | any => exact course_finishAny _ resolved

/-- **The order of a whole decode.** -/
theorem course_decode (d : Decoder) (document : Tree) :
    Course d.context document.typeTags document.builtNodes (d.decode σ document) := by
  have hstart : Course d.context [] []
      (Traced.note (.started d.root.name d.settings.strict) : Traced DecodeFailure Unit) := .of_note rfl rfl
  exact hstart.bind_first fun _ => (course_run d document).bind_rest fun _ =>
    (Course.of_note rfl rfl).bind_rest fun _ => .of_pure _

end Decoder

end Provisioning
