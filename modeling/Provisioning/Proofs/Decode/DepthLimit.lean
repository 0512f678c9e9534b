import Provisioning.Proofs.Decode.Contexts
import Provisioning.Proofs.Decode.Failures
import Provisioning.Proofs.Decode.Settled

/-!
# What the deepest level allowed decides

A traversal counts levels on its way down, and stops where a node lies too deep. This is all that the limit does. So of
two decodes that differ in their limits the one with the lower limit is the other one, or it is cut short
(`Traced.CutShort`).

What a traversal has got through is not too deep, and neither is what it leaves of it. So all trees that are handed on,
to the types that are built and to the recursions that look for keys and drop them, stay within the limit (`Hands`).
-/

namespace Provisioning

namespace Traced

variable {ε α β : Type} {limit : Nat}

theorem events_prefix_bind (x : Traced ε α) (f : α → Traced ε β) : x.events <+: (x >>= f).events := by
  cases hx : x.outcome with
  | ok a =>
    rw [events_bind_of_ok hx]
    exact List.prefix_append _ _
  | error e => exact ⟨[], by rw [List.append_nil, events_bind_of_error hx]⟩

/-- Two ways to go on need to agree on the result only. -/
theorem bind_congr_of_ok {x : Traced ε α} {f g : α → Traced ε β} (h : ∀ a, x.outcome = .ok a → f a = g a) :
    x >>= f = x >>= g := by
  obtain ⟨events, outcome⟩ := x
  cases outcome with
  | ok a =>
    have hevents : ∀ k : α → Traced ε β, ((⟨events, .ok a⟩ : Traced ε α) >>= k) =
        ⟨events ++ (k a).events, (k a).outcome⟩ := fun _ => rfl
    rw [hevents, hevents, h a rfl]
  | error e => rfl

/-- The first computation is the second one, or it stops on the way because a node lies too deep. -/
inductive CutShort (limit : Nat) : Traced DecodeFailure α → Traced DecodeFailure α → Prop
  | same (x : Traced DecodeFailure α) : CutShort limit x x
  | cut {events : List Event} (place : Place) {y : Traced DecodeFailure α} : events <+: y.events →
      CutShort limit ⟨events, .error (.tooDeep limit place)⟩ y

theorem CutShort.eq_or_tooDeep {x y : Traced DecodeFailure α} (h : CutShort limit x y) :
    x = y ∨ ∃ place, x.outcome = .error (.tooDeep limit place) ∧ x.events <+: y.events := by
  cases h with
  | same => exact .inl rfl
  | cut place hevents => exact .inr ⟨place, rfl, hevents⟩

/-- What is cut short does not go on. -/
theorem CutShort.bind {x y : Traced DecodeFailure α} {f g : α → Traced DecodeFailure β} (h : CutShort limit x y)
    (hf : ∀ a, CutShort limit (f a) (g a)) : CutShort limit (x >>= f) (y >>= g) := by
  cases h with
  | cut place hevents => exact .cut place (hevents.trans (events_prefix_bind y g))
  | same =>
    obtain ⟨events, outcome⟩ := x
    cases outcome with
    | error e => exact .same _
    | ok a =>
      have hevents : ∀ k : α → Traced DecodeFailure β, ((⟨events, .ok a⟩ : Traced DecodeFailure α) >>= k) =
          ⟨events ++ (k a).events, (k a).outcome⟩ := fun _ => rfl
      rw [hevents, hevents]
      have ha := hf a
      generalize f a = u at ha ⊢
      generalize g a = w at ha ⊢
      cases ha with
      | same => exact .same _
      | cut place hevents => exact .cut place ((List.prefix_append_right_inj events).2 hevents)

/-- The same may follow. -/
theorem CutShort.bind_same {x y : Traced DecodeFailure α} {f : α → Traced DecodeFailure β} (h : CutShort limit x y) :
    CutShort limit (x >>= f) (y >>= f) := h.bind fun _ => .same _

end Traced

open Traced (CutShort)

/-! ## Two limits -/

namespace Surroundings

variable {σ : Schema} {c : Context} {strict : Bool} {limit limit' : Nat}

/-- Only here do two limits make a difference. -/
theorem cutShort_checkDepth (h : limit ≤ limit') (depth : Nat) (place : Place) :
    CutShort limit (checkDepth ⟨σ, c, ⟨strict, limit⟩⟩ depth place)
      (checkDepth ⟨σ, c, ⟨strict, limit'⟩⟩ depth place) := by
  unfold checkDepth
  dsimp only
  by_cases hdeep : limit < depth
  · rw [if_pos hdeep]
    exact .cut place (List.nil_prefix)
  · rw [if_neg hdeep, if_neg (by omega)]
    exact .same _

/-- The traversal of a node at the lower limit is the one at the higher limit, or is cut short. -/
def CutsShort (σ : Schema) (c : Context) (strict : Bool) (limit limit' : Nat) (t : Tree) : Prop :=
  ∀ depth place, CutShort limit (resolveNode ⟨σ, c, ⟨strict, limit⟩⟩ depth place t)
    (resolveNode ⟨σ, c, ⟨strict, limit'⟩⟩ depth place t)

theorem cutShort_resolveItems {items : List Tree} (ih : ∀ t ∈ items, CutsShort σ c strict limit limit' t) :
    ∀ depth place position, CutShort limit (resolveItems ⟨σ, c, ⟨strict, limit⟩⟩ depth place position items)
      (resolveItems ⟨σ, c, ⟨strict, limit'⟩⟩ depth place position items) := by
  induction items with
  | nil => exact fun _ _ _ => .same _
  | cons t ts ihts =>
    intro depth place position
    have hts := ihts fun u hu => ih u (List.mem_cons_of_mem _ hu)
    exact (ih t List.mem_cons_self _ _).bind fun first => (hts _ _ _).bind_same

theorem cutShort_resolveEntries {entries : List (Tree × Tree)}
    (ih : ∀ e ∈ entries, CutsShort σ c strict limit limit' e.1 ∧ CutsShort σ c strict limit limit' e.2) :
    ∀ depth place done, CutShort limit (resolveEntries ⟨σ, c, ⟨strict, limit⟩⟩ depth place done entries)
      (resolveEntries ⟨σ, c, ⟨strict, limit'⟩⟩ depth place done entries) := by
  induction entries with
  | nil => exact fun _ _ _ => .same _
  | cons e rest ihrest =>
    intro depth place done
    obtain ⟨hk, hv⟩ := ih e List.mem_cons_self
    have hrest := ihrest fun e he => ih e (List.mem_cons_of_mem _ he)
    exact (hk _ _).bind fun key => (hv _ _).bind fun value => hrest _ _ _

/-- **Two limits and one node.** All steps but the counting of levels are the same at both limits. -/
theorem cutsShort (h : limit ≤ limit') (t : Tree) : CutsShort σ c strict limit limit' t := by
  induction t using Tree.induct with
  | null | flag | number | text => exact fun _ _ => (cutShort_checkDepth h _ _).bind_same
  | list items ih =>
    intro depth place
    exact (cutShort_checkDepth h depth place).bind fun _ => (cutShort_resolveItems ih _ _ _).bind_same
  | map entries ih =>
    intro depth place
    exact (cutShort_checkDepth h depth place).bind fun _ => (cutShort_resolveEntries ih _ _ _).bind_same
  | tagged tag content ih =>
    intro depth place
    refine (cutShort_checkDepth h depth place).bind fun _ => ?_
    cases TagRole.ofTag tag with
    | core => exact ih _ _
    | variant => exact (ih _ _).bind_same
    | type name =>
      -- a look-up and a build do not ask for the limit, so they are the same step by definition
      exact (CutShort.same (lookUp ⟨σ, c, ⟨strict, limit⟩⟩ name place)).bind fun d => (ih _ _).bind fun inner =>
        .same (buildNested ⟨σ, c, ⟨strict, limit⟩⟩ d place inner)

theorem cutShort_resolveRoot (h : limit ≤ limit') (document : Tree) :
    CutShort limit (resolveRoot ⟨σ, c, ⟨strict, limit⟩⟩ document) (resolveRoot ⟨σ, c, ⟨strict, limit'⟩⟩ document) := by
  cases hroot : document.rootType? with
  | none =>
    rw [resolveRoot_of_none hroot, resolveRoot_of_none hroot]
    exact (cutsShort h document _ _).bind_same
  | some root =>
    rw [resolveRoot_of_type hroot, resolveRoot_of_type hroot]
    exact (CutShort.same _).bind fun d => (cutsShort h root.2 _ _).bind_same

end Surroundings

namespace Decoder

variable {σ : Schema} {c : Context} {strict : Bool} {limit limit' : Nat}

theorem cutShort_run (h : limit ≤ limit') (root : Root) (document : Tree) :
    CutShort limit (run ⟨root, c, ⟨strict, limit⟩⟩ σ document) (run ⟨root, c, ⟨strict, limit'⟩⟩ σ document) := by
  have hroot : CutShort limit (Surroundings.resolveRoot ⟨σ, c, ⟨strict, limit⟩⟩ document)
      (Surroundings.resolveRoot ⟨σ, c, ⟨strict, limit'⟩⟩ document) := Surroundings.cutShort_resolveRoot h document
  refine hroot.bind fun resolved => ?_
  -- from here on no level is counted
  cases root with
  | type decl =>
    cases resolved with
    | typed d content => exact (CutShort.same (finishTyped ⟨σ, c, ⟨strict, limit⟩⟩ decl (.typed d content))).bind_same
    | plain tree => exact (CutShort.same (finishTyped ⟨σ, c, ⟨strict, limit⟩⟩ decl (.plain tree))).bind_same
  | any =>
    cases resolved with
    | typed d content => exact .same (finishAny ⟨σ, c, ⟨strict, limit⟩⟩ (.typed d content))
    | plain tree => exact .same (finishAny ⟨σ, c, ⟨strict, limit⟩⟩ (.plain tree))

theorem cutShort_decode (h : limit ≤ limit') (root : Root) (document : Tree) :
    CutShort limit (decode ⟨root, c, ⟨strict, limit⟩⟩ σ document) (decode ⟨root, c, ⟨strict, limit'⟩⟩ σ document) := by
  have hrun := @cutShort_run σ c strict limit limit' h root document
  refine (CutShort.same _).bind fun _ => ?_
  -- the last event counts what the run noted, and a run that is cut short does not come to it
  generalize run ⟨root, c, ⟨strict, limit⟩⟩ σ document = shallow at hrun ⊢
  generalize run ⟨root, c, ⟨strict, limit'⟩⟩ σ document = deep at hrun ⊢
  cases hrun with
  | same => exact .same _
  | cut place hevents => exact .cut place (hevents.trans (Traced.events_prefix_bind deep _))

end Decoder

/-! ## What is handed on -/

namespace Tree

/-- What the checked build of a node hands to the build, and to the recursions that look for keys and drop them: the
node, or what is left of it without the keys that are not text, and either without keys that were skipped. -/
inductive Handed (node : Tree) : Tree → Prop
  | whole : Handed node node
  | cleaned : Handed node node.withTextKeys
  | dropped (path : KeyPath) {t : Tree} : Handed node t → Handed node (t.remove path)

variable {node t : Tree}

theorem Handed.sheds (h : Handed node t) : Sheds node t := by
  induction h with
  | whole => exact .refl node
  | cleaned => exact sheds_withTextKeys node
  | dropped path _ ih => exact ih.trans (sheds_remove path _)

theorem Handed.depth_le (h : Handed node t) : t.depth ≤ node.depth := h.sheds.keeps.depth_le

theorem Handed.foldl_remove (h : Handed node t) (paths : List KeyPath) :
    Handed node (paths.foldl (fun t path => t.remove path) t) := by
  induction paths generalizing t with
  | nil => exact h
  | cons path rest ih => exact ih (.dropped path h)

end Tree

namespace Surroundings

variable {s : Surroundings} {σ σ' : Schema} {c : Context} {settings : Settings} {place : Place} {node t : Tree}

/-- What a checked build leaves is among what it hands on. -/
theorem Passes.handed {shape : Shape} {x : Instance} {rest : Tree} (h : s.Passes shape node x rest) :
    Tree.Handed node rest := by
  cases h with
  | first _ hrest =>
    rw [hrest.2]
    exact Tree.Handed.whole.foldl_remove _
  | second _ _ _ _ hrest =>
    rw [hrest.2]
    exact Tree.Handed.cleaned.foldl_remove _

/-- A checked build asks its build about nothing else. -/
theorem buildChecked_congr {build build' : Tree → Except DecodeFailure (Built Instance)} (typeName : String)
    (h : ∀ t, Tree.Handed node t → build' t = build t) :
    s.buildChecked typeName place build' node = s.buildChecked typeName place build node := by
  unfold buildChecked
  dsimp only
  rw [h node .whole, h _ .cleaned]

/-- What the building of a node with a type tag hands on, once its content is resolved. -/
inductive HandsBelow (s : Surroundings) : Tree → Tree → Prop
  | mk {tag name : String} {content inner t : Tree} {d : Descriptor} (depth : Nat) (place : Place) :
      TagRole.ofTag tag = .type name → s.context.resolve name = some d →
      (s.resolveNode depth place content).outcome = .ok inner → Tree.Handed inner t →
      HandsBelow s (.tagged tag content) t

/-! ### Nothing of it is too deep -/

theorem HandsBelow.depth_le (h : s.HandsBelow node t) : t.depth ≤ s.settings.maxDepth := by
  cases h with
  | mk depth place _ _ hinner hhanded =>
    obtain ⟨hdepth, hsettles⟩ := settling _ _ _ ((placeless _ _ _ _).1 hinner)
    have := hsettles.depth_le
    have := hhanded.depth_le
    omega

theorem depth_le_of_resolveRoot {document : Tree} {resolved : ResolvedRoot}
    (h : (s.resolveRoot document).outcome = .ok resolved) : resolved.tree.depth ≤ s.settings.maxDepth := by
  obtain ⟨hdepth, hsettles⟩ := settled_of_resolveRoot h
  exact Nat.le_trans hsettles.depth_le hdepth

/-! ### Nothing else is built -/

/-- Two schemas build a tree alike, as whatever shape. -/
def BuildsAlike (σ σ' : Schema) (t : Tree) : Prop := ∀ shape, σ'.build t shape = σ.build t shape

theorem build_congr {decl : TypeDecl} (h : BuildsAlike σ σ' t) :
    build ⟨σ', c, settings⟩ decl t = build ⟨σ, c, settings⟩ decl t := by
  unfold build
  dsimp only
  rw [h decl.shape]

theorem buildChecked_build_congr (typeName : String) (decl : TypeDecl)
    (h : ∀ t, Tree.Handed node t → BuildsAlike σ σ' t) :
    buildChecked ⟨σ', c, settings⟩ typeName place (build ⟨σ', c, settings⟩ decl) node =
      buildChecked ⟨σ, c, settings⟩ typeName place (build ⟨σ, c, settings⟩ decl) node :=
  @buildChecked_congr ⟨σ, c, settings⟩ place node (build ⟨σ, c, settings⟩ decl) (build ⟨σ', c, settings⟩ decl)
    typeName fun t ht => build_congr (h t ht)

theorem buildNested_congr (d : Descriptor) (h : ∀ t, Tree.Handed node t → BuildsAlike σ σ' t) :
    buildNested ⟨σ', c, settings⟩ d place node = buildNested ⟨σ, c, settings⟩ d place node := by
  have hbuild : ∀ t, Tree.Handed node t →
      (build ⟨σ', c, settings⟩ d.decl t).mapError (DecodeFailure.nested d.name place) =
        (build ⟨σ, c, settings⟩ d.decl t).mapError (.nested d.name place) := by
    intro t ht
    rw [build_congr (h t ht)]
  unfold buildNested
  refine Traced.bind_congr_of_ok fun _ _ => congrArg (· >>= _) ?_
  exact buildChecked_congr (s := ⟨σ, c, settings⟩) d.name hbuild

/-- The traversal of a node does not depend on the schema, unless by what it hands on. -/
def SchemaFree (σ σ' : Schema) (c : Context) (settings : Settings) (t : Tree) : Prop :=
  (∀ n ∈ t.nodes, ∀ u, HandsBelow ⟨σ, c, settings⟩ n u → BuildsAlike σ σ' u) → ∀ depth place,
    resolveNode ⟨σ', c, settings⟩ depth place t = resolveNode ⟨σ, c, settings⟩ depth place t

theorem resolveItems_congr {items : List Tree}
    (ih : ∀ t ∈ items, ∀ depth place,
      resolveNode ⟨σ', c, settings⟩ depth place t = resolveNode ⟨σ, c, settings⟩ depth place t) :
    ∀ depth place position, resolveItems ⟨σ', c, settings⟩ depth place position items =
      resolveItems ⟨σ, c, settings⟩ depth place position items := by
  induction items with
  | nil => exact fun _ _ _ => rfl
  | cons t ts ihts =>
    intro depth place position
    have hts := ihts fun u hu => ih u (List.mem_cons_of_mem _ hu)
    simp only [resolveItems, ih t List.mem_cons_self, hts]

theorem resolveEntries_congr {entries : List (Tree × Tree)}
    (ih : ∀ e ∈ entries, ∀ depth place,
      resolveNode ⟨σ', c, settings⟩ depth place e.1 = resolveNode ⟨σ, c, settings⟩ depth place e.1 ∧
      resolveNode ⟨σ', c, settings⟩ depth place e.2 = resolveNode ⟨σ, c, settings⟩ depth place e.2) :
    ∀ depth place done, resolveEntries ⟨σ', c, settings⟩ depth place done entries =
      resolveEntries ⟨σ, c, settings⟩ depth place done entries := by
  induction entries with
  | nil => exact fun _ _ _ => rfl
  | cons e rest ihrest =>
    intro depth place done
    have hrest := ihrest fun e he => ih e (List.mem_cons_of_mem _ he)
    have he := ih e List.mem_cons_self
    simp only [resolveEntries, (he _ _).1, (he _ _).2, hrest]

theorem schemaFree (t : Tree) : SchemaFree σ σ' c settings t := by
  induction t using Tree.induct with
  | null | flag | number | text => exact fun _ _ _ => rfl
  | list items ih =>
    intro h depth place
    have hitems := fun t ht => ih t ht ((Tree.forall_nodes_list.1 h).2 t ht)
    simp only [resolveNode, resolveItems_congr hitems]
    rfl
  | map entries ih =>
    intro h depth place
    have hnodes := (Tree.forall_nodes_map.1 h).2
    have hentries := fun e he depth place =>
      And.intro ((ih e he).1 (hnodes e he).1 depth place) ((ih e he).2 (hnodes e he).2 depth place)
    simp only [resolveNode, resolveEntries_congr hentries]
    rfl
  | tagged tag content ih =>
    intro h depth place
    obtain ⟨hroot, hbelow⟩ := Tree.forall_nodes_tagged.1 h
    refine Traced.bind_congr_of_ok fun _ _ => ?_
    cases hrole : TagRole.ofTag tag with
    | core => exact ih hbelow _ _
    | variant => exact congrArg (· >>= _) (ih hbelow _ _)
    | type name =>
      refine Traced.bind_congr_of_ok fun d hd => ?_
      rw [ih hbelow]
      refine Traced.bind_congr_of_ok fun inner hinner => buildNested_congr d fun u hu => ?_
      exact hroot u (.mk _ _ hrole (lookUp_eq_ok.1 hd) hinner hu)

end Surroundings

namespace Decoder

variable {σ σ' : Schema} {d : Decoder} {document t : Tree}

/-- The trees that the decode of a document hands to the types it is built as, and to the recursions that look for keys
and drop them. -/
inductive Hands (d : Decoder) (σ : Schema) (document : Tree) : Tree → Prop
  /-- A node with a type tag is built. -/
  | below {node t : Tree} : node ∈ document.nodes → (d.surroundings σ).HandsBelow node t → Hands d σ document t
  /-- What is left of the document is built, as its own type or the root type. -/
  | root {resolved : Surroundings.ResolvedRoot} {t : Tree} :
      ((d.surroundings σ).resolveRoot document).outcome = .ok resolved → Tree.Handed resolved.tree t →
      Hands d σ document t
  /-- What was built as its own type is built as the root type. -/
  | again {found : Descriptor} {content t : Tree} {built : Instance × Tree} :
      ((d.surroundings σ).resolveRoot document).outcome = .ok (.typed found content) →
      ((d.surroundings σ).buildChecked found.name .root ((d.surroundings σ).build found.decl) content).outcome =
        .ok built →
      Tree.Handed built.2 t → Hands d σ document t

/-- **Nothing that is handed on is too deep**, however the decode ends. -/
theorem Hands.depth_le (h : d.Hands σ document t) : t.depth ≤ d.settings.maxDepth := by
  cases h with
  | below _ hbelow => exact hbelow.depth_le
  | root hroot hhanded => exact Nat.le_trans hhanded.depth_le (Surroundings.depth_le_of_resolveRoot hroot)
  | again hroot hbuilt hhanded =>
    have hpasses := Surroundings.buildChecked_build_eq_ok.1 hbuilt
    have hcontent := Surroundings.depth_le_of_resolveRoot hroot
    exact Nat.le_trans hhanded.depth_le (Nat.le_trans hpasses.handed.depth_le hcontent)

theorem resolveRoot_congr (h : ∀ t, d.Hands σ document t → Surroundings.BuildsAlike σ σ' t) :
    (d.surroundings σ').resolveRoot document = (d.surroundings σ).resolveRoot document := by
  have hbelow : ∀ n ∈ document.nodes, ∀ u, (d.surroundings σ).HandsBelow n u → Surroundings.BuildsAlike σ σ' u :=
    fun n hn u hu => h u (.below hn hu)
  cases hroot : document.rootType? with
  | none =>
    rw [Surroundings.resolveRoot_of_none hroot, Surroundings.resolveRoot_of_none hroot]
    exact congrArg (· >>= _) (Surroundings.schemaFree document hbelow _ _)
  | some root =>
    rw [Surroundings.resolveRoot_of_type hroot, Surroundings.resolveRoot_of_type hroot]
    obtain ⟨tag, -, rfl⟩ := Tree.eq_of_rootType? hroot
    have hcontent := (Tree.forall_nodes_tagged.1 hbelow).2
    exact Traced.bind_congr_of_ok fun found _ =>
      congrArg (· >>= _) (Surroundings.schemaFree root.2 hcontent _ _)

theorem finishTyped_congr (decl : TypeDecl) {resolved : Surroundings.ResolvedRoot}
    (hresolved : ((d.surroundings σ).resolveRoot document).outcome = .ok resolved)
    (h : ∀ t, d.Hands σ document t → Surroundings.BuildsAlike σ σ' t) :
    finishTyped (d.surroundings σ') decl resolved = finishTyped (d.surroundings σ) decl resolved := by
  have hroot : ∀ t, Tree.Handed resolved.tree t → Surroundings.BuildsAlike σ σ' t :=
    fun t ht => h t (.root hresolved ht)
  cases resolved with
  | plain tree => exact congrArg (· >>= _) (Surroundings.buildChecked_build_congr _ _ hroot)
  | typed found content =>
    have hfirst : (d.surroundings σ').buildChecked found.name .root ((d.surroundings σ').build found.decl) content =
        (d.surroundings σ).buildChecked found.name .root ((d.surroundings σ).build found.decl) content :=
      Surroundings.buildChecked_build_congr _ _ hroot
    unfold finishTyped
    dsimp only
    rw [hfirst]
    refine Traced.bind_congr_of_ok fun built hbuilt => ?_
    by_cases hsame : found.isOf decl = true
    · rw [if_pos hsame, if_pos hsame]
    · rw [if_neg hsame, if_neg hsame]
      have hagain : ∀ t, Tree.Handed built.2 t → Surroundings.BuildsAlike σ σ' t :=
        fun t ht => h t (.again hresolved hbuilt ht)
      exact congrArg (· >>= _) (Surroundings.buildChecked_build_congr _ _ hagain)

theorem finishAny_congr {resolved : Surroundings.ResolvedRoot}
    (hresolved : ((d.surroundings σ).resolveRoot document).outcome = .ok resolved)
    (h : ∀ t, d.Hands σ document t → Surroundings.BuildsAlike σ σ' t) :
    finishAny (d.surroundings σ') resolved = finishAny (d.surroundings σ) resolved := by
  cases resolved with
  | plain tree => rfl
  | typed found content =>
    exact congrArg (· >>= _) (Surroundings.buildChecked_build_congr _ _ fun t ht => h t (.root hresolved ht))

theorem run_congr (h : ∀ t, d.Hands σ document t → Surroundings.BuildsAlike σ σ' t) :
    d.run σ' document = d.run σ document := by
  unfold run
  dsimp only
  rw [resolveRoot_congr h]
  refine Traced.bind_congr_of_ok fun resolved hresolved => ?_
  cases d.root with
  | type decl => exact congrArg (· >>= _) (finishTyped_congr decl hresolved h)
  | any => exact finishAny_congr hresolved h

/-- **Nothing else is built.** Another schema that builds these trees alike decodes the document alike. -/
theorem decode_congr (h : ∀ t, d.Hands σ document t → Surroundings.BuildsAlike σ σ' t) :
    d.decode σ' document = d.decode σ document := by
  unfold decode
  rw [run_congr h]

/-- What a decode gets through is not too deep. -/
theorem depth_le_of_decode {r : Decoded} (h : (d.decode σ document).outcome = .ok r) :
    document.depth ≤ d.settings.maxDepth := by
  rw [outcome_decode] at h
  obtain ⟨resolved, hresolved, -⟩ := Traced.outcome_bind_eq_ok.1 h
  exact (Surroundings.settled_of_resolveRoot hresolved).1

/-- A profile document whose only entry is an empty list. -/
def noClasses : Tree := .map [(.text "allowed_classes", .list [])]

/-- The height bounds neither the documents that are decoded nor the trees that are handed on: an empty list is a level
without a node on it. -/
theorem height_does_not_bound_handed :
    let d : Decoder := ⟨.type Profile.decl, .nothing, ⟨true, 1⟩⟩
    ¬((∃ r, (d.decode .profiles noClasses).outcome = .ok r) →
      noClasses.height ≤ 1 ∧ ∀ t, d.Hands .profiles noClasses t → t.height ≤ 1) := by
  intro d h
  have hdecoded : (d.decode .profiles noClasses).outcome = .ok (.built ({ } : Profile).toInstance) := by rfl
  exact absurd (h ⟨_, hdecoded⟩).1 (by decide)

/-- **What the deepest level allowed decides.** Of two decodes of a document, the one with the lower limit is the other
one to the last event, or it stops where a node lies deeper than its own limit, and then the document is that deep.
Whatever a decode gets through lies within its limit, and so does every tree that it hands to a build or to the
recursions over keys; only an empty list or map may stand on the last level. No other trees are built: a schema that
builds these alike decodes the document alike. -/
theorem decode_of_maxDepth_le (σ : Schema) (root : Root) (context : Context) (strict : Bool) (limit limit' : Nat)
    (document : Tree) (h : limit ≤ limit') :
    let d : Decoder := ⟨root, context, ⟨strict, limit⟩⟩
    let shallow := d.decode σ document
    let deep := decode ⟨root, context, ⟨strict, limit'⟩⟩ σ document
    (shallow = deep ∨ limit < document.depth ∧ (∃ place, shallow.outcome = .error (.tooDeep limit place)) ∧
      shallow.events <+: deep.events) ∧
    (∀ r, shallow.outcome = .ok r → document.depth ≤ limit ∧ document.height ≤ limit + 1) ∧
    (∀ t, d.Hands σ document t → t.depth ≤ limit ∧ t.height ≤ limit + 1) ∧
    ∀ σ', (∀ t, d.Hands σ document t → ∀ shape, σ'.build t shape = σ.build t shape) →
      d.decode σ' document = shallow := by
  intro d shallow deep
  have hheight : ∀ t : Tree, t.depth ≤ limit → t.depth ≤ limit ∧ t.height ≤ limit + 1 := fun t ht =>
    ⟨ht, Nat.le_trans t.height_le_depth_succ (Nat.succ_le_succ ht)⟩
  refine ⟨?_, fun r hr => hheight _ (depth_le_of_decode hr), fun t ht => hheight t ht.depth_le,
    fun σ' hσ' => decode_congr hσ'⟩
  have hcut : CutShort limit shallow deep := cutShort_decode h root document
  rcases hcut.eq_or_tooDeep with hsame | ⟨place, hplace, hevents⟩
  · exact .inl hsame
  · refine .inr ⟨?_, ⟨place, hplace⟩, hevents⟩
    -- the failure names the limit that was passed, and it is blamed for a node of the document
    cases explains_decode (σ := σ) d document _ hplace with
    | tooDeep _ hdeep => exact hdeep

/-- A spare disk lies three levels deep: below the map, its tag and the map of its fields. -/
theorem decode_of_maxDepth_le_spareDisk :
    let disks : Context := .layer (.ofList [(Samples.disk.name, .own Samples.disk)]) .nothing
    let d : Decoder := ⟨.any, disks, ⟨false, 3⟩⟩
    let disk : Tree := .map [(.text "size_gb", .number (.integer 1)), (.text "rpm", .number (.integer 7200))]
    d.decode Samples.schema spareDisk = decode ⟨.any, disks, ⟨false, 64⟩⟩ Samples.schema spareDisk ∧
      spareDisk.depth ≤ 3 ∧ d.Hands Samples.schema spareDisk disk ∧ disk.depth ≤ 3 := by
  intro disks d disk
  obtain ⟨hcut, hdecoded, hhands, -⟩ :=
    decode_of_maxDepth_le Samples.schema .any disks false 3 64 spareDisk (by decide)
  have hok : (d.decode Samples.schema spareDisk).outcome =
      .ok (.untyped (.map [(.text "spare", .map [(.text "size_gb", .number (.integer 1))])])) := by rfl
  have hdisk : d.Hands Samples.schema spareDisk disk := by
    have hnode : Tree.tagged "test.Disk" disk ∈ spareDisk.nodes := by
      simp [spareDisk, Tree.nodes, Tree.entriesNodes, disk]
    have hname : TagRole.ofTag "test.Disk" = .type "test.Disk" := by decide
    have hknown : disks.resolve "test.Disk" = some (.own Samples.disk) := by decide
    exact .below hnode (.mk 2 .root hname hknown rfl .whole)
  refine ⟨?_, (hdecoded _ hok).1, hdisk, (hhands disk hdisk).1⟩
  rcases hcut with hsame | ⟨hdeep, -⟩
  · exact hsame
  · exact absurd hdeep (by decide)

end Decoder

end Provisioning
