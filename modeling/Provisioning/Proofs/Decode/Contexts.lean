import Provisioning.Context.Plugins
import Provisioning.Proofs.Decode.Strictness

/-!
# What a decode sees of its context

A decode looks up the names in the type tags of its document and nothing else. Two contexts that agree on these names
lead it through the same steps (`Traced.Alike`): it notes the same events and gives the same result, or it fails for
the same reason. Only the names that a context lists can still be told apart, since the message of a look-up that found
nothing repeats them.
-/

namespace Provisioning

namespace Traced

variable {ε α β : Type}

/-- Two computations note the same events, and give the same result or fail for reasons that are related. -/
inductive Alike (r : ε → ε → Prop) : Traced ε α → Traced ε α → Prop
  | ok (events : List Event) (a : α) : Alike r ⟨events, .ok a⟩ ⟨events, .ok a⟩
  | error (events : List Event) {e f : ε} : r e f → Alike r ⟨events, .error e⟩ ⟨events, .error f⟩

variable {r : ε → ε → Prop} {x y : Traced ε α}

theorem Alike.refl (hr : ∀ e, r e e) (x : Traced ε α) : Alike r x x := by
  obtain ⟨events, outcome⟩ := x
  cases outcome with
  | ok a => exact .ok events a
  | error e => exact .error events (hr e)

theorem Alike.events_eq (h : Alike r x y) : x.events = y.events := by
  cases h <;> rfl

theorem Alike.eq (h : Alike Eq x y) : x = y := by
  cases h with
  | ok => rfl
  | error events he => rw [he]

/-- Computations that are alike can go on alike. -/
theorem Alike.bind {f g : α → Traced ε β} (h : Alike r x y) (hf : ∀ a, Alike r (f a) (g a)) :
    Alike r (x >>= f) (y >>= g) := by
  cases h with
  | ok events a =>
    have hx : ∀ k : α → Traced ε β, ((⟨events, .ok a⟩ : Traced ε α) >>= k) =
        ⟨events ++ (k a).events, (k a).outcome⟩ := fun _ => rfl
    rw [hx, hx]
    have ha := hf a
    generalize f a = u at ha ⊢
    generalize g a = w at ha ⊢
    cases ha with
    | ok => exact .ok _ _
    | error _ he => exact .error _ he
  | error events he => exact .error events he

end Traced

namespace Surroundings

variable {σ : Schema} {c c' : Context} {settings : Settings} {r : DecodeFailure → DecodeFailure → Prop}

/-! ## Two traversals -/

/-- A look-up that finds nothing fails for a related reason in both contexts. -/
def MissAlike (r : DecodeFailure → DecodeFailure → Prop) (c c' : Context) : Prop :=
  ∀ name place, r (.unresolved name place c.typeNames) (.unresolved name place c'.typeNames)

/-- Two contexts lead the traversal of a node through the same steps. -/
def TraversedAlike (r : DecodeFailure → DecodeFailure → Prop) (σ : Schema) (settings : Settings) (c c' : Context)
    (t : Tree) : Prop :=
  (∀ name ∈ t.typeTags, c.resolve name = c'.resolve name) → ∀ depth place,
    Traced.Alike r (resolveNode ⟨σ, c, settings⟩ depth place t) (resolveNode ⟨σ, c', settings⟩ depth place t)

theorem alike_lookUp (hmiss : MissAlike r c c') {name : String} (place : Place)
    (h : c.resolve name = c'.resolve name) :
    Traced.Alike r (lookUp ⟨σ, c, settings⟩ name place) (lookUp ⟨σ, c', settings⟩ name place) := by
  unfold lookUp
  dsimp only
  rw [← h]
  cases c.resolve name with
  | some d => exact .ok _ d
  | none => exact .error _ (hmiss name place)

theorem alike_resolveItems (hr : ∀ f, r f f) {items : List Tree}
    (ih : ∀ t ∈ items, TraversedAlike r σ settings c c' t)
    (h : ∀ name ∈ items.flatMap Tree.typeTags, c.resolve name = c'.resolve name) :
    ∀ depth place position, Traced.Alike r (resolveItems ⟨σ, c, settings⟩ depth place position items)
      (resolveItems ⟨σ, c', settings⟩ depth place position items) := by
  induction items with
  | nil => exact fun _ _ _ => .refl hr _
  | cons t ts ihts =>
    intro depth place position
    rw [List.flatMap_cons, List.forall_mem_append] at h
    have hts := ihts (fun u hu => ih u (List.mem_cons_of_mem _ hu)) h.2
    exact (ih t List.mem_cons_self h.1 _ _).bind fun first => (hts _ _ _).bind fun rest => .refl hr _

theorem alike_resolveEntries (hr : ∀ f, r f f) {entries : List (Tree × Tree)}
    (ih : ∀ e ∈ entries, TraversedAlike r σ settings c c' e.1 ∧ TraversedAlike r σ settings c c' e.2)
    (h : ∀ name ∈ entries.flatMap fun e => e.1.typeTags ++ e.2.typeTags, c.resolve name = c'.resolve name) :
    ∀ depth place done, Traced.Alike r (resolveEntries ⟨σ, c, settings⟩ depth place done entries)
      (resolveEntries ⟨σ, c', settings⟩ depth place done entries) := by
  induction entries with
  | nil => exact fun _ _ _ => .refl hr _
  | cons e rest ihrest =>
    intro depth place done
    rw [List.flatMap_cons, List.forall_mem_append, List.forall_mem_append] at h
    obtain ⟨hk, hv⟩ := ih e List.mem_cons_self
    have hrest := ihrest (fun e he => ih e (List.mem_cons_of_mem _ he)) h.2
    exact (hk h.1.1 _ _).bind fun key => (hv h.1.2 _ _).bind fun value => hrest _ _ _

/-- **Two contexts that agree on the names in a node.** A step of the traversal that is no look-up does not touch the
context at all. -/
theorem traversedAlike (hr : ∀ f, r f f) (hmiss : MissAlike r c c') (t : Tree) :
    TraversedAlike r σ settings c c' t := by
  induction t using Tree.induct with
  | null | flag | number | text => exact fun _ _ _ => .refl hr _
  | list items ih =>
    intro h depth place
    rw [Tree.typeTags_list] at h
    exact (Traced.Alike.refl hr (checkDepth ⟨σ, c, settings⟩ depth place)).bind fun _ =>
      (alike_resolveItems hr ih h _ _ _).bind fun _ => .refl hr _
  | map entries ih =>
    intro h depth place
    rw [Tree.typeTags_map] at h
    exact (Traced.Alike.refl hr (checkDepth ⟨σ, c, settings⟩ depth place)).bind fun _ =>
      (alike_resolveEntries hr ih h _ _ _).bind fun _ => .refl hr _
  | tagged tag content ih =>
    intro h depth place
    refine (Traced.Alike.refl hr (checkDepth ⟨σ, c, settings⟩ depth place)).bind fun _ => ?_
    cases hrole : TagRole.ofTag tag with
    | core =>
      rw [Tree.typeTags_of_ne_type (by simp [hrole])] at h
      exact ih h _ _
    | variant =>
      rw [Tree.typeTags_of_ne_type (by simp [hrole])] at h
      exact (ih h _ _).bind fun _ => .refl hr _
    | type name =>
      rw [Tree.typeTags_of_type hrole, List.forall_mem_cons] at h
      -- the one step that asks the context, and it asks for a name of the document
      exact (alike_lookUp hmiss place h.1).bind fun d => (ih h.2 _ _).bind fun content =>
        .refl hr (buildNested ⟨σ, c, settings⟩ d place content)

theorem alike_resolveRoot (hr : ∀ f, r f f) (hmiss : MissAlike r c c') {document : Tree}
    (h : ∀ name ∈ document.typeTags, c.resolve name = c'.resolve name) :
    Traced.Alike r (resolveRoot ⟨σ, c, settings⟩ document) (resolveRoot ⟨σ, c', settings⟩ document) := by
  cases hroot : document.rootType? with
  | none =>
    rw [resolveRoot_of_none hroot, resolveRoot_of_none hroot]
    exact (traversedAlike hr hmiss document h _ _).bind fun _ => .refl hr _
  | some root =>
    rw [resolveRoot_of_type hroot, resolveRoot_of_type hroot]
    obtain ⟨tag, hrole, rfl⟩ := Tree.eq_of_rootType? hroot
    rw [Tree.typeTags_of_type hrole, List.forall_mem_cons] at h
    exact (alike_lookUp hmiss .root h.1).bind fun d =>
      (traversedAlike hr hmiss root.2 h.2 _ _).bind fun content => .refl hr _

end Surroundings

/-! ## Two decodes -/

namespace Decoder

variable {σ : Schema} {c c' : Context} {settings : Settings} {root : Root} {document : Tree}
  {r : DecodeFailure → DecodeFailure → Prop}

theorem alike_run (hr : ∀ f, r f f) (hmiss : Surroundings.MissAlike r c c')
    (h : ∀ name ∈ document.typeTags, c.resolve name = c'.resolve name) :
    Traced.Alike r (run ⟨root, c, settings⟩ σ document) (run ⟨root, c', settings⟩ σ document) := by
  refine (Surroundings.alike_resolveRoot hr hmiss h).bind fun resolved => ?_
  -- from here on no name is looked up
  cases root with
  | type decl =>
    cases resolved with
    | typed d content =>
      exact (Traced.Alike.refl hr (finishTyped ⟨σ, c, settings⟩ decl (.typed d content))).bind
        fun _ => .refl hr _
    | plain tree =>
      exact (Traced.Alike.refl hr (finishTyped ⟨σ, c, settings⟩ decl (.plain tree))).bind fun _ => .refl hr _
  | any =>
    cases resolved with
    | typed d content => exact .refl hr (finishAny ⟨σ, c, settings⟩ (.typed d content))
    | plain tree => exact .refl hr (finishAny ⟨σ, c, settings⟩ (.plain tree))

theorem alike_decode (hr : ∀ f, r f f) (hmiss : Surroundings.MissAlike r c c')
    (h : ∀ name ∈ document.typeTags, c.resolve name = c'.resolve name) :
    Traced.Alike r (decode ⟨root, c, settings⟩ σ document) (decode ⟨root, c', settings⟩ σ document) := by
  have hrun : Traced.Alike r (run ⟨root, c, settings⟩ σ document) (run ⟨root, c', settings⟩ σ document) :=
    alike_run hr hmiss h
  refine (Traced.Alike.refl hr (Traced.note (.started root.name settings.strict))).bind fun _ =>
    hrun.bind fun decoded => ?_
  rw [hrun.events_eq]
  exact .refl hr _

end Decoder

/-- Faults of two failed decodes that a caller who looks at their kinds cannot tell apart. -/
def DecodeFailure.SameKinds (f g : DecodeFailure) : Prop :=
  f.toFault.kind = g.toFault.kind ∧ f.toFault.rootKind = g.toFault.rootKind

theorem Surroundings.missAlike_sameKinds (c c' : Context) : MissAlike DecodeFailure.SameKinds c c' :=
  fun _ _ => ⟨rfl, rfl⟩

/-- A name that no descriptor has is not in the directory of the descriptors. -/
theorem Layer.get?_ofDescriptors_eq_none {descriptors : List Descriptor} {parent : Option Context} {name : String}
    (h : ∀ d ∈ descriptors, d.name ≠ name) : (Layer.ofDescriptors descriptors parent).types.get? name = none := by
  have hset : ∀ dir : Directory Descriptor, dir.get? name = none →
      ((descriptors.map fun d => (d.name, d)).foldl (fun dir e => dir.insert e.1 e.2) dir).get? name = none := by
    induction descriptors with
    | nil => exact fun _ => id
    | cons d ds ih =>
      intro dir hdir
      obtain ⟨hd, hds⟩ := List.forall_mem_cons.1 h
      refine ih hds _ ?_
      rw [Directory.get?_insert, if_neg hd.symm]
      exact hdir
  exact hset .empty rfl

namespace Decoder

variable {σ : Schema} {root : Root} {settings : Settings} {document : Tree} {r : Decoded}

theorem alike_of_contexts_agree {c c' : Context}
    (h : ∀ name ∈ document.typeTags, c.resolve name = c'.resolve name) :
    Traced.Alike DecodeFailure.SameKinds (decode ⟨root, c, settings⟩ σ document)
      (decode ⟨root, c', settings⟩ σ document) :=
  alike_decode (fun _ => ⟨rfl, rfl⟩) (Surroundings.missAlike_sameKinds c c') h

/-- A layer that takes none of the names in a document leaves a decode that succeeds as it is. -/
theorem decode_layer_eq_ok {types : Directory Descriptor} {parent : Context}
    (hnames : ∀ name ∈ document.typeTags, types.get? name = none)
    (hr : (decode ⟨root, parent, settings⟩ σ document).outcome = .ok r) :
    (decode ⟨root, .layer types parent, settings⟩ σ document).outcome = .ok r ∧
      Journal.dropped (decode ⟨root, .layer types parent, settings⟩ σ document).events =
        Journal.dropped (decode ⟨root, parent, settings⟩ σ document).events := by
  have hresolve : ∀ name ∈ document.typeTags, parent.resolve name = (Context.layer types parent).resolve name := by
    intro name hname
    rw [Context.resolve, hnames name hname]
  have halike := @alike_of_contexts_agree σ root settings document parent (.layer types parent) hresolve
  generalize decode ⟨root, .layer types parent, settings⟩ σ document = layered at halike ⊢
  generalize decode ⟨root, parent, settings⟩ σ document = plain at halike hr ⊢
  cases halike with
  | ok => exact ⟨hr, rfl⟩
  | error => cases hr

/-- **A decode depends on its context through the names in its document.** Two contexts may be made in any way; if
they resolve each name in a type tag of the document alike, both decodes give the same result and drop the same
keys, or both fail with the same kind of fault, down to its root. So types that are laid over a parent, as a layer or
as a snapshot of plugins, do not change a decode that succeeds, as long as they take none of these names. -/
theorem decode_of_contexts_agree (σ : Schema) (root : Root) (settings : Settings) (document : Tree) :
    (∀ c c' : Context, (∀ name ∈ document.typeTags, c.resolve name = c'.resolve name) →
      let one := decode ⟨root, c, settings⟩ σ document
      let other := decode ⟨root, c', settings⟩ σ document
      (∃ r, one.outcome = .ok r ∧ other.outcome = .ok r ∧
          Journal.dropped one.events = Journal.dropped other.events) ∨
        ∃ f g, one.outcome = .error f ∧ other.outcome = .error g ∧
          f.toFault.kind = g.toFault.kind ∧ f.toFault.rootKind = g.toFault.rootKind) ∧
    (∀ (types : Directory Descriptor) (parent : Context),
      (∀ name ∈ document.typeTags, types.get? name = none) →
      ∀ r, (decode ⟨root, parent, settings⟩ σ document).outcome = .ok r →
        (decode ⟨root, .layer types parent, settings⟩ σ document).outcome = .ok r ∧
        Journal.dropped (decode ⟨root, .layer types parent, settings⟩ σ document).events =
          Journal.dropped (decode ⟨root, parent, settings⟩ σ document).events) ∧
    ∀ (plugins : Plugins) (parent : Context), plugins.parent = some parent →
      (∀ d ∈ plugins.types.values, d.name ∉ document.typeTags) →
      ∀ r, (decode ⟨root, parent, settings⟩ σ document).outcome = .ok r →
        (decode ⟨root, plugins.snapshot, settings⟩ σ document).outcome = .ok r ∧
        Journal.dropped (decode ⟨root, plugins.snapshot, settings⟩ σ document).events =
          Journal.dropped (decode ⟨root, parent, settings⟩ σ document).events := by
  refine ⟨fun c c' h => ?_, fun types parent hnames r => decode_layer_eq_ok hnames,
    fun plugins parent hparent hnames r hr => ?_⟩
  · intro one other
    have halike : Traced.Alike DecodeFailure.SameKinds one other := alike_of_contexts_agree h
    generalize one = x at halike ⊢
    generalize other = y at halike ⊢
    cases halike with
    | ok events a => exact .inl ⟨a, rfl, rfl, rfl⟩
    | error events hkinds => exact .inr ⟨_, _, rfl, rfl, hkinds⟩
  · -- a snapshot is a layer of the plugins that are registered
    have hsnapshot : plugins.snapshot =
        .layer (Layer.ofDescriptors plugins.types.values plugins.parent).types parent := by
      rw [Plugins.snapshot, Layer.toContext, Layer.ofDescriptors, hparent]
      rfl
    rw [hsnapshot]
    refine decode_layer_eq_ok (fun name hname => Layer.get?_ofDescriptors_eq_none fun d hd hd' => ?_) hr
    exact hnames d hd (hd' ▸ hname)

/-- A document with a tagged node and a key that nothing takes. -/
def spareDisk : Tree :=
  .map [(.text "spare", .tagged "test.Disk" (.map [(.text "size_gb", .number (.integer 1)),
    (.text "rpm", .number (.integer 7200))]))]

/-- Three contexts that know the sample disk: alone, with names of others, and below a plugin for racks. -/
theorem decode_of_contexts_agree_spareDisk :
    let disks : Context := .layer (.ofList [(Samples.disk.name, .own Samples.disk)]) .nothing
    let custom : Context := .custom (fun _ => some (.own Samples.disk)) ["test.Disk", "test.Tape"]
    let racks : Plugins := ⟨.ofList [(Samples.rack.name, .own Samples.rack)], some disks⟩
    let decoded : Decoded := .untyped (.map [(.text "spare", .map [(.text "size_gb", .number (.integer 1))])])
    (decode ⟨.any, disks, .tolerant⟩ Samples.schema spareDisk).outcome = .ok decoded ∧
    (decode ⟨.any, custom, .tolerant⟩ Samples.schema spareDisk).outcome = .ok decoded ∧
    (decode ⟨.any, racks.snapshot, .tolerant⟩ Samples.schema spareDisk).outcome = .ok decoded := by
  intro disks custom racks decoded
  have hdecoded : (decode ⟨.any, disks, .tolerant⟩ Samples.schema spareDisk).outcome = .ok decoded := by rfl
  obtain ⟨hagree, -, hplugins⟩ := decode_of_contexts_agree Samples.schema .any .tolerant spareDisk
  have htags : spareDisk.typeTags = ["test.Disk"] := by decide
  refine ⟨hdecoded, ?_, (hplugins racks disks rfl ?_ decoded hdecoded).1⟩
  · have hresolve : ∀ name ∈ spareDisk.typeTags, disks.resolve name = custom.resolve name := by
      rw [htags]
      decide
    rcases hagree disks custom hresolve with ⟨r, hone, hother, -⟩ | ⟨f, g, hone, -⟩
    · rw [hdecoded] at hone
      rw [hother, hone]
    · rw [hdecoded] at hone
      cases hone
  · rw [htags]
    decide

end Decoder

end Provisioning
