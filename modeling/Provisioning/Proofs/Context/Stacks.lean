import Provisioning.Proofs.Context.PluginRuns

/-!
# Stacks of contexts

Layers and snapshots of plugins can be put over one another in any number. Each holds some registrations of its own, and
in a stack a name stands for its registration in the nearest of them that has one.

The look-up goes down the stack, while the listing filters and sorts at every storey. They agree because of what every
stack has (`Context.Lists`): what is found under a name has that name, and the listed names are those that are found,
once each and in order. One more storey keeps this, whatever it shadows.
-/

namespace Provisioning

namespace Plugins

/-- What a name stands for after one more call. A call to forget the name leaves nothing; a registration counts if the
name is a type name and stands for nothing yet. -/
def standsAfter (name : String) (now : Option Descriptor) (call : Call) : Option Descriptor :=
  if call.typeName? = some name then
    match call.descriptor? with
    | none => none
    | some d => if TypeName.problem? name = none then now.or (some d) else now
  else now

/-- The registration of a name that calls leave. -/
def registration? (calls : List (Nat × Call)) (name : String) : Option Descriptor :=
  calls.foldl (fun now c => standsAfter name now c.2) none

/-- New plugins over a parent, after calls of their clients. -/
def after (parent : Option Context) (calls : List (Nat × Call)) : Plugins :=
  ((({} : Workspace).setPlugins "plugins" (.ofParent parent)).serveAll "plugins" calls).2.pluginsOf "plugins"

end Plugins

/-- One storey of a stack of contexts. -/
inductive Storey
  /-- A layer of these types. -/
  | layer (types : List Descriptor)
  /-- A snapshot of plugins that had these calls. -/
  | snapshot (calls : List (Nat × Plugins.Call))

namespace Storey

/-- The storey as a context over what is below it. -/
def contextOver (parent : Option Context) : Storey → Except (List RegistrationProblem) Context
  | .layer types => (Layer.build types parent).map Layer.toContext
  | .snapshot calls => .ok (Plugins.after parent calls).snapshot

/-- The registration of a name in the storey itself. -/
def registration? : Storey → String → Option Descriptor
  | .layer types, name => types.find? (·.name == name)
  | .snapshot calls, name => Plugins.registration? calls name

end Storey

/-- The context of a stack of storeys, the nearest of which comes first. It is built from the bottom, and there is none
if there is no storey. -/
def stack : List Storey → Except (List RegistrationProblem) (Option Context)
  | [] => .ok none
  | storey :: below =>
    match stack below with
    | .ok parent => (storey.contextOver parent).map some
    | .error problems => .error problems

variable {name : String} {d : Descriptor}

/-! ## What a storey holds -/

/-- The types of a directory are held under their own names, which are type names. -/
def Directory.IsNamed (types : Directory Descriptor) : Prop :=
  ∀ name d, types.get? name = some d → d.name = name ∧ TypeName.problem? name = none

namespace Plugins

theorem standsAfter_eq_some {now : Option Descriptor} {call : Call}
    (hnow : now = some d → d.name = name ∧ TypeName.problem? name = none) (h : standsAfter name now call = some d) :
    d.name = name ∧ TypeName.problem? name = none := by
  unfold standsAfter at h
  split at h
  · rename_i htype
    split at h
    · cases h
    · rename_i e he
      split at h
      · rename_i hname
        rcases Option.or_eq_some_iff.1 h with hd | ⟨-, hd⟩
        · exact hnow hd
        · obtain rfl := Option.some.inj hd
          exact ⟨Call.name_of_descriptor? he htype, hname⟩
      · exact hnow h
  · exact hnow h

/-- Calls leave a registration under its own name only, and that is a type name. -/
theorem registration?_eq_some (calls : List (Nat × Call)) (h : registration? calls name = some d) :
    d.name = name ∧ TypeName.problem? name = none := by
  have hkept : ∀ (calls : List (Nat × Call)) (now : Option Descriptor),
      (now = some d → d.name = name ∧ TypeName.problem? name = none) →
      calls.foldl (fun now c => standsAfter name now c.2) now = some d →
      d.name = name ∧ TypeName.problem? name = none := by
    intro calls
    induction calls with
    | nil => exact fun now hnow h => hnow h
    | cons c calls ih => exact fun now hnow h => ih _ (standsAfter_eq_some hnow) h
  exact hkept calls none nofun h

end Plugins

namespace Workspace

open Plugins (Call standsAfter)

/-- **What one call does to a name.** -/
theorem get?_serve (w : Workspace) (id : String) (call : Call) (name : String) :
    ((w.serve id call).2.pluginsOf id).types.get? name =
      standsAfter name ((w.pluginsOf id).types.get? name) call := by
  rw [(w.pluginsOf_serve id call).2, standsAfter]
  by_cases htype : call.typeName? = some name
  · rw [if_pos htype]
    cases hd : call.descriptor? with
    | none =>
      -- a name that was not there is forgotten without success
      obtain rfl := (Call.eq_unregister_iff htype).2 hd
      by_cases hsuccess : (w.serve id (.unregister name)).1.isSuccess = true
      · rw [if_pos ⟨htype, hsuccess⟩]
      · rw [if_neg fun h => hsuccess h.2]
        exact Option.not_isSome_iff_eq_none.1 hsuccess
    | some d =>
      obtain rfl := Call.name_of_descriptor? hd htype
      dsimp only
      rw [serve_of_descriptor? w id hd]
      rcases w.enroll_cases id d with ⟨hname, hfree, henrolled⟩ | ⟨hnot, fault, henrolled⟩
      · rw [henrolled, if_pos ⟨htype, rfl⟩, if_pos hname, hfree]
        rfl
      · rw [henrolled, if_neg fun h => Bool.noConfusion h.2]
        split
        · rename_i hname
          have htaken : (w.pluginsOf id).types.get? d.name ≠ none := fun hfree => hnot ⟨hname, hfree⟩
          obtain ⟨found, hfound⟩ := Option.ne_none_iff_exists'.1 htaken
          rw [hfound]
          rfl
        · rfl
  · rw [if_neg htype, if_neg fun h => htype h.1]

/-- **What a whole run does to a name.** -/
theorem get?_serveAll (id name : String) (calls : List (Nat × Call)) : ∀ w : Workspace,
    ((w.serveAll id calls).2.pluginsOf id).types.get? name =
      calls.foldl (fun now c => standsAfter name now c.2) ((w.pluginsOf id).types.get? name) := by
  induction calls with
  | nil => exact fun w => rfl
  | cons c calls ih =>
    intro w
    rw [List.foldl_cons, ← get?_serve]
    exact ih _

end Workspace

/-- **What plugins hold after calls.** Their parent is the one that they were made with. -/
theorem Plugins.after_holds (parent : Option Context) (calls : List (Nat × Call)) :
    (after parent calls).parent = parent ∧
    ∀ name, (after parent calls).types.get? name = registration? calls name := by
  have hnew : (({} : Workspace).setPlugins "plugins" (.ofParent parent)).pluginsOf "plugins" = .ofParent parent :=
    Workspace.pluginsOf_setPlugins _ _ _
  have htold : Told parent [] ((({} : Workspace).setPlugins "plugins" (.ofParent parent)).pluginsOf "plugins") := by
    rw [hnew]
    exact ⟨rfl, fun name => rfl⟩
  refine ⟨(Workspace.told_serveAll calls htold).parent_eq, fun name => ?_⟩
  rw [after, Workspace.get?_serveAll, hnew]
  rfl

/-- **What a storey is.** Built, it is a layer of its own registrations, each under its own name, over what is below. -/
theorem Storey.contextOver_eq_ok {storey : Storey} {parent : Option Context} {context : Context}
    (h : storey.contextOver parent = .ok context) :
    ∃ types : Directory Descriptor, context = .layer types (parent.getD .nothing) ∧ types.IsNamed ∧
      ∀ name, types.get? name = storey.registration? name := by
  cases storey with
  | layer types =>
    rcases Layer.build_cases types parent with ⟨hnone, held, hbuilt, hheld⟩ | ⟨-, hbuilt⟩
    · have hregistrable : Registrable types := (offences_eq_nil_iff.1 hnone).1
      rw [contextOver, hbuilt] at h
      obtain rfl := Except.ok.inj h
      refine ⟨held, rfl, fun name d hd => ?_, fun name => ?_⟩
      · exact (registeredFirst?_eq_some ((hheld name).symm.trans hd)).2
      · exact (hheld name).trans (registeredFirst?_of_registrable hregistrable name)
    · rw [contextOver, hbuilt] at h
      cases h
  | snapshot calls =>
    obtain rfl := Except.ok.inj h
    obtain ⟨hparent, hget⟩ := Plugins.after_holds parent calls
    have hnamed : (Plugins.after parent calls).types.IsNamed := fun name d hd =>
      Plugins.registration?_eq_some calls ((hget name).symm.trans hd)
    refine ⟨(Plugins.after parent calls).types, ?_, hnamed, hget⟩
    rw [Plugins.snapshot_of_named fun name d hd => (hnamed name d hd).1, hparent]

/-! ## What every stack has -/

namespace Context

/-- A context finds types under their own names, which are type names, and lists the names that it finds, in strict
order. -/
structure Lists (context : Context) : Prop where
  named : ∀ name d, context.resolve name = some d → d.name = name ∧ TypeName.problem? name = none
  sorted : context.typeNames.Pairwise (· < ·)
  mem_iff : ∀ name, name ∈ context.typeNames ↔ ∃ d, context.resolve name = some d

theorem lists_nothing : Context.nothing.Lists := ⟨nofun, .nil, fun _ => ⟨nofun, nofun⟩⟩

/-- A layer lists its own names and all names of what is below it. -/
theorem mem_typeNames_layer (types : Directory Descriptor) (outer : Context) (name : String) :
    name ∈ (Context.layer types outer).typeNames ↔ (types.get? name).isSome ∨ name ∈ outer.typeNames := by
  rw [typeNames, List.mem_mergeSort, List.mem_append, List.mem_filter, Directory.mem_names_iff, Directory.contains,
    Bool.not_eq_true', Bool.eq_false_iff]
  -- a name that is filtered out is one of the layer's own
  refine ⟨fun h => h.imp_right And.left, fun h => ?_⟩
  by_cases hown : (types.get? name).isSome = true
  · exact .inl hown
  · exact .inr ⟨h.resolve_left hown, hown⟩

/-- The layer's own names and those that it does not shadow are all different. -/
theorem nodup_layer (types : Directory Descriptor) {names : List String} (h : names.Nodup) :
    (types.names ++ names.filter fun n => !types.contains n).Nodup := by
  refine List.nodup_append.2 ⟨types.nodup_names, h.filter _, ?_⟩
  rintro name hown _ hshown rfl
  have hnot : types.contains name = false := by simpa using (List.mem_filter.1 hshown).2
  have hthere : types.contains name = true := (types.mem_names_iff name).1 hown
  exact Bool.noConfusion (hthere.symm.trans hnot)

/-- Sorted, names that are all different are in strict order. -/
theorem pairwise_mergeSort_of_nodup {names : List String} (h : names.Nodup) :
    (names.mergeSort fun a b => decide (a ≤ b)).Pairwise (· < ·) := by
  have htrans : ∀ a b c : String, decide (a ≤ b) = true → decide (b ≤ c) = true → decide (a ≤ c) = true := by
    intro a b c hab hbc
    exact decide_eq_true (String.le_trans (of_decide_eq_true hab) (of_decide_eq_true hbc))
  have htotal : ∀ a b : String, (decide (a ≤ b) || decide (b ≤ a)) = true := by
    intro a b
    simpa using String.le_total a b
  have hsorted := List.pairwise_mergeSort htrans htotal names
  have hnodup : (names.mergeSort fun a b => decide (a ≤ b)).Nodup :=
    (List.mergeSort_perm names _).nodup_iff.2 h
  refine hsorted.imp₂ (fun a b hle hne => ?_) hnodup
  exact String.not_le.1 fun hge => hne (String.le_antisymm (of_decide_eq_true hle) hge)

/-- **Preserved by every storey.** -/
theorem Lists.layer {outer : Context} (h : outer.Lists) {types : Directory Descriptor} (htypes : types.IsNamed) :
    (Context.layer types outer).Lists where
  named name d hd := by
    rw [resolve_layer] at hd
    rcases Option.or_eq_some_iff.1 hd with hown | ⟨-, hbelow⟩
    · exact htypes name d hown
    · exact h.named name d hbelow
  sorted := pairwise_mergeSort_of_nodup (nodup_layer types (h.sorted.imp fun hlt => String.ne_of_lt hlt))
  mem_iff name := by
    rw [mem_typeNames_layer, h.mem_iff, resolve_layer]
    cases types.get? name with
    | some d => exact ⟨fun _ => ⟨d, rfl⟩, fun _ => .inl rfl⟩
    | none => exact ⟨fun hor => hor.resolve_left nofun, .inr⟩

end Context

/-- **Every stack.** It has what one more storey keeps, and a name stands for its nearest registration. -/
theorem lists_stack {storeys : List Storey} : ∀ {context : Option Context}, stack storeys = .ok context →
    (context.getD .nothing).Lists ∧
    ∀ name, (context.getD .nothing).resolve name = storeys.findSome? (·.registration? name) := by
  induction storeys with
  | nil =>
    intro context h
    obtain rfl := Except.ok.inj h
    exact ⟨Context.lists_nothing, fun name => rfl⟩
  | cons storey below ih =>
    intro context h
    unfold stack at h
    split at h
    · rename_i parent hbelow
      obtain ⟨hlists, hresolve⟩ := ih hbelow
      cases hover : storey.contextOver parent with
      | error problems =>
        rw [hover] at h
        cases h
      | ok upper =>
        rw [hover] at h
        obtain rfl := Except.ok.inj h
        obtain ⟨types, rfl, hnamed, hget⟩ := storey.contextOver_eq_ok hover
        refine ⟨hlists.layer hnamed, fun name => ?_⟩
        rw [Option.getD_some, Context.resolve_layer, hresolve, hget, List.findSome?_cons]
        cases storey.registration? name with
        | some d => rfl
        | none => rfl
    · cases h

/-- **The nearest registration counts.** In a stack of any height a name stands for its registration in the nearest
storey that has one. What is found under a name has that name, which is a type name. The names are listed in strict
order, and they are those that something is found under. -/
theorem resolve_stack_eq_nearest {storeys : List Storey} {context : Context}
    (h : stack storeys = .ok (some context)) :
    (∀ name, context.resolve name = storeys.findSome? (·.registration? name)) ∧
    (∀ name d, context.resolve name = some d → d.name = name ∧ TypeName.problem? name = none) ∧
    context.typeNames.Pairwise (· < ·) ∧
    ∀ name, name ∈ context.typeNames ↔ ∃ d, context.resolve name = some d := by
  obtain ⟨hlists, hresolve⟩ := lists_stack h
  exact ⟨hresolve, hlists.named, hlists.sorted, hlists.mem_iff⟩

/-- Three storeys with the types of the library at the bottom: plugins give one name of the middle layer another type,
refuse two registrations and take a third one back. -/
theorem resolve_stack_eq_nearest_equipment :
    let storeys : List Storey := [
      .snapshot [(0, .registerAs "test.Disk" Samples.wrapped), (1, .register Samples.disk),
        (0, .registerAs "Disk" Samples.disk), (1, .registerAs "acme.RackProfile" Samples.power),
        (2, .unregister "acme.RackProfile")],
      .layer [.own Samples.disk, .own Samples.rack],
      .layer [.own Profile.decl, .own Profile.provisionerDecl, .own Catalog.decl]]
    ∃ context, stack storeys = .ok (some context) ∧
      context.resolve "test.Disk" = some ⟨"test.Disk", Samples.wrapped⟩ ∧
      context.resolve "acme.RackProfile" = some (.own Samples.rack) ∧
      context.resolve "Disk" = none ∧
      context.typeNames.Pairwise (· < ·) ∧ "test.Disk" ∈ context.typeNames := by
  intro storeys
  obtain ⟨context, hstack⟩ : ∃ context, stack storeys = .ok (some context) := ⟨_, rfl⟩
  obtain ⟨hresolve, -, hsorted, hmem⟩ := resolve_stack_eq_nearest hstack
  have hdisk : context.resolve "test.Disk" = some ⟨"test.Disk", Samples.wrapped⟩ := hresolve "test.Disk"
  exact ⟨context, hstack, hdisk, hresolve "acme.RackProfile", hresolve "Disk", hsorted, (hmem _).2 ⟨_, hdisk⟩⟩

-- the context that profiles and catalogs are at home in is such a storey at the bottom
example : (Storey.layer [.own Profile.decl, .own Profile.provisionerDecl, .own Catalog.decl]).contextOver none =
    .ok .builtin := rfl

end Provisioning
