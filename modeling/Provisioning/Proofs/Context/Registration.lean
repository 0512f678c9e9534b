import Provisioning.Context.Plugins
import Provisioning.Proofs.Directory
import Provisioning.Proofs.Traced
import Provisioning.Samples.Equipment

/-!
# Two ways to register types

A layer takes a list of types as a whole: it goes on after a type that it cannot register, and in the end tells
everything that is wrong. Plugins take them one by one, and the first that is refused ends the attempt. Both hold the
same types after the same registrations, because each holds what can be read off the list (`Holds`): under a type name
the first type of that name, and nothing under any other text.
-/

namespace Provisioning

/-- The type that a list registers under a name: the first of that name, if it is a type name. -/
def registeredFirst? (types : List Descriptor) (name : String) : Option Descriptor :=
  if TypeName.problem? name = none then types.find? (·.name == name) else none

/-- What is wrong with a type that is registered after others. -/
def offence? (earlier : List Descriptor) (d : Descriptor) : Option RegistrationProblem :=
  match TypeName.problem? d.name with
  | some problem => some (.badName problem)
  | none => if earlier.any (·.name == d.name) then some (.registeredTwice d.name) else none

/-- What is wrong with the types of a list that is registered after others, type by type. -/
def offences (earlier : List Descriptor) : List Descriptor → List RegistrationProblem
  | [] => []
  | d :: rest => (offence? earlier d).toList ++ offences (earlier ++ [d]) rest

/-- The types can all be registered: their names are type names, and no two are the same. -/
structure Registrable (types : List Descriptor) : Prop where
  named : ∀ d ∈ types, TypeName.problem? d.name = none
  nodup : (types.map (·.name)).Nodup

/-- A directory holds what a list registers. -/
def Holds (earlier : List Descriptor) (types : Directory Descriptor) : Prop :=
  ∀ name, types.get? name = registeredFirst? earlier name

variable {earlier rest : List Descriptor} {types : Directory Descriptor} {d : Descriptor} {name : String}

/-! ## What a list registers -/

theorem registeredFirst?_eq_some (h : registeredFirst? earlier name = some d) :
    d ∈ earlier ∧ d.name = name ∧ TypeName.problem? name = none := by
  unfold registeredFirst? at h
  split at h
  · rename_i hname
    exact ⟨List.mem_of_find?_eq_some h, by simpa using List.find?_some h, hname⟩
  · cases h

theorem isSome_registeredFirst? (hname : TypeName.problem? name = none) :
    (registeredFirst? earlier name).isSome = earlier.any (·.name == name) := by
  rw [registeredFirst?, if_pos hname, Bool.eq_iff_iff, List.find?_isSome, List.any_eq_true]

/-- One more type counts only under its own name, if that is a type name and was free. -/
theorem registeredFirst?_concat (earlier : List Descriptor) (d : Descriptor) (name : String) :
    registeredFirst? (earlier ++ [d]) name =
      (registeredFirst? earlier name).or
        (if d.name = name ∧ TypeName.problem? name = none then some d else none) := by
  unfold registeredFirst?
  by_cases hname : TypeName.problem? name = none
  · rw [if_pos hname, if_pos hname, List.find?_append]
    by_cases hsame : d.name = name
    · rw [if_pos ⟨hsame, hname⟩, List.find?_cons_of_pos (by simpa using hsame)]
    · rw [if_neg fun h => hsame h.1, List.find?_cons_of_neg (by simpa using hsame), List.find?_nil]
  · rw [if_neg hname, if_neg hname, if_neg fun h => hname h.2]
    rfl

theorem holds_empty : Holds [] .empty := by
  intro name
  unfold registeredFirst?
  exact (ite_self none).symm

theorem Holds.contains_eq (h : Holds earlier types) (hname : TypeName.problem? name = none) :
    types.contains name = earlier.any (·.name == name) := by
  rw [Directory.contains, h, isSome_registeredFirst? hname]

/-- **What one more registration comes to.** The type is taken up, or its name is no type name, or it is taken; in the
last two cases nothing changes. -/
theorem Holds.cases (h : Holds earlier types) (d : Descriptor) :
    (offence? earlier d = none ∧ TypeName.problem? d.name = none ∧ types.contains d.name = false ∧
      Holds (earlier ++ [d]) (types.insert d.name d)) ∨
    (∃ problem, offence? earlier d = some (.badName problem) ∧ TypeName.problem? d.name = some problem ∧
      Holds (earlier ++ [d]) types) ∨
    (offence? earlier d = some (.registeredTwice d.name) ∧ TypeName.problem? d.name = none ∧
      types.contains d.name = true ∧ Holds (earlier ++ [d]) types) := by
  unfold offence?
  cases hproblem : TypeName.problem? d.name with
  | some problem =>
    refine .inr (.inl ⟨problem, rfl, rfl, fun name => ?_⟩)
    have hno : ¬(d.name = name ∧ TypeName.problem? name = none) := by
      rintro ⟨rfl, hnone⟩
      exact nomatch hproblem.symm.trans hnone
    rw [registeredFirst?_concat, if_neg hno, Option.or_none]
    exact h name
  | none =>
    have hcontains := h.contains_eq hproblem
    cases htaken : earlier.any (·.name == d.name) with
    | false =>
      refine .inl ⟨rfl, rfl, hcontains.trans htaken, fun name => ?_⟩
      rw [Directory.get?_insert, registeredFirst?_concat]
      by_cases hsame : name = d.name
      · have hfree : registeredFirst? earlier d.name = none := by
          rw [← Option.not_isSome_iff_eq_none, isSome_registeredFirst? hproblem, htaken]
          exact Bool.false_ne_true
        rw [if_pos hsame, hsame, hfree, if_pos ⟨rfl, hproblem⟩]
        rfl
      · rw [if_neg hsame, if_neg fun hboth => hsame hboth.1.symm, Option.or_none]
        exact h name
    | true =>
      refine .inr (.inr ⟨rfl, rfl, hcontains.trans htaken, fun name => ?_⟩)
      rw [registeredFirst?_concat, h]
      by_cases hsame : d.name = name
      · have hthere : (registeredFirst? earlier name).isSome = true := by
          rw [← hsame, isSome_registeredFirst? hproblem, htaken]
        obtain ⟨found, hfound⟩ := Option.isSome_iff_exists.1 hthere
        rw [hfound]
        rfl
      · rw [if_neg fun hboth => hsame hboth.1, Option.or_none]

theorem offence?_eq_none_iff :
    offence? earlier d = none ↔ TypeName.problem? d.name = none ∧ ∀ e ∈ earlier, e.name ≠ d.name := by
  unfold offence?
  cases TypeName.problem? d.name with
  | some problem => exact ⟨nofun, nofun⟩
  | none => simp [List.any_eq_true]

/-- Nothing is wrong exactly if all names are type names, all different, and none was registered before. -/
theorem offences_eq_nil_iff :
    offences earlier rest = [] ↔ Registrable rest ∧ ∀ d ∈ rest, ∀ e ∈ earlier, e.name ≠ d.name := by
  induction rest generalizing earlier with
  | nil => exact ⟨fun _ => ⟨⟨nofun, List.nodup_nil⟩, nofun⟩, fun _ => rfl⟩
  | cons d rest ih =>
    have hbehind : ∀ f ∈ rest, (∀ e ∈ earlier ++ [d], e.name ≠ f.name) ↔
        (∀ e ∈ earlier, e.name ≠ f.name) ∧ d.name ≠ f.name := by
      intro f _
      rw [List.forall_mem_append, List.forall_mem_singleton]
    rw [offences, List.append_eq_nil_iff, Option.toList_eq_nil_iff, offence?_eq_none_iff, ih]
    refine ⟨fun h => ?_, fun h => ?_⟩
    · obtain ⟨⟨hname, hfirst⟩, ⟨hnamed, hnodup⟩, hrest⟩ := h
      have hnew : d.name ∉ rest.map (·.name) := by
        intro hmem
        obtain ⟨f, hf, hsame⟩ := List.mem_map.1 hmem
        exact ((hbehind f hf).1 (hrest f hf)).2 hsame.symm
      exact ⟨⟨List.forall_mem_cons.2 ⟨hname, hnamed⟩, List.nodup_cons.2 ⟨hnew, hnodup⟩⟩,
        List.forall_mem_cons.2 ⟨hfirst, fun f hf => ((hbehind f hf).1 (hrest f hf)).1⟩⟩
    · obtain ⟨⟨hnamed, hnodup⟩, hearlier⟩ := h
      obtain ⟨hname, hnamed⟩ := List.forall_mem_cons.1 hnamed
      obtain ⟨hnew, hnodup⟩ := List.nodup_cons.1 hnodup
      obtain ⟨hfirst, hrest⟩ := List.forall_mem_cons.1 hearlier
      refine ⟨⟨hname, hfirst⟩, ⟨hnamed, hnodup⟩, fun f hf => (hbehind f hf).2 ⟨hrest f hf, fun hsame => ?_⟩⟩
      exact hnew (List.mem_map.2 ⟨f, hf, hsame.symm⟩)

/-! ## At once -/

namespace Layer

/-- **The whole loop.** What is wrong is told entry by entry, and what is held is what the list registers. -/
theorem collect_eq (rest : List Descriptor) : ∀ {earlier : List Descriptor} {types : Directory Descriptor},
    Holds earlier types →
      ∃ held, collect types rest = (held, offences earlier rest) ∧ Holds (earlier ++ rest) held := by
  induction rest with
  | nil =>
    intro earlier types h
    rw [List.append_nil]
    exact ⟨types, rfl, h⟩
  | cons d rest ih =>
    intro earlier types h
    rw [collect, offences, List.append_cons earlier d rest]
    rcases h.cases d with ⟨hoffence, hname, hfree, hholds⟩ | ⟨problem, hoffence, hname, hholds⟩ |
      ⟨hoffence, hname, htaken, hholds⟩
    · obtain ⟨held, hcollect, hheld⟩ := ih hholds
      refine ⟨held, ?_, hheld⟩
      rw [hname, hfree, hoffence]
      exact hcollect
    · obtain ⟨held, hcollect, hheld⟩ := ih hholds
      refine ⟨held, ?_, hheld⟩
      rw [hname, hoffence, hcollect]
      rfl
    · obtain ⟨held, hcollect, hheld⟩ := ih hholds
      refine ⟨held, ?_, hheld⟩
      rw [hname, htaken, hoffence, hcollect]
      rfl

/-- **What a layer is built into.** Of types that can all be registered a layer that holds them, and of all others
what is wrong with them. -/
theorem build_cases (types : List Descriptor) (parent : Option Context) :
    (offences [] types = [] ∧ ∃ held, Layer.build types parent = .ok ⟨held, parent⟩ ∧ Holds types held) ∨
    (offences [] types ≠ [] ∧ Layer.build types parent = .error (offences [] types)) := by
  obtain ⟨held, hcollect, hheld⟩ := collect_eq types holds_empty
  unfold build
  rw [hcollect]
  cases hoffences : offences [] types with
  | nil => exact .inl ⟨rfl, held, rfl, hheld⟩
  | cons problem problems => exact .inr ⟨nofun, rfl⟩

end Layer

/-! ## One by one -/

namespace Plugins

/-- Plugins take a type exactly if nothing is wrong with it. -/
theorem registerNoting_cases {p : Plugins} (h : Holds earlier p.types) (d : Descriptor) :
    (offence? earlier d = none ∧ (p.registerNoting d).outcome = .ok { p with types := p.types.insert d.name d } ∧
      Holds (earlier ++ [d]) (p.types.insert d.name d)) ∨
    (offence? earlier d ≠ none ∧ ∃ fault, (p.registerNoting d).outcome = .error fault) := by
  unfold registerNoting register
  rcases h.cases d with ⟨hoffence, hname, hfree, hholds⟩ | ⟨problem, hoffence, hname, -⟩ |
    ⟨hoffence, hname, htaken, -⟩
  · rw [hname, hfree]
    exact .inl ⟨hoffence, rfl, hholds⟩
  · rw [hname, hoffence]
    exact .inr ⟨nofun, _, rfl⟩
  · rw [hname, htaken, hoffence]
    exact .inr ⟨nofun, _, rfl⟩

/-- **The whole run.** All types are taken, or one is refused and something is wrong with the list. -/
theorem registerAll_cases (rest : List Descriptor) : ∀ {earlier : List Descriptor} {p : Plugins},
    Holds earlier p.types →
      (offences earlier rest = [] ∧ ∃ held, (p.registerAll rest).outcome = .ok ⟨held, p.parent⟩ ∧
        Holds (earlier ++ rest) held) ∨
      (offences earlier rest ≠ [] ∧ ∃ fault, (p.registerAll rest).outcome = .error fault) := by
  induction rest with
  | nil =>
    intro earlier p h
    rw [List.append_nil]
    exact .inl ⟨rfl, p.types, rfl, h⟩
  | cons d rest ih =>
    intro earlier p h
    rw [offences, registerAll, List.append_cons earlier d rest]
    rcases registerNoting_cases h d with ⟨hoffence, htaken, hholds⟩ | ⟨hoffence, fault, hrefused⟩
    · rw [hoffence, Traced.outcome_bind_of_ok htaken]
      exact ih hholds
    · refine .inr ⟨fun hnil => hoffence ?_, fault, Traced.outcome_bind_of_error hrefused⟩
      exact Option.toList_eq_nil_iff.1 (List.append_eq_nil_iff.1 hnil).1

/-- Types that are held under their own names are held again when each is held by its name, so a snapshot takes over
everything. -/
theorem snapshot_of_named {p : Plugins} (h : ∀ name d, p.types.get? name = some d → d.name = name) :
    p.snapshot = .layer p.types (p.parent.getD .nothing) := by
  have hself : ∀ e ∈ p.types.entries, (e.2.name, e.2) = e := by
    intro e he
    rw [h e.1 e.2 ((p.types.mem_entries_iff e).1 he)]
  have hentries : (p.types.values.map fun d => (d.name, d)) = p.types.entries := by
    rw [Directory.values, List.map_map]
    exact (List.map_congr_left hself).trans (List.map_id _)
  rw [snapshot, Layer.toContext, Layer.ofDescriptors, hentries, Directory.ofList_entries]

end Plugins

/-! ## Both -/

/-- A layer's own types come first. -/
theorem Context.resolve_layer (types : Directory Descriptor) (outer : Context) (name : String) :
    (Context.layer types outer).resolve name = (types.get? name).or (outer.resolve name) := by
  rw [resolve]
  cases types.get? name with
  | some d => rfl
  | none => rfl

theorem registeredFirst?_of_registrable (h : Registrable earlier) (name : String) :
    registeredFirst? earlier name = earlier.find? (·.name == name) := by
  unfold registeredFirst?
  split
  · rfl
  · rename_i hname
    -- nothing is registered under a text that is no type name
    refine (List.find?_eq_none.2 fun d hd hsame => hname ?_).symm
    rw [← beq_iff_eq.1 hsame]
    exact h.named d hd

/-- A context that holds a list over another one finds the types of the list, and beyond them what the other finds. -/
theorem Holds.resolve_eq (h : Holds earlier types) (hall : Registrable earlier) (outer : Context) (name : String) :
    (Context.layer types outer).resolve name = (earlier.find? (·.name == name)).or (outer.resolve name) := by
  rw [Context.resolve_layer, h, registeredFirst?_of_registrable hall]

/-- **Both ways come to the same.** A layer can be built exactly of the types that plugins take one by one, which are
those with type names that all differ. The layer and a snapshot of the plugins then resolve every name alike, to the
type of that name in the list or else as the parent does, and they list the same names. If the layer cannot be built,
its fault tells of each entry what is wrong with it: that its name is no type name, or that an entry before it has
it. -/
theorem registrations_agree (types : List Descriptor) (parent : Option Context) :
    let built := Layer.build types parent
    let plugged := ((Plugins.ofParent parent).registerAll types).outcome
    ((∃ layer, built = .ok layer) ↔ Registrable types) ∧
    ((∃ p, plugged = .ok p) ↔ Registrable types) ∧
    (∀ layer p, built = .ok layer → plugged = .ok p →
      (∀ name, layer.toContext.resolve name =
          (types.find? (·.name == name)).or ((parent.getD .nothing).resolve name) ∧
        p.snapshot.resolve name = layer.toContext.resolve name) ∧
      p.snapshot.typeNames = layer.toContext.typeNames) ∧
    ∀ problems, built = .error problems → problems = offences [] types ∧
      (Fault.ofRegistration problems).kind = .initialization ∧
      (Fault.ofRegistration problems).message = "; ".intercalate ((offences [] types).map (·.message)) := by
  have hall : offences [] types = [] ↔ Registrable types :=
    offences_eq_nil_iff.trans (and_iff_left fun d _ => nofun)
  have hplugged := Plugins.registerAll_cases (p := .ofParent parent) types holds_empty
  dsimp only
  rcases Layer.build_cases types parent with ⟨hnone, held, hbuilt, hheld⟩ | ⟨hsome, hbuilt⟩
  · obtain ⟨-, kept, htaken, hkept⟩ | ⟨hsome, -⟩ := hplugged
    · have hregistrable := hall.1 hnone
      have hsame : kept = held := Directory.ext_get? fun name => (hkept name).trans (hheld name).symm
      have hparent : (Plugins.ofParent parent).parent = parent := rfl
      rw [hbuilt, htaken, hsame, hparent]
      refine ⟨⟨fun _ => hregistrable, fun _ => ⟨_, rfl⟩⟩, ⟨fun _ => hregistrable, fun _ => ⟨_, rfl⟩⟩, ?_, nofun⟩
      rintro layer p ⟨⟩ ⟨⟩
      have hsnapshot : (Plugins.mk held parent).snapshot = (Layer.mk held parent).toContext :=
        Plugins.snapshot_of_named fun name d hd =>
          (registeredFirst?_eq_some ((hheld name).symm.trans hd)).2.1
      rw [hsnapshot]
      exact ⟨fun name => ⟨hheld.resolve_eq hregistrable _ name, rfl⟩, rfl⟩
    · exact absurd hnone hsome
  · obtain ⟨hnone, -⟩ | ⟨-, fault, hrefused⟩ := hplugged
    · exact absurd hnone hsome
    · have hnot := mt hall.2 hsome
      rw [hbuilt, hrefused]
      refine ⟨⟨nofun, fun h => absurd h hnot⟩, ⟨nofun, fun h => absurd h hnot⟩, nofun, ?_⟩
      rintro problems ⟨⟩
      exact ⟨rfl, rfl, rfl⟩

/-- Two types over those of the library are registered both ways; of a list with a text that is no type name, twice,
and with a name that is given twice, three entries are complained about. -/
theorem registrations_agree_equipment :
    let good : List Descriptor := [.own Samples.disk, ⟨"test.OldDisk", Samples.disk⟩]
    let bad : List Descriptor := [.own Samples.disk, ⟨"Disk", Samples.disk⟩, ⟨"test.Disk", Samples.wrapped⟩,
      ⟨"Disk", Samples.disk⟩, .own Samples.rack]
    (∃ layer p, Layer.build good (some .builtin) = .ok layer ∧
      ((Plugins.ofParent (some .builtin)).registerAll good).outcome = .ok p ∧
      p.snapshot.typeNames = layer.toContext.typeNames) ∧
    ∃ problems, Layer.build bad none = .error problems ∧
      (Fault.ofRegistration problems).message =
        "type name `Disk` must be namespaced, as in `vendor.Disk`; type `test.Disk` is registered twice; " ++
        "type name `Disk` must be namespaced, as in `vendor.Disk`" := by
  intro good bad
  have hgood : Registrable good := ⟨by decide, by decide⟩
  have hbad : ¬Registrable bad := fun h => absurd h.nodup (by decide)
  obtain ⟨hbuilt, hplugged, hagree, -⟩ := registrations_agree good (some .builtin)
  obtain ⟨hnot, -, -, htold⟩ := registrations_agree bad none
  obtain ⟨layer, hlayer⟩ := hbuilt.2 hgood
  obtain ⟨p, hp⟩ := hplugged.2 hgood
  refine ⟨⟨layer, p, hlayer, hp, (hagree layer p hlayer hp).2⟩, ?_⟩
  cases hoffences : Layer.build bad none with
  | ok layer => exact absurd (hnot.1 ⟨layer, hoffences⟩) hbad
  | error problems => exact ⟨problems, rfl, (htold problems hoffences).2.2.trans (by rfl)⟩

end Provisioning
