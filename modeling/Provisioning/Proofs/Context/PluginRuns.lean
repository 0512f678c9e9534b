import Provisioning.Proofs.Context.Registration
import Provisioning.Samples.Equipment
import Provisioning.Workspace

/-!
# Whole runs of plugins

Any number of clients call the plugins of a workspace at the same time. Each call is served as a whole, so what they do
together comes to some order of their calls, and a run is such an order: a list of calls with the numbers of their
clients. `Workspace.serveAll` serves it and keeps a log of what the clients were told.

What the plugins hold can be read off the log (`Told`): the type under a name is that of the last successful call about
it, if that call was a registration. One step keeps this, and so does a whole run.
-/

namespace Provisioning

namespace Plugins

/-! ## Calls and what they are told -/

/-- What a client may ask for. -/
inductive Call
  | register (decl : TypeDecl)
  /-- Register a type under another name than its own. -/
  | registerAs (name : String) (decl : TypeDecl)
  | unregister (name : String)
  /-- Take a snapshot, and hold it as a context under a name. -/
  | snapshot (heldAs : String)
deriving DecidableEq

namespace Call

/-- The type that a call registers. -/
def descriptor? : Call → Option Descriptor
  | .register decl => some (.own decl)
  | .registerAs name decl => some ⟨name, decl⟩
  | _ => none

/-- The type name that a call is about. -/
def typeName? : Call → Option String
  | .register decl => some decl.name
  | .registerAs name _ => some name
  | .unregister name => some name
  | .snapshot _ => none

end Call

/-- What a client is told. -/
inductive Reply
  | registered
  | refused (fault : Fault)
  /-- Whether the name was registered before. -/
  | unregistered (wasThere : Bool)
  | frozen
deriving DecidableEq

/-- Whether a call did what it was made for. -/
def Reply.isSuccess : Reply → Bool
  | .registered => true
  | .refused _ => false
  | .unregistered wasThere => wasThere
  | .frozen => true

/-- A call of a client, and what it was told. -/
structure Entry where
  client : Nat
  call : Call
  reply : Reply

/-- Whether this is a successful call about a name. -/
def Entry.settles (e : Entry) (name : String) : Bool :=
  e.call.typeName? == some name && e.reply.isSuccess

/-- The last successful call about a name. -/
def lastCall? (log : List Entry) (name : String) : Option Call :=
  (log.filter (·.settles name)).getLast?.map (·.call)

/-- The type that a name stands for by a log: that of the last successful registration which no unregistration
follows. -/
def standing? (log : List Entry) (name : String) : Option Descriptor := (lastCall? log name).bind Call.descriptor?

end Plugins

namespace Workspace

open Plugins (Call Reply Entry)

/-- Registers a type with plugins. If it is refused, the workspace stays. -/
def enroll (w : Workspace) (id : String) (d : Descriptor) : Reply × Workspace :=
  match (w.register id d).outcome with
  | .ok v => (.registered, v)
  | .error fault => (.refused fault, w)

/-- Serves a call. -/
def serve (w : Workspace) (id : String) : Call → Reply × Workspace
  | .register decl => w.enroll id (.own decl)
  | .registerAs name decl => w.enroll id ⟨name, decl⟩
  | .unregister name => (.unregistered (w.unregister id name).1, (w.unregister id name).2)
  | .snapshot heldAs => (.frozen, w.makeSnapshot heldAs id)

/-- Serves the calls of clients one after another. -/
def serveAll (w : Workspace) (id : String) : List (Nat × Call) → List Entry × Workspace
  | [] => ([], w)
  | (client, call) :: calls =>
    let served := w.serve id call
    let later := served.2.serveAll id calls
    (⟨client, call, served.1⟩ :: later.1, later.2)

end Workspace

namespace Plugins

variable {name : String} {call : Call} {d : Descriptor} {log : List Entry}

/-! ## The last call about a name -/

theorem Call.typeName?_of_descriptor? (h : call.descriptor? = some d) : call.typeName? = some d.name := by
  cases call with
  | register decl =>
    obtain rfl := Option.some.inj h
    rfl
  | registerAs name decl =>
    obtain rfl := Option.some.inj h
    rfl
  | unregister | snapshot => cases h

/-- A call registers a type under the name that it is about. -/
theorem Call.name_of_descriptor? (h : call.descriptor? = some d) (htype : call.typeName? = some name) :
    d.name = name :=
  Option.some.inj ((typeName?_of_descriptor? h).symm.trans htype)

/-- A call about a name that registers nothing forgets it. -/
theorem Call.eq_unregister_iff (h : call.typeName? = some name) :
    call = .unregister name ↔ call.descriptor? = none := by
  cases call with
  | register | registerAs => exact ⟨nofun, nofun⟩
  | unregister other =>
    obtain rfl := Option.some.inj h
    exact ⟨fun _ => rfl, fun _ => rfl⟩
  | snapshot => cases h

theorem Entry.settles_iff {e : Entry} :
    e.settles name = true ↔ e.call.typeName? = some name ∧ e.reply.isSuccess = true := by
  rw [settles, Bool.and_eq_true, beq_iff_eq]

theorem lastCall?_concat (log : List Entry) (e : Entry) (name : String) :
    lastCall? (log ++ [e]) name = if e.settles name then some e.call else lastCall? log name := by
  unfold lastCall?
  rw [List.filter_append]
  by_cases hsettles : e.settles name = true
  · have hlast : [e].filter (·.settles name) = [e] := List.filter_cons_of_pos hsettles
    rw [if_pos hsettles, hlast, List.getLast?_concat]
    rfl
  · have hnone : [e].filter (·.settles name) = [] := List.filter_cons_of_neg hsettles
    rw [if_neg hsettles, hnone, List.append_nil]

theorem typeName?_of_lastCall? (h : lastCall? log name = some call) : call.typeName? = some name := by
  obtain ⟨e, he, rfl⟩ := Option.map_eq_some_iff.1 h
  have hmem := List.mem_filter.1 (List.mem_of_getLast? he)
  exact (Entry.settles_iff.1 hmem.2).1

/-- A name stands for nothing exactly if the last successful call about it, if there is one, was to forget it. -/
theorem standing?_eq_none_iff :
    standing? log name = none ↔ ∀ last, lastCall? log name = some last → last = .unregister name := by
  unfold standing?
  refine ⟨fun h last hlast => ?_, fun h => ?_⟩
  · rw [hlast] at h
    exact (Call.eq_unregister_iff (typeName?_of_lastCall? hlast)).2 h
  · cases hlast : lastCall? log name with
    | none => rfl
    | some last => exact (Call.eq_unregister_iff (typeName?_of_lastCall? hlast)).1 (h last hlast)

/-- A type stands under its own name. -/
theorem name_of_standing? (h : standing? log name = some d) : d.name = name := by
  obtain ⟨call, hlast, hd⟩ := Option.bind_eq_some_iff.1 h
  exact Call.name_of_descriptor? hd (typeName?_of_lastCall? hlast)

/-! ## What plugins hold -/

/-- What plugins hold after the calls in a log. -/
structure Told (parent : Option Context) (log : List Entry) (p : Plugins) : Prop where
  /-- The parent is the one that they were made with. -/
  parent_eq : p.parent = parent
  /-- What is registered under a name is what the name stands for by the log. -/
  get?_eq : ∀ name, p.types.get? name = standing? log name

variable {parent : Option Context} {p : Plugins}

/-- Every type is held under its own name. -/
theorem Told.named (h : Told parent log p) (hd : p.types.get? name = some d) : d.name = name := by
  rw [h.get?_eq] at hd
  exact name_of_standing? hd

/-- What is held under its own name is held again when it is held by its name, so a snapshot takes over everything. -/
theorem Told.snapshot_eq (h : Told parent log p) : p.snapshot = .layer p.types (parent.getD .nothing) := by
  rw [snapshot_of_named fun name d hd => h.named hd, h.parent_eq]

end Plugins

namespace Workspace

open Plugins

variable {w : Workspace} {id name heldAs : String} {d : Descriptor} {call : Call} {log : List Entry}
  {parent : Option Context}

/-! ## One call -/

theorem pluginsOf_setPlugins (w : Workspace) (id : String) (p : Plugins) : (w.setPlugins id p).pluginsOf id = p := by
  unfold setPlugins pluginsOf
  rw [List.lookup_cons_self]
  rfl

/-- A type is registered if its name is a type name and free, and refused otherwise; nothing else can happen. -/
theorem enroll_cases (w : Workspace) (id : String) (d : Descriptor) :
    (TypeName.problem? d.name = none ∧ (w.pluginsOf id).types.get? d.name = none ∧
      w.enroll id d = (.registered, w.setPlugins id
        { w.pluginsOf id with types := (w.pluginsOf id).types.insert d.name d })) ∨
    (¬(TypeName.problem? d.name = none ∧ (w.pluginsOf id).types.get? d.name = none) ∧
      ∃ fault, w.enroll id d = (.refused fault, w)) := by
  unfold enroll register Plugins.registerNoting Plugins.register
  cases hproblem : TypeName.problem? d.name with
  | some problem => exact .inr ⟨fun hboth => Option.some_ne_none _ hboth.1, _, rfl⟩
  | none =>
    dsimp only
    cases hfree : (w.pluginsOf id).types.get? d.name with
    | some found =>
      rw [Directory.contains, hfree]
      exact .inr ⟨fun hboth => Option.some_ne_none _ hboth.2, _, rfl⟩
    | none =>
      rw [Directory.contains, hfree]
      exact .inl ⟨rfl, rfl, rfl⟩

theorem serve_of_descriptor? (w : Workspace) (id : String) (h : call.descriptor? = some d) :
    w.serve id call = w.enroll id d := by
  cases call with
  | register decl =>
    obtain rfl := Option.some.inj h
    rfl
  | registerAs name decl =>
    obtain rfl := Option.some.inj h
    rfl
  | unregister | snapshot => cases h

theorem pluginsOf_enroll (w : Workspace) (id : String) (d : Descriptor) :
    ((w.enroll id d).2.pluginsOf id).parent = (w.pluginsOf id).parent ∧
    ∀ name, ((w.enroll id d).2.pluginsOf id).types.get? name =
      if d.name = name ∧ (w.enroll id d).1.isSuccess = true then some d else (w.pluginsOf id).types.get? name := by
  rcases w.enroll_cases id d with ⟨-, -, henrolled⟩ | ⟨-, fault, henrolled⟩
  · rw [henrolled, pluginsOf_setPlugins]
    refine ⟨rfl, fun name => ?_⟩
    rw [Directory.get?_insert]
    by_cases hname : name = d.name
    · rw [if_pos hname, if_pos ⟨hname.symm, rfl⟩]
    · rw [if_neg hname, if_neg fun h => hname h.1.symm]
  · rw [henrolled]
    exact ⟨rfl, fun name => (if_neg fun h => Bool.noConfusion h.2).symm⟩

/-- A name that was not there is forgotten without success, and there is nothing under it either way. -/
theorem pluginsOf_unregister (w : Workspace) (id other : String) :
    ((w.unregister id other).2.pluginsOf id).parent = (w.pluginsOf id).parent ∧
    ∀ name, ((w.unregister id other).2.pluginsOf id).types.get? name =
      if other = name ∧ (w.unregister id other).1 = true then none else (w.pluginsOf id).types.get? name := by
  have hplugins : (w.unregister id other).2.pluginsOf id = ((w.pluginsOf id).unregister other).1 :=
    pluginsOf_setPlugins _ _ _
  have hfound : (w.unregister id other).1 = (w.pluginsOf id).types.contains other := rfl
  rw [hplugins, hfound]
  refine ⟨rfl, fun name => ?_⟩
  have herase : ((w.pluginsOf id).unregister other).1.types.get? name =
      if name = other then none else (w.pluginsOf id).types.get? name := Directory.get?_erase _ _ _
  rw [herase]
  by_cases hname : name = other
  · subst hname
    rw [if_pos rfl]
    cases hget : (w.pluginsOf id).types.get? name with
    | some d => rw [if_pos ⟨rfl, by rw [Directory.contains, hget]; rfl⟩]
    | none => rw [ite_self]
  · rw [if_neg hname, if_neg fun h => hname h.1.symm]

/-- **What one call does to the plugins.** Under the name that it is about, if it succeeds, there is the type that it
registers, or nothing; all other names, and the parent, stay. -/
theorem pluginsOf_serve (w : Workspace) (id : String) (call : Call) :
    ((w.serve id call).2.pluginsOf id).parent = (w.pluginsOf id).parent ∧
    ∀ name, ((w.serve id call).2.pluginsOf id).types.get? name =
      if call.typeName? = some name ∧ (w.serve id call).1.isSuccess = true then call.descriptor?
      else (w.pluginsOf id).types.get? name := by
  cases call with
  | register decl =>
    simp only [Call.typeName?, Option.some.injEq]
    exact w.pluginsOf_enroll id (.own decl)
  | registerAs other decl =>
    simp only [Call.typeName?, Option.some.injEq]
    exact w.pluginsOf_enroll id ⟨other, decl⟩
  | unregister other =>
    simp only [Call.typeName?, Option.some.injEq]
    exact w.pluginsOf_unregister id other
  | snapshot heldAs =>
    -- a snapshot is about no name, and the plugins are not touched
    refine ⟨rfl, fun name => ?_⟩
    rw [if_neg fun h => nomatch h.1]
    rfl

/-- **Preserved by every call.** -/
theorem told_serve (h : Told parent log (w.pluginsOf id)) (client : Nat) (call : Call) :
    Told parent (log ++ [⟨client, call, (w.serve id call).1⟩]) ((w.serve id call).2.pluginsOf id) := by
  obtain ⟨hparent, hget⟩ := w.pluginsOf_serve id call
  refine ⟨hparent.trans h.parent_eq, fun name => ?_⟩
  rw [hget, standing?, lastCall?_concat]
  -- the call is the last one about the name, or the name stands for what it stood for before
  by_cases hsettles : call.typeName? = some name ∧ (w.serve id call).1.isSuccess = true
  · rw [if_pos hsettles, if_pos (Entry.settles_iff.2 hsettles)]
    rfl
  · rw [if_neg hsettles, if_neg fun hs => hsettles (Entry.settles_iff.1 hs)]
    exact h.get?_eq name

/-- A call that takes no snapshot under a name leaves the context under it. -/
theorem context_serve (w : Workspace) (id : String) (h : call ≠ .snapshot heldAs) :
    (w.serve id call).2.context heldAs = w.context heldAs := by
  have hkept : ∀ d, (w.enroll id d).2.context heldAs = w.context heldAs := by
    intro d
    rcases w.enroll_cases id d with ⟨-, -, henrolled⟩ | ⟨-, fault, henrolled⟩
    · rw [henrolled]
      rfl
    · rw [henrolled]
  cases call with
  | register decl => exact hkept _
  | registerAs name decl => exact hkept _
  | unregister name => rfl
  | snapshot other =>
    have hother : heldAs ≠ other := fun heq => h (heq ▸ rfl)
    unfold serve makeSnapshot make context handle
    dsimp only
    rw [Directory.lookup_cons_ite, if_neg hother]
    -- a name that holds nothing stands for no types before and after
    cases w.contexts.lookup heldAs with
    | some h => rfl
    | none => rfl

/-! ## Whole runs -/

/-- **Preserved by every run.** The log of a run comes behind what was in the log before it. -/
theorem told_serveAll (calls : List (Nat × Call)) :
    ∀ {w : Workspace} {log : List Entry}, Told parent log (w.pluginsOf id) →
      Told parent (log ++ (w.serveAll id calls).1) ((w.serveAll id calls).2.pluginsOf id) := by
  induction calls with
  | nil =>
    intro w log h
    rw [serveAll, List.append_nil]
    exact h
  | cons c calls ih =>
    intro w log h
    obtain ⟨client, call⟩ := c
    have hrest := ih (told_serve h client call)
    rw [List.append_assoc] at hrest
    exact hrest

/-- New plugins hold nothing. -/
theorem told_makePlugins (w : Workspace) (id : String) (parent : Option String) :
    Told (w.context? parent) [] ((w.makePlugins id parent).pluginsOf id) := by
  have hplugins : (w.makePlugins id parent).pluginsOf id = .ofParent (w.context? parent) :=
    w.pluginsOf_setPlugins id _
  rw [hplugins]
  exact ⟨rfl, fun name => rfl⟩

theorem told_run (w : Workspace) (id : String) (parent : Option String) (calls : List (Nat × Call)) :
    Told (w.context? parent) ((w.makePlugins id parent).serveAll id calls).1
      (((w.makePlugins id parent).serveAll id calls).2.pluginsOf id) :=
  told_serveAll calls (w.told_makePlugins id parent)

/-- What is held under a name is held as long as nothing else is put there. -/
theorem context_serveAll {calls : List (Nat × Call)} (h : ∀ c ∈ calls, c.2 ≠ .snapshot heldAs) :
    ∀ w : Workspace, (w.serveAll id calls).2.context heldAs = w.context heldAs := by
  induction calls with
  | nil => exact fun w => rfl
  | cons c calls ih =>
    intro w
    obtain ⟨hfirst, hrest⟩ := List.forall_mem_cons.1 h
    exact (ih hrest _).trans (w.context_serve id hfirst)

/-- A registration succeeds exactly if its name is a type name and free. -/
theorem serve_registered_iff (w : Workspace) (id : String) (h : call.descriptor? = some d) :
    (w.serve id call).1 = .registered ↔
      TypeName.problem? d.name = none ∧ (w.pluginsOf id).types.get? d.name = none := by
  rw [serve_of_descriptor? w id h]
  rcases w.enroll_cases id d with ⟨hname, hfree, henrolled⟩ | ⟨hnot, fault, henrolled⟩
  · rw [henrolled]
    exact ⟨fun _ => ⟨hname, hfree⟩, fun _ => rfl⟩
  · rw [henrolled]
    exact ⟨nofun, fun hboth => absurd hboth hnot⟩

/-- Whatever a registration is told but that it succeeded, it changed nothing. -/
theorem serve_of_not_registered (w : Workspace) (id : String) (h : call.descriptor? = some d)
    (hreply : (w.serve id call).1 ≠ .registered) : (w.serve id call).2 = w := by
  rw [serve_of_descriptor? w id h] at hreply ⊢
  rcases w.enroll_cases id d with ⟨-, -, henrolled⟩ | ⟨-, fault, henrolled⟩
  · rw [henrolled] at hreply
    exact absurd rfl hreply
  · rw [henrolled]

/-! ## Calls for one name -/

/-- Unless it is to forget the name, a call about a name succeeds exactly if the name is a type name and free. -/
theorem settles_serve_iff (w : Workspace) (id : String) (client : Nat) (h : call ≠ .unregister name) :
    Entry.settles ⟨client, call, (w.serve id call).1⟩ name = true ↔
      call.typeName? = some name ∧ TypeName.problem? name = none ∧ (w.pluginsOf id).types.get? name = none := by
  rw [Entry.settles_iff]
  refine and_congr_right fun htype => ?_
  cases hd : call.descriptor? with
  | none => exact absurd ((Call.eq_unregister_iff htype).2 hd) h
  | some d =>
    obtain rfl := Call.name_of_descriptor? hd htype
    dsimp only
    rw [serve_of_descriptor? w id hd]
    rcases w.enroll_cases id d with ⟨hname, hfree, henrolled⟩ | ⟨hnot, fault, henrolled⟩
    · rw [henrolled]
      exact ⟨fun _ => ⟨hname, hfree⟩, fun _ => rfl⟩
    · rw [henrolled]
      exact ⟨nofun, fun hboth => absurd hboth hnot⟩

/-- A name that is taken stays taken until a call forgets it. -/
theorem taken_serve (w : Workspace) (id : String) (h : call ≠ .unregister name)
    (htaken : (w.pluginsOf id).types.get? name ≠ none) :
    ((w.serve id call).2.pluginsOf id).types.get? name ≠ none := by
  rw [(w.pluginsOf_serve id call).2]
  by_cases hsettles : call.typeName? = some name ∧ (w.serve id call).1.isSuccess = true
  · rw [if_pos hsettles]
    exact fun hnone => h ((Call.eq_unregister_iff hsettles.1).2 hnone)
  · rw [if_neg hsettles]
    exact htaken

/-- The first call counts if it is a successful one about the name. -/
theorem countP_settles_cons (w : Workspace) (id name : String) (client : Nat) (call : Call)
    (calls : List (Nat × Call)) :
    (w.serveAll id ((client, call) :: calls)).1.countP (·.settles name) =
      ((w.serve id call).2.serveAll id calls).1.countP (·.settles name) +
        if Entry.settles ⟨client, call, (w.serve id call).1⟩ name = true then 1 else 0 := List.countP_cons

/-- Of the calls for a name that is taken none succeeds. -/
theorem countP_settles_of_taken {calls : List (Nat × Call)} (h : ∀ c ∈ calls, c.2 ≠ .unregister name) :
    ∀ w : Workspace, (w.pluginsOf id).types.get? name ≠ none →
      (w.serveAll id calls).1.countP (·.settles name) = 0 := by
  induction calls with
  | nil => exact fun w _ => rfl
  | cons c calls ih =>
    intro w htaken
    obtain ⟨client, call⟩ := c
    obtain ⟨hfirst, hrest⟩ := List.forall_mem_cons.1 h
    have hfailed : ¬Entry.settles ⟨client, call, (w.serve id call).1⟩ name = true :=
      fun hs => htaken ((w.settles_serve_iff id client hfirst).1 hs).2.2
    rw [countP_settles_cons, if_neg hfailed]
    exact ih hrest _ (w.taken_serve id hfirst htaken)

/-- **One of the calls for a name that is free succeeds, and no other.** The first of them takes the name. -/
theorem countP_settles_of_free (hname : TypeName.problem? name = none) {calls : List (Nat × Call)}
    (h : ∀ c ∈ calls, c.2 ≠ .unregister name) (hsome : ∃ c ∈ calls, c.2.typeName? = some name) :
    ∀ w : Workspace, (w.pluginsOf id).types.get? name = none →
      (w.serveAll id calls).1.countP (·.settles name) = 1 := by
  induction calls with
  | nil =>
    obtain ⟨c, hc, -⟩ := hsome
    exact absurd hc List.not_mem_nil
  | cons c calls ih =>
    intro w hfree
    obtain ⟨client, call⟩ := c
    obtain ⟨hfirst, hrest⟩ := List.forall_mem_cons.1 h
    rw [countP_settles_cons]
    have hget := (w.pluginsOf_serve id call).2 name
    -- the first call about the name succeeds, and takes the name from all that follow
    by_cases htype : call.typeName? = some name
    · have hsettles := (w.settles_serve_iff id client hfirst).2 ⟨htype, hname, hfree⟩
      have htaken : ((w.serve id call).2.pluginsOf id).types.get? name ≠ none := by
        rw [hget, if_pos (Entry.settles_iff.1 hsettles)]
        exact fun hnone => hfirst ((Call.eq_unregister_iff htype).2 hnone)
      rw [if_pos hsettles, countP_settles_of_taken hrest _ htaken]
    · have hfailed : ¬Entry.settles ⟨client, call, (w.serve id call).1⟩ name = true :=
        fun hs => htype (Entry.settles_iff.1 hs).1
      have hfree' : ((w.serve id call).2.pluginsOf id).types.get? name = none := by
        rw [hget, if_neg fun hs => htype hs.1]
        exact hfree
      have hlater : ∃ c ∈ calls, c.2.typeName? = some name := by
        obtain ⟨c, hc, htype'⟩ := hsome
        rcases List.mem_cons.1 hc with rfl | hc
        · exact absurd htype' htype
        · exact ⟨c, hc, htype'⟩
      rw [if_neg hfailed]
      exact ih hrest hlater _ hfree'

/-! ## What clients can rely on -/

/-- **Whole runs of plugins.** Plugins are made over any parent, or none, and clients make any calls in any order. Then

* a registration succeeds exactly if its name is a type name, and the last successful call about the name, if there was
  one, was to forget it; if it does not succeed it changes nothing;
* a snapshot resolves a name to the type of the last registration of it that was not undone, and otherwise as the
  parent does, and it goes on doing so whatever calls follow, unless another snapshot is held in its place;
* of the calls of any number of clients to register a name that is free exactly one succeeds, until one of them forgets
  it;
* every type is held under its own name, so a snapshot holds the very types that are registered, under the names that
  stand for something. -/
theorem plugin_runs (w : Workspace) (id : String) (parent : Option String) (before : List (Nat × Call)) :
    let outer := (w.context? parent).getD .nothing
    let log := ((w.makePlugins id parent).serveAll id before).1
    let v := ((w.makePlugins id parent).serveAll id before).2
    let plugins := v.pluginsOf id
    (∀ call d, call.descriptor? = some d →
      ((v.serve id call).1 = .registered ↔ TypeName.problem? d.name = none ∧
        ∀ last, lastCall? log d.name = some last → last = .unregister d.name) ∧
      ((v.serve id call).1 ≠ .registered → (v.serve id call).2 = v)) ∧
    (∀ heldAs after, (∀ c ∈ after, c.2 ≠ Call.snapshot heldAs) → ∀ name,
      (((v.serve id (.snapshot heldAs)).2.serveAll id after).2.context heldAs).resolve name =
        (standing? log name).or (outer.resolve name)) ∧
    (∀ batch name, TypeName.problem? name = none →
      (∀ last, lastCall? log name = some last → last = .unregister name) →
      (∀ c ∈ batch, c.2 ≠ Call.unregister name) → (∃ c ∈ batch, c.2.typeName? = some name) →
      (v.serveAll id batch).1.countP (·.settles name) = 1) ∧
    (∀ name d, plugins.types.get? name = some d → d.name = name) ∧
    plugins.snapshot = .layer plugins.types outer ∧
    ∀ name, name ∈ plugins.types.names ↔ (standing? log name).isSome := by
  intro outer log v plugins
  have htold : Told (w.context? parent) log plugins := w.told_run id parent before
  have hfree : ∀ name, plugins.types.get? name = none ↔
      ∀ last, lastCall? log name = some last → last = .unregister name := by
    intro name
    rw [htold.get?_eq, standing?_eq_none_iff]
  refine ⟨fun call d hd => ⟨?_, v.serve_of_not_registered id hd⟩, fun heldAs after hafter name => ?_,
    fun batch name hname hlast hbatch hsome => ?_, fun name d => htold.named, htold.snapshot_eq, fun name => ?_⟩
  · rw [v.serve_registered_iff id hd, ← hfree]
  · have hheld : (v.serve id (.snapshot heldAs)).2.context heldAs = plugins.snapshot := by
      unfold serve makeSnapshot make context handle
      dsimp only
      rw [List.lookup_cons_self]
      rfl
    rw [context_serveAll hafter, hheld, htold.snapshot_eq, Context.resolve, htold.get?_eq]
    cases standing? log name with
    | some d => rfl
    | none => rfl
  · exact countP_settles_of_free hname hbatch hsome v ((hfree name).2 hlast)
  · rw [Directory.mem_names_iff, htold.get?_eq]

/-- Two clients register types for disks in turn, the second one in place of the first. A snapshot keeps what it holds,
the name is not free for another registration, and a race for a name that is free has one winner. -/
theorem plugin_runs_disks :
    let before : List (Nat × Call) :=
      [(0, .register Samples.disk), (1, .registerAs "test.Disk" Samples.wrapped), (0, .unregister "test.Disk"),
        (1, .registerAs "test.Disk" Samples.wrapped)]
    let v := (({} : Workspace).makePlugins "store" (some "builtin")).serveAll "store" before |>.2
    let frozen := (v.serve "store" (.snapshot "frozen")).2
    ((frozen.serveAll "store" [(0, .unregister "test.Disk")]).2.context "frozen").resolve "test.Disk" =
      some ⟨"test.Disk", Samples.wrapped⟩ ∧
    (v.serve "store" (.register Samples.disk)).1 ≠ .registered ∧
    (v.serveAll "store" [(0, .register Samples.rack), (1, .registerAs "acme.RackProfile" Samples.disk)]).1.countP
      (·.settles "acme.RackProfile") = 1 := by
  intro before v frozen
  obtain ⟨hregister, hsnapshot, hrace, -⟩ := plugin_runs {} "store" (some "builtin") before
  have hdisk : lastCall? (((({} : Workspace).makePlugins "store" (some "builtin")).serveAll "store" before).1)
      "test.Disk" = some (.registerAs "test.Disk" Samples.wrapped) := by rfl
  have hrack : lastCall? (((({} : Workspace).makePlugins "store" (some "builtin")).serveAll "store" before).1)
      "acme.RackProfile" = none := by rfl
  refine ⟨?_, fun hregistered => ?_, ?_⟩
  · rw [hsnapshot "frozen" [(0, .unregister "test.Disk")] (by decide), standing?, hdisk]
    rfl
  · have hlast := ((hregister (.register Samples.disk) _ rfl).1.1 hregistered).2 _ hdisk
    cases hlast
  · refine hrace _ "acme.RackProfile" (by decide) (fun last hlast => ?_) (by decide) ⟨_, List.mem_cons_self, rfl⟩
    rw [hrack] at hlast
    cases hlast

end Workspace

end Provisioning
