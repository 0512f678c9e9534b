import Provisioning.Profile.Types
import Provisioning.Proofs.Context.Stacks
import Provisioning.Proofs.Decode.DepthLimit

/-!
# A root that names the root type

The tag of a root stands outside the traversal: its name is looked up, what it stands on is resolved one level further
down, and the build comes last. If the name stands for the root type, that is the build of the document without the tag.
What is left of the tag is one look-up, one level, and the name in messages, which is that of the descriptor found.

So one computation lies in all three decodes of such a document, as the root type with and without the tag and as root
any with it: the content is resolved, and built as the root type (`Surroundings.contentBuilt`). They agree with it in
what they result in and which keys they drop (`Traced.Matches`), which is more than that they succeed together.
-/

namespace Provisioning

/-! ## Computations that match -/

namespace Traced

variable {ε α β : Type} {x y : Traced ε α}

/-- Two computations give the same result or both fail, and either way drop the same keys. -/
structure Matches (x y : Traced ε α) : Prop where
  result : ∀ a, x.outcome = .ok a ↔ y.outcome = .ok a
  dropped : Journal.dropped x.events = Journal.dropped y.events

theorem Matches.refl (x : Traced ε α) : x.Matches x := ⟨fun _ => Iff.rfl, rfl⟩

theorem Matches.trans {z : Traced ε α} (h : x.Matches y) (h' : y.Matches z) : x.Matches z :=
  ⟨fun a => (h.result a).trans (h'.result a), h.dropped.trans h'.dropped⟩

/-- Computations that match can go on with computations that match. -/
theorem Matches.bind {f g : α → Traced ε β} (h : x.Matches y) (hf : ∀ a, (f a).Matches (g a)) :
    (x >>= f).Matches (y >>= g) := by
  cases hx : x.outcome with
  | ok a =>
    have hy := (h.result a).1 hx
    refine ⟨fun b => ?_, ?_⟩
    · rw [outcome_bind_of_ok hx, outcome_bind_of_ok hy]
      exact (hf a).result b
    · rw [events_bind_of_ok hx, events_bind_of_ok hy, Journal.dropped_append, Journal.dropped_append, h.dropped,
        (hf a).dropped]
  | error e =>
    cases hy : y.outcome with
    | ok a => exact nomatch hx.symm.trans ((h.result a).2 hy)
    | error e' =>
      refine ⟨fun b => ?_, ?_⟩
      · rw [outcome_bind_of_error hx, outcome_bind_of_error hy]
        exact ⟨nofun, nofun⟩
      · rw [events_bind_of_error hx, events_bind_of_error hy]
        exact h.dropped

end Traced

namespace Surroundings

variable {s : Surroundings} {place : Place} {node : Tree}

/-! ## Levels -/

/-- The traversal of a node takes the same course from every depth that leaves room for what is below it. -/
def DepthFree (s : Surroundings) (t : Tree) : Prop :=
  ∀ depth depth' place, depth + t.depth ≤ s.settings.maxDepth → depth' + t.depth ≤ s.settings.maxDepth →
    s.resolveNode depth place t = s.resolveNode depth' place t

theorem checkDepth_of_le {depth : Nat} (h : depth ≤ s.settings.maxDepth) : s.checkDepth depth place = pure () :=
  if_neg (Nat.not_lt.2 h)

theorem resolveItems_of_room {depth depth' : Nat} {items : List Tree} (ih : ∀ t ∈ items, s.DepthFree t)
    (h : depth + Tree.itemsDepth items ≤ s.settings.maxDepth)
    (h' : depth' + Tree.itemsDepth items ≤ s.settings.maxDepth) :
    ∀ position, s.resolveItems (depth + 1) place position items =
      s.resolveItems (depth' + 1) place position items := by
  induction items with
  | nil => exact fun _ => rfl
  | cons t ts ihts =>
    intro position
    rw [Tree.itemsDepth] at h h'
    have ht := ih t List.mem_cons_self (depth + 1) (depth' + 1) (place.item position) (by omega) (by omega)
    have hts := ihts (fun u hu => ih u (List.mem_cons_of_mem _ hu)) (by omega) (by omega)
    simp only [resolveItems, ht, hts]

theorem resolveEntries_of_room {depth depth' : Nat} {entries : List (Tree × Tree)}
    (ih : ∀ e ∈ entries, s.DepthFree e.1 ∧ s.DepthFree e.2)
    (h : depth + Tree.entriesDepth entries ≤ s.settings.maxDepth)
    (h' : depth' + Tree.entriesDepth entries ≤ s.settings.maxDepth) :
    ∀ done, s.resolveEntries (depth + 1) place done entries = s.resolveEntries (depth' + 1) place done entries := by
  induction entries with
  | nil => exact fun _ => rfl
  | cons e rest ihrest =>
    intro done
    obtain ⟨k, v⟩ := e
    rw [Tree.entriesDepth] at h h'
    obtain ⟨hkey, hvalue⟩ : s.DepthFree k ∧ s.DepthFree v := ih (k, v) List.mem_cons_self
    have hk := hkey (depth + 1) (depth' + 1) place (by omega) (by omega)
    have hv := fun key : Tree => hvalue (depth + 1) (depth' + 1) (place.entry key.label) (by omega) (by omega)
    have hrest := ihrest (fun e he => ih e (List.mem_cons_of_mem _ he)) (by omega) (by omega)
    simp only [resolveEntries, hk, hv, hrest]

/-- **Only room counts.** Levels are counted for nothing but the limit. -/
theorem depthFree (t : Tree) : s.DepthFree t := by
  induction t using Tree.induct with
  | null | flag | number | text =>
    intro depth depth' place h h'
    simp only [resolveNode, checkDepth_of_le (Nat.le_of_add_right_le h), checkDepth_of_le (Nat.le_of_add_right_le h')]
  | list items ih =>
    intro depth depth' place h h'
    simp only [resolveNode, checkDepth_of_le (Nat.le_of_add_right_le h), checkDepth_of_le (Nat.le_of_add_right_le h'),
      resolveItems_of_room ih h h']
  | map entries ih =>
    intro depth depth' place h h'
    simp only [resolveNode, checkDepth_of_le (Nat.le_of_add_right_le h), checkDepth_of_le (Nat.le_of_add_right_le h'),
      resolveEntries_of_room ih h h']
  | tagged tag content ih =>
    intro depth depth' place h h'
    have hcontent : s.resolveNode (depth + 1) place content = s.resolveNode (depth' + 1) place content := by
      rw [Tree.depth] at h h'
      exact ih _ _ place (by omega) (by omega)
    simp only [resolveNode, checkDepth_of_le (Nat.le_of_add_right_le h), checkDepth_of_le (Nat.le_of_add_right_le h'),
      hcontent]

/-! ## The build in the middle -/

/-- The name of the type is told in messages and warnings, and nothing else of a checked build depends on it. -/
theorem matches_accept (typeName typeName' : String) (skipped : List KeyPath) :
    (s.accept typeName place node skipped).Matches (s.accept typeName' place node skipped) := by
  unfold accept
  cases skipped with
  | nil => exact .refl _
  | cons path paths =>
    cases s.settings.strict with
    | true => exact ⟨fun _ => ⟨nofun, nofun⟩, rfl⟩
    | false => exact ⟨fun _ => Iff.rfl, rfl⟩

theorem matches_buildChecked (typeName typeName' : String)
    (build : Tree → Except DecodeFailure (Built Instance)) :
    (s.buildChecked typeName place build node).Matches (s.buildChecked typeName' place build node) := by
  unfold buildChecked
  split
  · exact (matches_accept typeName typeName' _).bind fun _ => .refl _
  · split
    · have hnote : (Traced.note (.droppedOtherKeys typeName (place.qualifyAll node.otherKeyPaths)) :
          Traced DecodeFailure Unit).Matches
          (.note (.droppedOtherKeys typeName' (place.qualifyAll node.otherKeyPaths))) :=
        ⟨fun _ => Iff.rfl, rfl⟩
      exact hnote.bind fun _ => (Traced.Matches.refl _).bind fun _ =>
        (matches_accept typeName typeName' _).bind fun _ => .refl _
    · exact .refl _

/-- A document is resolved, and built as a type. -/
def contentBuilt (s : Surroundings) (decl : TypeDecl) (document : Tree) : Traced DecodeFailure (Instance × Tree) :=
  s.resolveNode 0 .root document >>= fun inner => s.buildChecked decl.name .root (s.build decl) inner

/-- A look-up that finds something is over with that: it drops nothing. -/
theorem matches_lookUp_bind {α : Type} {name : String} {d : Descriptor} (h : s.context.resolve name = some d)
    (f : Descriptor → Traced DecodeFailure α) : (s.lookUp name place >>= f).Matches (f d) := by
  have hlookUp : s.lookUp name place = ⟨[.lookedUp name true], .ok d⟩ := by rw [lookUp, h]
  rw [hlookUp]
  exact ⟨fun _ => Iff.rfl, rfl⟩

/-- Below a tag that names a type the content is resolved and built as the type, whatever is made of that. -/
theorem matches_resolveRoot_bind {α : Type} {tag name : String} {d : Descriptor} {document : Tree}
    {finish : ResolvedRoot → Traced DecodeFailure α} {f : Instance × Tree → α}
    (hrole : TagRole.ofTag tag = .type name) (hd : s.context.resolve name = some d)
    (hdepth : document.depth + 1 ≤ s.settings.maxDepth)
    (hfinish : ∀ inner, finish (.typed d inner) =
      s.buildChecked d.name .root (s.build d.decl) inner >>= fun b => pure (f b)) :
    (s.resolveRoot (.tagged tag document) >>= finish).Matches
      (s.contentBuilt d.decl document >>= fun b => pure (f b)) := by
  have hroot : (Tree.tagged tag document).rootType? = some (name, document) := by rw [Tree.rootType?, hrole]
  have hlevel : s.resolveNode 1 .root document = s.resolveNode 0 .root document :=
    depthFree document 1 0 .root (by omega) (by omega)
  rw [resolveRoot_of_type hroot, Traced.bind_bind]
  refine (matches_lookUp_bind hd _).trans ?_
  rw [Traced.bind_bind, contentBuilt, Traced.bind_bind, hlevel]
  refine (Traced.Matches.refl _).bind fun inner => ?_
  show (finish (.typed d inner)).Matches _
  rw [hfinish]
  exact (matches_buildChecked d.name d.decl.name _).bind fun _ => .refl _

end Surroundings

namespace Decoder

variable {σ : Schema} {context : Context} {settings : Settings} {document : Tree} {tag name : String} {d : Descriptor}

/-! ## The three decodes -/

/-- However a decode ends, it drops what its run drops. -/
theorem dropped_decode_eq (d : Decoder) (document : Tree) :
    Journal.dropped (d.decode σ document).events = Journal.dropped (d.run σ document).events := by
  cases hrun : (d.run σ document).outcome with
  | ok r => exact dropped_decode hrun
  | error f =>
    have hbegun : (d.decode σ document).events =
        .started d.root.name d.settings.strict :: (d.run σ document).events := by
      show _ :: (d.run σ document >>= _).events = _
      rw [Traced.events_bind_of_error hrun]
    rw [hbegun]
    rfl

/-- A decode whose run matches another computation tells what that results in and drops. -/
theorem decode_of_matches {d : Decoder} {α : Type} {x : Traced DecodeFailure α} {f : α → Decoded}
    (h : (d.run σ document).Matches (x >>= fun a => pure (f a))) :
    (∀ r, (d.decode σ document).outcome = .ok r ↔ ∃ a, x.outcome = .ok a ∧ r = f a) ∧
      Journal.dropped (d.decode σ document).events = Journal.dropped x.events := by
  refine ⟨fun r => ?_, ?_⟩
  · rw [decode_eq_ok, h.result, Traced.outcome_bind_eq_ok]
    exact exists_congr fun a => and_congr_right fun _ => Traced.outcome_pure_eq_ok
  · rw [dropped_decode_eq, h.dropped]
    cases hx : x.outcome with
    | ok a => rw [Traced.events_bind_of_ok hx, Traced.events_pure, List.append_nil]
    | error e => rw [Traced.events_bind_of_error hx]

variable (σ context settings)

/-- Without the tag, the computation is all there is. -/
theorem matches_run_plain (decl : TypeDecl) (hroot : document.rootType? = none) :
    (run ⟨.type decl, context, settings⟩ σ document).Matches
      (Surroundings.contentBuilt ⟨σ, context, settings⟩ decl document >>= fun b => pure (.built b.1)) := by
  rw [run, surroundings, Surroundings.resolveRoot_of_none hroot, Surroundings.contentBuilt, Traced.bind_bind,
    Traced.bind_bind]
  refine (Traced.Matches.refl _).bind fun inner => ?_
  show (finishTyped _ decl (.plain inner) >>= _).Matches _
  rw [finishTyped, Traced.bind_bind]
  exact .refl _

/-- As the root type, the instance that the named type is built into is the result. -/
theorem matches_run_tagged (hrole : TagRole.ofTag tag = .type name) (hd : context.resolve name = some d)
    (hdepth : document.depth + 1 ≤ settings.maxDepth) :
    (run ⟨.type d.decl, context, settings⟩ σ (.tagged tag document)).Matches
      (Surroundings.contentBuilt ⟨σ, context, settings⟩ d.decl document >>= fun b => pure (.built b.1)) := by
  refine Surroundings.matches_resolveRoot_bind hrole hd hdepth fun inner => ?_
  have hof : d.isOf d.decl = true := Descriptor.isOf_iff.2 rfl
  show finishTyped _ d.decl (.typed d inner) >>= _ = _
  rw [finishTyped, hof]
  exact Traced.bind_bind _ _ _

/-- Of root any, that instance is the result with the type. -/
theorem matches_run_any (hrole : TagRole.ofTag tag = .type name) (hd : context.resolve name = some d)
    (hdepth : document.depth + 1 ≤ settings.maxDepth) :
    (run ⟨.any, context, settings⟩ σ (.tagged tag document)).Matches
      (Surroundings.contentBuilt ⟨σ, context, settings⟩ d.decl document >>= fun b => pure (.typed d b.1)) :=
  Surroundings.matches_resolveRoot_bind hrole hd hdepth fun _ => rfl

/-- **A root tag that names the root type is transparent.** A context knows the root type under the name in the tag, be
it the type's own name or another, and there is room for the tag. Then with the tag the document decodes to just the
instances that it decodes to without; of root any it decodes to just these too, as typed objects from which they can be
had back. The name of such an object is that of the descriptor which the context gave out, and this is the name in the
tag if the context is a stack of layers and snapshots. All three decodes drop the same keys, also if they fail. -/
theorem decode_root_tag (σ : Schema) (decl : TypeDecl) (context : Context) (settings : Settings) (tag name : String)
    (d : Descriptor) (document : Tree) (hrole : TagRole.ofTag tag = .type name)
    (hd : context.resolve name = some d) (hdecl : d.decl = decl) (hroot : document.rootType? = none)
    (hdepth : document.depth + 1 ≤ settings.maxDepth) :
    let plain := decode ⟨.type decl, context, settings⟩ σ document
    let tagged := decode ⟨.type decl, context, settings⟩ σ (.tagged tag document)
    let any := decode ⟨.any, context, settings⟩ σ (.tagged tag document)
    (∀ r, tagged.outcome = .ok r ↔ plain.outcome = .ok r) ∧
    Journal.dropped tagged.events = Journal.dropped plain.events ∧
    (∀ x, plain.outcome = .ok (.built x) ↔ any.outcome = .ok (.typed d x)) ∧
    (∀ r, any.outcome = .ok r → r.typeName? = some d.name ∧
      ∃ x, r.downcast? decl = some x ∧ plain.outcome = .ok (.built x)) ∧
    (∀ storeys, stack storeys = .ok (some context) → d.name = name) ∧
    Journal.dropped any.events = Journal.dropped plain.events := by
  subst hdecl
  intro plain tagged any
  obtain ⟨hplain, hdropped⟩ := decode_of_matches (matches_run_plain σ context settings d.decl hroot)
  obtain ⟨htagged, hdropped'⟩ := decode_of_matches (matches_run_tagged σ context settings hrole hd hdepth)
  obtain ⟨hany, hdropped''⟩ := decode_of_matches (matches_run_any σ context settings hrole hd hdepth)
  have hresult : ∀ x, plain.outcome = .ok (.built x) ↔ any.outcome = .ok (.typed d x) := by
    intro x
    rw [hplain, hany]
    refine exists_congr fun b => and_congr_right fun _ => ⟨fun h => ?_, fun h => ?_⟩
    · rw [(Decoded.built.inj h)]
    · rw [(Decoded.typed.inj h).2]
  have hdowncast : ∀ x, (Decoded.typed d x).downcast? d.decl = some x := fun x => by
    rw [Decoded.downcast?, if_pos (Descriptor.isOf_iff.2 rfl)]
  refine ⟨fun r => (htagged r).trans (hplain r).symm, hdropped'.trans hdropped.symm, hresult, fun r hr => ?_,
    fun storeys hstack => ?_, hdropped''.trans hdropped.symm⟩
  · obtain ⟨b, -, rfl⟩ := (hany r).1 hr
    exact ⟨rfl, b.1, hdowncast b.1, (hresult b.1).2 hr⟩
  · exact ((lists_stack hstack).1.named name d hd).1

/-- A disk below a core tag, with one key that no disk has and one that is not text. -/
def untidyDisk : Tree :=
  .tagged "tag:yaml.org,2002:map" (.map [
    (.text "size_gb", .number (.integer 4)), (.text "rpm", .number (.integer 7200)), (.null, .text "slow")])

/-- The context that knows nothing but disks, under a name that they were given. -/
def disksNamed (name : String) : Context := (Layer.ofDescriptors [⟨name, Samples.disk⟩] none).toContext

/-- Under another name for disks the untidy disk is the disk that it is without, and loses both keys either way. -/
theorem decode_root_tag_untidyDisk :
    let disk : Instance := .record [("size_gb", .unsigned 4), ("ssd", .flag false)]
    let spares := disksNamed "test.Spare"
    let tagged := decode ⟨.type Samples.disk, spares, ⟨false, 4⟩⟩ Samples.schema (.tagged "test.Spare" untidyDisk)
    let any := decode ⟨.any, spares, ⟨false, 4⟩⟩ Samples.schema (.tagged "test.Spare" untidyDisk)
    stack [.layer [⟨"test.Spare", Samples.disk⟩]] = .ok (some spares) ∧ tagged.outcome = .ok (.built disk) ∧
      (∃ r, any.outcome = .ok r ∧ r.typeName? = some "test.Spare" ∧ r.downcast? Samples.disk = some disk) ∧
      Journal.dropped tagged.events = ["~", "rpm"] ∧ Journal.dropped any.events = ["~", "rpm"] := by
  intro disk spares tagged any
  have hrole : TagRole.ofTag "test.Spare" = .type "test.Spare" := by decide
  have hknown : spares.resolve "test.Spare" = some ⟨"test.Spare", Samples.disk⟩ := by decide
  have hstack : stack [.layer [⟨"test.Spare", Samples.disk⟩]] = .ok (some (disksNamed "test.Spare")) := by rfl
  obtain ⟨htagged, hdropped, hany, hobject, hname, hdropped'⟩ :=
    decode_root_tag Samples.schema Samples.disk spares ⟨false, 4⟩ "test.Spare" "test.Spare" _ untidyDisk hrole hknown
      rfl rfl (by decide)
  -- what is left to compute is the decode without the tag
  have hplain : (decode ⟨.type Samples.disk, spares, ⟨false, 4⟩⟩ Samples.schema untidyDisk).outcome =
      .ok (.built disk) := by rfl
  have hr := (hany disk).1 hplain
  obtain ⟨htype, x, hx, hplain'⟩ := hobject _ hr
  obtain rfl := Decoded.built.inj (Except.ok.inj (hplain.symm.trans hplain'))
  rw [hname _ hstack] at htype
  exact ⟨hstack, (htagged _).2 hplain, ⟨_, hr, htype, hx⟩, hdropped.trans (by rfl), hdropped'.trans (by rfl)⟩

/-- **Other names than the one in the tag.** A look-up of another sort may give out a type under a name that it was not
asked for, and the typed object has that name. A registered name that begins like a core tag is not looked up at all,
and what comes of root any is no typed object. -/
theorem typeName_of_root_tag :
    let disk : Tree := .map [(.text "size_gb", .number (.integer 1))]
    let spares : Context := .custom (fun name => if name = "test.Spare" then some (.own Samples.disk) else none) []
    let cores := disksNamed "tag:yaml.org,2002:Disk"
    let built : Instance := .record [("size_gb", .unsigned 1), ("ssd", .flag false)]
    disk.rootType? = none ∧ disk.height + 1 ≤ Settings.rejecting.maxDepth ∧
    spares.resolve "test.Spare" = some (.own Samples.disk) ∧
    (∃ r, (decode ⟨.any, spares, .rejecting⟩ Samples.schema (.tagged "test.Spare" disk)).outcome = .ok r ∧
      r.typeName? = some "test.Disk") ∧
    cores.resolve "tag:yaml.org,2002:Disk" = some ⟨"tag:yaml.org,2002:Disk", Samples.disk⟩ ∧
    (decode ⟨.type Samples.disk, cores, .rejecting⟩ Samples.schema disk).outcome = .ok (.built built) ∧
    ∃ tree, (decode ⟨.any, cores, .rejecting⟩ Samples.schema (.tagged "tag:yaml.org,2002:Disk" disk)).outcome =
      .ok (.untyped tree) := by
  intro disk spares cores built
  have htyped : (decode ⟨.any, spares, .rejecting⟩ Samples.schema (.tagged "test.Spare" disk)).outcome =
      .ok (.typed (.own Samples.disk) built) := by rfl
  refine ⟨rfl, by decide, by decide, ⟨_, htyped, rfl⟩, by decide, by rfl, _, by rfl⟩

end Decoder

end Provisioning
