import Provisioning.Proofs.Profile.Grammar

/-!
# The classes of a list

The classes of a list are collected in one pass: a class goes to the end of what is kept unless it is there
(`ClassList.gather`). After each step, what is kept are the classes seen so far, in the order in which they were first
seen (`ClassList.Gathered`), and that determines it. What a list permits depends on its members alone.
-/

namespace Provisioning

namespace ClassList

variable {seen kept kept' names : List String} {c : String}

/-! ## One pass -/

/-- One step: a class that is not kept yet goes to the end. -/
def gather (kept : List String) (c : String) : List String := if kept.contains c then kept else kept ++ [c]

/-- What is kept are the classes that were seen, in the order in which they were first seen. -/
structure Gathered (seen kept : List String) : Prop where
  mem_iff : ∀ c, c ∈ kept ↔ c ∈ seen
  inOrder : kept.Pairwise fun a b => seen.idxOf a < seen.idxOf b

namespace Gathered

theorem nodup (h : Gathered seen kept) : kept.Nodup :=
  h.inOrder.imp fun hlt heq => by
    subst heq
    exact Nat.lt_irrefl _ hlt

/-- Nothing else can be kept. -/
theorem unique (h : Gathered seen kept) (h' : Gathered seen kept') : kept = kept' := by
  have hperm : kept.Perm kept' :=
    (List.perm_ext_iff_of_nodup h.nodup h'.nodup).2 fun c => (h.mem_iff c).trans (h'.mem_iff c).symm
  refine hperm.eq_of_pairwise (fun a b _ _ hlt hlt' => ?_) h.inOrder h'.inOrder
  exact absurd (Nat.lt_trans hlt hlt') (Nat.lt_irrefl _)

/-- **One step keeps the classes seen so far.** -/
theorem step (h : Gathered seen kept) (c : String) : Gathered (seen ++ [c]) (gather kept c) := by
  have hearlier : ∀ d ∈ kept, (seen ++ [c]).idxOf d = seen.idxOf d := fun d hd =>
    List.idxOf_append_of_mem ((h.mem_iff d).1 hd)
  have hkept : kept.Pairwise fun a b => (seen ++ [c]).idxOf a < (seen ++ [c]).idxOf b :=
    h.inOrder.imp_of_mem fun ha hb hlt => by rwa [hearlier _ ha, hearlier _ hb]
  unfold gather
  by_cases hc : c ∈ kept
  · rw [if_pos (List.contains_iff_mem.2 hc)]
    refine ⟨fun d => ?_, hkept⟩
    rw [List.mem_append, List.mem_singleton, h.mem_iff]
    exact ⟨.inl, fun hd => hd.elim id fun heq => heq ▸ (h.mem_iff c).1 hc⟩
  · rw [if_neg (by simpa using hc)]
    refine ⟨fun d => ?_, List.pairwise_append.2 ⟨hkept, List.pairwise_singleton _ _, fun d hd e he => ?_⟩⟩
    · rw [List.mem_append, List.mem_append, h.mem_iff]
    · -- a class that is new stands behind all that were seen
      obtain rfl := List.mem_singleton.1 he
      have hnew : e ∉ seen := fun hmem => hc ((h.mem_iff e).2 hmem)
      rw [hearlier d hd, List.idxOf_append_of_notMem hnew, List.idxOf_cons_self, Nat.add_zero]
      exact List.idxOf_lt_length_of_mem ((h.mem_iff d).1 hd)

/-- **And so does the whole pass.** -/
theorem foldl (h : Gathered seen kept) : Gathered (seen ++ names) (names.foldl gather kept) := by
  induction names generalizing seen kept with
  | nil => rwa [List.append_nil]
  | cons c names ih =>
    rw [List.foldl_cons, ← List.singleton_append, ← List.append_assoc]
    exact ih (h.step c)

end Gathered

theorem gathered_foldl (names : List String) : Gathered names (names.foldl gather []) := by
  have hnone : Gathered [] [] := ⟨fun _ => Iff.rfl, .nil⟩
  exact hnone.foldl

/-- The pass leaves out of each first occurrence what was kept before. -/
theorem foldl_gather (names : List String) : ∀ kept,
    names.foldl gather kept = kept ++ (firstOccurrences names).filter fun c => !kept.contains c := by
  induction names with
  | nil => exact fun kept => (List.append_nil kept).symm
  | cons c names ih =>
    intro kept
    rw [List.foldl_cons, ih, firstOccurrences, List.filter_cons]
    unfold gather
    cases hc : kept.contains c with
    | true =>
      simp only [if_true, Bool.not_true, Bool.false_eq_true, if_false, List.filter_filter]
      refine congrArg _ (List.filter_congr fun d _ => ?_)
      -- what is equal to the class is kept already
      by_cases heq : d = c
      · subst heq
        rw [hc]
        rfl
      · simp [heq]
    | false =>
      simp only [Bool.false_eq_true, if_false, Bool.not_false, if_true, List.append_assoc, List.singleton_append,
        List.filter_filter]
      refine congrArg (fun rest => kept ++ c :: rest) (List.filter_congr fun d _ => ?_)
      rw [List.contains_eq_mem, List.contains_eq_mem, Bool.beq_eq_decide_eq]
      simp [Bool.and_comm]

theorem names_ofList (names : List String) : (ofList names).names = names.foldl gather [] := by
  rw [foldl_gather, List.nil_append]
  exact (List.filter_eq_self.2 fun _ _ => rfl).symm

theorem gathered_ofList (names : List String) : Gathered names (ofList names).names :=
  names_ofList names ▸ gathered_foldl names

/-! ## What is permitted -/

theorem eq_nil_congr {names' : List String} (h : ∀ c, c ∈ names' ↔ c ∈ names) : names' = [] ↔ names = [] := by
  rw [List.eq_nil_iff_forall_not_mem, List.eq_nil_iff_forall_not_mem]
  exact forall_congr' fun c => not_congr (h c)

theorem permits_ofList : (ofList names).permits c = true ↔ names = [] ∨ c ∈ names := by
  have hmem := (gathered_ofList names).mem_iff
  rw [permits, isUnrestricted, contains, Bool.or_eq_true, List.isEmpty_iff, List.contains_iff_mem, eq_nil_congr hmem,
    hmem]

theorem permits_congr {names' : List String} (h : ∀ c, c ∈ names' ↔ c ∈ names) (c : String) :
    (ofList names').permits c = (ofList names).permits c := by
  rw [Bool.eq_iff_iff, permits_ofList, permits_ofList, eq_nil_congr h, h]

end ClassList

/-! ## Lists in documents -/

namespace Profile

open Decoder

variable {others : Schema} {context : Context} {settings : Settings} {document : Tree} {es : List (Tree × Tree)}

/-- A profile document gives the classes that its list names, whatever else it says. -/
theorem decode_of_grammatical (htags : document.OnlyVariantTags) (hkeys : document.DistinctKeys)
    (hdepth : document.depth ≤ settings.maxDepth) (hes : document.entries? = some es) (h : Grammatical es) :
    (decode ⟨.type decl, context, settings⟩ (.withProfiles others) document).outcome =
      .ok (.built (ofEntries es).toInstance) :=
  decode_of_admits htags hkeys hdepth (admits_iff_grammatical.2 ⟨es, hes, h, rfl⟩).relax

end Profile

namespace ClassList

/-- **The classes of a list.** They are the names in the list, each once, in the order in which they first occur; this
determines them, and one pass collects them. Every class is permitted if the list is empty, and otherwise exactly those
in the list. Collecting the classes again changes nothing, and of two lists with the same members both permit the same.

In a document, null or a list of texts, below any tags, is built as the classes that it names, with no key skipped. So
a profile document that has the list, and is otherwise in order, decodes to a profile with these classes, at any
setting. -/
theorem ofList_exact (names : List String) :
    let classes := ofList names
    classes.names = names.foldl gather [] ∧
    (∀ kept : List String, kept = classes.names ↔ kept.Nodup ∧ (∀ c, c ∈ kept ↔ c ∈ names) ∧
      kept.Pairwise fun a b => names.idxOf a < names.idxOf b) ∧
    (∀ c, classes.permits c = true ↔ names = [] ∨ c ∈ names) ∧
    ofList classes.names = classes ∧
    (∀ names', (∀ c, c ∈ names' ↔ c ∈ names) → ∀ c, (ofList names').permits c = classes.permits c) ∧
    (∀ (σ : Schema) (t : Tree), t.texts? = some names →
      ∃ b, σ.build t (.distinct .text) = .ok b ∧ b.value = .list (classes.names.map .text) ∧ b.skipped = []) ∧
    ∀ (others : Schema) (context : Context) (settings : Settings) (document : Tree) (es : List (Tree × Tree)),
      document.OnlyVariantTags → document.DistinctKeys → document.depth ≤ settings.maxDepth →
      document.entries? = some es → Profile.Grammatical es →
      Profile.said es Tree.texts? "allowed_classes" [] = names →
      ∃ p : Profile, p.allowedClasses = classes ∧
        (Decoder.decode ⟨.type Profile.decl, context, settings⟩ (.withProfiles others) document).outcome =
          .ok (.built p.toInstance) := by
  intro classes
  have hgathered := gathered_ofList names
  refine ⟨names_ofList names, fun kept => ⟨fun h => ?_, fun h => ?_⟩, fun c => permits_ofList, ofList_names classes,
    fun names' h => permits_congr h, fun σ t ht => ?_, fun others context settings document es htags hkeys hdepth hes hg
      hsaid => ?_⟩
  · subst h
    exact ⟨hgathered.nodup, hgathered.mem_iff, hgathered.inOrder⟩
  · exact Gathered.unique ⟨h.2.1, h.2.2⟩ hgathered
  · obtain ⟨b, hb, hvalue, hskipped⟩ := (@Schema.admitsAs_classes σ true t _).2 ⟨names, ht, rfl⟩
    exact ⟨b, hb, hvalue, hskipped.resolve_right nofun⟩
  · exact ⟨Profile.ofEntries es, congrArg ofList hsaid, Profile.decode_of_grammatical htags hkeys hdepth hes hg⟩

/-- A profile document whose list names one class twice, once below a tag. -/
def repeatedBlade : Tree := .map [(.text "allowed_classes", .tagged "classes" (.list [
  .text "BLADE", .text "SERVER", .tagged "class" (.text "BLADE")]))]

/-- Tolerantly or strictly, the class is taken once, at its first place. -/
theorem ofList_exact_repeatedBlade :
    let names := ["BLADE", "SERVER", "BLADE"]
    ((ofList names).permits "SERVER" = true ↔ names = [] ∨ "SERVER" ∈ names) ∧ (ofList names).permits "blade" = false ∧
    (ofList ["SERVER", "BLADE"]).permits "blade" = (ofList names).permits "blade" ∧
    ∀ strict, ∃ p : Profile, p.allowedClasses = ofList names ∧
      (Decoder.decode ⟨.type Profile.decl, .nothing, ⟨strict, 4⟩⟩ .profiles repeatedBlade).outcome =
        .ok (.built p.toInstance) := by
  intro names
  obtain ⟨-, -, hpermits, -, hsame, hbuild, hdecode⟩ := ofList_exact names
  have hgrammatical : Profile.Grammatical [(.text "allowed_classes", .tagged "classes" (.list [
      .text "BLADE", .text "SERVER", .tagged "class" (.text "BLADE")]))] := by
    refine ⟨?_, by decide⟩
    simp only [List.forall_mem_cons]
    exact ⟨⟨"allowed_classes", rfl, .classes rfl⟩, nofun⟩
  refine ⟨hpermits "SERVER", rfl, hsame ["SERVER", "BLADE"] (by simp [names, or_comm]) "blade", fun strict => ?_⟩
  exact hdecode _ .nothing ⟨strict, 4⟩ repeatedBlade _ (by decide) (by decide)
    (show repeatedBlade.depth ≤ 4 by decide) rfl hgrammatical rfl

end ClassList

end Provisioning
