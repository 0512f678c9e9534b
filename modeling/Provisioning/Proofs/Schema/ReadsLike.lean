import Mathlib.Data.List.Nodup
import Provisioning.Proofs.Directory
import Provisioning.Proofs.Schema.Reading
import Provisioning.Proofs.Tree.Order

/-!
# Documents that read alike

A document reads like another if it gives the same value wherever that one gives a value, and skips the same
keys, if in another order. The relation goes through lists, maps and tags, so a change of a single map carries
over to the whole document. Maps whose entries stand in another order read alike, since no two of their keys
are one.
-/

namespace Provisioning

variable {σ : Schema}

/-! ## The order of the values that entries give -/

theorem lookup_perm {given given' : List (String × Instance)} (h : given.Perm given')
    (hnodup : (given.map (·.1)).Nodup) (name : String) : given.lookup name = given'.lookup name := by
  induction h with
  | nil => rfl
  | cons g _ ih =>
    obtain ⟨n, x⟩ := g
    rw [List.map_cons, List.nodup_cons] at hnodup
    rw [Directory.lookup_cons_ite, Directory.lookup_cons_ite, ih hnodup.2]
  | swap g g' rest =>
    obtain ⟨n, x⟩ := g
    obtain ⟨n', x'⟩ := g'
    simp only [List.map_cons, List.nodup_cons, List.mem_cons, not_or] at hnodup
    simp only [Directory.lookup_cons_ite]
    by_cases hn : name = n
    · have hn' : name ≠ n' := fun heq => hnodup.1.1 (heq.symm.trans hn)
      rw [if_pos hn, if_neg hn', if_pos hn]
    · rw [if_neg hn, if_neg hn]
  | trans h _ ih ih' => rw [ih hnodup, ih' ((h.map _).nodup_iff.1 hnodup)]

theorem completeFields_congr {given given' : List (String × Instance)}
    (h : ∀ name, given.lookup name = given'.lookup name) (declared : List Field) :
    completeFields given declared = completeFields given' declared := by
  induction declared with
  | nil => rfl
  | cons f fs ih => rw [completeFields, completeFields, h, ih]

/-- A record is made only of values for different fields. -/
theorem MapReader.nodup_of_finish_fields {declared : List Field} {given : List (String × Instance)} {x : Instance}
    (h : (MapReader.fields declared).finish given = some x) : (given.map (·.1)).Nodup := by
  by_cases hnames : (given.map (·.1)).Nodup
  · exact hnames
  · rw [finish, if_neg hnames] at h
    cases h

/-- The values that make something have different names, unless the names are the keys themselves; then
their order does not matter. -/
theorem MapReader.finish_perm (reader : MapReader) {given given' : List (String × Instance)}
    (h : given.Perm given') (hnodup : (given.map (·.1)).Nodup) : reader.finish given = reader.finish given' := by
  cases reader with
  | fields declared =>
    rw [finish, finish, if_pos hnodup, if_pos ((h.map _).nodup_iff.1 hnodup),
      completeFields_congr (lookup_perm h hnodup)]
  | values shape =>
    rw [finish, finish]
    refine congrArg (fun es => some (Instance.dictionary es)) (h.foldl_eq' (fun g hg g' hg' es => ?_) [])
    by_cases hsame : g = g'
    · rw [hsame]
    · have hnames : g.1 ≠ g'.1 := fun hname => hsame (List.inj_on_of_nodup_map hnodup hg hg' hname)
      exact (insertSorted_comm g.2 g'.2 hnames es).symm

/-! ## Reading alike -/

/-- The second result has the value of the first and skips the same keys, in whatever order. -/
structure Built.Keeps (b b' : Built Instance) : Prop where
  value : b'.value = b.value
  skipped : b.skipped.Perm b'.skipped

/-- The same, for what an entry contributes. -/
structure EntryReading.Keeps (r r' : EntryReading) : Prop where
  given : r'.given = r.given
  skipped : r.skipped.Perm r'.skipped

theorem Built.Keeps.refl (b : Built Instance) : b.Keeps b := ⟨rfl, .rfl⟩

/-- If the first skips nothing, the second does not. -/
theorem Built.Keeps.quiet {b b' : Built Instance} (h : b.Keeps b') (hnil : b.skipped = []) : b'.skipped = [] :=
  List.nil_perm.1 (hnil ▸ h.skipped)

namespace Schema

/-- Whatever the first document is built or read as, the second one gives the same. -/
structure ReadsLike (σ : Schema) (t u : Tree) : Prop where
  build : ∀ {shape : Shape} {b : Built Instance}, σ.build t shape = .ok b →
    ∃ b', σ.build u shape = .ok b' ∧ b.Keeps b'
  parts : ∀ {reader : PartsReader} {b : Built Instance}, ReadsParts σ reader t b →
    ∃ b', ReadsParts σ reader u b' ∧ b.Keeps b'
  null : t = .null → u = .null

namespace ReadsLike

variable {t u : Tree}

theorem refl (t : Tree) : σ.ReadsLike t t :=
  ⟨fun h => ⟨_, h, .refl _⟩, fun h => ⟨_, h, .refl _⟩, id⟩

theorem trans {v : Tree} (h : σ.ReadsLike t u) (h' : σ.ReadsLike u v) : σ.ReadsLike t v := by
  refine ⟨fun hb => ?_, fun hb => ?_, fun ht => h'.null (h.null ht)⟩
  · obtain ⟨b', hb', hkeeps⟩ := h.build hb
    obtain ⟨b'', hb'', hkeeps'⟩ := h'.build hb'
    exact ⟨b'', hb'', hkeeps'.value.trans hkeeps.value, hkeeps.skipped.trans hkeeps'.skipped⟩
  · obtain ⟨b', hb', hkeeps⟩ := h.parts hb
    obtain ⟨b'', hb'', hkeeps'⟩ := h'.parts hb'
    exact ⟨b'', hb'', hkeeps'.value.trans hkeeps.value, hkeeps.skipped.trans hkeeps'.skipped⟩

/-- A map is built by reading its entries, so only these have to be compared. -/
theorem map_of_parts {es fs : List (Tree × Tree)} (h : ∀ {reader : PartsReader} {b : Built Instance},
    ReadsParts σ reader (.map es) b → ∃ b', ReadsParts σ reader (.map fs) b' ∧ b.Keeps b') :
    σ.ReadsLike (.map es) (.map fs) := by
  refine ⟨fun hb => ?_, h, fun hnull => nomatch hnull⟩
  obtain ⟨reader, htakes, hparts⟩ := build_map_eq_ok_iff.1 hb
  obtain ⟨b', hparts', hkeeps⟩ := h hparts
  exact ⟨b', build_map_eq_ok_iff.2 ⟨reader, htakes, hparts'⟩, hkeeps⟩

/-- A map with a key that is no text below its tags is like nothing: it cannot be read. -/
theorem of_unreadable {es fs : List (Tree × Tree)} {e : Tree × Tree} (he : e ∈ es)
    (hkey : ∀ s, e.1.untagged ≠ .text s) : σ.ReadsLike (.map es) (.map fs) := by
  refine map_of_parts fun h => ?_
  cases h with
  | entries hrs _ =>
    obtain ⟨key, hkey'⟩ := exists_key_of_mem hrs he
    exact absurd hkey' (hkey key)

/-! ### Through lists -/

theorem readsItems {ts us : List Tree} (h : List.Forall₂ σ.ReadsLike ts us) :
    ∀ {shapes : List Shape} {bs : List (Built Instance)}, ReadsItems σ ts shapes bs →
      ∃ bs', ReadsItems σ us shapes bs' ∧ List.Forall₂ Built.Keeps bs bs' := by
  induction h with
  | nil =>
    intro shapes bs hbs
    cases hbs
    exact ⟨[], .nil, .nil⟩
  | cons hfirst _ ih =>
    intro shapes bs hbs
    cases hbs with
    | cons hb hbs =>
      obtain ⟨b', hb', hkeeps⟩ := hfirst.build hb
      obtain ⟨bs', hbs', hrest⟩ := ih hbs
      exact ⟨b' :: bs', .cons hb' hbs', .cons hkeeps hrest⟩

theorem map_value_of_keeps {bs bs' : List (Built Instance)} (h : List.Forall₂ Built.Keeps bs bs') :
    bs'.map (·.value) = bs.map (·.value) := by
  induction h with
  | nil => rfl
  | cons hb _ ih => rw [List.map_cons, List.map_cons, hb.value, ih]

theorem skippedInItems_of_keeps {bs bs' : List (Built Instance)} (h : List.Forall₂ Built.Keeps bs bs') :
    ∀ position, (skippedInItems position bs).Perm (skippedInItems position bs') := by
  induction h with
  | nil => exact fun _ => .rfl
  | cons hb _ ih => exact fun position => (hb.skipped.map _).append (ih _)

theorem list {ts us : List Tree} (h : List.Forall₂ σ.ReadsLike ts us) :
    σ.ReadsLike (.list ts) (.list us) := by
  have hparts {reader : PartsReader} {b : Built Instance} (hb : ReadsParts σ reader (.list ts) b) :
      ∃ b', ReadsParts σ reader (.list us) b' ∧ b.Keeps b' := by
    cases hb with
    | items finish hbs =>
      obtain ⟨bs', hbs', hkeeps⟩ := readsItems h hbs
      exact ⟨_, .items finish hbs', congrArg finish (map_value_of_keeps hkeeps),
        skippedInItems_of_keeps hkeeps 0⟩
  refine ⟨fun hb => ?_, hparts, fun hnull => nomatch hnull⟩
  obtain ⟨reader, htakes, hb⟩ := build_list_eq_ok_iff.1 hb
  obtain ⟨b', hb', hkeeps⟩ := hparts hb
  exact ⟨b', build_list_eq_ok_iff.2 ⟨reader, htakes, hb'⟩, hkeeps⟩

/-! ### Through maps -/

theorem readsEntry {wants : String → Option (String × Shape)} {e f : Tree × Tree} {r : EntryReading}
    (hkey : f.1.untagged = e.1.untagged) (hvalue : σ.ReadsLike e.2 f.2) (h : ReadsEntry σ wants e r) :
    ∃ r', ReadsEntry σ wants f r' ∧ r.Keeps r' := by
  obtain ⟨l, w⟩ := f
  cases h with
  | wanted hk hwants hb =>
    obtain ⟨b', hb', hkeeps⟩ := hvalue.build hb
    refine ⟨_, .wanted (hkey.trans hk) hwants hb', ?_, hkeeps.skipped.map _⟩
    rw [hkeeps.value]
  | unwanted hk hwants => exact ⟨_, .unwanted (hkey.trans hk) hwants, rfl, .rfl⟩

/-- Keys and values of the second map read like those of the first, entry by entry. -/
theorem map {es fs : List (Tree × Tree)}
    (h : List.Forall₂ (fun e f => f.1.untagged = e.1.untagged ∧ σ.ReadsLike e.2 f.2) es fs) :
    σ.ReadsLike (.map es) (.map fs) := by
  have hentries {wants : String → Option (String × Shape)} : ∀ {rs : List EntryReading},
      ReadsEntries σ wants es rs → ∃ rs', ReadsEntries σ wants fs rs' ∧
        EntryReading.allGiven rs' = EntryReading.allGiven rs ∧
        (EntryReading.allSkipped rs).Perm (EntryReading.allSkipped rs') := by
    induction h with
    | nil =>
      intro rs hrs
      cases hrs
      exact ⟨[], .nil, rfl, .rfl⟩
    | cons hfirst _ ih =>
      intro rs hrs
      cases hrs with
      | @cons _ r _ rs hr hrs =>
        obtain ⟨r', hr', hkeeps⟩ := readsEntry hfirst.1 hfirst.2 hr
        obtain ⟨rs', hrs', hgiven, hskipped⟩ := ih hrs
        refine ⟨r' :: rs', .cons hr' hrs', ?_, hkeeps.skipped.append hskipped⟩
        rw [EntryReading.allGiven_cons, EntryReading.allGiven_cons, hkeeps.given, hgiven]
  refine map_of_parts fun hb => ?_
  cases hb with
  | entries hrs hfinish =>
    obtain ⟨rs', hrs', hgiven, hskipped⟩ := hentries hrs
    exact ⟨_, .entries hrs' (hgiven ▸ hfinish), rfl, hskipped⟩

/-! ### Through tags -/

theorem tagged (tag : String) (h : σ.ReadsLike t u) : σ.ReadsLike (.tagged tag t) (.tagged tag u) := by
  refine ⟨fun hb => ?_, fun hparts => (by cases hparts), fun hnull => nomatch hnull⟩
  cases build_tagged_eq_ok_iff.1 hb with
  | scalar hscalar => cases hscalar
  | parts _ hparts => cases hparts
  | bare hshape hvariant =>
    rw [h.null rfl]
    exact ⟨_, build_tagged_eq_ok_iff.2 (.bare hshape hvariant), .refl _⟩
  | one hshape hvariant hcontent =>
    obtain ⟨b', hb', hkeeps⟩ := h.build hcontent
    exact ⟨_, build_tagged_eq_ok_iff.2 (.one hshape hvariant hb'),
      congrArg (Instance.variant tag) hkeeps.value, hkeeps.skipped.map _⟩
  | payload hshape hvariant htakes hcontent =>
    obtain ⟨b', hb', hkeeps⟩ := h.parts hcontent
    exact ⟨_, build_tagged_eq_ok_iff.2 (.payload hshape hvariant htakes hb'),
      congrArg (Instance.variant tag) hkeeps.value, hkeeps.skipped⟩
  | through hshape hcontent =>
    obtain ⟨b', hb', hkeeps⟩ := h.build hcontent
    exact ⟨b', build_tagged_eq_ok_iff.2 (.through hshape hb'), hkeeps⟩

/-! ### Through a change of one map -/

/-- If a change of the entries of a map reads alike, so does the change of a document. -/
theorem of_edit {r : List (Tree × Tree) → List (Tree × Tree) → Prop}
    (hr : ∀ es fs, r es fs → σ.ReadsLike (.map es) (.map fs)) (h : Tree.Edit r t u) : σ.ReadsLike t u := by
  induction h with
  | map hes => exact hr _ _ hes
  | item front rest _ ih => exact list (forall₂_split .refl front rest ih)
  | key front rest v hk _ =>
    exact of_unreadable (List.mem_append_right _ List.mem_cons_self) fun s => (hk.untagged_ne_text s).1
  | value front rest k _ ih => exact map (forall₂_split (fun e => ⟨rfl, .refl _⟩) front rest ⟨rfl, ih⟩)
  | tagged tag _ ih => exact tagged tag ih

/-! ### In another order -/

/-- The names of the values that entries give are different if something is made of them. -/
theorem nodup_names {reader : MapReader} {es : List (Tree × Tree)} {rs : List EntryReading} {x : Instance}
    (hnodup : (es.map fun e => e.1.untagged).Nodup) (hrs : ReadsEntries σ reader.wants es rs)
    (hfinish : reader.finish (EntryReading.allGiven rs) = some x) :
    ((EntryReading.allGiven rs).map (·.1)).Nodup := by
  cases reader with
  | fields declared => exact MapReader.nodup_of_finish_fields hfinish
  | values shape =>
    -- every key is wanted, under its own name
    have hkeys : (EntryReading.allGiven rs).map (fun g => Tree.text g.1) = es.map fun e => e.1.untagged := by
      clear hfinish hnodup
      induction hrs with
      | nil => rfl
      | cons hr _ ih =>
        cases hr with
        | unwanted _ hwants => cases hwants
        | wanted hk hwants _ =>
          obtain ⟨rfl, rfl⟩ := Prod.mk.inj (Option.some.inj hwants)
          rw [EntryReading.allGiven_cons_some, List.map_cons, List.map_cons, ih, hk]
    rw [← hkeys, ← Function.comp_def Tree.text, ← List.map_map] at hnodup
    exact hnodup.of_map _

/-- The entries of a map with different keys can stand in any order. -/
theorem map_perm {es fs : List (Tree × Tree)} (h : es.Perm fs)
    (hnodup : (es.map fun e => e.1.untagged).Nodup) : σ.ReadsLike (.map es) (.map fs) := by
  refine map_of_parts fun hb => ?_
  cases hb with
  | @entries _ reader rs x hrs hfinish =>
    obtain ⟨rs', hrs', hperm⟩ := List.perm_comp_forall₂ h.symm hrs
    have hgiven := hperm.symm.filterMap EntryReading.given
    refine ⟨_, .entries hrs' ?_, rfl, (hperm.flatMap_right EntryReading.skipped).symm⟩
    rw [EntryReading.allGiven, ← reader.finish_perm hgiven (nodup_names hnodup hrs hfinish)]
    exact hfinish

/-- A map of an orderly document with a key that is no text cannot be read; otherwise its keys are texts that
differ, and its entries can stand in any order. -/
theorem map_perm_of_orderly {es fs : List (Tree × Tree)} (h : es.Perm fs) (horderly : (Tree.map es).Orderly) :
    σ.ReadsLike (.map es) (.map fs) := by
  obtain ⟨hdiffer, hkeys⟩ := Tree.orderly_map.1 horderly
  by_cases hread : ∃ e ∈ es, ∀ s, e.1.untagged ≠ .text s
  · obtain ⟨e, he, hkey⟩ := hread
    exact of_unreadable he hkey
  · have htexts : ∀ e ∈ es, e.1.untagged = e.1 ∧ e.1.isTextKey = true := by
      intro e he
      have hfree := (hkeys e he).1.1
      cases hk : e.1 with
      | text s => exact ⟨rfl, rfl⟩
      | tagged tag content => exact absurd (hk ▸ hfree) Tree.not_tagFree_tagged
      | _ => exact absurd ⟨e, he, fun s hs => by rw [hk] at hs; cases hs⟩ hread
    have hsame : (es.map fun e => e.1.untagged) = es.map (·.1) := List.map_congr_left fun e he => (htexts e he).1
    refine map_perm h ?_
    rw [hsame, List.Nodup, List.pairwise_map]
    exact hdiffer.imp_of_mem fun he hf hne =>
      (Tree.same_eq_false_iff_of_isTextKey (htexts _ he).2 (htexts _ hf).2).1 hne

/-- **In another order an orderly document reads alike.** -/
theorem of_reordered (h : t.Reordered u) (horderly : t.Orderly) : σ.ReadsLike t u := by
  induction h with
  | refl => exact refl t
  | tail hfirst hlast ih =>
    refine ih.trans (of_edit (fun es fs hes => ?_) (hlast.and_orderly (Tree.Reordered.orderly hfirst horderly)))
    exact map_perm_of_orderly hes.1 hes.2

end ReadsLike

end Schema

end Provisioning
