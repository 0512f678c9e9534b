import Provisioning.Profile.Catalog
import Provisioning.Proofs.Directory
import Provisioning.Proofs.Text.ByteOrder
import Mathlib.Data.List.Forall2

/-!
# What an identifier means in a catalog

An identifier means the profile that is stored under it. If there is none, it means one that is stored under an
identifier with other cases of the same ASCII letters, and of several such identifiers the least one decides, in the
order of their octets. `Catalog.get?` looks for the first one in a list that is sorted, so it finds the least.
-/

namespace Provisioning

/-! ## Equal up to case -/

/-- The same character, or an ASCII letter in either case. -/
inductive SameLetter : Char → Char → Prop where
  | same (c : Char) : SameLetter c c
  | lowered {c d : Char} : 'A' ≤ c → c ≤ 'Z' → d.toNat = c.toNat + 32 → SameLetter c d
  | raised {c d : Char} : 'A' ≤ c → c ≤ 'Z' → d.toNat = c.toNat + 32 → SameLetter d c

/-- The same text, up to the case of ASCII letters. -/
def SameUpToCase (a b : String) : Prop := List.Forall₂ SameLetter a.toList b.toList

theorem toLower_of_upper {c : Char} (hA : 'A' ≤ c) (hZ : c ≤ 'Z') : c.toLower.toNat = c.toNat + 32 := by
  have hsum : c.toLower.val = c.val + 32 := congrArg Char.val (dif_pos ⟨hA, hZ⟩)
  have hbound : c.val.toNat ≤ 90 := hZ
  change c.toLower.val.toNat = c.val.toNat + 32
  rw [hsum, UInt32.toNat_add, show (32 : UInt32).toNat = 32 from rfl]
  omega

theorem toLower_of_not_upper {c : Char} (h : ¬('A' ≤ c ∧ c ≤ 'Z')) : c.toLower = c := dif_neg h

theorem toLower_lowered {c d : Char} (hA : 'A' ≤ c) (hZ : c ≤ 'Z') (h : d.toNat = c.toNat + 32) :
    c.toLower = d.toLower := by
  have hd : ¬('A' ≤ d ∧ d ≤ 'Z') := by
    rintro ⟨-, hdZ⟩
    have hlow : 65 ≤ c.toNat := hA
    have hhigh : d.toNat ≤ 90 := hdZ
    omega
  rw [toLower_of_not_upper hd, ← Char.toNat_inj, toLower_of_upper hA hZ, h]

theorem toLower_eq_iff {c d : Char} : c.toLower = d.toLower ↔ SameLetter c d := by
  refine ⟨fun h => ?_, fun h => ?_⟩
  · have hnat := congrArg Char.toNat h
    by_cases hc : 'A' ≤ c ∧ c ≤ 'Z' <;> by_cases hd : 'A' ≤ d ∧ d ≤ 'Z'
    · rw [toLower_of_upper hc.1 hc.2, toLower_of_upper hd.1 hd.2] at hnat
      obtain rfl := Char.toNat_inj.1 (Nat.add_right_cancel hnat)
      exact .same c
    · rw [toLower_of_upper hc.1 hc.2, toLower_of_not_upper hd] at hnat
      exact .lowered hc.1 hc.2 hnat.symm
    · rw [toLower_of_not_upper hc, toLower_of_upper hd.1 hd.2] at hnat
      exact .raised hd.1 hd.2 hnat
    · rw [toLower_of_not_upper hc, toLower_of_not_upper hd] at h
      exact h ▸ .same c
  · cases h with
    | same => rfl
    | lowered hA hZ hnat => exact toLower_lowered hA hZ hnat
    | raised hA hZ hnat => exact (toLower_lowered hA hZ hnat).symm

theorem sameUpToCase_iff {a b : String} :
    SameUpToCase a b ↔ a.toList.map Char.toLower = b.toList.map Char.toLower := by
  rw [← List.forall₂_eq_eq_eq, List.forall₂_map_left_iff, List.forall₂_map_right_iff]
  simp only [toLower_eq_iff]
  exact Iff.rfl

theorem equalUpToCase_iff {a b : String} : equalUpToCase a b = true ↔ SameUpToCase a b := by
  rw [equalUpToCase, beq_iff_eq, sameUpToCase_iff]

instance (a b : String) : Decidable (SameUpToCase a b) := decidable_of_iff _ equalUpToCase_iff

theorem SameUpToCase.symm {a b : String} (h : SameUpToCase a b) : SameUpToCase b a :=
  sameUpToCase_iff.2 (sameUpToCase_iff.1 h).symm

theorem SameUpToCase.trans {a b c : String} (hab : SameUpToCase a b) (hbc : SameUpToCase b c) : SameUpToCase a c :=
  sameUpToCase_iff.2 ((sameUpToCase_iff.1 hab).trans (sameUpToCase_iff.1 hbc))

theorem SameUpToCase.refl (a : String) : SameUpToCase a a := sameUpToCase_iff.2 rfl

/-! ## The least of several -/

/-- In entries that stand in the order of their names, the first one of a kind is the one with the least name. -/
theorem find?_eq_some_iff_of_sorted {α : Type} {es : List (String × α)} {e : String × α} (q : String → Bool)
    (hsorted : es.Pairwise fun e f => e.1 < f.1) :
    es.find? (fun f => q f.1) = some e ↔ e ∈ es ∧ q e.1 = true ∧ ∀ f ∈ es, q f.1 = true → e.1 ≤ f.1 := by
  rw [List.find?_eq_some_iff_append]
  refine ⟨fun h => ?_, fun h => ?_⟩
  · obtain ⟨hq, front, back, rfl, hfront⟩ := h
    refine ⟨by simp, hq, fun f hf hfq => ?_⟩
    obtain ⟨-, hback, -⟩ := List.pairwise_append.1 hsorted
    rcases List.mem_append.1 hf with hf | hf
    · have := hfront f hf
      simp [hfq] at this
    · rcases List.mem_cons.1 hf with rfl | hf
      · exact String.le_refl _
      · have hlt : e.1 < f.1 := (List.pairwise_cons.1 hback).1 f hf
        exact String.not_lt.1 fun hgt => String.lt_irrefl _ (String.lt_trans hlt hgt)
  · obtain ⟨he, hq, hleast⟩ := h
    obtain ⟨front, back, rfl⟩ := List.append_of_mem he
    refine ⟨hq, front, back, rfl, fun f hf => ?_⟩
    have hlt : f.1 < e.1 := (List.pairwise_append.1 hsorted).2.2 f hf e List.mem_cons_self
    rw [Bool.not_eq_true', ← Bool.not_eq_true]
    exact fun hfq => String.not_lt.2 (hleast f (List.mem_append_left _ hf) hfq) hlt

namespace Catalog

variable {c : Catalog} {id : String} {p : Profile}

/-- What an identifier means: the profile under it, or, where there is none, the one under the least of the identifiers
that are the same up to case. -/
inductive Means (c : Catalog) (id : String) : Profile → Prop where
  | exactly {p : Profile} : (id, p) ∈ c.profiles.entries → Means c id p
  | folded {key : String} {p : Profile} : id ∉ c.ids → (key, p) ∈ c.profiles.entries → SameUpToCase key id →
      (∀ other ∈ c.ids, SameUpToCase other id → utf8Octets key ≤ utf8Octets other) → Means c id p

theorem mem_ids_iff : id ∈ c.ids ↔ ∃ p, (id, p) ∈ c.profiles.entries := by
  rw [ids, c.profiles.mem_names_iff, Option.isSome_iff_exists]
  exact exists_congr fun p => (c.profiles.mem_entries_iff (id, p)).symm

theorem get?_of_stored (h : (id, p) ∈ c.profiles.entries) : c.get? id = some p := by
  rw [get?, (c.profiles.mem_entries_iff (id, p)).1 h]

theorem get?_of_new (h : id ∉ c.ids) :
    c.get? id = (c.profiles.entries.find? fun e => equalUpToCase e.1 id).map (·.2) := by
  rw [ids, c.profiles.mem_names_iff, Option.not_isSome_iff_eq_none] at h
  rw [get?, h]

theorem get?_eq_some_iff : c.get? id = some p ↔ c.Means id p := by
  refine ⟨fun h => ?_, fun h => ?_⟩
  · by_cases hold : id ∈ c.ids
    · obtain ⟨q, hq⟩ := mem_ids_iff.1 hold
      rw [get?_of_stored hq, Option.some_inj] at h
      exact .exactly (h ▸ hq)
    · rw [get?_of_new hold, Option.map_eq_some_iff] at h
      obtain ⟨⟨key, q⟩, hfound, rfl⟩ := h
      obtain ⟨hkey, hsame, hleast⟩ := (find?_eq_some_iff_of_sorted (equalUpToCase · id) c.profiles.sorted).1 hfound
      refine .folded hold hkey (equalUpToCase_iff.1 hsame) fun other hother hsameOther => ?_
      obtain ⟨r, hr⟩ := mem_ids_iff.1 hother
      exact utf8Octets_le_iff.2 (hleast _ hr (equalUpToCase_iff.2 hsameOther))
  · cases h with
    | exactly hstored => exact get?_of_stored hstored
    | folded hnew hkey hsame hleast =>
      rw [get?_of_new hnew, Option.map_eq_some_iff]
      refine ⟨_, (find?_eq_some_iff_of_sorted (equalUpToCase · id) c.profiles.sorted).2
        ⟨hkey, equalUpToCase_iff.2 hsame, fun f hf hfsame => ?_⟩, rfl⟩
      exact utf8Octets_le_iff.1 (hleast f.1 (mem_ids_iff.2 ⟨f.2, hf⟩) (equalUpToCase_iff.1 hfsame))

theorem get?_eq_none_iff : c.get? id = none ↔ ¬∃ key ∈ c.ids, SameUpToCase key id := by
  by_cases hold : id ∈ c.ids
  · obtain ⟨p, hp⟩ := mem_ids_iff.1 hold
    rw [get?_of_stored hp]
    exact iff_of_false (Option.some_ne_none p) fun h => h ⟨id, hold, SameUpToCase.refl id⟩
  · rw [get?_of_new hold, Option.map_eq_none_iff, List.find?_eq_none]
    refine ⟨fun h hfound => ?_, fun h e he hsame => ?_⟩
    · obtain ⟨key, hkey, hsame⟩ := hfound
      obtain ⟨p, hp⟩ := mem_ids_iff.1 hkey
      exact h _ hp (equalUpToCase_iff.2 hsame)
    · exact h ⟨e.1, mem_ids_iff.2 ⟨e.2, he⟩, equalUpToCase_iff.1 hsame⟩

/-- Where no two identifiers are the same up to case, there is nothing to choose. -/
theorem means_iff_of_distinct (hdistinct : ∀ a ∈ c.ids, ∀ b ∈ c.ids, SameUpToCase a b → a = b) :
    c.Means id p ↔ ∃ key, (key, p) ∈ c.profiles.entries ∧ SameUpToCase key id := by
  refine ⟨fun h => ?_, fun h => ?_⟩
  · cases h with
    | exactly hstored => exact ⟨id, hstored, SameUpToCase.refl id⟩
    | folded hnew hkey hsame hleast => exact ⟨_, hkey, hsame⟩
  · obtain ⟨key, hkey, hsame⟩ := h
    have hid : key ∈ c.ids := mem_ids_iff.2 ⟨p, hkey⟩
    by_cases hold : id ∈ c.ids
    · obtain rfl := hdistinct key hid id hold hsame
      exact .exactly hkey
    · refine .folded hold hkey hsame fun other hother hsameOther => ?_
      rw [hdistinct key hid other hother (hsame.trans hsameOther.symm)]
      exact List.le_refl _

/-! ## How a catalog is put together -/

/-- The last profile that a list has under an identifier. -/
def LastUnder (entries : List (String × Profile)) (id : String) (p : Profile) : Prop :=
  ∃ front back, entries = front ++ (id, p) :: back ∧ id ∉ back.map (·.1)

theorem lastUnder_cons_iff {e : String × Profile} {entries : List (String × Profile)} :
    LastUnder (e :: entries) id p ↔ LastUnder entries id p ∨ e = (id, p) ∧ id ∉ entries.map (·.1) := by
  refine ⟨fun h => ?_, fun h => ?_⟩
  · obtain ⟨front, back, heq, hlast⟩ := h
    cases front with
    | nil =>
      obtain ⟨rfl, rfl⟩ := List.cons.inj heq
      exact .inr ⟨rfl, hlast⟩
    | cons f front =>
      obtain ⟨rfl, rfl⟩ := List.cons.inj heq
      exact .inl ⟨front, back, rfl, hlast⟩
  · rcases h with ⟨front, back, rfl, hlast⟩ | ⟨rfl, hlast⟩
    · exact ⟨e :: front, back, rfl, hlast⟩
    · exact ⟨[], entries, rfl, hlast⟩

theorem get?_foldl_insert (entries : List (String × Profile)) : ∀ d : Directory Profile,
    (entries.foldl (fun d e => d.insert e.1 e.2) d).get? id = some p ↔
      LastUnder entries id p ∨ d.get? id = some p ∧ id ∉ entries.map (·.1) := by
  induction entries with
  | nil =>
    intro d
    simp [LastUnder]
  | cons e entries ih =>
    intro d
    rw [List.foldl_cons, ih, lastUnder_cons_iff, Directory.get?_insert, or_assoc]
    refine or_congr_right ?_
    obtain ⟨name, q⟩ := e
    by_cases hname : id = name
    · subst hname
      simp
    · simp [hname, Ne.symm hname]

/-- A catalog that is put together of a list has under each identifier the last profile that the list has there. -/
theorem mem_ofList_iff {entries : List (String × Profile)} :
    (id, p) ∈ (ofList entries).profiles.entries ↔ LastUnder entries id p := by
  rw [Directory.mem_entries_iff]
  refine (get?_foldl_insert entries .empty).trans (or_iff_left fun h => ?_)
  exact Option.some_ne_none p h.1.symm

/-- **Looking up an identifier.** It gives what the identifier means and nothing else, and nothing exactly if no
identifier of the catalog is the same up to case; `contains` says which of the two. If no two identifiers of the catalog
are the same up to case, the case of an identifier does not matter. All of this is about the catalog as it is; one that
is put together of a list has the last profile of each identifier. -/
theorem get?_exact (c : Catalog) :
    (∀ id p, c.get? id = some p ↔ c.Means id p) ∧
    (∀ id, c.get? id = none ↔ ¬∃ key ∈ c.ids, SameUpToCase key id) ∧
    (∀ id, c.contains id = true ↔ ∃ p, c.Means id p) ∧
    ((∀ a ∈ c.ids, ∀ b ∈ c.ids, SameUpToCase a b → a = b) →
      ∀ x y, SameUpToCase x y → c.get? x = c.get? y) ∧
    ∀ entries, c = ofList entries → ∀ id p, (id, p) ∈ c.profiles.entries ↔ LastUnder entries id p := by
  refine ⟨fun id p => get?_eq_some_iff, fun id => get?_eq_none_iff, fun id => ?_, fun hdistinct x y hxy => ?_, ?_⟩
  · rw [contains, Option.isSome_iff_exists]
    exact exists_congr fun p => get?_eq_some_iff
  · refine Option.ext fun p => ?_
    rw [get?_eq_some_iff, get?_eq_some_iff, means_iff_of_distinct hdistinct, means_iff_of_distinct hdistinct]
    exact exists_congr fun key => and_congr_right fun _ => ⟨fun h => h.trans hxy, fun h => h.trans hxy.symm⟩
  · rintro entries rfl id p
    exact mem_ofList_iff

/-- An identifier that is given twice has the second profile, in any case of its letters, but a letter outside ASCII has
its own case. Of two identifiers with the same letters the one with the capital in front decides. -/
theorem get?_exact_web :
    let old : Profile := { label := "Old" }
    let web : Profile := { label := "Web" }
    let one := ofList [("web", old), ("dünn", old), ("web", web)]
    let two := ofList [("wEb", web), ("Web", old)]
    one.get? "WEB" = some web ∧ one.get? "DÜNN" = none ∧ two.get? "wEb" = some web ∧ two.get? "web" = some old := by
  intro old web one two
  have hone : one.ids = ["dünn", "web"] := by decide
  have htwo : two.ids = ["Web", "wEb"] := by decide
  have hdistinct : ∀ a ∈ one.ids, ∀ b ∈ one.ids, SameUpToCase a b → a = b := by
    rw [hone]
    decide
  have hweb : one.Means "web" web := .exactly
    (((get?_exact one).2.2.2.2 _ rfl "web" web).2 ⟨[("web", old), ("dünn", old)], [], rfl, List.not_mem_nil⟩)
  have hcapital : ("Web", old) ∈ two.profiles.entries :=
    ((get?_exact two).2.2.2.2 _ rfl "Web" old).2 ⟨[("wEb", web)], [], rfl, List.not_mem_nil⟩
  have hsmall : ("wEb", web) ∈ two.profiles.entries :=
    ((get?_exact two).2.2.2.2 _ rfl "wEb" web).2 ⟨[], [("Web", old)], rfl, by decide⟩
  have hmeans : two.Means "web" old := by
    refine .folded (by decide) hcapital (by decide) ?_
    simp only [utf8Octets_le_iff, htwo]
    decide
  refine ⟨?_, ?_, ((get?_exact two).1 _ _).2 (.exactly hsmall), ((get?_exact two).1 _ _).2 hmeans⟩
  · rw [(get?_exact one).2.2.2.1 hdistinct "WEB" "web" (by decide)]
    exact ((get?_exact one).1 _ _).2 hweb
  · rw [(get?_exact one).2.1, hone]
    decide

end Catalog

end Provisioning
