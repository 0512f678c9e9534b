import Provisioning.Proofs.Schema.ReadsBack

/-!
# What is built as a shape

The instances that some document is built into as a shape are of its form: texts as texts, lists without repetitions
as lists of their items, records with a value for every field. A field holds something that is built as its own shape,
if its fallback is of that sort.
-/

namespace Provisioning

namespace Schema

variable {σ : Schema} {shape : Shape} {x : Instance}

/-- Some document is built into the instance as a shape. -/
def Makes (σ : Schema) (shape : Shape) (x : Instance) : Prop := ∃ t b, σ.build t shape = .ok b ∧ b.value = x

theorem ReadsBack.makes {levels : Nat} (h : σ.ReadsBack shape levels x) : σ.Makes shape x :=
  ⟨x.toTree, _, h.build, rfl⟩

theorem Makes.optional (h : σ.Makes (.optional shape) x) : x = .absent ∨ σ.Makes shape.base x := by
  obtain ⟨t, b, hb, rfl⟩ := h
  by_cases hnull : t = .null
  · rw [hnull] at hb
    obtain rfl := Except.ok.inj hb
    exact .inl rfl
  · exact .inr ⟨t, b, (@build_base σ (.optional shape) t hnull).trans hb, rfl⟩

/-! ## Shapes that look through tags -/

/-- The ways to make an instance of a shape that looks through tags: of a node without parts, or from parts. -/
inductive Made (σ : Schema) (shape : Shape) : Instance → Prop
  | scalar {t : Tree} {b : Built Instance} : t.isScalar = true → σ.build t shape = .ok b → Made σ shape b.value
  | parts {t : Tree} {reader : PartsReader} {b : Built Instance} :
      σ.Takes shape reader → ReadsParts σ reader t b → Made σ shape b.value

theorem Makes.made (h : σ.Makes shape x) (hbase : shape.base = shape) (hchoice : ∀ name, shape ≠ .choice name) :
    σ.Made shape x := by
  obtain ⟨t, b, hb, rfl⟩ := h
  induction t using Tree.induct with
  | null | flag | number | text => exact .scalar rfl hb
  | list ts =>
    obtain ⟨reader, htakes, hparts⟩ := build_list_eq_ok_iff.1 hb
    exact .parts (hbase ▸ htakes) hparts
  | map es =>
    obtain ⟨reader, htakes, hparts⟩ := build_map_eq_ok_iff.1 hb
    exact .parts (hbase ▸ htakes) hparts
  | tagged tag content ih =>
    exact ih (hbase ▸ (build_tagged_of_ne_choice (hbase.symm ▸ hchoice)).1 hb)

theorem Makes.text (h : σ.Makes .text x) : ∃ s, x = .text s := by
  cases h.made rfl nofun with
  | parts htakes => cases htakes
  | @scalar t b hscalar hb =>
    cases t with
    | text s =>
      obtain rfl := Except.ok.inj hb
      exact ⟨s, rfl⟩
    | number n => cases n <;> cases hb
    | null | flag => cases hb
    | list | map | tagged => cases hscalar

theorem Makes.flag (h : σ.Makes .flag x) : ∃ b, x = .flag b := by
  cases h.made rfl nofun with
  | parts htakes => cases htakes
  | @scalar t b hscalar hb =>
    cases t with
    | flag v =>
      obtain rfl := Except.ok.inj hb
      exact ⟨v, rfl⟩
    | number n => cases n <;> cases hb
    | null | text => cases hb
    | list | map | tagged => cases hscalar

/-! ## Lists and dictionaries -/

/-- Of the nodes without parts, only null is built as a shape that is read from parts. -/
theorem eq_null_of_build {t : Tree} {reader : PartsReader} {b : Built Instance} (htakes : σ.Takes shape reader)
    (hscalar : t.isScalar = true) (hb : σ.build t shape = .ok b) : t = .null := by
  cases t with
  | null => rfl
  | number n => cases htakes <;> cases n <;> cases hb
  | flag | text => cases htakes <;> cases hb
  | list | map | tagged => cases hscalar

theorem makes_of_readsItems {ts : List Tree} {shapes : List Shape} {bs : List (Built Instance)}
    (h : ReadsItems σ ts shapes bs) : ∀ b ∈ bs, ∃ shape ∈ shapes, σ.Makes shape b.value := by
  induction h with
  | nil => exact nofun
  | @cons t shape b ts shapes bs hfirst _ ih =>
    refine List.forall_mem_cons.2 ⟨⟨shape, List.mem_cons_self, t, b, hfirst, rfl⟩, fun b hb => ?_⟩
    obtain ⟨shape', hshape, hmakes⟩ := ih b hb
    exact ⟨shape', List.mem_cons_of_mem _ hshape, hmakes⟩

/-- Null is built as the empty list. -/
theorem Makes.distinct (h : σ.Makes (.distinct shape) x) :
    ∃ xs, x = .list (firstOccurrences xs) ∧ ∀ y ∈ xs, σ.Makes shape y := by
  cases h.made rfl nofun with
  | @scalar t b hscalar hb =>
    obtain rfl := eq_null_of_build (.distinct shape 0) hscalar hb
    obtain rfl := Except.ok.inj hb
    exact ⟨[], rfl, nofun⟩
  | parts htakes hparts =>
    cases htakes with
    | distinct item n =>
      cases hparts with
      | @items _ _ bs finish hbs =>
        refine ⟨bs.map (·.value), rfl, fun y hy => ?_⟩
        obtain ⟨b, hmem, rfl⟩ := List.mem_map.1 hy
        obtain ⟨shape', hshape, hmakes⟩ := makes_of_readsItems hbs b hmem
        rw [List.eq_of_mem_replicate hshape] at hmakes
        exact hmakes

/-- What an entry gives was wanted under its name, and built as the shape that was wanted. -/
theorem makes_of_readsEntries {wants : String → Option (String × Shape)} {es : List (Tree × Tree)}
    {rs : List EntryReading} (h : ReadsEntries σ wants es rs) :
    ∀ g ∈ EntryReading.allGiven rs, ∃ key shape, wants key = some (g.1, shape) ∧ σ.Makes shape g.2 := by
  induction h with
  | nil => exact nofun
  | cons hfirst _ ih =>
    cases hfirst with
    | unwanted => exact ih
    | @wanted k v key name shape b _ hwants hb =>
      exact List.forall_mem_cons.2 ⟨⟨key, shape, hwants, v, b, hb, rfl⟩, ih⟩

/-- The entries of a dictionary stand in the order of their names, each name once. -/
theorem Makes.dictionary (h : σ.Makes (.dictionary shape) x) :
    ∃ es, x = .dictionary es ∧ es.Pairwise (fun e f => e.1 < f.1) ∧ ∀ e ∈ es, σ.Makes shape e.2 := by
  cases h.made rfl nofun with
  | @scalar t b hscalar hb =>
    obtain rfl := eq_null_of_build (.dictionary shape) hscalar hb
    obtain rfl := Except.ok.inj hb
    exact ⟨[], rfl, .nil, nofun⟩
  | parts htakes hparts =>
    cases htakes with
    | dictionary value =>
      cases hparts with
      | @entries _ _ rs x hrs hfinish =>
        obtain rfl := Option.some.inj hfinish
        have hmakes : ∀ g ∈ EntryReading.allGiven rs, σ.Makes shape g.2 := by
          intro g hg
          obtain ⟨key, shape', hwants, hmakes⟩ := makes_of_readsEntries hrs g hg
          -- a dictionary wants the values of all keys as one shape
          obtain ⟨-, rfl⟩ := Prod.mk.inj (Option.some.inj hwants)
          exact hmakes
        obtain ⟨hsorted, hall⟩ := foldl_insertSorted_keeps hmakes [] .nil nofun
        exact ⟨_, rfl, hsorted, hall⟩

/-! ## Records -/

/-- The value has the name of the field, and some document is built into it as the shape of the field. -/
def MakesField (σ : Schema) (f : Field) (g : String × Instance) : Prop := g.1 = f.name ∧ σ.Makes f.shape g.2

/-- What fields fall back to could as well have been given by a document. -/
def FallbacksFit (σ : Schema) (declared : List Field) : Prop :=
  ∀ f ∈ declared, ∀ v, f.fallback = some v → σ.Makes f.shape v

theorem mem_of_lookup_eq_some {α : Type} {name : String} {value : α} {es : List (String × α)}
    (h : es.lookup name = some value) : (name, value) ∈ es := by
  obtain ⟨front, rest, rfl, -⟩ := List.lookup_eq_some_iff.1 h
  exact List.mem_append_right _ List.mem_cons_self

/-- The first field has the value that was given for it, else its fallback. -/
theorem completeFields_cons_eq_ok {given values : List (String × Instance)} {f : Field} {fs : List Field}
    (hkept : f.elided = false) (h : completeFields given (f :: fs) = .ok values) :
    ∃ value rest, (given.lookup f.name).or f.fallback = some value ∧ completeFields given fs = .ok rest ∧
      values = (f.name, value) :: rest := by
  rw [completeFields, hkept] at h
  cases hvalue : (given.lookup f.name).or f.fallback with
  | none =>
    obtain ⟨hlookup, hfallback⟩ := Option.or_eq_none_iff.1 hvalue
    rw [hlookup, hfallback] at h
    cases h
  | some value =>
    have hrest : (completeFields given fs).bind (fun rest => .ok ((f.name, value) :: rest)) = .ok values := by
      obtain hlookup | ⟨hlookup, hfallback⟩ := Option.or_eq_some_iff.1 hvalue
      · rwa [hlookup] at h
      · rwa [hlookup, hfallback] at h
    obtain ⟨rest, hcomplete, hrest⟩ := except_bind_eq_ok.1 hrest
    exact ⟨value, rest, rfl, hcomplete, (Except.ok.inj hrest).symm⟩

theorem makesField_of_completeFields {given : List (String × Instance)} {declared : List Field}
    (hgiven : ∀ f ∈ declared, ∀ v, given.lookup f.name = some v → σ.Makes f.shape v)
    (hfallback : σ.FallbacksFit declared) (helided : ∀ f ∈ declared, f.elided = false) :
    ∀ {values : List (String × Instance)}, completeFields given declared = .ok values →
      List.Forall₂ σ.MakesField declared values := by
  induction declared with
  | nil =>
    intro values h
    obtain rfl := Except.ok.inj h
    exact .nil
  | cons f fs ih =>
    intro values h
    obtain ⟨hfirst, hrest⟩ := List.forall_mem_cons.1 hgiven
    obtain ⟨hfit, hfits⟩ := List.forall_mem_cons.1 hfallback
    obtain ⟨hkept, hkepts⟩ := List.forall_mem_cons.1 helided
    obtain ⟨value, rest, hvalue, hcomplete, rfl⟩ := completeFields_cons_eq_ok hkept h
    refine .cons ⟨rfl, ?_⟩ (ih hrest hfits hkepts hcomplete)
    obtain hlookup | ⟨-, hdefault⟩ := Option.or_eq_some_iff.1 hvalue
    · exact hfirst value hlookup
    · exact hfit value hdefault

theorem Makes.record {name : String} (h : σ.Makes (.record name) x) (hkeys : NamesAreKeys (σ.fields name))
    (hfallback : σ.FallbacksFit (σ.fields name)) (helided : ∀ f ∈ σ.fields name, f.elided = false) :
    ∃ values, x = .record values ∧ List.Forall₂ σ.MakesField (σ.fields name) values := by
  cases h.made rfl nofun with
  | @scalar t b hscalar hb =>
    obtain rfl := eq_null_of_build (.record name) hscalar hb
    obtain ⟨values, hvalues, hb⟩ := except_bind_eq_ok.1 hb
    obtain rfl := Except.ok.inj hb
    exact ⟨values, rfl, makesField_of_completeFields (fun _ _ _ hnone => by cases hnone) hfallback helided hvalues⟩
  | @parts t _ b htakes hparts =>
    cases htakes with
    | record name =>
      obtain ⟨es, rfl⟩ : ∃ es, t = .map es := by
        cases hparts with
        | entries => exact ⟨_, rfl⟩
      obtain ⟨given, values, hgiven, hvalues, rfl⟩ := readsParts_fields_iff.1 hparts
      obtain ⟨rs, hrs, -, -, rfl⟩ := buildFields_eq_ok_iff.1 hgiven
      refine ⟨values, rfl, makesField_of_completeFields (fun f hf v hlookup => ?_) hfallback helided hvalues⟩
      obtain ⟨key, shape, hwants, hmakes⟩ := makes_of_readsEntries hrs _ (mem_of_lookup_eq_some hlookup)
      -- the value was given under the name of the field, and no other field has that name
      obtain ⟨f', hf', heq⟩ := Option.map_eq_some_iff.1 hwants
      obtain ⟨hname, rfl⟩ := Prod.mk.inj heq
      have hsame : f' = f := List.inj_on_of_nodup_map hkeys.nodup (List.mem_of_find?_eq_some hf') hf hname
      exact hsame ▸ hmakes

end Schema

end Provisioning
