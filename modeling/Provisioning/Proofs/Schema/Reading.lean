import Mathlib.Data.List.Forall2
import Provisioning.Proofs.Tree.Plain
import Provisioning.Schema.Build

/-!
# What a successful build read

`Schema.build` succeeds on a node exactly if there is a `Reading` of it: one constructor for each way a
node can be taken, with the builds of its parts as premises. Everything that is proved about successful
builds goes through `build_eq_ok_iff`, in both directions: take a reading apart, change its parts, and put it
together again.

* The items of lists and of variants with several values are read alike, each as a shape of its own
  (`ReadsItems`).
* The entries of records, dictionaries and variants with fields are read alike (`ReadsEntry`). What differs
  is a `MapReader`: which keys it wants, and what it makes of the values it was given.
* Lists and maps stand bare or below the tag of a variant, and are read alike there too (`ReadsParts`).
-/

namespace Provisioning

theorem except_bind_eq_ok {ε α β : Type} {x : Except ε α} {f : α → Except ε β} {b : β} :
    x >>= f = .ok b ↔ ∃ a, x = .ok a ∧ f a = .ok b := by
  cases x with
  | ok a => simp [bind, Except.bind]
  | error e => simp [bind, Except.bind]

/-! ## Parts -/

/-- The ways to the keys that the items of a list skipped, the first of which stands at `position`. -/
def skippedInItems (position : Nat) : List (Built Instance) → List KeyPath
  | [] => []
  | b :: bs => (b.below (.index position)).skipped ++ skippedInItems (position + 1) bs

/-- What a map entry contributes: a named value or nothing, and the ways to the keys it skips. -/
structure EntryReading where
  given : Option (String × Instance)
  skipped : List KeyPath

namespace EntryReading

/-- The named values that entries contribute, in their order. -/
def allGiven (rs : List EntryReading) : List (String × Instance) := rs.filterMap (·.given)

/-- The ways to all keys that entries skip. -/
def allSkipped (rs : List EntryReading) : List KeyPath := rs.flatMap (·.skipped)

@[simp] theorem allGiven_cons_some (g : String × Instance) (skipped : List KeyPath)
    (rs : List EntryReading) : allGiven (⟨some g, skipped⟩ :: rs) = g :: allGiven rs := rfl

@[simp] theorem allGiven_cons_none (skipped : List KeyPath) (rs : List EntryReading) :
    allGiven (⟨none, skipped⟩ :: rs) = allGiven rs := rfl

theorem allGiven_cons (r : EntryReading) (rs : List EntryReading) :
    allGiven (r :: rs) = r.given.toList ++ allGiven rs := by
  rw [allGiven, List.filterMap_cons]
  cases r.given <;> rfl

@[simp] theorem allSkipped_cons (r : EntryReading) (rs : List EntryReading) :
    allSkipped (r :: rs) = r.skipped ++ allSkipped rs := rfl

end EntryReading

/-- The name and shape of the field that a key gives. -/
def wantsField (fields : List Field) (key : String) : Option (String × Shape) :=
  (fields.find? (·.isGivenBy key)).map fun f => (f.name, f.shape)

/-- How the entries of a map are taken together. -/
inductive MapReader
  | fields (declared : List Field)
  | values (shape : Shape)

namespace MapReader

/-- The name and the shape under which the value of a key is wanted; all other keys are skipped. -/
def wants : MapReader → String → Option (String × Shape)
  | .fields declared => wantsField declared
  | .values shape => fun key => some (key, shape)

/-- What the values that were given make, if they make anything. -/
def finish : MapReader → List (String × Instance) → Option Instance
  | .fields declared, given =>
    if (given.map (·.1)).Nodup then (completeFields given declared).toOption.map .record else none
  | .values _, given => some (.dictionary (given.foldl (fun es g => insertSorted g.1 g.2 es) []))

end MapReader

/-- How a list or a map is taken. -/
inductive PartsReader
  | items (shapes : List Shape) (finish : List Instance → Instance)
  | entries (reader : MapReader)

/-- How a list or a map is taken as what a variant carries. -/
inductive Payload.Takes : Payload → PartsReader → Prop
  | several {shapes : List Shape} : shapes ≠ [] → Takes (.several shapes) (.items shapes .list)
  | fields (fields : List Field) : Takes (.fields fields) (.entries (.fields fields))

/-- Whether a node has no parts and no tag. -/
def Tree.isScalar : Tree → Bool
  | .list _ | .map _ | .tagged _ _ => false
  | _ => true

/-- A node without parts has nothing to resolve, and no keys. -/
theorem Tree.plain_of_isScalar {t : Tree} (h : t.isScalar = true) : t.Plain := by
  cases t with
  | list | map | tagged => exact Bool.noConfusion h
  | null | flag | number | text => refine ⟨?_, ?_, ?_⟩ <;> exact fun n hn => List.mem_singleton.1 hn ▸ rfl

namespace Schema

variable {σ : Schema}

/-- Items read as a shape each. -/
inductive ReadsItems (σ : Schema) : List Tree → List Shape → List (Built Instance) → Prop
  | nil : ReadsItems σ [] [] []
  | cons {t : Tree} {shape : Shape} {b : Built Instance} {ts : List Tree} {shapes : List Shape}
      {bs : List (Built Instance)} :
      σ.build t shape = .ok b → ReadsItems σ ts shapes bs →
      ReadsItems σ (t :: ts) (shape :: shapes) (b :: bs)

/-- A map entry read by a reader that wants its key, or skipped by one that does not. -/
inductive ReadsEntry (σ : Schema) (wants : String → Option (String × Shape)) :
    Tree × Tree → EntryReading → Prop
  | wanted {k v : Tree} {key name : String} {shape : Shape} {b : Built Instance} :
      k.untagged = .text key → wants key = some (name, shape) → σ.build v shape = .ok b →
      ReadsEntry σ wants (k, v) ⟨some (name, b.value), (b.below (.key key)).skipped⟩
  | unwanted {k v : Tree} {key : String} :
      k.untagged = .text key → wants key = none →
      ReadsEntry σ wants (k, v) ⟨none, [[.key key]]⟩

/-- Map entries read one by one, in order. -/
abbrev ReadsEntries (σ : Schema) (wants : String → Option (String × Shape)) :
    List (Tree × Tree) → List EntryReading → Prop :=
  List.Forall₂ (ReadsEntry σ wants)

/-- All that an entry skips lies below its key, or is the key. -/
theorem ReadsEntry.exists_key {wants : String → Option (String × Shape)} {e : Tree × Tree} {r : EntryReading}
    (h : ReadsEntry σ wants e r) :
    ∃ key, e.1.untagged = .text key ∧ ∀ p ∈ r.skipped, ∃ q, p = .key key :: q := by
  cases h with
  | @wanted _ _ key _ _ _ hkey _ _ =>
    refine ⟨key, hkey, fun p hp => ?_⟩
    obtain ⟨q, -, rfl⟩ := List.mem_map.1 hp
    exact ⟨q, rfl⟩
  | @unwanted _ _ key hkey _ => exact ⟨key, hkey, fun p hp => ⟨[], List.mem_singleton.1 hp⟩⟩

/-- Entries are read only if every key is a text below its tags. -/
theorem exists_key_of_mem {wants : String → Option (String × Shape)} {es : List (Tree × Tree)}
    {rs : List EntryReading} (h : ReadsEntries σ wants es rs) {e : Tree × Tree} (he : e ∈ es) :
    ∃ key, e.1.untagged = .text key := by
  induction h with
  | nil => exact absurd he List.not_mem_nil
  | cons hfirst _ ih =>
    rcases List.mem_cons.1 he with rfl | he
    · obtain ⟨key, hkey, -⟩ := hfirst.exists_key
      exact ⟨key, hkey⟩
    · exact ih he

/-! ## Lists of parts -/

theorem buildItems_eq_ok_iff {shape : Shape} {items : List Tree} :
    ∀ {position : Nat} {b : Built (List Instance)}, σ.buildItems items position shape = .ok b ↔
      ∃ bs, ReadsItems σ items (List.replicate items.length shape) bs ∧
        b = ⟨bs.map (·.value), skippedInItems position bs⟩ := by
  induction items with
  | nil =>
    intro position b
    rw [buildItems]
    refine ⟨fun h => ⟨[], .nil, (Except.ok.inj h).symm⟩, fun h => ?_⟩
    obtain ⟨bs, hbs, rfl⟩ := h
    cases hbs
    rfl
  | cons t ts ih =>
    intro position b
    rw [buildItems]
    refine ⟨fun h => ?_, fun h => ?_⟩
    · obtain ⟨first, hfirst, h⟩ := except_bind_eq_ok.1 h
      obtain ⟨rest, hrest, h⟩ := except_bind_eq_ok.1 h
      obtain ⟨bs, hbs, rfl⟩ := ih.1 hrest
      exact ⟨first :: bs, .cons hfirst hbs, (Except.ok.inj h).symm⟩
    · obtain ⟨bs, hbs, rfl⟩ := h
      rw [List.length_cons, List.replicate_succ] at hbs
      cases hbs with
      | cons hfirst hrest =>
        rw [hfirst, ih.2 ⟨_, hrest, rfl⟩]
        rfl

theorem readsItems_length {ts : List Tree} {shapes : List Shape} {bs : List (Built Instance)}
    (h : ReadsItems σ ts shapes bs) : ts.length = shapes.length := by
  induction h with
  | nil => rfl
  | cons _ _ ih => rw [List.length_cons, List.length_cons, ih]

/-- Items with a shape each are all read exactly if none is left over and none is missing. -/
theorem buildSeveral_eq_ok_iff {ts : List Tree} :
    ∀ {position : Nat} {shapes : List Shape} {b : Built (List Instance × Option Nat)},
      (σ.buildSeveral ts position shapes = .ok b ∧ b.value.2 = some 0) ↔
        ∃ bs, ReadsItems σ ts shapes bs ∧
          b = ⟨(bs.map (·.value), some 0), skippedInItems position bs⟩ := by
  induction ts with
  | nil =>
    intro position shapes b
    cases shapes with
    | nil =>
      rw [buildSeveral]
      refine ⟨fun h => ⟨[], .nil, (Except.ok.inj h.1).symm⟩, fun h => ?_⟩
      obtain ⟨bs, hbs, rfl⟩ := h
      cases hbs
      exact ⟨rfl, rfl⟩
    | cons shape shapes =>
      rw [buildSeveral]
      refine ⟨fun h => ?_, fun h => ?_⟩
      · obtain ⟨h, hall⟩ := h
        obtain rfl := Except.ok.inj h
        exact absurd hall (by simp)
      · obtain ⟨bs, hbs, -⟩ := h
        cases hbs
  | cons t ts ih =>
    intro position shapes b
    cases shapes with
    | nil =>
      rw [buildSeveral]
      refine ⟨fun h => ?_, fun h => ?_⟩
      · obtain ⟨h, hall⟩ := h
        obtain rfl := Except.ok.inj h
        exact absurd hall (by simp)
      · obtain ⟨bs, hbs, -⟩ := h
        cases hbs
    | cons shape shapes =>
      rw [buildSeveral]
      refine ⟨fun h => ?_, fun h => ?_⟩
      · obtain ⟨h, hall⟩ := h
        obtain ⟨first, hfirst, h⟩ := except_bind_eq_ok.1 h
        obtain ⟨rest, hrest, h⟩ := except_bind_eq_ok.1 h
        obtain rfl := Except.ok.inj h
        obtain ⟨bs, hbs, rfl⟩ := ih.1 ⟨hrest, hall⟩
        exact ⟨first :: bs, .cons hfirst hbs, rfl⟩
      · obtain ⟨bs, hbs, rfl⟩ := h
        cases hbs with
        | cons hfirst hrest =>
          rw [hfirst, (ih.2 ⟨_, hrest, rfl⟩).1]
          exact ⟨rfl, rfl⟩

theorem lookup_concat_eq_none_iff {given : List (String × Instance)} {name other : String} {x : Instance} :
    (given ++ [(name, x)]).lookup other = none ↔ given.lookup other = none ∧ other ≠ name := by
  rw [List.lookup_append]
  cases given.lookup other with
  | none => simp [Directory.lookup_cons_ite]
  | some y => simp

/-- The first entry gives a field that is still free, or is skipped; then the others are read. -/
theorem buildFields_cons_eq_ok_iff {fields : List Field} {k v : Tree} {rest : List (Tree × Tree)}
    {given : List (String × Instance)} {b : Built (List (String × Instance))} :
    σ.buildFields ((k, v) :: rest) fields given = .ok b ↔
      (∃ key f first others, k.untagged = .text key ∧ fields.find? (·.isGivenBy key) = some f ∧
        given.lookup f.name = none ∧ σ.build v f.shape = .ok first ∧
        σ.buildFields rest fields (given ++ [(f.name, first.value)]) = .ok others ∧
        b = ⟨others.value, (first.below (.key key)).skipped ++ others.skipped⟩) ∨
      ∃ key others, k.untagged = .text key ∧ fields.find? (·.isGivenBy key) = none ∧
        σ.buildFields rest fields given = .ok others ∧
        b = ⟨others.value, [.key key] :: others.skipped⟩ := by
  rw [buildFields]
  refine ⟨fun h => ?_, fun h => ?_⟩
  · split at h
    · rename_i key hkey
      split at h
      · rename_i f hfind
        split at h
        · cases h
        · rename_i hfree
          obtain ⟨first, hfirst, h⟩ := except_bind_eq_ok.1 h
          obtain ⟨others, hothers, h⟩ := except_bind_eq_ok.1 h
          exact .inl ⟨key, f, first, others, hkey, hfind, Option.not_isSome_iff_eq_none.1 hfree, hfirst,
            hothers, (Except.ok.inj h).symm⟩
      · rename_i hfind
        obtain ⟨others, hothers, h⟩ := except_bind_eq_ok.1 h
        exact .inr ⟨key, others, hkey, hfind, hothers, (Except.ok.inj h).symm⟩
    · cases h
  · rcases h with ⟨key, f, first, others, hkey, hfind, hfree, hfirst, hothers, rfl⟩ |
      ⟨key, others, hkey, hfind, hothers, rfl⟩
    · simp only [hkey, hfind, hfree, hfirst, Option.isSome_none, Bool.false_eq_true, if_false, bind,
        Except.bind, hothers]
    · simp only [hkey, hfind, hothers, bind, Except.bind]

/-- Fields are read exactly if every entry is, and no field is given twice. -/
theorem buildFields_eq_ok_iff {fields : List Field} {entries : List (Tree × Tree)} :
    ∀ {given : List (String × Instance)} {b : Built (List (String × Instance))},
      σ.buildFields entries fields given = .ok b ↔
        ∃ rs, ReadsEntries σ (wantsField fields) entries rs ∧
          ((EntryReading.allGiven rs).map (·.1)).Nodup ∧
          (∀ g ∈ EntryReading.allGiven rs, given.lookup g.1 = none) ∧
          b = ⟨given ++ EntryReading.allGiven rs, EntryReading.allSkipped rs⟩ := by
  induction entries with
  | nil =>
    intro given b
    rw [buildFields]
    refine ⟨fun h => ?_, fun h => ?_⟩
    · obtain rfl := Except.ok.inj h
      exact ⟨[], .nil, List.nodup_nil, by simp [EntryReading.allGiven],
        by simp [EntryReading.allGiven, EntryReading.allSkipped]⟩
    · obtain ⟨rs, hrs, -, -, rfl⟩ := h
      cases hrs
      simp [EntryReading.allGiven, EntryReading.allSkipped]
  | cons e rest ih =>
    intro given b
    obtain ⟨k, v⟩ := e
    rw [buildFields_cons_eq_ok_iff]
    refine ⟨fun h => ?_, fun h => ?_⟩
    · rcases h with ⟨key, f, first, others, hkey, hfind, hfree, hfirst, hothers, rfl⟩ |
        ⟨key, others, hkey, hfind, hothers, rfl⟩
      · obtain ⟨rs, hrs, hnodup, hgiven, rfl⟩ := ih.1 hothers
        have hwants : wantsField fields key = some (f.name, f.shape) := by rw [wantsField, hfind]; rfl
        have hsplit : ∀ g ∈ EntryReading.allGiven rs, given.lookup g.1 = none ∧ g.1 ≠ f.name :=
          fun g hg => lookup_concat_eq_none_iff.1 (hgiven g hg)
        refine ⟨_, .cons (.wanted hkey hwants hfirst) hrs, ?_, ?_, ?_⟩
        · rw [EntryReading.allGiven_cons_some, List.map_cons, List.nodup_cons]
          refine ⟨fun hmem => ?_, hnodup⟩
          obtain ⟨g, hg, hname⟩ := List.mem_map.1 hmem
          exact (hsplit g hg).2 hname
        · rw [EntryReading.allGiven_cons_some, List.forall_mem_cons]
          exact ⟨hfree, fun g hg => (hsplit g hg).1⟩
        · rw [EntryReading.allGiven_cons_some, EntryReading.allSkipped_cons, ← List.append_cons]
      · obtain ⟨rs, hrs, hnodup, hgiven, rfl⟩ := ih.1 hothers
        have hwants : wantsField fields key = none := by rw [wantsField, hfind]; rfl
        exact ⟨_, .cons (.unwanted hkey hwants) hrs, hnodup, hgiven, rfl⟩
    · obtain ⟨rs, hrs, hnodup, hgiven, rfl⟩ := h
      cases hrs with
      | @cons _ _ _ rs hentry hrest =>
        cases hentry with
        | unwanted hkey hwants =>
          have hfind := Option.map_eq_none_iff.1 hwants
          exact .inr ⟨_, _, hkey, hfind, ih.2 ⟨_, hrest, hnodup, hgiven, rfl⟩, rfl⟩
        | @wanted _ _ key _ _ first hkey hwants hfirst =>
          obtain ⟨f, hfind, heq⟩ := Option.map_eq_some_iff.1 hwants
          obtain ⟨rfl, rfl⟩ := Prod.mk.inj heq
          rw [EntryReading.allGiven_cons_some, List.map_cons, List.nodup_cons] at hnodup
          rw [EntryReading.allGiven_cons_some, List.forall_mem_cons] at hgiven
          have hfree : ∀ g ∈ EntryReading.allGiven rs,
              (given ++ [(f.name, first.value)]).lookup g.1 = none := fun g hg =>
            lookup_concat_eq_none_iff.2
              ⟨hgiven.2 g hg, fun hname => hnodup.1 (List.mem_map.2 ⟨g, hg, hname⟩)⟩
          refine .inl ⟨key, f, first, _, hkey, hfind, hgiven.1, hfirst,
            ih.2 ⟨_, hrest, hnodup.2, hfree, rfl⟩, ?_⟩
          rw [EntryReading.allGiven_cons_some, EntryReading.allSkipped_cons, ← List.append_cons]

/-- Dictionary entries are read exactly if every entry is; their values are set in order. -/
theorem buildEntries_eq_ok_iff {shape : Shape} {entries : List (Tree × Tree)} :
    ∀ {given : List (String × Instance)} {b : Built (List (String × Instance))},
      σ.buildEntries entries shape given = .ok b ↔
        ∃ rs, ReadsEntries σ (fun key => some (key, shape)) entries rs ∧
          b = ⟨(EntryReading.allGiven rs).foldl (fun es g => insertSorted g.1 g.2 es) given,
            EntryReading.allSkipped rs⟩ := by
  induction entries with
  | nil =>
    intro given b
    rw [buildEntries]
    refine ⟨fun h => ⟨[], .nil, (Except.ok.inj h).symm⟩, fun h => ?_⟩
    obtain ⟨rs, hrs, rfl⟩ := h
    cases hrs
    rfl
  | cons e rest ih =>
    intro given b
    obtain ⟨k, v⟩ := e
    rw [buildEntries]
    refine ⟨fun h => ?_, fun h => ?_⟩
    · split at h
      · rename_i key hkey
        obtain ⟨first, hfirst, h⟩ := except_bind_eq_ok.1 h
        obtain ⟨others, hothers, h⟩ := except_bind_eq_ok.1 h
        obtain ⟨rs, hrs, rfl⟩ := ih.1 hothers
        exact ⟨_, .cons (.wanted hkey rfl hfirst) hrs, (Except.ok.inj h).symm⟩
      · cases h
    · obtain ⟨rs, hrs, rfl⟩ := h
      cases hrs with
      | cons hentry hrest =>
        cases hentry with
        | unwanted hkey hwants => cases hwants
        | wanted hkey hwants hfirst =>
          obtain ⟨rfl, rfl⟩ := Prod.mk.inj (Option.some.inj hwants)
          simp only [hkey, hfirst, bind, Except.bind, ih.2 ⟨_, hrest, rfl⟩]
          rfl

/-! ## Lists and maps -/

/-- How a list or a map is taken as a shape. -/
inductive Takes (σ : Schema) : Shape → PartsReader → Prop
  | list (item : Shape) (n : Nat) : Takes σ (.list item) (.items (List.replicate n item) .list)
  | distinct (item : Shape) (n : Nat) :
      Takes σ (.distinct item) (.items (List.replicate n item) fun xs => .list (firstOccurrences xs))
  | record (name : String) : Takes σ (.record name) (.entries (.fields (σ.fields name)))
  | dictionary (value : Shape) : Takes σ (.dictionary value) (.entries (.values value))

/-- A list or a map, without a tag, read from its parts. -/
inductive ReadsParts (σ : Schema) : PartsReader → Tree → Built Instance → Prop
  | items {ts : List Tree} {shapes : List Shape} {bs : List (Built Instance)}
      (finish : List Instance → Instance) : ReadsItems σ ts shapes bs →
      ReadsParts σ (.items shapes finish) (.list ts) ⟨finish (bs.map (·.value)), skippedInItems 0 bs⟩
  | entries {es : List (Tree × Tree)} {reader : MapReader} {rs : List EntryReading} {x : Instance} :
      ReadsEntries σ reader.wants es rs → reader.finish (EntryReading.allGiven rs) = some x →
      ReadsParts σ (.entries reader) (.map es) ⟨x, EntryReading.allSkipped rs⟩

/-- One layer of a successful build: the ways to take a node. -/
inductive Reading (σ : Schema) : Tree → Shape → Built Instance → Prop
  | scalar {t : Tree} {shape : Shape} {x : Instance} :
      t.isScalar = true → σ.build t shape = .ok ⟨x, []⟩ → Reading σ t shape ⟨x, []⟩
  | parts {t : Tree} {shape : Shape} {reader : PartsReader} {b : Built Instance} :
      σ.Takes shape.base reader → ReadsParts σ reader t b → Reading σ t shape b
  /-- The tag of a variant that carries nothing. -/
  | bare {shape : Shape} {name tag : String} :
      shape.base = .choice name → (σ.variants name).lookup tag = some .nothing →
      Reading σ (.tagged tag .null) shape ⟨.bare tag, []⟩
  /-- The tag of a variant that carries one value; what that skips lies one step further away. -/
  | one {shape inner : Shape} {name tag : String} {content : Tree} {b : Built Instance} :
      shape.base = .choice name → (σ.variants name).lookup tag = some (.one inner) →
      σ.build content inner = .ok b →
      Reading σ (.tagged tag content) shape ⟨.variant tag b.value, b.skipped.map (.variant :: ·)⟩
  /-- The tag of a variant that carries several values or fields. -/
  | payload {shape : Shape} {name tag : String} {payload : Payload} {reader : PartsReader} {content : Tree}
      {b : Built Instance} :
      shape.base = .choice name → (σ.variants name).lookup tag = some payload → payload.Takes reader →
      ReadsParts σ reader content b → Reading σ (.tagged tag content) shape ⟨.variant tag b.value, b.skipped⟩
  /-- A tag that a shape looks through. -/
  | through {shape : Shape} {tag : String} {content : Tree} {b : Built Instance} :
      (∀ name, shape.base ≠ .choice name) → σ.build content shape.base = .ok b →
      Reading σ (.tagged tag content) shape b

/-! ## Taking a build apart -/

theorem skipped_of_isScalar {t : Tree} {shape : Shape} {b : Built Instance} (hscalar : t.isScalar = true)
    (h : σ.build t shape = .ok b) : b.skipped = [] := by
  cases t with
  | list | map | tagged => cases hscalar
  | null =>
    unfold build at h
    split at h
    · exact Except.ok.inj h ▸ rfl
    · split at h
      · exact Except.ok.inj h ▸ rfl
      · exact Except.ok.inj h ▸ rfl
      · exact Except.ok.inj h ▸ rfl
      · obtain ⟨fields, -, h⟩ := except_bind_eq_ok.1 h
        exact Except.ok.inj h ▸ rfl
      · cases h
  | flag value =>
    unfold build at h
    split at h
    · exact Except.ok.inj h ▸ rfl
    · cases h
  | number n =>
    unfold build at h
    split at h
    · obtain ⟨value, -, h⟩ := except_bind_eq_ok.1 h
      exact Except.ok.inj h ▸ rfl
    · cases h
  | text s =>
    unfold build at h
    split at h
    · exact Except.ok.inj h ▸ rfl
    · obtain ⟨value, -, h⟩ := except_bind_eq_ok.1 h
      exact Except.ok.inj h ▸ rfl
    · cases h

/-- Fields are taken exactly if every entry is read, no field is given twice and no required one is
missing. -/
theorem readsParts_fields_iff {declared : List Field} {es : List (Tree × Tree)} {b : Built Instance} :
    ReadsParts σ (.entries (.fields declared)) (.map es) b ↔
      ∃ given fields, σ.buildFields es declared [] = .ok given ∧
        completeFields given.value declared = .ok fields ∧ b = ⟨.record fields, given.skipped⟩ := by
  refine ⟨fun h => ?_, fun h => ?_⟩
  · cases h with
    | @entries _ _ rs x hrs hfinish =>
      rw [MapReader.finish] at hfinish
      split at hfinish
      · rename_i hnodup
        obtain ⟨fields, hfields, rfl⟩ := Option.map_eq_some_iff.1 hfinish
        refine ⟨⟨EntryReading.allGiven rs, EntryReading.allSkipped rs⟩, fields,
          buildFields_eq_ok_iff.2 ⟨rs, hrs, hnodup, by simp, rfl⟩, ?_, rfl⟩
        cases hcomplete : completeFields (EntryReading.allGiven rs) declared with
        | ok values => rw [hcomplete] at hfields; exact congrArg Except.ok (Option.some.inj hfields)
        | error reason => rw [hcomplete] at hfields; cases hfields
      · cases hfinish
  · obtain ⟨given, fields, hgiven, hfields, rfl⟩ := h
    obtain ⟨rs, hrs, hnodup, -, rfl⟩ := buildFields_eq_ok_iff.1 hgiven
    rw [List.nil_append] at hfields
    refine .entries hrs ?_
    rw [MapReader.finish, if_pos hnodup, hfields]
    rfl

/-- The values of a dictionary are taken exactly if every entry is read. -/
theorem readsParts_values_iff {shape : Shape} {es : List (Tree × Tree)} {b : Built Instance} :
    ReadsParts σ (.entries (.values shape)) (.map es) b ↔
      ∃ given, σ.buildEntries es shape [] = .ok given ∧ b = ⟨.dictionary given.value, given.skipped⟩ := by
  refine ⟨fun h => ?_, fun h => ?_⟩
  · cases h with
    | @entries _ _ rs x hrs hfinish =>
      obtain rfl := Option.some.inj hfinish
      exact ⟨_, buildEntries_eq_ok_iff.2 ⟨rs, hrs, rfl⟩, rfl⟩
  · obtain ⟨given, hgiven, rfl⟩ := h
    obtain ⟨rs, hrs, rfl⟩ := buildEntries_eq_ok_iff.1 hgiven
    exact .entries hrs rfl

theorem build_list_eq_ok_iff {ts : List Tree} {shape : Shape} {b : Built Instance} :
    σ.build (.list ts) shape = .ok b ↔
      ∃ reader, σ.Takes shape.base reader ∧ ReadsParts σ reader (.list ts) b := by
  refine ⟨fun h => ?_, fun h => ?_⟩
  · unfold build at h
    split at h
    · rename_i item hbase
      obtain ⟨built, hbuilt, h⟩ := except_bind_eq_ok.1 h
      obtain ⟨bs, hbs, rfl⟩ := buildItems_eq_ok_iff.1 hbuilt
      obtain rfl := Except.ok.inj h
      exact ⟨_, hbase ▸ .list item ts.length, .items _ hbs⟩
    · rename_i item hbase
      obtain ⟨built, hbuilt, h⟩ := except_bind_eq_ok.1 h
      obtain ⟨bs, hbs, rfl⟩ := buildItems_eq_ok_iff.1 hbuilt
      obtain rfl := Except.ok.inj h
      exact ⟨.items (List.replicate ts.length item) fun xs => .list (firstOccurrences xs),
        hbase ▸ .distinct item ts.length, .items _ hbs⟩
    · cases h
  · obtain ⟨reader, htakes, hparts⟩ := h
    unfold build
    cases hparts with
    | items finish hbs =>
      have hlength := readsItems_length hbs
      generalize shape.base = base at htakes
      cases htakes with
      | list item n | distinct item n =>
        rw [List.length_replicate] at hlength
        subst hlength
        simp only [buildItems_eq_ok_iff.2 ⟨_, hbs, rfl⟩, bind, Except.bind]

theorem build_map_eq_ok_iff {es : List (Tree × Tree)} {shape : Shape} {b : Built Instance} :
    σ.build (.map es) shape = .ok b ↔
      ∃ reader, σ.Takes shape.base reader ∧ ReadsParts σ reader (.map es) b := by
  refine ⟨fun h => ?_, fun h => ?_⟩
  · unfold build at h
    split at h
    · rename_i name hbase
      obtain ⟨given, hgiven, h⟩ := except_bind_eq_ok.1 h
      obtain ⟨fields, hfields, h⟩ := except_bind_eq_ok.1 h
      obtain rfl := Except.ok.inj h
      exact ⟨_, hbase ▸ .record name, readsParts_fields_iff.2 ⟨given, fields, hgiven, hfields, rfl⟩⟩
    · rename_i value hbase
      obtain ⟨given, hgiven, h⟩ := except_bind_eq_ok.1 h
      obtain rfl := Except.ok.inj h
      exact ⟨_, hbase ▸ .dictionary value, readsParts_values_iff.2 ⟨given, hgiven, rfl⟩⟩
    · cases h
  · obtain ⟨reader, htakes, hparts⟩ := h
    unfold build
    generalize shape.base = base at htakes
    cases htakes with
    | list | distinct => cases hparts
    | record name =>
      obtain ⟨given, fields, hgiven, hfields, rfl⟩ := readsParts_fields_iff.1 hparts
      simp only [hgiven, bind, Except.bind, hfields]
    | dictionary value =>
      obtain ⟨given, hgiven, rfl⟩ := readsParts_values_iff.1 hparts
      simp only [hgiven, bind, Except.bind]

/-- A tag names a variant of a choice; every other shape looks through it. -/
theorem reading_of_build_tagged {tag : String} {content : Tree} {shape : Shape} {b : Built Instance}
    (h : σ.build (.tagged tag content) shape = .ok b) : Reading σ (.tagged tag content) shape b := by
  unfold build at h
  split at h
  · rename_i name hbase
    split at h
    · cases h
    · rename_i hvariant
      split at h
      · obtain rfl := Except.ok.inj h
        exact .bare hbase hvariant
      · cases h
    · rename_i inner hvariant
      obtain ⟨built, hbuilt, h⟩ := except_bind_eq_ok.1 h
      obtain rfl := Except.ok.inj h
      exact .one hbase hvariant hbuilt
    · rename_i shapes hvariant
      split at h
      · cases h
      · rename_i items hitems
        obtain ⟨built, hbuilt, h⟩ := except_bind_eq_ok.1 h
        split at h
        · rename_i hall
          obtain rfl := Except.ok.inj h
          obtain ⟨bs, hbs, rfl⟩ := buildSeveral_eq_ok_iff.1 ⟨hbuilt, hall⟩
          refine .payload hbase hvariant (.several ?_) (.items _ hbs)
          intro hnil
          subst hnil
          cases hbs
          exact hitems rfl
        · cases h
        · cases h
      · cases h
    · rename_i declared hvariant
      split at h
      · obtain ⟨given, hgiven, h⟩ := except_bind_eq_ok.1 h
        obtain ⟨fields, hfields, h⟩ := except_bind_eq_ok.1 h
        obtain rfl := Except.ok.inj h
        exact .payload hbase hvariant (.fields declared)
          (readsParts_fields_iff.2 ⟨given, fields, hgiven, hfields, rfl⟩)
      · cases h
  · rename_i hbase
    exact .through (fun name hname => hbase name hname) h

theorem build_tagged_of_reading {tag : String} {content : Tree} {shape : Shape} {b : Built Instance}
    (h : Reading σ (.tagged tag content) shape b) : σ.build (.tagged tag content) shape = .ok b := by
  cases h with
  | scalar hscalar => cases hscalar
  | parts _ hparts => cases hparts
  | bare hbase hvariant =>
    unfold build
    simp only [hbase, hvariant]
  | one hbase hvariant hbuilt =>
    unfold build
    simp only [hbase, hvariant, hbuilt, bind, Except.bind]
    rfl
  | payload hbase hvariant htakes hparts =>
    unfold build
    cases htakes with
    | several hne =>
      cases hparts with
      | @items ts _ bs _ hbs =>
        have hbuilt := ((@buildSeveral_eq_ok_iff σ ts 0 _ _).2 ⟨bs, hbs, rfl⟩).1
        cases ts with
        | nil =>
          cases hbs
          exact absurd rfl hne
        | cons t ts => simp only [hbase, hvariant, hbuilt, bind, Except.bind]
    | fields declared =>
      cases hparts with
      | entries hrs hfinish =>
        obtain ⟨given, fields, hgiven, hfields, heq⟩ := readsParts_fields_iff.1 (.entries hrs hfinish)
        obtain ⟨rfl, hskipped⟩ := (Built.mk.injEq ..).mp heq
        simp only [hbase, hvariant, hgiven, bind, Except.bind, hfields, hskipped]
  | through hbase hbuilt =>
    unfold build
    split
    · rename_i name hname
      exact absurd hname (hbase name)
    · exact hbuilt

theorem build_tagged_eq_ok_iff {tag : String} {content : Tree} {shape : Shape} {b : Built Instance} :
    σ.build (.tagged tag content) shape = .ok b ↔ Reading σ (.tagged tag content) shape b :=
  ⟨reading_of_build_tagged, build_tagged_of_reading⟩

/-- A shape that is no choice, once it is there, looks through a tag. -/
theorem build_tagged_of_ne_choice {tag : String} {content : Tree} {shape : Shape} {b : Built Instance}
    (h : ∀ name, shape.base ≠ .choice name) :
    σ.build (.tagged tag content) shape = .ok b ↔ σ.build content shape.base = .ok b := by
  rw [build_tagged_eq_ok_iff]
  refine ⟨fun hb => ?_, fun hb => .through h hb⟩
  cases hb with
  | scalar hscalar => cases hscalar
  | parts _ hparts => cases hparts
  | bare hbase | one hbase | payload hbase => exact absurd hbase (h _)
  | through _ hcontent => exact hcontent

/-- **A build succeeds exactly if there is a reading.** -/
theorem build_eq_ok_iff {t : Tree} {shape : Shape} {b : Built Instance} :
    σ.build t shape = .ok b ↔ Reading σ t shape b := by
  cases t with
  | tagged tag content => exact build_tagged_eq_ok_iff
  | list ts =>
    rw [build_list_eq_ok_iff]
    refine ⟨fun h => ?_, fun h => ?_⟩
    · obtain ⟨reader, htakes, hparts⟩ := h
      exact .parts htakes hparts
    · cases h with
      | scalar hscalar => cases hscalar
      | parts htakes hparts => exact ⟨_, htakes, hparts⟩
  | map es =>
    rw [build_map_eq_ok_iff]
    refine ⟨fun h => ?_, fun h => ?_⟩
    · obtain ⟨reader, htakes, hparts⟩ := h
      exact .parts htakes hparts
    · cases h with
      | scalar hscalar => cases hscalar
      | parts htakes hparts => exact ⟨_, htakes, hparts⟩
  | null | flag | number | text =>
    refine ⟨fun h => ?_, fun h => ?_⟩
    · obtain ⟨x, skipped⟩ := b
      obtain rfl : skipped = [] := skipped_of_isScalar rfl h
      exact .scalar rfl h
    · cases h with
      | scalar _ hbuilt => exact hbuilt
      | parts _ hparts => cases hparts

end Schema

end Provisioning
