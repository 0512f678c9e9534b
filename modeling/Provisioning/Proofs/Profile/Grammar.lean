import Provisioning.Proofs.Decode.Admits
import Provisioning.Proofs.Profile.Instances
import Provisioning.Proofs.Profile.RoundTrip

/-!
# The grammar of profile documents

What the documents of a profile look like, told without a build: which nodes may stand under which key
(`Profile.Allows`), which entries go together (`Profile.Grammatical`), and what profile they say (`Profile.ofEntries`).
A node is read through its tags everywhere but in one place: only null without a tag says that there is no contact.

A setting admits a node as the shape of a field exactly if the grammar allows it there, and the entries of a record are
admitted one by one. So strict decoding accepts the documents of the grammar, and tolerant decoding those that become
such documents without the entries that no field takes.
-/

namespace Provisioning

namespace Tree

/-! ## Reading through tags -/

/-- The text that a node is. -/
def text? (t : Tree) : Option String :=
  match t.untagged with
  | .text s => some s
  | _ => none

/-- The text that a node is, or none if it is null without a tag. -/
def optionalText? : Tree → Option (Option String)
  | .null => some none
  | t => t.text?.map some

/-- The flag that a node is. -/
def flag? (t : Tree) : Option Bool :=
  match t.untagged with
  | .flag b => some b
  | _ => none

/-- The texts that the items of a list are; null has no items. -/
def texts? (t : Tree) : Option (List String) :=
  match t.untagged with
  | .null => some []
  | .list ts => ts.mapM text?
  | _ => none

/-- The entries of a map; null has none. -/
def entries? (t : Tree) : Option (List (Tree × Tree)) :=
  match t.untagged with
  | .null => some []
  | .map es => some es
  | _ => none

/-- The value of the first entry whose key is the given text. -/
def under? (name : String) (es : List (Tree × Tree)) : Option Tree :=
  (es.find? fun e => e.1.text? == some name).map (·.2)

theorem text?_eq_some {t : Tree} {s : String} : t.text? = some s ↔ t.untagged = .text s := by
  unfold text?
  split <;> simp_all

theorem under?_cons_of_eq {k v : Tree} {name : String} {es : List (Tree × Tree)} (h : k.text? = some name) :
    under? name ((k, v) :: es) = some v := by
  rw [under?, List.find?_cons_of_pos (by simp [h])]
  rfl

theorem under?_cons_of_ne {k v : Tree} {name : String} {es : List (Tree × Tree)} (h : k.text? ≠ some name) :
    under? name ((k, v) :: es) = under? name es := by
  rw [under?, List.find?_cons_of_neg (by simp [h])]
  rfl

end Tree

namespace Profile

/-! ## The grammar -/

/-- The names of the fields that hold a text. -/
def textNames : List String := ["label", "prefix", "primary_role", "secondary_role", "pool"]

/-- The names of the fields that hold a text or nothing. -/
def contactNames : List String := ["contact", "contact_notes"]

/-- The names of the fields that hold a flag. -/
def flagNames : List String := ["allow_suffix", "requires_primary_role", "requires_secondary_role", "requires_pool"]

/-- Which nodes may stand under the name of a field. -/
inductive Allows : String → Tree → Prop
  | text {name s : String} {v : Tree} : name ∈ textNames → v.text? = some s → Allows name v
  | contact {name : String} {s : Option String} {v : Tree} :
      name ∈ contactNames → v.optionalText? = some s → Allows name v
  | classes {names : List String} {v : Tree} : v.texts? = some names → Allows "allowed_classes" v
  | flag {name : String} {b : Bool} {v : Tree} : name ∈ flagNames → v.flag? = some b → Allows name v

/-- The entries of a profile document: each under the name of a field that allows its value, and each name once. -/
structure Grammatical (es : List (Tree × Tree)) : Prop where
  allowed : ∀ e ∈ es, ∃ name, e.1.text? = some name ∧ Allows name e.2
  nodup : (es.map (·.1.text?)).Nodup

/-- What a reading makes of the value under a name, or a fallback if there is none. -/
def said {α : Type} (es : List (Tree × Tree)) (read : Tree → Option α) (name : String) (fallback : α) : α :=
  ((Tree.under? name es).bind read).getD fallback

/-- The profile that entries say. What they leave out is as in the profile of no entries, and classes count at their
first place. -/
def ofEntries (es : List (Tree × Tree)) : Profile :=
  let unsaid : Profile := {}
  { label := said es Tree.text? "label" unsaid.label
    assetPrefix := said es Tree.text? "prefix" unsaid.assetPrefix
    primaryRole := said es Tree.text? "primary_role" unsaid.primaryRole
    secondaryRole := said es Tree.text? "secondary_role" unsaid.secondaryRole
    pool := said es Tree.text? "pool" unsaid.pool
    contact := said es Tree.optionalText? "contact" unsaid.contact
    contactNotes := said es Tree.optionalText? "contact_notes" unsaid.contactNotes
    allowedClasses := .ofList (said es Tree.texts? "allowed_classes" unsaid.allowedClasses.names)
    allowSuffix := said es Tree.flag? "allow_suffix" unsaid.allowSuffix
    requiresPrimaryRole := said es Tree.flag? "requires_primary_role" unsaid.requiresPrimaryRole
    requiresSecondaryRole := said es Tree.flag? "requires_secondary_role" unsaid.requiresSecondaryRole
    requiresPool := said es Tree.flag? "requires_pool" unsaid.requiresPool }

end Profile

/-- What each item is related to can be put in a list. -/
theorem exists_forall₂_of_forall {α β : Type} {r : α → β → Prop} {xs : List α} (h : ∀ x ∈ xs, ∃ y, r x y) :
    ∃ ys, List.Forall₂ r xs ys := by
  induction xs with
  | nil => exact ⟨[], .nil⟩
  | cons x xs ih =>
    obtain ⟨⟨y, hy⟩, hrest⟩ := List.forall_mem_cons.1 h
    obtain ⟨ys, hys⟩ := ih hrest
    exact ⟨y :: ys, .cons hy hys⟩

/-! ## What the fields admit -/

namespace Schema

variable {σ : Schema} {strict : Bool}

/-- A shape admits the nodes that a reading makes something of, each as the instance of what it makes. -/
def AdmitsAs {α : Type} (σ : Schema) (strict : Bool) (shape : Shape) (read : Tree → Option α)
    (make : α → Instance) : Prop :=
  ∀ v x, σ.Admits strict shape v x ↔ ∃ a, read v = some a ∧ x = make a

/-- A node that is neither built nor read is not admitted, which is as it should be. -/
theorem admits_iff_of_unread {α : Type} {shape : Shape} {read : Tree → Option α} {make : α → Instance} {v : Tree}
    {x : Instance} {reason : Mismatch} (hread : read v = none) (hbuild : σ.build v shape = .error reason) :
    σ.Admits strict shape v x ↔ ∃ a, read v = some a ∧ x = make a :=
  iff_of_false (not_admits_of_build hbuild) (by simp [hread])

/-- Of the nodes without a tag, only texts are built as texts. -/
theorem admitsAs_text : σ.AdmitsAs strict .text Tree.text? .text := by
  intro v x
  induction v using Tree.induct with
  | tagged tag content ih =>
    refine Iff.trans ?_ ih
    exact admits_tagged rfl nofun
  | text s =>
    rw [admits_of_build rfl]
    simp [Tree.text?, Tree.untagged]
  | number n => cases n <;> exact admits_iff_of_unread rfl rfl
  | null | flag | list | map => exact admits_iff_of_unread rfl rfl

/-- Nor are other nodes than flags built as flags. -/
theorem admitsAs_flag : σ.AdmitsAs strict .flag Tree.flag? .flag := by
  intro v x
  induction v using Tree.induct with
  | tagged tag content ih =>
    refine Iff.trans ?_ ih
    exact admits_tagged rfl nofun
  | flag b =>
    rw [admits_of_build rfl]
    simp [Tree.flag?, Tree.untagged]
  | number n => cases n <;> exact admits_iff_of_unread rfl rfl
  | null | text | list | map => exact admits_iff_of_unread rfl rfl

/-- Only null without a tag is built as an absent text. -/
theorem admitsAs_optionalText : σ.AdmitsAs strict (.optional .text) Tree.optionalText? Profile.optionalText := by
  intro v x
  by_cases hnull : v = .null
  · subst hnull
    rw [admits_of_build rfl]
    simp [Tree.optionalText?, Profile.optionalText]
  · have hbase : σ.build v (.optional .text) = σ.build v .text := (@build_base σ (.optional .text) v hnull).symm
    have hread : v.optionalText? = v.text?.map some := by
      cases v with
      | null => exact absurd rfl hnull
      | _ => rfl
    rw [Admits, hbase, hread]
    refine (admitsAs_text v x).trans ⟨fun ⟨s, hs, hx⟩ => ⟨some s, by rw [hs]; rfl, hx⟩, fun ⟨_, hsome, hx⟩ => ?_⟩
    obtain ⟨s, hs, rfl⟩ := Option.map_eq_some_iff.1 hsome
    exact ⟨s, hs, hx⟩

/-- Texts that are admitted one by one are the texts that the items are. -/
theorem admits_texts {ts : List Tree} {xs : List Instance} :
    List.Forall₂ (σ.Admits strict .text) ts xs ↔
      ∃ names, ts.mapM Tree.text? = some names ∧ xs = names.map .text := by
  induction ts generalizing xs with
  | nil => simp
  | cons t ts ih =>
    refine ⟨fun h => ?_, fun h => ?_⟩
    · cases h with
      | cons hx hxs =>
        obtain ⟨s, hs, rfl⟩ := (admitsAs_text _ _).1 hx
        obtain ⟨names, hnames, rfl⟩ := ih.1 hxs
        exact ⟨s :: names, by rw [List.mapM_cons, hs, hnames]; rfl, rfl⟩
    · obtain ⟨names, hnames, rfl⟩ := h
      rw [List.mapM_cons] at hnames
      obtain ⟨s, hs, hnames⟩ := Option.bind_eq_some_iff.1 hnames
      obtain ⟨rest, hrest, hnames⟩ := Option.bind_eq_some_iff.1 hnames
      obtain rfl := Option.some.inj hnames
      exact .cons ((admitsAs_text _ _).2 ⟨s, hs, rfl⟩) (ih.2 ⟨rest, hrest, rfl⟩)

/-- Null is built as no classes, and a list as the classes that it names. -/
theorem admitsAs_classes : σ.AdmitsAs strict (.distinct .text) Tree.texts?
    fun names => .list ((ClassList.ofList names).names.map .text) := by
  intro v x
  induction v using Tree.induct with
  | tagged tag content ih =>
    refine Iff.trans ?_ ih
    exact admits_tagged rfl nofun
  | null =>
    rw [admits_of_build rfl]
    simp [Tree.texts?, Tree.untagged]
    rfl
  | list ts =>
    have honce (names : List String) :
        firstOccurrences (names.map Instance.text) = (ClassList.ofList names).names.map Instance.text :=
      @firstOccurrences_map _ _ _ _ Instance.text (fun _ _ => rfl) names
    rw [admits_distinct_iff]
    refine ⟨fun h => ?_, fun h => ?_⟩
    · obtain ⟨xs, hxs, rfl⟩ := h
      obtain ⟨names, hnames, rfl⟩ := admits_texts.1 hxs
      exact ⟨names, hnames, by rw [honce]⟩
    · obtain ⟨names, hnames, rfl⟩ := h
      exact ⟨_, admits_texts.2 ⟨names, hnames, rfl⟩, by rw [honce]⟩
  | number n => cases n <;> exact admits_iff_of_unread rfl rfl
  | flag | text | map => exact admits_iff_of_unread rfl rfl

/-! ## Records -/

/-- Where every field has a fallback, a record is complete whatever is given. -/
theorem completeFields_of_fallbacks {given : List (String × Instance)} {declared : List Field}
    (h : ∀ f ∈ declared, f.elided = false ∧ f.fallback.isSome = true) :
    completeFields given declared =
      .ok (declared.map fun f => (f.name, (given.lookup f.name).getD (f.fallback.getD .absent))) := by
  induction declared with
  | nil => rfl
  | cons f fs ih =>
    obtain ⟨⟨hkept, hfallback⟩, hrest⟩ := List.forall_mem_cons.1 h
    obtain ⟨value, hvalue⟩ := Option.isSome_iff_exists.1 hfallback
    rw [completeFields, hkept, hvalue, ih hrest]
    cases hlookup : given.lookup f.name <;> simp [hlookup, hvalue] <;> rfl

/-- What is given under a name is what the entry under that name was admitted as. -/
def GivesUnder (σ : Schema) (strict : Bool) (es : List (Tree × Tree)) (given : List (String × Instance))
    (name : String) (shape : Shape) : Prop :=
  (Tree.under? name es = none ∧ given.lookup name = none) ∨
    ∃ v x, Tree.under? name es = some v ∧ given.lookup name = some x ∧ σ.Admits strict shape v x

/-- So what is given or else a fallback is what the entries say. -/
theorem GivesUnder.getD_eq {α : Type} {es : List (Tree × Tree)} {given : List (String × Instance)} {name : String}
    {shape : Shape} {read : Tree → Option α} {make : α → Instance} (h : σ.GivesUnder strict es given name shape)
    (hadmits : σ.AdmitsAs strict shape read make) (fallback : α) :
    (given.lookup name).getD (make fallback) = make (Profile.said es read name fallback) := by
  unfold Profile.said
  obtain ⟨hunder, hlookup⟩ | ⟨v, x, hunder, hlookup, hx⟩ := h
  · rw [hunder, hlookup]
    rfl
  · obtain ⟨a, ha, rfl⟩ := (hadmits v x).1 hx
    rw [hunder, hlookup, Option.bind_some, ha]
    rfl

theorem givesUnder_of_admitsEntries {wants : String → Option (String × Shape)} {es : List (Tree × Tree)}
    {gs : List (Option (String × Instance))} (h : List.Forall₂ (σ.AdmitsEntry strict wants) es gs)
    (hnames : ∀ key name shape, wants key = some (name, shape) → name = key) {name : String} {shape : Shape}
    (hwants : wants name = some (name, shape)) : σ.GivesUnder strict es gs.reduceOption name shape := by
  induction h with
  | nil => exact .inl ⟨rfl, rfl⟩
  | cons hentry _ ih =>
    cases hentry with
    | @wanted k v key given shape' x hkey hwants' hx =>
      obtain rfl := hnames _ _ _ hwants'
      rw [List.reduceOption_cons_of_some, GivesUnder]
      by_cases hsame : given = name
      · subst hsame
        obtain rfl := (Prod.mk.inj (Option.some.inj (hwants.symm.trans hwants'))).2
        refine .inr ⟨v, x, Tree.under?_cons_of_eq (Tree.text?_eq_some.2 hkey), ?_, hx⟩
        rw [List.lookup_cons_self]
      · have hne : k.text? ≠ some name := by
          rw [Tree.text?_eq_some.2 hkey]
          exact fun h => hsame (Option.some.inj h)
        rw [Tree.under?_cons_of_ne hne, List.lookup_cons, beq_false_of_ne (Ne.symm hsame)]
        exact ih
    | @unwanted k v key htolerant hkey hwants' =>
      have hne : k.text? ≠ some name := by
        rw [Tree.text?_eq_some.2 hkey]
        rintro ⟨⟩
        exact nomatch hwants.symm.trans hwants'
      rw [List.reduceOption_cons_of_none, GivesUnder, Tree.under?_cons_of_ne hne]
      exact ih

/-- Strictly, every entry gives something, and its key is the name. -/
theorem names_of_admitsEntries {wants : String → Option (String × Shape)} {es : List (Tree × Tree)}
    {gs : List (Option (String × Instance))} (h : List.Forall₂ (σ.AdmitsEntry true wants) es gs)
    (hnames : ∀ key name shape, wants key = some (name, shape) → name = key) :
    es.map (·.1.text?) = (gs.reduceOption.map (·.1)).map some := by
  induction h with
  | nil => rfl
  | cons hentry _ ih =>
    cases hentry with
    | wanted hkey hwants hx =>
      obtain rfl := hnames _ _ _ hwants
      rw [List.reduceOption_cons_of_some, List.map_cons, List.map_cons, List.map_cons, ih,
        Tree.text?_eq_some.2 hkey]
    | unwanted htolerant => cases htolerant

end Schema

/-! ## Profiles -/

namespace Profile

variable {others : Schema} {strict : Bool} {es : List (Tree × Tree)} {name : String} {v : Tree} {x : Instance}

theorem wantsField_of_mem :
    (∀ name ∈ textNames, wantsField fields name = some (name, .text)) ∧
    (∀ name ∈ contactNames, wantsField fields name = some (name, .optional .text)) ∧
    wantsField fields "allowed_classes" = some ("allowed_classes", .distinct .text) ∧
    ∀ name ∈ flagNames, wantsField fields name = some (name, .flag) := by
  decide

/-- No field goes by two names, and there are four sorts of fields. -/
theorem mem_of_wantsField {key name : String} {shape : Shape} (h : wantsField fields key = some (name, shape)) :
    name = key ∧ (name ∈ textNames ∧ shape = .text ∨ name ∈ contactNames ∧ shape = .optional .text ∨
      name = "allowed_classes" ∧ shape = .distinct .text ∨ name ∈ flagNames ∧ shape = .flag) := by
  have hfields : ∀ f ∈ fields, f.aliases = [] ∧ (f.name ∈ textNames ∧ f.shape = .text ∨
      f.name ∈ contactNames ∧ f.shape = .optional .text ∨
      f.name = "allowed_classes" ∧ f.shape = .distinct .text ∨ f.name ∈ flagNames ∧ f.shape = .flag) := by
    decide
  obtain ⟨f, hf, heq⟩ := Option.map_eq_some_iff.1 h
  obtain ⟨rfl, rfl⟩ := Prod.mk.inj heq
  obtain ⟨haliases, hsort⟩ := hfields f (List.mem_of_find?_eq_some hf)
  refine ⟨?_, hsort⟩
  simpa [Field.isGivenBy, haliases] using List.find?_some hf

/-- **The grammar allows what fields admit.** -/
theorem allows_iff {σ : Schema} : Allows name v ↔
    ∃ shape x, wantsField fields name = some (name, shape) ∧ σ.Admits strict shape v x := by
  obtain ⟨htexts, hcontacts, hclasses, hflags⟩ := wantsField_of_mem
  refine ⟨fun h => ?_, fun ⟨shape, x, hwants, hx⟩ => ?_⟩
  · cases h with
    | text hname hs => exact ⟨_, _, htexts _ hname, (Schema.admitsAs_text _ _).2 ⟨_, hs, rfl⟩⟩
    | contact hname hs => exact ⟨_, _, hcontacts _ hname, (Schema.admitsAs_optionalText _ _).2 ⟨_, hs, rfl⟩⟩
    | classes hs => exact ⟨_, _, hclasses, (Schema.admitsAs_classes _ _).2 ⟨_, hs, rfl⟩⟩
    | flag hname hb => exact ⟨_, _, hflags _ hname, (Schema.admitsAs_flag _ _).2 ⟨_, hb, rfl⟩⟩
  · obtain ⟨hname, rfl⟩ | ⟨hname, rfl⟩ | ⟨rfl, rfl⟩ | ⟨hname, rfl⟩ := (mem_of_wantsField hwants).2
    · obtain ⟨s, hs, -⟩ := (Schema.admitsAs_text _ _).1 hx
      exact .text hname hs
    · obtain ⟨s, hs, -⟩ := (Schema.admitsAs_optionalText _ _).1 hx
      exact .contact hname hs
    · obtain ⟨names, hs, -⟩ := (Schema.admitsAs_classes _ _).1 hx
      exact .classes hs
    · obtain ⟨b, hb, -⟩ := (Schema.admitsAs_flag _ _).1 hx
      exact .flag hname hb

/-- **What is given, with the fallbacks for what is not, is the profile that the entries say.** -/
theorem toInstance_ofEntries {σ : Schema} {given : List (String × Instance)}
    (h : ∀ name shape, wantsField fields name = some (name, shape) → σ.GivesUnder strict es given name shape) :
    .record (fields.map fun f => (f.name, (given.lookup f.name).getD (f.fallback.getD .absent))) =
      (ofEntries es).toInstance := by
  obtain ⟨htexts, hcontacts, hclasses, hflags⟩ := wantsField_of_mem
  have htext : ∀ name ∈ textNames, ∀ s, (given.lookup name).getD (.text s) = .text (said es Tree.text? name s) :=
    fun name hname => (h name _ (htexts name hname)).getD_eq Schema.admitsAs_text
  have hcontact : ∀ name ∈ contactNames, (given.lookup name).getD .absent =
      optionalText (said es Tree.optionalText? name none) :=
    fun name hname => (h name _ (hcontacts name hname)).getD_eq Schema.admitsAs_optionalText none
  have hclass : (given.lookup "allowed_classes").getD (.list []) = .list _ :=
    (h _ _ hclasses).getD_eq Schema.admitsAs_classes []
  have hflag : ∀ name ∈ flagNames, ∀ b, (given.lookup name).getD (.flag b) = .flag (said es Tree.flag? name b) :=
    fun name hname => (h name _ (hflags name hname)).getD_eq Schema.admitsAs_flag
  simp only [fields, List.map_cons, List.map_nil, Option.getD_some]
  rw [htext "label" (by decide), htext "prefix" (by decide), htext "primary_role" (by decide),
    htext "secondary_role" (by decide), htext "pool" (by decide), hcontact "contact" (by decide),
    hcontact "contact_notes" (by decide), hclass, hflag "allow_suffix" (by decide),
    hflag "requires_primary_role" (by decide), hflag "requires_secondary_role" (by decide),
    hflag "requires_pool" (by decide)]
  rfl

/-! ### Grammatical entries -/

theorem finish_fields {given : List (String × Instance)} : (MapReader.fields fields).finish given = some x ↔
    (given.map (·.1)).Nodup ∧
      x = .record (fields.map fun f => (f.name, (given.lookup f.name).getD (f.fallback.getD .absent))) := by
  have hfields : ∀ f ∈ fields, f.elided = false ∧ f.fallback.isSome = true := by decide
  rw [MapReader.finish, Schema.completeFields_of_fallbacks hfields]
  split
  · rename_i hnodup
    rw [and_iff_right hnodup, eq_comm]
    exact Option.some_inj
  · rename_i hnodup
    exact iff_of_false (Option.some_ne_none x).symm fun h => hnodup h.1

/-- **Strictly, entries are admitted as a profile exactly if they are grammatical, and then as the profile that they
say.** -/
theorem admits_map_iff_grammatical : (Schema.withProfiles others).Admits true (.record "Profile") (.map es) x ↔
    Grammatical es ∧ x = (ofEntries es).toInstance := by
  have hnames : ∀ key name shape, wantsField fields key = some (name, shape) → name = key := fun key name shape h =>
    (mem_of_wantsField h).1
  have htakes : (Schema.withProfiles others).Takes (Shape.base (.record "Profile")) (.entries (.fields fields)) :=
    .record "Profile"
  rw [Schema.admits_map_iff htakes]
  -- whatever the entries give, their names and what is made of it is known
  have hmakes {gs : List (Option (String × Instance))}
      (hgs : List.Forall₂ ((Schema.withProfiles others).AdmitsEntry true (wantsField fields)) es gs) :
      (MapReader.fields fields).finish gs.reduceOption = some x ↔
        (es.map (·.1.text?)).Nodup ∧ x = (ofEntries es).toInstance := by
    rw [finish_fields, Schema.names_of_admitsEntries hgs hnames, List.nodup_map_iff (Option.some_injective _),
      toInstance_ofEntries fun name shape hwants => Schema.givesUnder_of_admitsEntries hgs hnames hwants]
  refine ⟨fun h => ?_, fun h => ?_⟩
  · obtain ⟨gs, hgs, hfinish⟩ := h
    obtain ⟨hnodup, rfl⟩ := (hmakes hgs).1 hfinish
    refine ⟨⟨fun e he => ?_, hnodup⟩, rfl⟩
    obtain ⟨g, -, hg⟩ := (forall₂_partners hgs).1 e he
    cases hg with
    | wanted hkey hwants hx =>
      obtain rfl := hnames _ _ _ hwants
      exact ⟨_, Tree.text?_eq_some.2 hkey, allows_iff.2 ⟨_, _, hwants, hx⟩⟩
    | unwanted htolerant => cases htolerant
  · obtain ⟨hgrammatical, rfl⟩ := h
    obtain ⟨gs, hgs⟩ : ∃ gs, List.Forall₂
        ((Schema.withProfiles others).AdmitsEntry true (wantsField fields)) es gs := by
      refine exists_forall₂_of_forall fun e he => ?_
      obtain ⟨name, hkey, hallows⟩ := hgrammatical.allowed e he
      obtain ⟨shape, x, hwants, hx⟩ := allows_iff.1 hallows
      exact ⟨_, .wanted (Tree.text?_eq_some.1 hkey) hwants hx⟩
    exact ⟨gs, hgs, (hmakes hgs).2 ⟨hgrammatical.nodup, rfl⟩⟩

/-! ### Documents -/

theorem admits_iff_grammatical {document : Tree} :
    (Schema.withProfiles others).Admits true (.record "Profile") document x ↔
      ∃ es, document.entries? = some es ∧ Grammatical es ∧ x = (ofEntries es).toInstance := by
  induction document using Tree.induct with
  | tagged tag content ih =>
    refine Iff.trans ?_ ih
    exact Schema.admits_tagged rfl nofun
  | map es =>
    have hentries : (Tree.map es).entries? = some es := rfl
    simp [admits_map_iff_grammatical, hentries]
  | null =>
    have hentries : Tree.null.entries? = some [] := rfl
    have hgrammatical : Grammatical [] := ⟨nofun, List.nodup_nil⟩
    rw [Schema.admits_of_build rfl]
    simp only [hentries, Option.some.injEq, exists_eq_left', hgrammatical, true_and]
    rfl
  | number n => cases n <;> exact iff_of_false (Schema.not_admits_of_build rfl) nofun
  | flag | text | list => exact iff_of_false (Schema.not_admits_of_build rfl) nofun

/-- Whether the key of an entry is a text that names no field. -/
def isOther (e : Tree × Tree) : Bool :=
  match e.1.text? with
  | some name => !(textNames ++ contactNames ++ flagNames ++ ["allowed_classes"]).contains name
  | none => false

/-- A document without the entries under texts that name no field. -/
def withoutOthers : Tree → Tree :=
  Tree.belowTags fun
    | .map es => .map (es.filter fun e => !isOther e)
    | t => t

theorem sheds_withoutOthers (document : Tree) : Tree.Sheds document (withoutOthers document) := by
  refine Tree.Sheds.belowTags (fun t => ?_) document
  cases t with
  | map es => exact .entries List.filter_sublist.subperm
  | _ => exact .refl _

theorem wantsField_of_isOther {e : Tree × Tree} (h : isOther e = true) :
    ∃ key, e.1.untagged = .text key ∧ wantsField fields key = none := by
  unfold isOther at h
  split at h
  · rename_i key hkey
    refine ⟨key, Tree.text?_eq_some.1 hkey, Option.eq_none_iff_forall_ne_some.2 fun ⟨name, shape⟩ hwants => ?_⟩
    obtain ⟨rfl, hsort⟩ := mem_of_wantsField hwants
    have hname : name ∉ textNames ++ contactNames ++ flagNames ++ ["allowed_classes"] := by simpa using h
    simp only [List.mem_append, List.mem_singleton] at hname
    tauto
  · cases h

/-- What such entries add is tolerated. -/
theorem admits_of_withoutOthers {document : Tree}
    (h : (Schema.withProfiles others).Admits false (.record "Profile") (withoutOthers document) x) :
    (Schema.withProfiles others).Admits false (.record "Profile") document x := by
  induction document using Tree.induct with
  | tagged tag content ih =>
    have hthrough (t : Tree) : (Schema.withProfiles others).Admits false (.record "Profile") (.tagged tag t) x ↔
        (Schema.withProfiles others).Admits false (.record "Profile") t x := Schema.admits_tagged rfl nofun
    exact (hthrough content).2 (ih ((hthrough _).1 h))
  | map es =>
    refine Schema.admits_of_filter (.record "Profile") rfl (fun e _ he => ?_) h
    exact wantsField_of_isOther (by simpa using he)
  | _ => exact h

end Profile

namespace Decoder

/-- **The grammar of profile documents.** A document without type tags and core tags, within the limit, decodes strictly
exactly if its root is null or a map of grammatical entries, and then to the profile that these say. If it is such a
document without the entries under texts that name no field, it decodes tolerantly, with them as without them, to the
profile that the others say. -/
theorem decode_profile_iff_grammatical (others : Schema) (context : Context) (limit : Nat) (document : Tree)
    (htags : document.OnlyVariantTags) (hkeys : document.DistinctKeys) (hdepth : document.depth ≤ limit) :
    let strict := decode ⟨.type Profile.decl, context, ⟨true, limit⟩⟩ (.withProfiles others)
    let tolerant := decode ⟨.type Profile.decl, context, ⟨false, limit⟩⟩ (.withProfiles others)
    let pruned := Profile.withoutOthers document
    (∀ r, (strict document).outcome = .ok r ↔ ∃ es, document.entries? = some es ∧ Profile.Grammatical es ∧
      r = .built (Profile.ofEntries es).toInstance) ∧
    ∀ es, pruned.entries? = some es → Profile.Grammatical es →
      (tolerant document).outcome = .ok (.built (Profile.ofEntries es).toInstance) ∧
      (tolerant pruned).outcome = .ok (.built (Profile.ofEntries es).toInstance) := by
  intro strict tolerant pruned
  refine ⟨fun r => ?_, fun es hes hgrammatical => ?_⟩
  · rw [decode_eq_ok_iff_admits htags hkeys hdepth (.inl rfl)]
    refine ⟨fun h => ?_, fun h => ?_⟩
    · obtain ⟨x, hx, rfl⟩ := h
      obtain ⟨es, hes, hgrammatical, rfl⟩ := Profile.admits_iff_grammatical.1 hx
      exact ⟨es, hes, hgrammatical, rfl⟩
    · obtain ⟨es, hes, hgrammatical, rfl⟩ := h
      exact ⟨_, Profile.admits_iff_grammatical.2 ⟨es, hes, hgrammatical, rfl⟩, rfl⟩
  · have hadmits : (Schema.withProfiles others).Admits false (.record "Profile") pruned
        (Profile.ofEntries es).toInstance :=
      (Profile.admits_iff_grammatical.2 ⟨es, hes, hgrammatical, rfl⟩).relax
    have hkeeps := (Profile.sheds_withoutOthers document).keeps
    refine ⟨decode_of_admits htags hkeys hdepth (Profile.admits_of_withoutOthers hadmits), ?_⟩
    exact decode_of_admits (hkeeps.onlyVariantTags htags) (hkeeps.distinctKeys hkeys)
      (Nat.le_trans hkeeps.depth_le hdepth) hadmits

/-- The entries of a profile with tags on a key and a class, one class named twice, and a contact that is null. -/
def webEntries : List (Tree × Tree) := [
  (.tagged "key" (.text "label"), .text "web"), (.text "contact", .null),
  (.text "allowed_classes", .list [.text "SERVER", .tagged "class" (.text "BLADE"), .text "SERVER"])]

/-- A tagged profile document with these entries behind one that no field takes. -/
def rackedWeb : Tree :=
  .tagged "profile" (.map ((.text "rack", .list [.map [(.null, .null)]]) :: webEntries))

/-- Without the entry, the document is a profile strictly and tolerantly; with it, tolerantly. -/
theorem decode_profile_iff_grammatical_rackedWeb :
    let web : Profile := { label := "web", allowedClasses := .ofList ["SERVER", "BLADE"] }
    let strict := decode ⟨.type Profile.decl, .nothing, ⟨true, 4⟩⟩ .profiles
    let tolerant := decode ⟨.type Profile.decl, .nothing, ⟨false, 4⟩⟩ .profiles
    let pruned := Profile.withoutOthers rackedWeb
    (strict pruned).outcome = .ok (.built web.toInstance) ∧ (tolerant pruned).outcome = .ok (.built web.toInstance) ∧
      (tolerant rackedWeb).outcome = .ok (.built web.toInstance) := by
  intro web strict tolerant pruned
  have hgrammatical : Profile.Grammatical webEntries := by
    refine ⟨?_, by decide⟩
    simp only [webEntries, List.forall_mem_cons]
    exact ⟨⟨"label", rfl, .text (by decide) rfl⟩, ⟨"contact", rfl, .contact (by decide) rfl⟩,
      ⟨"allowed_classes", rfl, .classes rfl⟩, nofun⟩
  obtain ⟨-, hwhole⟩ := decode_profile_iff_grammatical ⟨fun _ => [], fun _ => []⟩ .nothing 4 rackedWeb
    (by decide) (by decide) (by decide)
  obtain ⟨hstrict, -⟩ := decode_profile_iff_grammatical ⟨fun _ => [], fun _ => []⟩ .nothing 4 pruned
    (by decide) (by decide) (by decide)
  exact ⟨(hstrict _).2 ⟨webEntries, rfl, hgrammatical, rfl⟩, (hwhole webEntries rfl hgrammatical).2,
    (hwhole webEntries rfl hgrammatical).1⟩

end Decoder

end Provisioning
