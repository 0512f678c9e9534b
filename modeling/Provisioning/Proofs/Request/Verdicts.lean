import Provisioning.Request.Verify

/-!
# What a verdict on a request says

A request is judged by its own fields and those of its profile, in which an empty text says nothing (`Says`).
`Admissible` are the rules that it has to keep, and `Breaks` are the ways to break one. A request is accepted exactly if
it is admissible, with the values that `Merges` tells, and it is rejected with every rule that it breaks, each once and
in order.
-/

namespace Provisioning

/-! ## Rules -/

/-- A text that may be absent says something: it is there and not empty. -/
def Says (text? : Option String) (value : String) : Prop := text? = some value ∧ value ≠ ""

/-- It says one thing only. -/
theorem Says.eq {text? : Option String} {v w : String} (h : Says text? v) (h' : Says text? w) : v = w :=
  Option.some.inj (h.1.symm.trans h'.1)

namespace Request

/-- What a request says about an attribute, which may be nothing. -/
def field (r : Request) : Attribute → Option String
  | .pool => r.pool?
  | .secondaryRole => r.secondaryRole?
  | .primaryRole => r.primaryRole?

/-- The request supplies a value for an attribute. -/
def Asks (r : Request) (a : Attribute) (value : String) : Prop := Says (r.field a) value

end Request

namespace Profile

/-- What a profile says about an attribute, which may be nothing. -/
def field (p : Profile) : Attribute → String
  | .pool => p.pool
  | .secondaryRole => p.secondaryRole
  | .primaryRole => p.primaryRole

/-- The profile supplies a value for an attribute. -/
def Fixes (p : Profile) (a : Attribute) (value : String) : Prop := Says (some (p.field a)) value

end Profile

/-- The ways to break the rules of a profile. -/
inductive Breaks (p : Profile) (r : Request) : Violation → Prop
  /-- There is a suffix where none may be. -/
  | suffix {suffix : String} : Says r.suffix? suffix → p.allowSuffix = false → Breaks p r .suffixNotAllowed
  /-- Both sides supply an attribute. -/
  | notConfigurable {a : Attribute} {asked fixed : String} : r.Asks a asked → p.Fixes a fixed →
      Breaks p r (.notConfigurable a)
  /-- Neither side supplies an attribute that is required. -/
  | required {a : Attribute} : p.requires a = true → (¬∃ asked, r.Asks a asked) → (¬∃ fixed, p.Fixes a fixed) →
      Breaks p r (.required a)
  /-- The class is not among those that are listed, and some are. -/
  | classNotAllowed {name : String} : Says r.assetClass? name → p.allowedClasses.names ≠ [] →
      name ∉ p.allowedClasses.names → Breaks p r (.classNotAllowed name)

/-- The rules of a profile for requests. -/
structure Admissible (p : Profile) (r : Request) : Prop where
  /-- There is no suffix unless the profile allows one. -/
  suffix : (¬∃ suffix, Says r.suffix? suffix) ∨ p.allowSuffix = true
  /-- There is no class, or no classes are listed, or it is one of them. -/
  assetClass : (¬∃ name, Says r.assetClass? name) ∨ p.allowedClasses.names = [] ∨
    ∃ name ∈ p.allowedClasses.names, Says r.assetClass? name
  /-- No attribute is supplied by both sides. -/
  oneSide : ∀ a, ¬((∃ asked, r.Asks a asked) ∧ ∃ fixed, p.Fixes a fixed)
  /-- An attribute that is required is supplied by a side. -/
  someSide : ∀ a, p.requires a = true → (∃ asked, r.Asks a asked) ∨ ∃ fixed, p.Fixes a fixed

/-- What an accepted asset gets: what the profile fixes, or else what the request asks for. -/
structure Merges (p : Profile) (r : Request) (e : Effective) : Prop where
  /-- A value that the profile fixes. -/
  fixed : ∀ a value, p.Fixes a value → e.get a = some value
  /-- A value that is left to the request. -/
  asked : ∀ a value, (¬∃ fixed, p.Fixes a fixed) → r.Asks a value → e.get a = some value
  /-- An attribute that neither side supplies. -/
  absent : ∀ a, (¬∃ fixed, p.Fixes a fixed) → (¬∃ asked, r.Asks a asked) → e.get a = none
  /-- The suffix is that of the request. -/
  suffix : ∀ suffix, e.suffix = some suffix ↔ Says r.suffix? suffix
  /-- What is required is there and says something. -/
  required : ∀ a, p.requires a = true → ∃ value, e.get a = some value ∧ value ≠ ""

/-- The place of a violation in the order of the checks: suffix, pool, secondary role, primary role, class. -/
def Violation.rank : Violation → Nat
  | .suffixNotAllowed => 0
  | .notConfigurable a | .required a =>
    match a with
    | .pool => 1
    | .secondaryRole => 2
    | .primaryRole => 3
  | .classNotAllowed _ => 4

/-! ## What the accessors tell -/

theorem nonEmpty?_eq_some_iff {s value : String} : nonEmpty? s = some value ↔ Says (some s) value := by
  unfold nonEmpty? Says
  by_cases hs : s = ""
  · rw [if_pos hs, hs]
    refine ⟨nofun, fun h => ?_⟩
    exact absurd (Option.some.inj h.1).symm h.2
  · rw [if_neg hs]
    refine ⟨fun h => ⟨h, ?_⟩, fun h => h.1⟩
    exact Option.some.inj h ▸ hs

theorem bind_nonEmpty?_eq_some_iff {text? : Option String} {value : String} :
    text?.bind nonEmpty? = some value ↔ Says text? value := by
  cases text? with
  | none => exact ⟨nofun, fun h => nomatch h.1⟩
  | some s => exact nonEmpty?_eq_some_iff

theorem Request.specified_eq_some_iff {r : Request} {a : Attribute} {value : String} :
    r.specified a = some value ↔ r.Asks a value := by
  cases a <;> exact bind_nonEmpty?_eq_some_iff

theorem Profile.provides_eq_some_iff {p : Profile} {a : Attribute} {value : String} :
    p.provides a = some value ↔ p.Fixes a value := by
  cases a <;> exact nonEmpty?_eq_some_iff

/-- An accessor that gives nothing, read off the values that it gives. -/
theorem eq_none_iff_of_some {text? : Option String} {given : String → Prop}
    (h : ∀ {value}, text? = some value ↔ given value) : text? = none ↔ ¬∃ value, given value := by
  refine ⟨fun hnone hgiven => ?_, fun hno => ?_⟩
  · obtain ⟨value, hvalue⟩ := hgiven
    rw [h.2 hvalue] at hnone
    cases hnone
  · cases htext : text? with
    | none => rfl
    | some value => exact absurd ⟨value, h.1 htext⟩ hno

variable {p : Profile} {r : Request} {a : Attribute} {v : Violation} {e : Effective} {rejection : Rejection}

/-! ## One rule -/

theorem suffixViolation?_eq_some_iff :
    suffixViolation? p r = some v ↔ v = .suffixNotAllowed ∧ Breaks p r v := by
  unfold suffixViolation?
  refine ⟨fun h => ?_, fun h => ?_⟩
  · split at h
    · rename_i hbroken
      obtain rfl := Option.some.inj h
      rw [Bool.and_eq_true, Bool.not_eq_true'] at hbroken
      obtain ⟨suffix, hsuffix⟩ := Option.isSome_iff_exists.1 hbroken.1
      exact ⟨rfl, .suffix (bind_nonEmpty?_eq_some_iff.1 hsuffix) hbroken.2⟩
    · cases h
  · obtain ⟨rfl, hbreaks⟩ := h
    cases hbreaks with
    | suffix hsays hallow =>
      have hsuffix : r.suffix = some _ := bind_nonEmpty?_eq_some_iff.2 hsays
      rw [hsuffix, hallow]
      rfl

/-- What becomes of an attribute, by who supplies it. -/
inductive Settles (p : Profile) (r : Request) (a : Attribute) : Except Violation (Option String) → Prop
  | both {asked fixed : String} : r.Asks a asked → p.Fixes a fixed → Settles p r a (.error (.notConfigurable a))
  | asked {value : String} : r.Asks a value → (¬∃ fixed, p.Fixes a fixed) → Settles p r a (.ok (some value))
  | fixed {value : String} : (¬∃ asked, r.Asks a asked) → p.Fixes a value → Settles p r a (.ok (some value))
  | missing : p.requires a = true → (¬∃ asked, r.Asks a asked) → (¬∃ fixed, p.Fixes a fixed) →
      Settles p r a (.error (.required a))
  | absent : p.requires a = false → (¬∃ asked, r.Asks a asked) → (¬∃ fixed, p.Fixes a fixed) →
      Settles p r a (.ok none)

theorem settle_settles (p : Profile) (r : Request) (a : Attribute) : Settles p r a (settle p r a) := by
  have hunasked : r.specified a = none ↔ ¬∃ asked, r.Asks a asked :=
    eq_none_iff_of_some Request.specified_eq_some_iff
  have hunfixed : p.provides a = none ↔ ¬∃ fixed, p.Fixes a fixed :=
    eq_none_iff_of_some Profile.provides_eq_some_iff
  unfold settle
  split
  · rename_i hasked hfixed
    exact .both (Request.specified_eq_some_iff.1 hasked) (Profile.provides_eq_some_iff.1 hfixed)
  · rename_i hasked hfixed
    exact .asked (Request.specified_eq_some_iff.1 hasked) (hunfixed.1 hfixed)
  · rename_i hasked hfixed
    by_cases hrequires : p.requires a = true
    · rw [if_pos hrequires]
      exact .missing hrequires (hunasked.1 hasked) (hunfixed.1 hfixed)
    · rw [if_neg hrequires]
      exact .absent (Bool.eq_false_iff.2 hrequires) (hunasked.1 hasked) (hunfixed.1 hfixed)
  · -- the profile fixes something, or the case before would have matched
    rename_i hasked hsome
    cases hfixed : p.provides a with
    | none => exact absurd hfixed hsome
    | some value => exact .fixed (hunasked.1 hasked) (Profile.provides_eq_some_iff.1 hfixed)

/-- The two rules about an attribute cannot both be broken. -/
theorem Breaks.not_required (h : Breaks p r (.notConfigurable a)) : ¬Breaks p r (.required a) := by
  intro hrequired
  cases h with
  | notConfigurable hasks _ =>
    cases hrequired with
    | required _ hno _ => exact hno ⟨_, hasks⟩

theorem Settles.not_breaks {value : Option String} (h : Settles p r a (.ok value)) :
    ¬Breaks p r (.notConfigurable a) ∧ ¬Breaks p r (.required a) := by
  refine ⟨fun hbroken => ?_, fun hbroken => ?_⟩
  · cases hbroken with
    | notConfigurable hasks hfixes =>
      cases h with
      | asked _ hno => exact hno ⟨_, hfixes⟩
      | fixed hno _ => exact hno ⟨_, hasks⟩
      | absent _ hno _ => exact hno ⟨_, hasks⟩
  · cases hbroken with
    | required hrequires hunasked hunfixed =>
      cases h with
      | asked hasks _ => exact hunasked ⟨_, hasks⟩
      | fixed _ hfixes => exact hunfixed ⟨_, hfixes⟩
      | absent hfree _ _ =>
        rw [hrequires] at hfree
        cases hfree

theorem attributeViolation?_eq_some_iff :
    attributeViolation? p r a = some v ↔ (v = .notConfigurable a ∨ v = .required a) ∧ Breaks p r v := by
  unfold attributeViolation?
  -- what the attribute settles to decides which rule is broken, if any
  have hsettles := settle_settles p r a
  generalize settle p r a = settled at hsettles
  cases settled with
  | ok value =>
    refine ⟨nofun, fun h => ?_⟩
    rcases h with ⟨rfl | rfl, hbroken⟩
    · exact absurd hbroken hsettles.not_breaks.1
    · exact absurd hbroken hsettles.not_breaks.2
  | error w =>
    refine ⟨fun h => ?_, fun h => ?_⟩
    · obtain rfl := Option.some.inj h
      cases hsettles with
      | both hasks hfixes => exact ⟨.inl rfl, .notConfigurable hasks hfixes⟩
      | missing hrequires hunasked hunfixed => exact ⟨.inr rfl, .required hrequires hunasked hunfixed⟩
    · rcases h with ⟨rfl | rfl, hbroken⟩
      · cases hsettles with
        | both => rfl
        | missing hrequires hunasked hunfixed =>
          exact absurd (.required hrequires hunasked hunfixed) hbroken.not_required
      · cases hsettles with
        | both hasks hfixes => exact absurd hbroken (Breaks.notConfigurable hasks hfixes).not_required
        | missing => rfl

theorem permitsClass_iff {name : String} :
    p.permitsClass name = true ↔ p.allowedClasses.names = [] ∨ name ∈ p.allowedClasses.names := by
  unfold Profile.permitsClass ClassList.permits ClassList.isUnrestricted ClassList.contains
  rw [Bool.or_eq_true, List.isEmpty_iff, List.contains_iff_mem]

theorem classViolation?_eq_some_iff :
    classViolation? p r = some v ↔ (∃ name, v = .classNotAllowed name) ∧ Breaks p r v := by
  unfold classViolation?
  refine ⟨fun h => ?_, fun h => ?_⟩
  · cases hclass : r.assetClass with
    | none =>
      rw [hclass] at h
      cases h
    | some name =>
      rw [hclass] at h
      dsimp only at h
      split at h
      · cases h
      · rename_i hpermits
        obtain rfl := Option.some.inj h
        rw [permitsClass_iff, not_or] at hpermits
        exact ⟨⟨name, rfl⟩, .classNotAllowed (bind_nonEmpty?_eq_some_iff.1 hclass) hpermits.1 hpermits.2⟩
  · obtain ⟨⟨name, rfl⟩, hbreaks⟩ := h
    cases hbreaks with
    | classNotAllowed hsays hlisted hmem =>
      have hclass : r.assetClass = some name := bind_nonEmpty?_eq_some_iff.2 hsays
      have hpermits : ¬p.permitsClass name = true := by
        rw [permitsClass_iff, not_or]
        exact ⟨hlisted, hmem⟩
      rw [hclass]
      exact if_neg hpermits

/-! ## All rules -/

/-- **Every rule that is broken, and no other.** -/
theorem mem_violations_iff : v ∈ violations p r ↔ Breaks p r v := by
  unfold violations
  rw [List.mem_append, List.mem_append, Option.mem_toList, Option.mem_toList, List.mem_filterMap]
  refine ⟨fun h => ?_, fun h => ?_⟩
  · rcases h with (hsuffix | ⟨a, -, ha⟩) | hclass
    · exact (suffixViolation?_eq_some_iff.1 hsuffix).2
    · exact (attributeViolation?_eq_some_iff.1 ha).2
    · exact (classViolation?_eq_some_iff.1 hclass).2
  · have hall : ∀ a : Attribute, a ∈ Attribute.all := fun a => by cases a <;> decide
    cases v with
    | suffixNotAllowed => exact .inl (.inl (suffixViolation?_eq_some_iff.2 ⟨rfl, h⟩))
    | notConfigurable a => exact .inl (.inr ⟨a, hall a, attributeViolation?_eq_some_iff.2 ⟨.inl rfl, h⟩⟩)
    | required a => exact .inl (.inr ⟨a, hall a, attributeViolation?_eq_some_iff.2 ⟨.inr rfl, h⟩⟩)
    | classNotAllowed name => exact .inr (classViolation?_eq_some_iff.2 ⟨⟨name, rfl⟩, h⟩)

/-- Either rule about an attribute has the place of the attribute. -/
theorem rank_of_attributeViolation? (h : attributeViolation? p r a = some v) :
    v.rank = (Violation.required a).rank := by
  rcases (attributeViolation?_eq_some_iff.1 h).1 with rfl | rfl
  · rfl
  · rfl

/-- **In the order of the checks**, and so each once. -/
theorem pairwise_violations (p : Profile) (r : Request) : (violations p r).Pairwise fun v w => v.rank < w.rank := by
  have hattributes : (Attribute.all.filterMap (attributeViolation? p r)).Pairwise fun v w => v.rank < w.rank := by
    have hall : Attribute.all.Pairwise fun a b => (Violation.required a).rank < (Violation.required b).rank := by decide
    refine hall.filterMap _ fun a b hab v hv w hw => ?_
    rw [rank_of_attributeViolation? hv, rank_of_attributeViolation? hw]
    exact hab
  have hbetween : ∀ v ∈ Attribute.all.filterMap (attributeViolation? p r), 0 < v.rank ∧ v.rank < 4 := by
    intro v hv
    obtain ⟨a, -, ha⟩ := List.mem_filterMap.1 hv
    rw [rank_of_attributeViolation? ha]
    cases a <;> decide
  have hfirst : ∀ v ∈ (suffixViolation? p r).toList, v.rank = 0 := by
    intro v hv
    obtain ⟨rfl, -⟩ := suffixViolation?_eq_some_iff.1 (Option.mem_toList.1 hv)
    rfl
  have hlast : ∀ v ∈ (classViolation? p r).toList, v.rank = 4 := by
    intro v hv
    obtain ⟨⟨name, rfl⟩, -⟩ := classViolation?_eq_some_iff.1 (Option.mem_toList.1 hv)
    rfl
  have hsingle : ∀ o : Option Violation, o.toList.Pairwise fun v w => v.rank < w.rank := by
    intro o
    cases o with
    | none => exact .nil
    | some v => exact List.pairwise_singleton _ v
  unfold violations
  refine List.pairwise_append.2 ⟨List.pairwise_append.2 ⟨hsingle _, hattributes, ?_⟩, hsingle _, ?_⟩
  · intro v hv w hw
    rw [hfirst v hv]
    exact (hbetween w hw).1
  · intro v hv w hw
    rw [hlast w hw]
    rcases List.mem_append.1 hv with hv | hv
    · rw [hfirst v hv]
      decide
    · exact (hbetween v hv).2

theorem nodup_violations (p : Profile) (r : Request) : (violations p r).Nodup := by
  refine (pairwise_violations p r).imp fun hlt heq => ?_
  rw [heq] at hlt
  exact Nat.lt_irrefl _ hlt

/-! ## The verdict -/

/-- A rule that is not kept is broken in one of the ways there are. -/
theorem admissible_of_not_breaks (h : ∀ v, ¬Breaks p r v) : Admissible p r where
  suffix := by
    by_cases hallow : p.allowSuffix = true
    · exact .inr hallow
    · refine .inl fun hsays => ?_
      obtain ⟨suffix, hsays⟩ := hsays
      exact h _ (.suffix hsays (Bool.eq_false_iff.2 hallow))
  assetClass := by
    by_cases hclass : ∃ name, Says r.assetClass? name
    · obtain ⟨name, hsays⟩ := hclass
      refine .inr ?_
      by_cases hlisted : p.allowedClasses.names = []
      · exact .inl hlisted
      · by_cases hmem : name ∈ p.allowedClasses.names
        · exact .inr ⟨name, hmem, hsays⟩
        · exact absurd (.classNotAllowed hsays hlisted hmem) (h _)
    · exact .inl hclass
  oneSide := by
    intro a hboth
    obtain ⟨⟨asked, hasks⟩, fixed, hfixes⟩ := hboth
    exact h _ (.notConfigurable hasks hfixes)
  someSide := by
    intro a hrequires
    by_cases hasks : ∃ asked, r.Asks a asked
    · exact .inl hasks
    · by_cases hfixes : ∃ fixed, p.Fixes a fixed
      · exact .inr hfixes
      · exact absurd (.required hrequires hasks hfixes) (h _)

theorem Admissible.not_breaks (h : Admissible p r) : ¬Breaks p r v := by
  intro hbroken
  cases hbroken with
  | suffix hsays hallow =>
    rcases h.suffix with hno | hyes
    · exact hno ⟨_, hsays⟩
    · rw [hallow] at hyes
      cases hyes
  | notConfigurable hasks hfixes => exact h.oneSide _ ⟨⟨_, hasks⟩, _, hfixes⟩
  | required hrequires hunasked hunfixed =>
    rcases h.someSide _ hrequires with hasks | hfixes
    · exact hunasked hasks
    · exact hunfixed hfixes
  | classNotAllowed hsays hlisted hmem =>
    rcases h.assetClass with hno | hempty | ⟨name, hname, hsays'⟩
    · exact hno ⟨_, hsays⟩
    · exact hlisted hempty
    · -- there is one class only, so it is the one that is listed
      obtain rfl := hsays.eq hsays'
      exact hmem hname

/-- Nothing is broken exactly if every rule is kept. -/
theorem violations_eq_nil_iff : violations p r = [] ↔ Admissible p r := by
  rw [List.eq_nil_iff_forall_not_mem]
  refine ⟨fun h => admissible_of_not_breaks fun v hbroken => ?_, fun h v hv => ?_⟩
  · exact h v (mem_violations_iff.2 hbroken)
  · exact h.not_breaks (mem_violations_iff.1 hv)

theorem verify_eq_ok_iff : verify p r = .ok e ↔ violations p r = [] ∧
    e = ⟨settledValue p r .pool, settledValue p r .primaryRole, settledValue p r .secondaryRole, r.suffix⟩ := by
  unfold verify
  split
  · rename_i hnone
    exact ⟨fun h => ⟨hnone, (Except.ok.inj h).symm⟩, fun h => congrArg _ h.2.symm⟩
  · rename_i hsome
    exact ⟨nofun, fun h => absurd h.1 hsome⟩

theorem verify_eq_error_iff :
    verify p r = .error rejection ↔ violations p r ≠ [] ∧ rejection = ⟨r.profileId, violations p r⟩ := by
  unfold verify
  split
  · rename_i hnone
    exact ⟨nofun, fun h => absurd hnone h.1⟩
  · rename_i hsome
    exact ⟨fun h => ⟨hsome, (Except.error.inj h).symm⟩, fun h => congrArg _ h.2.symm⟩

/-- About an attribute of an admissible request nothing is broken, so it has settled. -/
theorem Admissible.settles (h : Admissible p r) (a : Attribute) : Settles p r a (.ok (settledValue p r a)) := by
  have hsettles := settle_settles p r a
  unfold settledValue
  cases hsettle : settle p r a with
  | ok value =>
    rw [hsettle] at hsettles
    exact hsettles
  | error w =>
    have hbroken : attributeViolation? p r a = some w := by rw [attributeViolation?, hsettle]
    exact absurd (attributeViolation?_eq_some_iff.1 hbroken).2 h.not_breaks

/-- **What is accepted is merged.** -/
theorem merges_of_verify (h : verify p r = .ok e) : Merges p r e := by
  obtain ⟨hnone, rfl⟩ := verify_eq_ok_iff.1 h
  have hadmissible := violations_eq_nil_iff.1 hnone
  have hget : ∀ a, Effective.get ⟨settledValue p r .pool, settledValue p r .primaryRole,
      settledValue p r .secondaryRole, r.suffix⟩ a = settledValue p r a := fun a => by cases a <;> rfl
  refine ⟨fun a value hfixes => ?_, fun a value hno hasks => ?_, fun a hunfixed hunasked => ?_,
    fun suffix => bind_nonEmpty?_eq_some_iff, fun a hrequires => ?_⟩
  -- each time the question is which side supplied the value that has settled
  all_goals
    rw [hget]
    have hsettles := hadmissible.settles a
    generalize settledValue p r a = settled at hsettles ⊢
  · cases hsettles with
    | asked _ hno => exact absurd ⟨value, hfixes⟩ hno
    | fixed _ hfixes' => rw [hfixes.eq hfixes']
    | absent _ _ hno => exact absurd ⟨value, hfixes⟩ hno
  · cases hsettles with
    | asked hasks' _ => rw [hasks.eq hasks']
    | fixed _ hfixes => exact absurd ⟨_, hfixes⟩ hno
    | absent _ hno' _ => exact absurd ⟨value, hasks⟩ hno'
  · cases hsettles with
    | asked hasks _ => exact absurd ⟨_, hasks⟩ hunasked
    | fixed _ hfixes => exact absurd ⟨_, hfixes⟩ hunfixed
    | absent => rfl
  · cases hsettles with
    | asked hasks _ => exact ⟨_, rfl, hasks.2⟩
    | fixed _ hfixes => exact ⟨_, rfl, hfixes.2⟩
    | absent hfree =>
      rw [hrequires] at hfree
      cases hfree

/-- **Verification is exact.** A request is accepted exactly if it keeps every rule of the profile; an accepted asset
gets what the profile fixes, or else what the request asks for. A request is rejected under its profile with the rules
that it breaks, all of them and no others, each once and in the order of the checks. -/
theorem verify_exact (p : Profile) (r : Request) :
    ((∃ e, verify p r = .ok e) ↔ Admissible p r) ∧
    (∀ e, verify p r = .ok e → Merges p r e) ∧
    ∀ rejection, verify p r = .error rejection →
      rejection.profile = r.profileId ∧ rejection.violations ≠ [] ∧ rejection.violations.Nodup ∧
      rejection.violations.Pairwise (fun v w => v.rank < w.rank) ∧ ∀ v, v ∈ rejection.violations ↔ Breaks p r v := by
  refine ⟨?_, fun e => merges_of_verify, fun rejection h => ?_⟩
  · rw [← violations_eq_nil_iff]
    refine ⟨fun h => ?_, fun h => ⟨_, verify_eq_ok_iff.2 ⟨h, rfl⟩⟩⟩
    obtain ⟨e, he⟩ := h
    exact (verify_eq_ok_iff.1 he).1
  · obtain ⟨hsome, rfl⟩ := verify_eq_error_iff.1 h
    exact ⟨rfl, hsome, nodup_violations p r, pairwise_violations p r, fun v => mem_violations_iff⟩

/-- A profile for machines of one class, and two requests under it. -/
theorem verify_exact_hadoop :
    let p : Profile :=
      { label := "Hadoop", assetPrefix := "hadoop", primaryRole := "HADOOP", allowedClasses := .ofList ["SERVER_NODE"] }
    let good : Request := { profileId := "hadoop", pool? := some "PROD", assetClass? := some "SERVER_NODE" }
    let bad : Request :=
      { profileId := "hadoop", suffix? := some "x", primaryRole? := some "WEB", assetClass? := some "SWITCH" }
    Admissible p good ∧ Merges p good { pool := some "PROD", primaryRole := some "HADOOP" } ∧
      ∀ v, v ∈ [.suffixNotAllowed, .required .pool, .notConfigurable .primaryRole, .classNotAllowed "SWITCH"] ↔
        Breaks p bad v := by
  intro p good bad
  have hgood : verify p good = .ok { pool := some "PROD", primaryRole := some "HADOOP" } := by rfl
  have hbad : verify p bad = .error ⟨"hadoop",
      [.suffixNotAllowed, .required .pool, .notConfigurable .primaryRole, .classNotAllowed "SWITCH"]⟩ := by rfl
  exact ⟨(verify_exact p good).1.1 ⟨_, hgood⟩, (verify_exact p good).2.1 _ hgood,
    ((verify_exact p bad).2.2 _ hbad).2.2.2.2⟩

end Provisioning
