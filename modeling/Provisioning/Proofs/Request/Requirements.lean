import Provisioning.Proofs.Request.Verdicts

/-!
# What a request has to supply

A profile lists the attributes that it requires and does not fix (`Profile.missingRequirements`); verification asks of
each attribute which side supplies it. Both read the same rules. An attribute is reported as required exactly if it is
on the list and the request says nothing about it, so the list tells the caller which values to supply, and where no
suffix and no class are asked for it decides the verdict.
-/

namespace Provisioning

variable {p : Profile} {r : Request} {a : Attribute}

theorem mem_missingRequirements_iff :
    a ∈ p.missingRequirements ↔ p.requires a = true ∧ ¬∃ fixed, p.Fixes a fixed := by
  have hall : a ∈ Attribute.all := by cases a <;> decide
  rw [Profile.missingRequirements, List.mem_filter, Bool.and_eq_true, Option.isNone_iff_eq_none,
    eq_none_iff_of_some Profile.provides_eq_some_iff]
  exact and_iff_right hall

/-- The rule about required attributes, read off the list. -/
theorem breaks_required_iff :
    Breaks p r (.required a) ↔ a ∈ p.missingRequirements ∧ ¬∃ asked, r.Asks a asked := by
  rw [mem_missingRequirements_iff]
  refine ⟨fun h => ?_, fun h => ?_⟩
  · cases h with
    | required hrequires hunasked hunfixed => exact ⟨⟨hrequires, hunfixed⟩, hunasked⟩
  · obtain ⟨⟨hrequires, hunfixed⟩, hunasked⟩ := h
    exact .required hrequires hunasked hunfixed

/-- A verdict reports the rules that are broken. -/
theorem reported_iff {v : Violation} :
    (∃ rejection, verify p r = .error rejection ∧ v ∈ rejection.violations) ↔ Breaks p r v := by
  rw [← mem_violations_iff]
  refine ⟨fun h => ?_, fun h => ?_⟩
  · obtain ⟨rejection, hrejected, hv⟩ := h
    obtain ⟨-, rfl⟩ := verify_eq_error_iff.1 hrejected
    exact hv
  · exact ⟨_, verify_eq_error_iff.2 ⟨List.ne_nil_of_mem h, rfl⟩, h⟩

theorem accepted_iff : (∃ e, verify p r = .ok e) ↔ Admissible p r := by
  rw [← violations_eq_nil_iff]
  refine ⟨fun h => ?_, fun h => ⟨_, verify_eq_ok_iff.2 ⟨h, rfl⟩⟩⟩
  obtain ⟨e, he⟩ := h
  exact (verify_eq_ok_iff.1 he).1

/-- An admissible request supplies all that is missing, and nothing that the profile fixes. -/
theorem Admissible.supplies (h : Admissible p r) :
    (∀ a ∈ p.missingRequirements, ∃ value, r.Asks a value) ∧
      ∀ a, (∃ value, r.Asks a value) → ¬∃ fixed, p.Fixes a fixed := by
  refine ⟨fun a ha => ?_, fun a hasks hfixes => h.oneSide a ⟨hasks, hfixes⟩⟩
  obtain ⟨hrequires, hunfixed⟩ := mem_missingRequirements_iff.1 ha
  exact (h.someSide a hrequires).resolve_right hunfixed

/-- Where nothing else is asked for, that is all that the rules demand. -/
theorem admissible_of_supplies (hsuffix : ¬∃ suffix, Says r.suffix? suffix)
    (hclass : ¬∃ name, Says r.assetClass? name) (hmissing : ∀ a ∈ p.missingRequirements, ∃ value, r.Asks a value)
    (hfree : ∀ a, (∃ value, r.Asks a value) → ¬∃ fixed, p.Fixes a fixed) : Admissible p r where
  suffix := .inl hsuffix
  assetClass := .inl hclass
  oneSide := fun a hboth => hfree a hboth.1 hboth.2
  someSide := by
    intro a hrequires
    by_cases hfixes : ∃ fixed, p.Fixes a fixed
    · exact .inr hfixes
    · exact .inl (hmissing a (mem_missingRequirements_iff.2 ⟨hrequires, hfixes⟩))

/-- **The list of missing requirements is exact.** An attribute is reported as required exactly if it is missing and the
request says nothing about it. So whatever is accepted supplies all that is missing. A request for no suffix and no
class is accepted if it supplies just that, whatever the values are, and in general exactly if it supplies all of that
and nothing that the profile fixes. -/
theorem missingRequirements_exact (p : Profile) (r : Request) :
    (∀ a, (∃ rejection, verify p r = .error rejection ∧ .required a ∈ rejection.violations) ↔
      a ∈ p.missingRequirements ∧ ¬∃ value, r.Asks a value) ∧
    ((∃ e, verify p r = .ok e) → ∀ a ∈ p.missingRequirements, ∃ value, r.Asks a value) ∧
    ((¬∃ suffix, Says r.suffix? suffix) → (¬∃ name, Says r.assetClass? name) →
      ((∀ a, (∃ value, r.Asks a value) ↔ a ∈ p.missingRequirements) → ∃ e, verify p r = .ok e) ∧
      ((∃ e, verify p r = .ok e) ↔ (∀ a ∈ p.missingRequirements, ∃ value, r.Asks a value) ∧
        ∀ a, (∃ value, r.Asks a value) → ¬∃ fixed, p.Fixes a fixed)) := by
  refine ⟨fun a => reported_iff.trans breaks_required_iff, fun h => (accepted_iff.1 h).supplies.1,
    fun hsuffix hclass => ⟨fun hjust => ?_, ?_⟩⟩
  · -- what is missing is not fixed, so a request for just that stays clear of what is
    refine accepted_iff.2 (admissible_of_supplies hsuffix hclass (fun a ha => (hjust a).2 ha) fun a hasks => ?_)
    exact (mem_missingRequirements_iff.1 ((hjust a).1 hasks)).2
  · rw [accepted_iff]
    exact ⟨Admissible.supplies, fun h => admissible_of_supplies hsuffix hclass h.1 h.2⟩

/-- Under a profile that fixes the primary role and requires a pool, a request has to supply the pool and no more; an
empty text supplies nothing. -/
theorem missingRequirements_exact_hadoop :
    let p : Profile := { label := "Hadoop", primaryRole := "HADOOP" }
    let good : Request := { profileId := "hadoop", pool? := some "PROD", suffix? := some "" }
    let bad : Request := { profileId := "hadoop", pool? := some "" }
    (∃ e, verify p good = .ok e) ∧ (∃ value, good.Asks .pool value) ∧
      ∃ rejection, verify p bad = .error rejection ∧ .required .pool ∈ rejection.violations := by
  intro p good bad
  have hmissing : p.missingRequirements = [.pool] := by decide
  have hasks : ∀ a, (∃ value, good.Asks a value) ↔ a ∈ p.missingRequirements := by
    intro a
    rw [hmissing, List.mem_singleton]
    cases a <;> simp [good, Request.Asks, Request.field, Says]
  have hsuffix : ¬∃ suffix, Says good.suffix? suffix := by simp [good, Says]
  have hclass : ¬∃ name, Says good.assetClass? name := by simp [good, Says]
  have haccepted := ((missingRequirements_exact p good).2.2 hsuffix hclass).1 hasks
  have hpool : Attribute.pool ∈ p.missingRequirements := by
    rw [hmissing]
    exact List.mem_cons_self
  refine ⟨haccepted, (missingRequirements_exact p good).2.1 haccepted _ hpool, ?_⟩
  refine ((missingRequirements_exact p bad).1 .pool).2 ⟨hpool, ?_⟩
  simp [bad, Request.Asks, Request.field, Says]

end Provisioning
