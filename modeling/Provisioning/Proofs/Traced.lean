import Provisioning.Journal

/-!
# Computations that succeed, and what they noted on the way

`Traced.Yields x a` says that a computation succeeds with `a` and warns of nothing: the outcome that a
strict and a tolerant run can share. `Traced.Notes p x` says that every event of `x` has the property `p`,
however `x` ends. Both go through `>>=` by one lemma each, and no later proof looks at events one by one.
-/

namespace Provisioning

/-- Whether the log line of an event is a warning. -/
def Event.warns (e : Event) : Bool :=
  match e.line? with
  | some line => line.level == .warn
  | none => false

theorem Journal.dropped_append (events events' : List Event) :
    Journal.dropped (events ++ events') = Journal.dropped events ++ Journal.dropped events' :=
  List.flatMap_append

namespace Traced

variable {ε α β : Type}

theorem events_pure (a : α) : (pure a : Traced ε α).events = [] := rfl

/-- A computation goes on with `f` only after it succeeded. -/
theorem outcome_bind_eq_ok {x : Traced ε α} {f : α → Traced ε β} {b : β} :
    (x >>= f).outcome = .ok b ↔ ∃ a, x.outcome = .ok a ∧ (f a).outcome = .ok b := by
  show (andThen x f).outcome = .ok b ↔ _
  unfold andThen
  cases x.outcome with
  | ok a => simp
  | error e => simp

theorem outcome_pure_eq_ok {a b : α} : (pure a : Traced ε α).outcome = .ok b ↔ b = a := by
  refine ⟨fun h => ?_, fun h => ?_⟩
  · exact (Except.ok.inj h).symm
  · rw [h]
    rfl

theorem outcome_bind_of_ok {x : Traced ε α} {f : α → Traced ε β} {a : α} (h : x.outcome = .ok a) :
    (x >>= f).outcome = (f a).outcome := by
  show (andThen x f).outcome = _
  unfold andThen
  rw [h]

theorem outcome_bind_of_error {x : Traced ε α} {f : α → Traced ε β} {e : ε} (h : x.outcome = .error e) :
    (x >>= f).outcome = .error e := by
  show (andThen x f).outcome = _
  unfold andThen
  rw [h]

/-- The events of three computations come in one order, however the computations are grouped. -/
theorem bind_bind {γ : Type} (x : Traced ε α) (f : α → Traced ε β) (g : β → Traced ε γ) :
    x >>= f >>= g = x >>= fun a => f a >>= g := by
  obtain ⟨events, outcome⟩ := x
  cases outcome with
  | error e => rfl
  | ok a =>
    show andThen (andThen ⟨events, .ok a⟩ f) g = andThen ⟨events, .ok a⟩ fun a => andThen (f a) g
    unfold andThen
    dsimp only
    cases (f a).outcome with
    | ok b => exact congrArg (Traced.mk · (g b).outcome) (List.append_assoc ..)
    | error e => rfl

/-- After a success the events of the rest follow. -/
theorem events_bind_of_ok {x : Traced ε α} {f : α → Traced ε β} {a : α} (h : x.outcome = .ok a) :
    (x >>= f).events = x.events ++ (f a).events := by
  show (andThen x f).events = _
  unfold andThen
  rw [h]

/-- After a failure nothing follows. -/
theorem events_bind_of_error {x : Traced ε α} {f : α → Traced ε β} {e : ε}
    (h : x.outcome = .error e) : (x >>= f).events = x.events := by
  show (andThen x f).events = _
  unfold andThen
  rw [h]

/-- What is done to a result can be undone, if the result can be had back. -/
theorem map_bind_pure {x : Traced ε α} {f : α → β} {g : β → α} (h : ∀ a, x.outcome = .ok a → g (f a) = a) :
    (g <$> (x >>= fun a => pure (f a))) = x := by
  obtain ⟨events, outcome⟩ := x
  cases outcome with
  | error e => rfl
  | ok a =>
    show (⟨events ++ [] ++ [], .ok (g (f a))⟩ : Traced ε α) = ⟨events, .ok a⟩
    rw [h a rfl, List.append_nil, List.append_nil]

theorem outcome_map_of_ok {x : Traced ε α} {f : α → β} {a : α} (h : x.outcome = .ok a) :
    (f <$> x).outcome = .ok (f a) :=
  @outcome_bind_of_ok ε α β x (fun a => pure (f a)) a h

/-! ## Failures seen differently -/

variable {δ : Type} {f : ε → δ} {x : Traced ε α}

theorem outcome_mapError_eq_ok {a : α} : (x.mapError f).outcome = .ok a ↔ x.outcome = .ok a := by
  obtain ⟨events, outcome⟩ := x
  cases outcome with
  | ok b => exact Iff.of_eq (by simp [mapError])
  | error e => exact ⟨nofun, nofun⟩

theorem outcome_mapError_eq_error {g : δ} :
    (x.mapError f).outcome = .error g ↔ ∃ e, x.outcome = .error e ∧ f e = g := by
  obtain ⟨events, outcome⟩ := x
  cases outcome with
  | ok b => simp [mapError]
  | error e => simp [mapError]

/-! ## Success without a warning -/

/-- The computation succeeds with `a` and warns of nothing. -/
def Yields (x : Traced ε α) (a : α) : Prop :=
  x.outcome = .ok a ∧ ∀ e ∈ x.events, e.warns = false

@[simp] theorem yields_pure {a b : α} : (pure a : Traced ε α).Yields b ↔ b = a := by
  rw [Yields, outcome_pure_eq_ok, events_pure]
  exact and_iff_left (by simp)

@[simp] theorem not_yields_fail {e : ε} {a : α} : ¬(fail e : Traced ε α).Yields a := by
  intro h
  exact absurd h.1 (by simp [fail])

@[simp] theorem yields_note {event : Event} {u : Unit} :
    (note event : Traced ε Unit).Yields u ↔ event.warns = false := by
  simp [Yields, note]

@[simp] theorem yields_ofExcept {outcome : Except ε α} {a : α} :
    (ofExcept outcome).Yields a ↔ outcome = .ok a := by
  simp [Yields, ofExcept]

theorem yields_bind {x : Traced ε α} {f : α → Traced ε β} {b : β} :
    (x >>= f).Yields b ↔ ∃ a, x.Yields a ∧ (f a).Yields b := by
  refine ⟨fun h => ?_, fun h => ?_⟩
  · obtain ⟨hb, hev⟩ := h
    obtain ⟨a, ha, hfb⟩ := outcome_bind_eq_ok.1 hb
    rw [events_bind_of_ok ha] at hev
    exact ⟨a, ⟨ha, fun e he => hev e (List.mem_append_left _ he)⟩,
      hfb, fun e he => hev e (List.mem_append_right _ he)⟩
  · obtain ⟨a, ⟨ha, hx⟩, hfb, hf⟩ := h
    refine ⟨outcome_bind_eq_ok.2 ⟨a, ha, hfb⟩, ?_⟩
    rw [events_bind_of_ok ha]
    intro e he
    exact (List.mem_append.1 he).elim (hx e) (hf e)

/-! ## Every event -/

/-- Every event of the computation has the property, whether it succeeds or fails. -/
def Notes (p : Event → Prop) (x : Traced ε α) : Prop := ∀ e ∈ x.events, p e

variable {p : Event → Prop}

theorem notes_pure (a : α) : Notes p (pure a : Traced ε α) :=
  fun _ he => absurd he List.not_mem_nil

theorem notes_fail (e : ε) : Notes p (fail e : Traced ε α) :=
  fun _ he => absurd he List.not_mem_nil

theorem notes_ofExcept (outcome : Except ε α) : Notes p (ofExcept outcome) :=
  fun _ he => absurd he List.not_mem_nil

theorem notes_note {event : Event} (h : p event) : Notes p (note event : Traced ε Unit) :=
  fun _ he => List.mem_singleton.1 he ▸ h

theorem notes_bind {x : Traced ε α} {f : α → Traced ε β} (hx : Notes p x)
    (hf : ∀ a, Notes p (f a)) : Notes p (x >>= f) := by
  intro e he
  cases h : x.outcome with
  | ok a =>
    rw [events_bind_of_ok h] at he
    exact (List.mem_append.1 he).elim (hx e) (hf a e)
  | error err =>
    rw [events_bind_of_error h] at he
    exact hx e he

end Traced

end Provisioning
