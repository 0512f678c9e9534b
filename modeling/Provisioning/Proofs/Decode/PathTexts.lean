import Provisioning.Proofs.Decode.ReportedOnce

/-!
# The text of a way, joined from two

The text of the way to a key is written in one piece by `KeyPath.render`, or in two: the text of a place, and behind
it the text of the way from there (`Place.qualify`). The piece behind is taken for an item by its first character,
and a place whose text is empty is taken for the root. Both writings are the same text exactly if neither of these
goes wrong (`qualify_along_eq_iff`); where they differ, the joined one is too short (`length_qualify_along_le`).
-/

namespace Provisioning

/-- A step as text, if nothing stands before it. -/
def Step.text : Step → String
  | .key label => label
  | .index i => "[" ++ toString i ++ "]"
  | .variant => ""

theorem Step.text_eq_empty_iff {step : Step} : step.text = "" ↔ step = .variant ∨ step = .key "" := by
  cases step with
  | variant => simp [text]
  | key label => simp [text]
  | index i => simp [text, String.append_eq_empty_iff]

namespace KeyPath

/-- Whether the first step that is shown is one to a key. -/
def startsAtKey (path : KeyPath) : Bool :=
  match path.shown with
  | .key _ :: _ => true
  | _ => false

/-- Whether the first key is empty and the next step is one to a key, so that the text begins with a point. -/
def startsEmpty (path : KeyPath) : Bool :=
  match path.shown with
  | .key label :: .key _ :: _ => label == ""
  | _ => false

/-- Whether the text begins as that of an item, although the first step is one to a key. -/
def looksLikeItem (path : KeyPath) : Bool :=
  path.startsAtKey && path.render.toList.head? == some '['

/-- Whether the text of a path, joined to the text of a way from the root, is the text of the whole. Behind a way that
shows something this asks that the whole does not begin with an empty key and another key, and that the path is not
taken for an item. -/
def Joins (way path : KeyPath) : Prop :=
  way.shown = [] ∨ startsEmpty (way ++ path) = false ∧ path.looksLikeItem = false

instance (way path : KeyPath) : Decidable (Joins way path) := inferInstanceAs (Decidable (_ ∨ _))

variable {way path : KeyPath}

theorem shown_append (way path : KeyPath) : shown (way ++ path) = shown way ++ shown path := by
  induction way with
  | nil => rfl
  | cons step way ih => cases step <;> simp [shown, ih]

/-- Only as long as nothing is shown, what follows is the first. -/
theorem renderFrom_append (path : KeyPath) : ∀ (way : KeyPath) (first : Bool),
    renderFrom first (way ++ path) = renderFrom first way ++ renderFrom (first && (shown way).isEmpty) path := by
  intro way
  induction way with
  | nil =>
    intro first
    rw [List.nil_append, renderFrom, String.empty_append]
    simp [shown]
  | cons step way ih =>
    intro first
    cases step with
    | variant => exact ih first
    | key label =>
      rw [List.cons_append, renderFrom, renderFrom, ih, String.append_assoc]
      simp [shown]
    | index i =>
      rw [List.cons_append, renderFrom, renderFrom, ih, String.append_assoc]
      simp [shown, String.append_assoc]

theorem shown_key_cons (label : String) (path : KeyPath) :
    shown (.key label :: path) = .key label :: path.shown := rfl

theorem startsEmpty_empty_cons (path : KeyPath) : startsEmpty (.key "" :: path) = path.startsAtKey := by
  rw [startsEmpty, startsAtKey, shown_key_cons]
  cases path.shown with
  | nil => rfl
  | cons step rest => cases step <;> rfl

theorem startsEmpty_of_text_ne {step : Step} (h : step.text ≠ "") (path : KeyPath) :
    startsEmpty (step :: path) = false := by
  cases step with
  | variant => exact absurd rfl h
  | index i => rfl
  | key label =>
    rw [startsEmpty, shown_key_cons]
    cases path.shown with
    | nil => rfl
    | cons step rest =>
      cases step with
      | key => exact beq_eq_false_iff_ne.2 h
      | index | variant => rfl

theorem startsEmpty_of_not_key (h : path.startsAtKey = false) : path.startsEmpty = false := by
  rw [startsAtKey] at h
  rw [startsEmpty]
  cases hpath : path.shown with
  | nil => rfl
  | cons step rest =>
    cases step with
    | key label =>
      rw [hpath] at h
      cases h
    | index | variant => rfl

theorem startsAtKey_append (h : way.shown = []) (path : KeyPath) :
    startsAtKey (way ++ path) = path.startsAtKey := by
  rw [startsAtKey, startsAtKey, shown_append, h, List.nil_append]

/-- Behind something a key has a point before it. -/
theorem renderFrom_false_of_key (h : path.startsAtKey = true) : renderFrom false path = "." ++ path.render := by
  induction path with
  | nil => cases h
  | cons step path ih =>
    cases step with
    | variant => exact ih h
    | key label => simp [render, renderFrom, String.append_assoc]
    | index i => cases h

theorem renderFrom_false_of_not_key (h : path.startsAtKey = false) : renderFrom false path = path.render := by
  induction path with
  | nil => rfl
  | cons step path ih =>
    cases step with
    | variant => exact ih h
    | key label => cases h
    | index i => rfl

theorem head?_render_of_not_key (hshown : path.shown ≠ []) (h : path.startsAtKey = false) :
    path.render.toList.head? = some '[' := by
  induction path with
  | nil => exact absurd rfl hshown
  | cons step path ih =>
    cases step with
    | variant => exact ih hshown h
    | key label => cases h
    | index i => simp [render, renderFrom, String.toList_append]

end KeyPath

namespace Place

open KeyPath

variable {place : Place} {way path : KeyPath}

theorem along_of_text_ne (way : KeyPath) : ∀ {place : Place}, place.text ≠ "" →
    (place.along way).text = place.text ++ renderFrom false way := by
  induction way with
  | nil => exact fun _ => (String.append_empty).symm
  | cons step way ih =>
    intro place h
    cases step with
    | variant => exact ih h
    | key label =>
      have hentry : (place.entry label).text = place.text ++ "." ++ label := if_neg h
      have hne : (place.entry label).text ≠ "" := by
        rw [hentry]
        simp [String.append_eq_empty_iff]
      rw [along, ih hne, hentry, renderFrom, if_neg Bool.false_ne_true]
      simp only [String.append_assoc]
    | index i =>
      have hne : (place.item i).text ≠ "" := by simp [item, String.append_eq_empty_iff]
      rw [along, ih hne, renderFrom, item]
      simp only [String.append_assoc]

/-- Behind a text, a path is joined as it is written there exactly if it is not taken for an item. -/
theorem qualify_of_text_ne (hplace : place.text ≠ "") (hshown : path.shown ≠ []) :
    place.qualify path.render = place.text ++ renderFrom false path ↔ path.looksLikeItem = false := by
  rw [qualify, if_neg hplace, looksLikeItem]
  cases hkey : path.startsAtKey with
  | false => simp [head?_render_of_not_key hshown hkey, renderFrom_false_of_not_key hkey]
  | true =>
    rw [renderFrom_false_of_key hkey]
    split
    · rename_i hitem
      refine ⟨fun h => ?_, fun h => by simp [hitem] at h⟩
      have hlength := congrArg String.length h
      simp [String.length_append] at hlength
    · rename_i hitem
      simp [hitem, String.append_assoc]

/-- A path is never joined by more than the point that stands there. -/
theorem length_qualify_le (hplace : place.text ≠ "") (hshown : path.shown ≠ []) :
    (place.qualify path.render).length ≤ (place.text ++ renderFrom false path).length := by
  rw [qualify, if_neg hplace]
  cases hkey : path.startsAtKey with
  | false => simp [head?_render_of_not_key hshown hkey, renderFrom_false_of_not_key hkey]
  | true =>
    rw [renderFrom_false_of_key hkey]
    split <;> simp [String.length_append, Nat.add_assoc]

/-! ## From the root -/

theorem along_root_cons (step : Step) (way : KeyPath) : root.along (step :: way) = along ⟨step.text⟩ way := by
  cases step with
  | variant | key => rfl
  | index i => simp [along, item, root, Step.text]

/-- If the first step shows a text, both writings begin with the text of the place. -/
theorem render_along {step : Step} (h : step.text ≠ "") (way path : KeyPath) :
    (root.along (step :: way)).text ≠ "" ∧
      render (step :: way ++ path) = (root.along (step :: way)).text ++ renderFrom false path := by
  have hplace : (⟨step.text⟩ : Place).text ≠ "" := h
  have halong : (root.along (step :: way)).text = step.text ++ renderFrom false way := by
    rw [along_root_cons, along_of_text_ne way hplace]
  have hrender : render (step :: (way ++ path)) = step.text ++ renderFrom false (way ++ path) := by
    cases step with
    | variant => exact absurd rfl h
    | key | index => rfl
  refine ⟨?_, ?_⟩
  · rw [halong]
    exact fun hempty => h (String.append_eq_empty_iff.1 hempty).1
  · rw [halong, List.cons_append, hrender, renderFrom_append, Bool.false_and, String.append_assoc]

/-- Joined, the text of a way is never longer than written in one piece. -/
theorem length_qualify_along_le (hshown : path.shown ≠ []) (way : KeyPath) :
    ((root.along way).qualify path.render).length ≤ (render (way ++ path)).length := by
  induction way with
  | nil => exact le_refl _
  | cons step way ih =>
    by_cases h : step.text = ""
    · rw [along_root_cons, h]
      obtain rfl | rfl := Step.text_eq_empty_iff.1 h
      · exact ih
      · refine ih.trans ?_
        show _ ≤ ("" ++ renderFrom false (way ++ path)).length
        rw [String.empty_append]
        cases hkey : startsAtKey (way ++ path) with
        | false => rw [renderFrom_false_of_not_key hkey]
        | true => simp [renderFrom_false_of_key hkey, String.length_append]
    · obtain ⟨hne, hrender⟩ := render_along h way path
      rw [hrender]
      exact length_qualify_le hne hshown

/-- **The text of a way, joined from two.** -/
theorem qualify_along_eq_iff (hshown : path.shown ≠ []) (way : KeyPath) :
    (root.along way).qualify path.render = render (way ++ path) ↔ Joins way path := by
  unfold Joins
  induction way with
  | nil => exact iff_of_true rfl (.inl rfl)
  | cons step way ih =>
    by_cases h : step.text = ""
    · rw [along_root_cons, h]
      obtain rfl | rfl := Step.text_eq_empty_iff.1 h
      · exact ih
      · -- an empty key leads back to the root, which matters if a key follows
        have hrender : render (.key "" :: way ++ path) = renderFrom false (way ++ path) := String.empty_append
        have hsome : shown (.key "" :: way) ≠ [] := List.cons_ne_nil _ _
        rw [hrender, List.cons_append, startsEmpty_empty_cons]
        cases hkey : startsAtKey (way ++ path) with
        | true =>
          refine iff_of_false (fun heq => ?_) (by simp [hsome])
          have hlength : (render (way ++ path)).length < ((root.along way).qualify path.render).length := by
            rw [show (root.along way).qualify path.render = renderFrom false (way ++ path) from heq,
              renderFrom_false_of_key hkey, String.length_append]
            exact Nat.lt_add_of_pos_left (by decide)
          exact absurd (length_qualify_along_le hshown way) (Nat.not_le.2 hlength)
        | false =>
          have hitem (h : shown way = []) : path.looksLikeItem = false := by
            rw [startsAtKey_append h] at hkey
            rw [looksLikeItem, hkey, Bool.false_and]
          rw [renderFrom_false_of_not_key hkey]
          refine ih.trans ⟨fun h => .inr ⟨rfl, h.elim hitem And.right⟩, fun h => ?_⟩
          exact .inr ⟨startsEmpty_of_not_key hkey, (h.resolve_left hsome).2⟩
    · obtain ⟨hne, hrender⟩ := render_along h way path
      have hsome : shown (step :: way) ≠ [] := by
        cases step with
        | variant => exact absurd rfl h
        | key | index => exact List.cons_ne_nil _ _
      rw [hrender, qualify_of_text_ne hne hshown, List.cons_append, startsEmpty_of_text_ne h]
      simp [hsome]

end Place

end Provisioning
