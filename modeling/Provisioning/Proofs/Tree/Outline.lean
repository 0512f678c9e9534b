import Provisioning.Proofs.Schema.Reading
import Provisioning.Proofs.Tree.OtherKeys

/-!
# The outline of a document

`Tree.outline` spells a tree out from its beginning to its end: where a list or a map begins and ends, which tag stands
where, each key before its value, and the nodes without parts; every mark with the way to it. What stands below a key
that is not text is left out, since no way leads there. A tree all of whose keys are text is determined by its outline
(`eq_of_outline`).

Doing without the keys that are not text takes their marks out of the outline and touches no other one
(`outline_withTextKeys`), and the ways that are told of are those of the marks that go, in their order
(`otherKeyPaths_eq`).
-/

namespace Provisioning.Tree

/-- What may be met at a place of a tree. -/
inductive Part
  /-- A node without parts. -/
  | scalar (t : Tree)
  | list
  | map
  /-- The end of a list or a map. -/
  | close
  | tag (tag : String)
  | key (k : Tree)

/-- Something met in a tree, and the way to where it was met. -/
structure Mark where
  way : KeyPath
  part : Part

namespace Mark

/-- Whether a key was met that is not text. -/
def isOtherKey (m : Mark) : Bool :=
  match m.part with
  | .key k => !k.isTextKey
  | _ => false

/-- The way to a key that was met. -/
def keyPath (m : Mark) : KeyPath :=
  match m.part with
  | .key k => m.way ++ [.key k.label]
  | _ => m.way

end Mark

mutual

/-- What is met in a tree, from its beginning to its end. -/
def outline (way : KeyPath) : Tree → List Mark
  | .list items => ⟨way, .list⟩ :: (itemsOutline way 0 items ++ [⟨way, .close⟩])
  | .map entries => ⟨way, .map⟩ :: (entriesOutline way entries ++ [⟨way, .close⟩])
  | .tagged tag content => ⟨way, .tag tag⟩ :: outline (way ++ [.variant]) content
  | t => [⟨way, .scalar t⟩]

/-- What is met in the items of a list from a position on. -/
def itemsOutline (way : KeyPath) (position : Nat) : List Tree → List Mark
  | [] => []
  | t :: ts => outline (way ++ [.index position]) t ++ itemsOutline way (position + 1) ts

/-- What is met in map entries. Only below a text key something can be met. -/
def entriesOutline (way : KeyPath) : List (Tree × Tree) → List Mark
  | [] => []
  | (.text s, v) :: es => ⟨way, .key (.text s)⟩ :: (outline (way ++ [.key s]) v ++ entriesOutline way es)
  | (k, _) :: es => ⟨way, .key k⟩ :: entriesOutline way es

end

theorem entriesOutline_of_other {k : Tree} (h : k.isTextKey = false) (way : KeyPath) (v : Tree)
    (es : List (Tree × Tree)) : entriesOutline way ((k, v) :: es) = ⟨way, .key k⟩ :: entriesOutline way es := by
  cases k with
  | text s => cases h
  | null | flag | number | list | map | tagged => rfl

/-! ## An outline determines the tree -/

theorem hasOtherKeys_list_eq_false {items : List Tree} :
    (Tree.list items).hasOtherKeys = false ↔ ∀ t ∈ items, t.hasOtherKeys = false := by
  rw [← Bool.not_eq_true, hasOtherKeys_list]
  simp

theorem hasOtherKeys_map_eq_false {entries : List (Tree × Tree)} :
    (Tree.map entries).hasOtherKeys = false ↔ ∀ e ∈ entries, e.1.isTextKey = true ∧ e.2.hasOtherKeys = false := by
  rw [← Bool.not_eq_true, hasOtherKeys_map]
  simp

/-- The first thing that is met in a tree. -/
def firstPart : Tree → Part
  | .list _ => .list
  | .map _ => .map
  | .tagged tag _ => .tag tag
  | t => .scalar t

theorem outline_head (way : KeyPath) (t : Tree) : ∃ rest, outline way t = ⟨way, t.firstPart⟩ :: rest := by
  cases t <;> exact ⟨_, rfl⟩

theorem firstPart_of_isScalar {t : Tree} (h : t.isScalar = true) : t.firstPart = .scalar t := by
  cases t with
  | list | map | tagged => cases h
  | null | flag | number | text => rfl

theorem eq_of_firstPart_eq_scalar {t u : Tree} (h : u.firstPart = .scalar t) : u = t := by
  cases u with
  | list | map | tagged => cases h
  | null | flag | number | text => exact Part.scalar.inj h

theorem firstPart_ne_close (t : Tree) : t.firstPart ≠ .close := by
  cases t <;> exact nofun

/-- Nothing else can be spelled with the same marks, whatever follows. -/
def Spelled (t : Tree) : Prop :=
  ∀ {u : Tree} {way : KeyPath} {rest rest' : List Mark}, u.hasOtherKeys = false →
    outline way t ++ rest = outline way u ++ rest' → t = u ∧ rest = rest'

theorem spelled_items {ts : List Tree} (ih : ∀ t ∈ ts, t.Spelled) :
    ∀ {us : List Tree} {way : KeyPath} {position : Nat} {rest rest' : List Mark}, (∀ u ∈ us, u.hasOtherKeys = false) →
      itemsOutline way position ts ++ ⟨way, .close⟩ :: rest = itemsOutline way position us ++ ⟨way, .close⟩ :: rest' →
      ts = us ∧ rest = rest' := by
  -- where one list ends, the other one cannot go on: no tree begins with an end
  have hend {u : Tree} {us : List Tree} {way : KeyPath} {position : Nat} {marks rest : List Mark} :
      ⟨way, .close⟩ :: marks ≠ itemsOutline way position (u :: us) ++ rest := by
    obtain ⟨below, hbelow⟩ := outline_head (way ++ [.index position]) u
    rw [itemsOutline, hbelow]
    intro h
    exact firstPart_ne_close u (Mark.mk.inj (List.cons.inj h).1).2.symm
  induction ts with
  | nil =>
    intro us way position rest rest' hus h
    cases us with
    | nil => exact ⟨rfl, (List.cons.inj h).2⟩
    | cons u us => exact absurd h hend
  | cons t ts ihts =>
    intro us way position rest rest' hus h
    cases us with
    | nil => exact absurd h.symm hend
    | cons u us =>
      obtain ⟨ht, hts⟩ := List.forall_mem_cons.1 ih
      obtain ⟨hu, hrestUs⟩ := List.forall_mem_cons.1 hus
      rw [itemsOutline, itemsOutline, List.append_assoc, List.append_assoc] at h
      obtain ⟨rfl, hbelow⟩ := ht hu h
      obtain ⟨rfl, hrest⟩ := ihts hts hrestUs hbelow
      exact ⟨rfl, hrest⟩

theorem spelled_entries {es : List (Tree × Tree)} (ih : ∀ e ∈ es, e.2.Spelled) (hes : ∀ e ∈ es, e.1.isTextKey = true) :
    ∀ {fs : List (Tree × Tree)} {way : KeyPath} {rest rest' : List Mark},
      (∀ f ∈ fs, f.1.isTextKey = true ∧ f.2.hasOtherKeys = false) →
      entriesOutline way es ++ ⟨way, .close⟩ :: rest = entriesOutline way fs ++ ⟨way, .close⟩ :: rest' →
      es = fs ∧ rest = rest' := by
  induction es with
  | nil =>
    intro fs way rest rest' hfs h
    cases fs with
    | nil => exact ⟨rfl, (List.cons.inj h).2⟩
    | cons f fs =>
      obtain ⟨k, v⟩ := f
      obtain ⟨s, rfl⟩ := isTextKey_iff.1 (hfs _ List.mem_cons_self).1
      cases (Mark.mk.inj (List.cons.inj h).1).2
  | cons e es ihes =>
    intro fs way rest rest' hfs h
    obtain ⟨k, v⟩ := e
    obtain ⟨hv, hes'⟩ := List.forall_mem_cons.1 ih
    obtain ⟨hk, hkeys⟩ := List.forall_mem_cons.1 hes
    obtain ⟨s, rfl⟩ := isTextKey_iff.1 hk
    cases fs with
    | nil => cases (Mark.mk.inj (List.cons.inj h).1).2
    | cons f fs =>
      obtain ⟨l, w⟩ := f
      obtain ⟨⟨hl, hw⟩, hrestFs⟩ := List.forall_mem_cons.1 hfs
      obtain ⟨s', rfl⟩ := isTextKey_iff.1 hl
      rw [entriesOutline, entriesOutline, List.cons_append, List.cons_append, List.append_assoc, List.append_assoc] at h
      obtain ⟨hfirst, h⟩ := List.cons.inj h
      obtain rfl := Tree.text.inj (Part.key.inj (Mark.mk.inj hfirst).2)
      obtain ⟨rfl, hbelow⟩ := hv hw h
      obtain ⟨rfl, hrest⟩ := ihes hes' hkeys hrestFs hbelow
      exact ⟨rfl, hrest⟩

theorem spelled (t : Tree) : t.hasOtherKeys = false → t.Spelled := by
  -- both trees are of the kind that the first mark tells
  have hfirst {t u : Tree} {way : KeyPath} {rest rest' : List Mark}
      (h : outline way t ++ rest = outline way u ++ rest') : t.firstPart = u.firstPart := by
    obtain ⟨below, hbelow⟩ := outline_head way t
    obtain ⟨below', hbelow'⟩ := outline_head way u
    rw [hbelow, hbelow'] at h
    exact (Mark.mk.inj (List.cons.inj h).1).2
  have hscalar {t : Tree} (ht : t.isScalar = true) : t.Spelled := by
    intro u way rest rest' _ h
    have hkind : u.firstPart = .scalar t := (hfirst h).symm.trans (firstPart_of_isScalar ht)
    obtain rfl := eq_of_firstPart_eq_scalar hkind
    exact ⟨rfl, List.append_cancel_left h⟩
  induction t using induct with
  | null | flag | number | text => exact fun _ => hscalar rfl
  | list ts ih =>
    intro hts u way rest rest' hu h
    cases u with
    | list us =>
      rw [outline, outline, List.cons_append, List.cons_append, List.append_assoc, List.append_assoc] at h
      have hbelow := (List.cons.inj h).2
      have hts := hasOtherKeys_list_eq_false.1 hts
      obtain ⟨rfl, hrest⟩ := spelled_items (fun t ht => ih t ht (hts t ht)) (hasOtherKeys_list_eq_false.1 hu) hbelow
      exact ⟨rfl, hrest⟩
    | _ => cases hfirst h
  | map es ih =>
    intro hes u way rest rest' hu h
    cases u with
    | map fs =>
      rw [outline, outline, List.cons_append, List.cons_append, List.append_assoc, List.append_assoc] at h
      have hbelow := (List.cons.inj h).2
      have hes := hasOtherKeys_map_eq_false.1 hes
      obtain ⟨rfl, hrest⟩ := spelled_entries (fun e he => (ih e he).2 (hes e he).2) (fun e he => (hes e he).1)
        (hasOtherKeys_map_eq_false.1 hu) hbelow
      exact ⟨rfl, hrest⟩
    | _ => cases hfirst h
  | tagged tag content ih =>
    intro hcontent u way rest rest' hu h
    cases u with
    | tagged tag' content' =>
      rw [outline, outline, List.cons_append, List.cons_append] at h
      obtain ⟨htag, hbelow⟩ := List.cons.inj h
      obtain rfl := Part.tag.inj (Mark.mk.inj htag).2
      have hcontent' : content'.hasOtherKeys = false := hu
      obtain ⟨rfl, hrest⟩ := ih hcontent hcontent' hbelow
      exact ⟨rfl, hrest⟩
    | _ => cases hfirst h

/-- **A tree all of whose keys are text is determined by its outline.** -/
theorem eq_of_outline {t u : Tree} (ht : t.hasOtherKeys = false) (hu : u.hasOtherKeys = false)
    (h : outline [] t = outline [] u) : t = u := by
  have happend : outline [] t ++ [] = outline [] u ++ [] := congrArg (· ++ []) h
  exact (spelled t ht hu happend).1

/-! ## Without the keys that are not text -/

theorem outline_withTextKeys (t : Tree) :
    ∀ way, outline way t.withTextKeys = (outline way t).filter fun m => !m.isOtherKey := by
  induction t using induct with
  | null | flag | number | text => exact fun _ => rfl
  | list ts ih =>
    intro way
    have hitems : ∀ position, itemsOutline way position (itemsWithTextKeys ts) =
        (itemsOutline way position ts).filter fun m => !m.isOtherKey := by
      induction ts with
      | nil => exact fun _ => rfl
      | cons t ts ihts =>
        intro position
        obtain ⟨ht, hts⟩ := List.forall_mem_cons.1 ih
        rw [itemsWithTextKeys, itemsOutline, itemsOutline, List.filter_append, ht, ihts hts]
    rw [withTextKeys, outline, outline, hitems, List.filter_cons_of_pos rfl, List.filter_append]
    rfl
  | map es ih =>
    intro way
    have hentries : entriesOutline way (entriesWithTextKeys es) =
        (entriesOutline way es).filter fun m => !m.isOtherKey := by
      induction es with
      | nil => rfl
      | cons e es ihes =>
        obtain ⟨k, v⟩ := e
        obtain ⟨⟨-, hv⟩, hes⟩ := List.forall_mem_cons.1 ih
        cases hkey : k.isTextKey with
        | true =>
          obtain ⟨s, rfl⟩ := isTextKey_iff.1 hkey
          rw [entriesWithTextKeys, entriesOutline, entriesOutline, List.filter_cons_of_pos rfl, List.filter_append,
            ← hv, ihes hes]
        | false =>
          have hgone : entriesWithTextKeys ((k, v) :: es) = entriesWithTextKeys es := by
            rw [entriesWithTextKeys_eq, entriesWithTextKeys_eq, List.filterMap_cons, entryWithTextKey, hkey]
            rfl
          rw [hgone, entriesOutline_of_other hkey, List.filter_cons_of_neg (by simp [Mark.isOtherKey, hkey]), ihes hes]
    rw [withTextKeys, outline, outline, hentries, List.filter_cons_of_pos rfl, List.filter_append]
    rfl
  | tagged tag content ih =>
    intro way
    rw [withTextKeys, outline, outline, List.filter_cons_of_pos rfl, ih]

/-- Seen from further up, the ways that are told of are those to the marks that go. -/
theorem map_otherKeyPaths (t : Tree) :
    ∀ way, t.otherKeyPaths.map (way ++ ·) = ((outline way t).filter Mark.isOtherKey).map Mark.keyPath := by
  have hstep (way : KeyPath) (step : Step) (paths : List KeyPath) :
      (paths.map (step :: ·)).map (way ++ ·) = paths.map (way ++ [step] ++ ·) := by
    rw [List.map_map]
    exact List.map_congr_left fun path _ => by simp
  induction t using induct with
  | null | flag | number | text => exact fun _ => rfl
  | list ts ih =>
    intro way
    have hitems : ∀ position, (itemsOtherKeyPaths position ts).map (way ++ ·) =
        ((itemsOutline way position ts).filter Mark.isOtherKey).map Mark.keyPath := by
      induction ts with
      | nil => exact fun _ => rfl
      | cons t ts ihts =>
        intro position
        obtain ⟨ht, hts⟩ := List.forall_mem_cons.1 ih
        rw [itemsOtherKeyPaths, itemsOutline, List.map_append, hstep, ht, ihts hts, List.filter_append, List.map_append]
    rw [otherKeyPaths, outline, hitems, List.filter_cons_of_neg Bool.false_ne_true, List.filter_append, List.map_append]
    exact (List.append_nil _).symm
  | map es ih =>
    intro way
    have hentries : (entriesOtherKeyPaths es).map (way ++ ·) =
        ((entriesOutline way es).filter Mark.isOtherKey).map Mark.keyPath := by
      induction es with
      | nil => rfl
      | cons e es ihes =>
        obtain ⟨k, v⟩ := e
        obtain ⟨⟨-, hv⟩, hes⟩ := List.forall_mem_cons.1 ih
        cases hkey : k.isTextKey with
        | true =>
          obtain ⟨s, rfl⟩ := isTextKey_iff.1 hkey
          dsimp only at hv
          rw [entriesOtherKeyPaths, entriesOutline, List.map_append, hstep, hv, ihes hes,
            List.filter_cons_of_neg Bool.false_ne_true, List.filter_append, List.map_append]
        | false =>
          have htold : entriesOtherKeyPaths ((k, v) :: es) = [.key k.label] :: entriesOtherKeyPaths es := by
            cases k with
            | text s => cases hkey
            | null | flag | number | list | map | tagged => rfl
          rw [htold, entriesOutline_of_other hkey, List.map_cons, ihes hes,
            List.filter_cons_of_pos (by simp [Mark.isOtherKey, hkey]), List.map_cons]
          rfl
    rw [otherKeyPaths, outline, hentries, List.filter_cons_of_neg Bool.false_ne_true, List.filter_append,
      List.map_append]
    exact (List.append_nil _).symm
  | tagged tag content ih =>
    intro way
    rw [otherKeyPaths, outline, hstep, ih, List.filter_cons_of_neg Bool.false_ne_true]

theorem otherKeyPaths_eq (t : Tree) :
    t.otherKeyPaths = ((outline [] t).filter Mark.isOtherKey).map Mark.keyPath := by
  rw [← map_otherKeyPaths]
  exact (List.map_id _).symm

/-- Where no key goes, nothing changes. -/
theorem withTextKeys_eq_self_iff {t : Tree} : t.withTextKeys = t ↔ t.hasOtherKeys = false := by
  refine ⟨fun h => ?_, fun h => ?_⟩
  · rw [← h]
    exact hasOtherKeys_withTextKeys t
  · refine eq_of_outline (hasOtherKeys_withTextKeys t) h ?_
    have hnil := (otherKeyPaths_eq_nil_iff t).2 h
    rw [otherKeyPaths_eq, List.map_eq_nil_iff, List.filter_eq_nil_iff] at hnil
    rw [outline_withTextKeys, List.filter_eq_self]
    exact fun m hm => by simpa using hnil m hm

/-- **Doing without the keys that are not text.** None is left, and the ways that are told of are none exactly if there
was none, which is exactly if nothing changes. What is left is the one tree without such keys whose outline is that of
the tree without the marks of these keys; the ways are those to the marks that go, one for each and in their order.
Doing so again changes nothing and tells of nothing. -/
theorem withTextKeys_exact (t : Tree) :
    t.withTextKeys.hasOtherKeys = false ∧
    (t.otherKeyPaths ≠ [] ↔ t.hasOtherKeys = true) ∧
    (t.withTextKeys = t ↔ t.hasOtherKeys = false) ∧
    (∀ u : Tree, u = t.withTextKeys ↔
      u.hasOtherKeys = false ∧ outline [] u = (outline [] t).filter fun m => !m.isOtherKey) ∧
    t.otherKeyPaths = ((outline [] t).filter Mark.isOtherKey).map Mark.keyPath ∧
    t.withTextKeys.withTextKeys = t.withTextKeys ∧ t.withTextKeys.otherKeyPaths = [] := by
  have hnone := hasOtherKeys_withTextKeys t
  refine ⟨hnone, ?_, withTextKeys_eq_self_iff, fun u => ⟨fun h => ?_, fun h => ?_⟩, otherKeyPaths_eq t,
    withTextKeys_eq_self_iff.2 hnone, (otherKeyPaths_eq_nil_iff _).2 hnone⟩
  · rw [Ne, otherKeyPaths_eq_nil_iff, Bool.not_eq_false]
  · subst h
    exact ⟨hnone, outline_withTextKeys t []⟩
  · exact eq_of_outline h.1 hnone (h.2.trans (outline_withTextKeys t []).symm)

end Provisioning.Tree
