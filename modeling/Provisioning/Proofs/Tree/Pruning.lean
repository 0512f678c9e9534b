import Provisioning.Proofs.Tree.Edit

/-!
# A document without some of its entries

`Tree.without` leaves out the entries that paths lead to and changes nothing else, not even the order.
`Tree.remove` removes one entry and moves another into its place; up to the order of the entries, this comes to the
same (`remove_reordered`).
-/

namespace Provisioning

namespace KeyPath

/-- The rest of a path that begins with the given step. -/
def after? (step : Step) : KeyPath → Option KeyPath
  | [] => none
  | s :: rest => if s = step then some rest else none

/-- The rests of the paths that begin with the given step. -/
def after (step : Step) (paths : List KeyPath) : List KeyPath := paths.filterMap (after? step)

/-- A path as seen from the content of a tag. -/
def belowTag : KeyPath → KeyPath
  | .variant :: rest => rest
  | path => path

variable {step other : Step} {path rest : KeyPath} {paths qs : List KeyPath}

theorem after_append : after step (paths ++ qs) = after step paths ++ after step qs :=
  List.filterMap_append

theorem after?_cons_self : after? step (step :: rest) = some rest := if_pos rfl

theorem after?_cons_of_ne (h : other ≠ step) : after? step (other :: rest) = none := if_neg h

theorem after?_eq_some_iff : after? step path = some rest ↔ path = step :: rest := by
  cases path with
  | nil => simp [after?]
  | cons s path =>
    by_cases h : s = step
    · subst h
      simp [after?_cons_self]
    · simp [after?_cons_of_ne h, h]

theorem after_map_cons : after step (paths.map (step :: ·)) = paths := by
  rw [after, List.filterMap_map]
  have hsome : after? step ∘ (step :: ·) = some := funext fun _ => after?_cons_self
  rw [hsome, List.filterMap_some]

theorem after_eq_nil (h : ∀ p ∈ paths, ∀ rest, p ≠ step :: rest) : after step paths = [] := by
  rw [after, List.filterMap_eq_nil_iff]
  intro p hp
  cases hp' : after? step p with
  | none => rfl
  | some rest => exact absurd (after?_eq_some_iff.1 hp') (h p hp rest)

theorem belowTag_of_ne (h : ∀ rest, path ≠ .variant :: rest) : belowTag path = path := by
  unfold belowTag
  split
  · exact absurd rfl (h _)
  · rfl

theorem map_belowTag_of_ne (h : ∀ p ∈ paths, ∀ rest, p ≠ .variant :: rest) : paths.map belowTag = paths := by
  have hid : paths.map belowTag = paths.map id :=
    List.map_congr_left fun p hp => belowTag_of_ne (h p hp)
  rw [hid, List.map_id]

theorem map_belowTag_variant : (paths.map (.variant :: ·)).map belowTag = paths := by
  rw [List.map_map]
  exact List.map_id _

end KeyPath

namespace Tree

open KeyPath

/-! ## The entries that paths lead to -/

/-- A path leads to a map entry. Each step to a key or an item looks through the tags around it; a step to
a variant's content passes exactly one tag. -/
inductive LeadsTo : KeyPath → Tree → Prop
  | here {label : String} {v : Tree} {es : List (Tree × Tree)} :
      (.text label, v) ∈ es → LeadsTo [.key label] (.map es)
  | key {label : String} {v : Tree} {es : List (Tree × Tree)} {path : KeyPath} :
      (.text label, v) ∈ es → LeadsTo path v → LeadsTo (.key label :: path) (.map es)
  | index {i : Nat} {t : Tree} {ts : List Tree} {path : KeyPath} :
      ts[i]? = some t → LeadsTo path t → LeadsTo (.index i :: path) (.list ts)
  | variant {tag : String} {content : Tree} {path : KeyPath} :
      LeadsTo path content → LeadsTo (.variant :: path) (.tagged tag content)
  | through {tag : String} {content : Tree} {path : KeyPath} :
      (∀ rest, path ≠ .variant :: rest) → LeadsTo path content → LeadsTo path (.tagged tag content)

theorem leadsTo_map {path : KeyPath} {es : List (Tree × Tree)} :
    (Tree.map es).LeadsTo path ↔
      ∃ label below v, path = .key label :: below ∧ (.text label, v) ∈ es ∧ (below = [] ∨ v.LeadsTo below) := by
  refine ⟨fun h => ?_, fun h => ?_⟩
  · cases h with
    | here hmem => exact ⟨_, [], _, rfl, hmem, .inl rfl⟩
    | key hmem hlead => exact ⟨_, _, _, rfl, hmem, .inr hlead⟩
  · obtain ⟨label, below, v, rfl, hmem, rfl | hlead⟩ := h
    · exact .here hmem
    · exact .key hmem hlead

theorem leadsTo_list {path : KeyPath} {ts : List Tree} :
    (Tree.list ts).LeadsTo path ↔ ∃ i below t, path = .index i :: below ∧ ts[i]? = some t ∧ t.LeadsTo below := by
  refine ⟨fun h => ?_, fun h => ?_⟩
  · cases h with
    | index ht hlead => exact ⟨_, _, _, rfl, ht, hlead⟩
  · obtain ⟨i, below, t, rfl, ht, hlead⟩ := h
    exact .index ht hlead

theorem leadsTo_tagged {path : KeyPath} {tag : String} {content : Tree} :
    (Tree.tagged tag content).LeadsTo path ↔ content.LeadsTo (belowTag path) := by
  refine ⟨fun h => ?_, fun h => ?_⟩
  · cases h with
    | variant hlead => exact hlead
    | through hne hlead => exact (belowTag_of_ne hne).symm ▸ hlead
  · by_cases hvariant : ∃ below, path = .variant :: below
    · obtain ⟨below, rfl⟩ := hvariant
      exact .variant h
    · have hne : ∀ below, path ≠ .variant :: below := fun below hpath => hvariant ⟨below, hpath⟩
      exact .through hne (belowTag_of_ne hne ▸ h)

mutual

/-- The tree without the entries that the paths lead to. -/
def without (paths : List KeyPath) : Tree → Tree
  | .list items => .list (itemsWithout paths 0 items)
  | .map entries => .map (entriesWithout paths entries)
  | .tagged tag content => .tagged tag (without (paths.map belowTag) content)
  | t => t

/-- The items without such entries, the first item standing at a position. -/
def itemsWithout (paths : List KeyPath) (position : Nat) : List Tree → List Tree
  | [] => []
  | t :: ts => without (after (.index position) paths) t :: itemsWithout paths (position + 1) ts

/-- The entries but those that the paths lead to: those whose key ends a path are left out. -/
def entriesWithout (paths : List KeyPath) : List (Tree × Tree) → List (Tree × Tree)
  | [] => []
  | (.text s, v) :: es =>
    if [] ∈ after (.key s) paths then entriesWithout paths es
    else (.text s, without (after (.key s) paths) v) :: entriesWithout paths es
  | (k, v) :: es => (k, v) :: entriesWithout paths es

end

/-- What is left of a single entry. -/
def entryWithout (paths : List KeyPath) : Tree × Tree → Option (Tree × Tree)
  | (.text s, v) =>
    if [] ∈ after (.key s) paths then none else some (.text s, without (after (.key s) paths) v)
  | (k, v) => some (k, v)

theorem entriesWithout_eq (paths : List KeyPath) (es : List (Tree × Tree)) :
    entriesWithout paths es = es.filterMap (entryWithout paths) := by
  induction es with
  | nil => rfl
  | cons e es ih =>
    obtain ⟨k, v⟩ := e
    cases k with
    | text s =>
      rw [entriesWithout, ih, List.filterMap_cons, entryWithout]
      split <;> rfl
    | _ => rw [entriesWithout, ih, List.filterMap_cons, entryWithout] <;> simp

theorem entryWithout_of_not_isTextKey {paths : List KeyPath} {k v : Tree} (h : k.isTextKey = false) :
    entryWithout paths (k, v) = some (k, v) := by
  cases k with
  | text s => exact Bool.noConfusion h
  | _ => rfl

theorem itemsWithout_append (paths : List KeyPath) (ts us : List Tree) :
    ∀ position, itemsWithout paths position (ts ++ us) =
      itemsWithout paths position ts ++ itemsWithout paths (position + ts.length) us := by
  induction ts with
  | nil => exact fun _ => rfl
  | cons t ts ih =>
    intro position
    rw [List.cons_append, itemsWithout, ih, itemsWithout, List.length_cons, List.cons_append]
    rw [Nat.add_right_comm, Nat.add_assoc]

theorem entriesWithout_append (paths : List KeyPath) (es fs : List (Tree × Tree)) :
    entriesWithout paths (es ++ fs) = entriesWithout paths es ++ entriesWithout paths fs := by
  simp only [entriesWithout_eq, List.filterMap_append]

theorem itemsWithout_eq_self {paths : List KeyPath} {ts : List Tree}
    (h : ∀ i, ∀ t ∈ ts, without (after (.index i) paths) t = t) :
    ∀ position, itemsWithout paths position ts = ts := by
  induction ts with
  | nil => exact fun _ => rfl
  | cons t ts ih =>
    intro position
    rw [itemsWithout, h position t List.mem_cons_self, ih fun i u hu => h i u (List.mem_cons_of_mem _ hu)]

theorem entriesWithout_eq_self {paths : List KeyPath} {es : List (Tree × Tree)}
    (h : ∀ e ∈ es, ∀ s, e.1 = .text s → [] ∉ after (.key s) paths ∧ without (after (.key s) paths) e.2 = e.2) :
    entriesWithout paths es = es := by
  have hsome : es.filterMap (entryWithout paths) = es.filterMap some := List.filterMap_congr fun e he => by
    obtain ⟨k, v⟩ := e
    cases k with
    | text s =>
      obtain ⟨hend, hv⟩ := h _ he s rfl
      rw [entryWithout, if_neg hend, hv]
    | _ => rfl
  rw [entriesWithout_eq, hsome, List.filterMap_some]

/-- Paths that end where they begin lead to no entry. -/
theorem without_of_forall_nil (t : Tree) :
    ∀ paths : List KeyPath, (∀ p ∈ paths, p = []) → t.without paths = t := by
  have hafter {paths : List KeyPath} (step : Step) (h : ∀ p ∈ paths, p = []) : after step paths = [] :=
    after_eq_nil fun p hp rest hrest => by
      rw [h p hp] at hrest
      cases hrest
  induction t using induct with
  | null | flag | number | text => exact fun _ _ => rfl
  | list ts ih =>
    intro paths h
    rw [without, itemsWithout_eq_self fun i t ht => ?_]
    rw [hafter _ h]
    exact ih t ht [] (by simp)
  | map es ih =>
    intro paths h
    rw [without, entriesWithout_eq_self fun e he s hs => ?_]
    rw [hafter _ h]
    exact ⟨by simp, (ih e he).2 [] (by simp)⟩
  | tagged tag content ih =>
    intro paths h
    rw [without, ih]
    intro p hp
    obtain ⟨q, hq, rfl⟩ := List.mem_map.1 hp
    rw [h q hq]
    rfl

theorem without_nil (t : Tree) : t.without [] = t := without_of_forall_nil t [] (by simp)

/-- Only paths that begin with an item change a list. -/
theorem without_list_eq_self {paths : List KeyPath} (ts : List Tree)
    (h : ∀ i, ∀ p ∈ paths, ∀ rest, p ≠ .index i :: rest) : (Tree.list ts).without paths = .list ts := by
  rw [without, itemsWithout_eq_self fun i t _ => ?_]
  rw [after_eq_nil (h i), without_nil]

/-- Only paths that begin with a key change a map. -/
theorem without_map_eq_self {paths : List KeyPath} (es : List (Tree × Tree))
    (h : ∀ label, ∀ p ∈ paths, ∀ rest, p ≠ .key label :: rest) : (Tree.map es).without paths = .map es := by
  rw [without, entriesWithout_eq_self fun e _ s _ => ?_]
  rw [after_eq_nil (h s)]
  exact ⟨List.not_mem_nil, without_nil _⟩

/-- Two lots of paths are left out one after the other. -/
theorem without_append (t : Tree) :
    ∀ paths qs : List KeyPath, t.without (paths ++ qs) = (t.without paths).without qs := by
  induction t using induct with
  | null | flag | number | text => exact fun _ _ => rfl
  | list ts ih =>
    intro paths qs
    have hitems : ∀ position,
        itemsWithout (paths ++ qs) position ts = itemsWithout qs position (itemsWithout paths position ts) := by
      induction ts with
      | nil => exact fun _ => rfl
      | cons t ts ihts =>
        intro position
        rw [itemsWithout, after_append, ih t List.mem_cons_self,
          ihts (fun u hu => ih u (List.mem_cons_of_mem _ hu)), itemsWithout, itemsWithout]
    rw [without, hitems, without, without]
  | map es ih =>
    intro paths qs
    have hentries : entriesWithout (paths ++ qs) es = entriesWithout qs (entriesWithout paths es) := by
      rw [entriesWithout_eq, entriesWithout_eq, entriesWithout_eq, List.filterMap_filterMap]
      refine List.filterMap_congr fun e he => ?_
      obtain ⟨k, v⟩ := e
      cases k with
      | text s =>
        rw [entryWithout, entryWithout, after_append, (ih _ he).2]
        by_cases hfirst : [] ∈ after (.key s) paths
        · rw [if_pos (List.mem_append_left _ hfirst), if_pos hfirst]
          rfl
        · rw [if_neg hfirst]
          by_cases hsecond : [] ∈ after (.key s) qs
          · rw [if_pos (List.mem_append_right _ hsecond)]
            exact (if_pos hsecond).symm
          · rw [if_neg (by simp [hfirst, hsecond])]
            exact (if_neg hsecond).symm
      | _ => rfl
    rw [without, hentries, without, without]
  | tagged tag content ih =>
    intro paths qs
    rw [without, List.map_append, ih, without, without]

/-! ## What stays -/

theorem forall_mem_itemsWithout {p : Tree → Prop} {paths : List KeyPath} {ts : List Tree}
    (h : ∀ t ∈ ts, ∀ qs, p (t.without qs)) : ∀ position, ∀ t ∈ itemsWithout paths position ts, p t := by
  induction ts with
  | nil => exact fun _ t ht => absurd ht List.not_mem_nil
  | cons t ts ih =>
    intro position
    rw [itemsWithout, List.forall_mem_cons]
    exact ⟨h t List.mem_cons_self _, ih (fun u hu => h u (List.mem_cons_of_mem _ hu)) _⟩

/-- An entry that stays has its key, and its value less what is left out below. -/
theorem exists_of_mem_entriesWithout {paths : List KeyPath} {es : List (Tree × Tree)} {f : Tree × Tree}
    (h : f ∈ entriesWithout paths es) : ∃ e ∈ es, f.1 = e.1 ∧ (f.2 = e.2 ∨ ∃ qs, f.2 = e.2.without qs) := by
  rw [entriesWithout_eq, List.mem_filterMap] at h
  obtain ⟨e, he, hf⟩ := h
  refine ⟨e, he, ?_⟩
  obtain ⟨k, v⟩ := e
  cases k with
  | text s =>
    rw [entryWithout] at hf
    split at hf
    · cases hf
    · obtain rfl := Option.some.inj hf
      exact ⟨rfl, .inr ⟨_, rfl⟩⟩
  | _ =>
    obtain rfl := Option.some.inj hf
    exact ⟨rfl, .inl rfl⟩

theorem map_fst_entriesWithout_sublist (paths : List KeyPath) (es : List (Tree × Tree)) :
    ((entriesWithout paths es).map (·.1)).Sublist (es.map (·.1)) := by
  induction es with
  | nil => exact .slnil
  | cons e es ih =>
    obtain ⟨k, v⟩ := e
    cases k with
    | text s =>
      rw [entriesWithout]
      split
      · exact ih.cons _
      · exact ih.cons_cons _
    | _ => exact ih.cons_cons _

/-- A plain document stays plain. -/
theorem Plain.without {t : Tree} (h : t.Plain) : ∀ paths : List KeyPath, (t.without paths).Plain := by
  induction t using induct with
  | null | flag | number | text => exact fun _ => h
  | list ts ih =>
    intro paths
    exact plain_list.2 (forall_mem_itemsWithout (fun t ht => ih t ht (plain_list.1 h t ht)) 0)
  | map es ih =>
    intro paths
    obtain ⟨htexts, hnodup, hvalues⟩ := plain_map.1 h
    refine plain_map.2 ⟨fun f hf => ?_, hnodup.sublist (map_fst_entriesWithout_sublist paths es),
      fun f hf => ?_⟩
    · obtain ⟨e, he, hkey, -⟩ := exists_of_mem_entriesWithout hf
      rw [hkey]
      exact htexts e he
    · obtain ⟨e, he, -, hvalue⟩ := exists_of_mem_entriesWithout hf
      rcases hvalue with hvalue | ⟨qs, hvalue⟩
      · rw [hvalue]
        exact hvalues e he
      · rw [hvalue]
        exact (ih e he).2 (hvalues e he) qs
  | tagged tag content ih =>
    intro paths
    obtain ⟨hrole, hcontent⟩ := plain_tagged.1 h
    exact plain_tagged.2 ⟨hrole, ih hcontent _⟩

/-! ## Removing one entry -/

/-- None of the entries has the given text as its key. -/
def Lacks (label : String) (es : List (Tree × Tree)) : Prop := ∀ e ∈ es, e.1.isText label = false

theorem isText_iff {s : String} {k : Tree} : k.isText s = true ↔ k = .text s := by
  cases k <;> simp [isText]

theorem lacks_iff {label : String} {es : List (Tree × Tree)} : Lacks label es ↔ ∀ e ∈ es, e.1 ≠ .text label :=
  forall₂_congr fun _ _ => by rw [← Bool.not_eq_true, isText_iff]

/-- What stands around a text key has other keys. -/
theorem DistinctKeys.lacks_of_split {label : String} {v : Tree} {front rest : List (Tree × Tree)}
    (h : (Tree.map (front ++ (.text label, v) :: rest)).DistinctKeys) : Lacks label front ∧ Lacks label rest := by
  have hself : (Tree.text label).same (.text label) = true := by simp [same]
  obtain ⟨-, hother, hfront⟩ := List.pairwise_append.1 (distinctKeys_map.1 h).1
  have hrest := (List.pairwise_cons.1 hother).1
  refine ⟨lacks_iff.2 fun e he hkey => ?_, lacks_iff.2 fun e he hkey => ?_⟩
  · have hne := hfront e he _ List.mem_cons_self
    rw [hkey, hself] at hne
    exact Bool.noConfusion hne
  · have hne := hrest e he
    rw [hkey, hself] at hne
    exact Bool.noConfusion hne

/-- A text key stands at one place of a map, or nowhere. -/
theorem DistinctKeys.lacks_or_split {es : List (Tree × Tree)} (h : (Tree.map es).DistinctKeys) (label : String) :
    Lacks label es ∨ ∃ front v rest, es = front ++ (.text label, v) :: rest ∧ Lacks label front ∧ Lacks label rest := by
  by_cases hmem : ∃ v, (.text label, v) ∈ es
  · obtain ⟨v, hv⟩ := hmem
    obtain ⟨front, rest, rfl⟩ := List.append_of_mem hv
    exact .inr ⟨front, v, rest, rfl, h.lacks_of_split⟩
  · refine .inl (lacks_iff.2 fun e he hkey => hmem ⟨e.2, ?_⟩)
    rw [← hkey]
    exact he

theorem erase_of_lacks {label : String} {es : List (Tree × Tree)} (h : Lacks label es) :
    erase label es = es := by
  have hnone : es.findIdx? (fun e => e.1.isText label) = none := List.findIdx?_eq_none_iff.2 h
  rw [erase, hnone]

theorem findIdx?_split {label : String} {front rest : List (Tree × Tree)} (v : Tree) (h : Lacks label front) :
    (front ++ (.text label, v) :: rest).findIdx? (fun e => e.1.isText label) = some front.length := by
  rw [List.findIdx?_append, List.findIdx?_eq_none_iff.2 h, List.findIdx?_cons, isText_iff.2 rfl]
  simp

theorem erase_last {label : String} {front : List (Tree × Tree)} (v : Tree) (h : Lacks label front) :
    erase label (front ++ [(.text label, v)]) = front := by
  rw [erase, findIdx?_split v h, List.getLast?_concat]
  simp

/-- The last entry takes the place of the removed one. -/
theorem erase_before_last {label : String} {front rest : List (Tree × Tree)} (v : Tree) (last : Tree × Tree)
    (h : Lacks label front) :
    erase label (front ++ (.text label, v) :: (rest ++ [last])) = front ++ last :: rest := by
  have hlast : (front ++ (.text label, v) :: (rest ++ [last])).getLast? = some last := by
    rw [← List.cons_append, ← List.append_assoc, List.getLast?_concat]
  have hset : (front ++ (.text label, v) :: (rest ++ [last])).set front.length last =
      (front ++ last :: rest) ++ [last] := by simp
  rw [erase, findIdx?_split v h, hlast]
  dsimp only
  rw [hset, List.dropLast_concat]

/-- The others stay, in whatever order. -/
theorem erase_perm {label : String} {front rest : List (Tree × Tree)} (v : Tree) (h : Lacks label front) :
    (erase label (front ++ (.text label, v) :: rest)).Perm (front ++ rest) := by
  rcases List.eq_nil_or_concat rest with rfl | ⟨rest, last, rfl⟩
  · rw [erase_last v h, List.append_nil]
  · rw [List.concat_eq_append, erase_before_last v last h]
    exact (List.perm_append_singleton last rest).symm.append_left front

theorem adjust_of_lacks {label : String} {f : Tree → Tree} {es : List (Tree × Tree)} (h : Lacks label es) :
    adjust label f es = es := by
  induction es with
  | nil => rfl
  | cons e rest ih =>
    obtain ⟨hfirst, hrest⟩ := List.forall_mem_cons.1 h
    rw [adjust, if_neg (by rw [hfirst]; decide), ih hrest]

theorem adjust_split {label : String} {f : Tree → Tree} {front rest : List (Tree × Tree)} {v : Tree}
    (h : Lacks label front) :
    adjust label f (front ++ (.text label, v) :: rest) = front ++ (.text label, f v) :: rest := by
  induction front with
  | nil => rw [List.nil_append, adjust, if_pos (isText_iff.2 rfl), List.nil_append]
  | cons e front ih =>
    obtain ⟨hfirst, hfront⟩ := List.forall_mem_cons.1 h
    rw [List.cons_append, adjust, if_neg (by rw [hfirst]; decide), ih hfront, List.cons_append]

theorem entriesWithout_of_lacks {label : String} {path : KeyPath} {es : List (Tree × Tree)}
    (h : Lacks label es) : entriesWithout [.key label :: path] es = es := by
  refine entriesWithout_eq_self fun e he s hs => ?_
  have hne : ∀ p ∈ [Step.key label :: path], ∀ rest, p ≠ .key s :: rest := by
    intro p hp rest hrest
    rw [List.mem_singleton.1 hp] at hrest
    obtain ⟨hlabel, -⟩ := List.cons.inj hrest
    exact lacks_iff.1 h e he (by rw [hs, Step.key.inj hlabel])
  rw [after_eq_nil hne]
  exact ⟨List.not_mem_nil, without_nil _⟩

theorem remove_key_map (label : String) (es : List (Tree × Tree)) :
    (Tree.map es).remove [.key label] = .map (erase label es) := rfl

theorem remove_key_cons_map (label : String) (step : Step) (path : KeyPath) (es : List (Tree × Tree)) :
    (Tree.map es).remove (.key label :: step :: path) = .map (adjust label (remove (step :: path)) es) := rfl

/-- A path to a key that is not there changes nothing. -/
theorem remove_key_of_lacks {label : String} {es : List (Tree × Tree)} (h : Lacks label es) (path : KeyPath) :
    (Tree.map es).remove (.key label :: path) = .map es := by
  cases path with
  | nil => rw [remove_key_map, erase_of_lacks h]
  | cons step path => rw [remove_key_cons_map, adjust_of_lacks h]

theorem remove_index_list (i : Nat) (path : KeyPath) (ts : List Tree) :
    (Tree.list ts).remove (.index i :: path) = .list (ts.modify i (remove path)) := rfl

/-- An item stands at a position, or the list ends before it. -/
theorem length_le_or_split (ts : List Tree) (i : Nat) :
    ts.length ≤ i ∨ ∃ front t rest, ts = front ++ t :: rest ∧ front.length = i := by
  refine (Nat.lt_or_ge i ts.length).symm.imp_right fun hi => ?_
  exact ⟨ts.take i, ts[i], ts.drop (i + 1), by simp, by simp; omega⟩

theorem modify_split (f : Tree → Tree) (front rest : List Tree) (t : Tree) :
    (front ++ t :: rest).modify front.length f = front ++ f t :: rest := by
  simp [List.modify_eq_take_cons_drop]

theorem remove_map_reordered {label : String} {path : KeyPath} {es : List (Tree × Tree)}
    (hkeys : (Tree.map es).DistinctKeys)
    (ih : ∀ {t : Tree}, t.DistinctKeys → Reordered (t.remove path) (t.without [path])) :
    Reordered ((Tree.map es).remove (.key label :: path)) ((Tree.map es).without [.key label :: path]) := by
  have hafter : after (.key label) [Step.key label :: path] = [path] := @after_map_cons _ [path]
  rcases hkeys.lacks_or_split label with hlacks | ⟨front, v, rest, rfl, hfront, hrest⟩
  · rw [without, entriesWithout_of_lacks hlacks, remove_key_of_lacks hlacks]
    exact .refl _
  · rw [without, entriesWithout_append, entriesWithout_of_lacks hfront, entriesWithout, hafter,
      entriesWithout_of_lacks hrest]
    cases path with
    | nil =>
      rw [remove_key_map, if_pos List.mem_cons_self]
      exact .map (erase_perm v hfront)
    | cons step path =>
      rw [remove_key_cons_map, adjust_split hfront, if_neg (by simp)]
      have hv := ((distinctKeys_map.1 hkeys).2 _ (List.mem_append_right _ List.mem_cons_self)).2
      exact .value front rest _ (ih hv)

theorem remove_list_reordered {i : Nat} {path : KeyPath} {ts : List Tree} (hkeys : (Tree.list ts).DistinctKeys)
    (ih : ∀ {t : Tree}, t.DistinctKeys → Reordered (t.remove path) (t.without [path])) :
    Reordered ((Tree.list ts).remove (.index i :: path)) ((Tree.list ts).without [.index i :: path]) := by
  have hother (us : List Tree) (position : Nat) (hne : i < position ∨ position + us.length ≤ i) :
      itemsWithout [.index i :: path] position us = us := by
    induction us generalizing position with
    | nil => rfl
    | cons u us ihus =>
      rw [List.length_cons] at hne
      have hafter : after (.index position) [Step.index i :: path] = [] := by
        refine after_eq_nil fun p hp rest hrest => ?_
        rw [List.mem_singleton.1 hp] at hrest
        have := Step.index.inj (List.cons.inj hrest).1
        omega
      rw [itemsWithout, hafter, without_nil, ihus (position + 1) (by omega)]
  rw [remove_index_list, without]
  rcases length_le_or_split ts i with hlen | ⟨front, t, rest, rfl, rfl⟩
  · rw [hother ts 0 (by omega), List.modify_eq_self hlen]
    exact .refl _
  · have hafter : after (.index front.length) [Step.index front.length :: path] = [path] :=
      @after_map_cons _ [path]
    rw [itemsWithout_append, Nat.zero_add, hother front 0 (by omega), itemsWithout, hafter,
      hother rest _ (by omega), modify_split]
    exact .item front rest (ih (distinctKeys_list.1 hkeys t (by simp)))

/-- **Removing one entry.** Up to the order of the entries, a removal leaves out what the path leads to. -/
theorem remove_reordered (path : KeyPath) :
    ∀ {t : Tree}, t.DistinctKeys → Reordered (t.remove path) (t.without [path]) := by
  induction path with
  | nil =>
    intro t _
    rw [without_of_forall_nil t [[]] (by simp)]
    exact .refl t
  | cons step path ih =>
    intro t hkeys
    cases step with
    | key label =>
      induction t using induct with
      | map es _ => exact remove_map_reordered hkeys ih
      | null | flag | number | text => cases path <;> exact .refl _
      | list ts _ =>
        rw [without_list_eq_self ts (by simp)]
        cases path <;> exact .refl _
      | tagged tag content iht =>
        have hbelow : [Step.key label :: path].map belowTag = [Step.key label :: path] := rfl
        rw [without, hbelow]
        have hcontent := (iht (distinctKeys_tagged.1 hkeys)).tagged tag
        cases path <;> exact hcontent
    | index i =>
      induction t using induct with
      | list ts _ => exact remove_list_reordered hkeys ih
      | null | flag | number | text => exact .refl _
      | map es _ =>
        rw [without_map_eq_self es (by simp)]
        exact .refl _
      | tagged tag content iht => exact (iht (distinctKeys_tagged.1 hkeys)).tagged tag
    | variant =>
      cases t with
      | null | flag | number | text => exact .refl _
      | list ts =>
        rw [without_list_eq_self ts (by simp)]
        exact .refl _
      | map es =>
        rw [without_map_eq_self es (by simp)]
        exact .refl _
      | tagged tag content => exact (ih (distinctKeys_tagged.1 hkeys)).tagged tag

/-! ## Removing all of them -/

theorem Edit.without {t u : Tree} (h : Edit List.Perm t u) :
    ∀ paths : List KeyPath, Reordered (t.without paths) (u.without paths) := by
  induction h with
  | map hes =>
    intro paths
    rw [Tree.without, Tree.without, entriesWithout_eq, entriesWithout_eq]
    exact .map (hes.filterMap _)
  | item front rest _ ih =>
    intro paths
    rw [Tree.without, Tree.without, itemsWithout_append, itemsWithout_append, itemsWithout, itemsWithout]
    exact .item _ _ (ih _)
  | key front rest v hk _ =>
    intro paths
    have hkeys := hk.isTextKey_eq_false
    rw [Tree.without, Tree.without, entriesWithout_append, entriesWithout_append, entriesWithout_eq _ (_ :: _),
      entriesWithout_eq _ (_ :: _), List.filterMap_cons, List.filterMap_cons,
      entryWithout_of_not_isTextKey hkeys.1, entryWithout_of_not_isTextKey hkeys.2]
    exact .single (.key _ _ v hk)
  | value front rest k hv ih =>
    intro paths
    rw [Tree.without, Tree.without, entriesWithout_append, entriesWithout_append]
    cases hk : k.isTextKey with
    | true =>
      obtain ⟨s, rfl⟩ := isTextKey_iff.1 hk
      rw [entriesWithout, entriesWithout]
      split
      · exact .refl _
      · exact .value _ _ _ (ih _)
    | false =>
      rw [entriesWithout_eq _ (_ :: _), entriesWithout_eq _ (_ :: _), List.filterMap_cons, List.filterMap_cons,
        entryWithout_of_not_isTextKey hk, entryWithout_of_not_isTextKey hk]
      exact .single (.value _ _ k hv)
  | tagged tag _ ih => exact fun paths => (ih _).tagged tag

theorem Reordered.without {t u : Tree} (h : Reordered t u) (paths : List KeyPath) :
    Reordered (t.without paths) (u.without paths) := by
  induction h with
  | refl => exact .refl _
  | tail _ hlast ih => exact ih.trans (hlast.without paths)

end Tree

end Provisioning
