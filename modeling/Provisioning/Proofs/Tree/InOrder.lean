import Mathlib.Data.List.TakeWhile
import Provisioning.Proofs.Tree.Order

/-!
# Dropping entries and keeping the others in order

A document is trimmed if entries are left out of its maps and nothing else changes (`Tree.Trims`). Doing without the
keys that are not text trims it, since each map is made anew. A removal need not: it moves the last entry of a map
into the gap. What is moved there and back again cannot be seen if it is dropped itself, or if it is the only entry
behind the first gap that stays. So where the dropped entries stand last, with at most one other behind them, removing
them one after the other trims the document as well (`removeAll_eq_without`).
-/

namespace Provisioning

namespace KeyPath

variable {step other : Step} {path : KeyPath} {paths : List KeyPath}

theorem after_cons_self : after step ((step :: path) :: paths) = path :: after step paths :=
  List.filterMap_cons_some after?_cons_self

theorem after_cons_of_ne (h : other ≠ step) : after step ((other :: path) :: paths) = after step paths :=
  List.filterMap_cons_none (after?_cons_of_ne h)

end KeyPath

namespace Tree

open KeyPath

/-! ## Leaving out entries -/

mutual

/-- The second tree is the first one without some entries of its maps, the others standing as before. The maps are
reached through values. -/
inductive Trims : Tree → Tree → Prop
  | same (t : Tree) : Trims t t
  | list {ts us : List Tree} : TrimsItems ts us → Trims (.list ts) (.list us)
  | map {es fs : List (Tree × Tree)} : TrimsEntries es fs → Trims (.map es) (.map fs)
  | tagged {t u : Tree} (tag : String) : Trims t u → Trims (.tagged tag t) (.tagged tag u)

/-- All items stay, and each is trimmed. -/
inductive TrimsItems : List Tree → List Tree → Prop
  | nil : TrimsItems [] []
  | cons {t u : Tree} {ts us : List Tree} : Trims t u → TrimsItems ts us → TrimsItems (t :: ts) (u :: us)

/-- Some entries are dropped, and the values of the others are trimmed. -/
inductive TrimsEntries : List (Tree × Tree) → List (Tree × Tree) → Prop
  | nil : TrimsEntries [] []
  | drop {es fs : List (Tree × Tree)} (e : Tree × Tree) : TrimsEntries es fs → TrimsEntries (e :: es) fs
  | keep {v w : Tree} {es fs : List (Tree × Tree)} (k : Tree) :
      Trims v w → TrimsEntries es fs → TrimsEntries ((k, v) :: es) ((k, w) :: fs)

end

variable {t u : Tree}

theorem trims_withTextKeys (t : Tree) : Trims t t.withTextKeys := by
  induction t using induct with
  | null | flag | number | text => exact .same _
  | list ts ih =>
    rw [withTextKeys]
    refine .list ?_
    induction ts with
    | nil => exact .nil
    | cons t ts ihts =>
      obtain ⟨ht, hts⟩ := List.forall_mem_cons.1 ih
      exact .cons ht (ihts hts)
  | map es ih =>
    rw [withTextKeys, entriesWithTextKeys_eq]
    refine .map ?_
    induction es with
    | nil => exact .nil
    | cons e es ihes =>
      obtain ⟨he, hes⟩ := List.forall_mem_cons.1 ih
      rw [List.filterMap_cons, entryWithTextKey]
      cases e.1.isTextKey with
      | true => exact .keep e.1 he.2 (ihes hes)
      | false => exact .drop e (ihes hes)
  | tagged tag content ih => exact ih.tagged tag

theorem trimsItems_without {ts : List Tree} (ih : ∀ t ∈ ts, ∀ paths, Trims t (t.without paths)) (paths : List KeyPath) :
    ∀ position, TrimsItems ts (itemsWithout paths position ts) := by
  induction ts with
  | nil => exact fun _ => .nil
  | cons t ts ihts =>
    intro position
    obtain ⟨ht, hts⟩ := List.forall_mem_cons.1 ih
    exact .cons (ht _) (ihts hts _)

theorem trimsEntries_without {es : List (Tree × Tree)} (ih : ∀ e ∈ es, ∀ paths, Trims e.2 (e.2.without paths))
    (paths : List KeyPath) : TrimsEntries es (entriesWithout paths es) := by
  rw [entriesWithout_eq]
  induction es with
  | nil => exact .nil
  | cons e es ihes =>
    obtain ⟨k, v⟩ := e
    obtain ⟨hv, hes⟩ := List.forall_mem_cons.1 ih
    have hrest := ihes hes
    rw [List.filterMap_cons]
    cases k with
    | text s =>
      rw [entryWithout]
      split_ifs with hdropped
      · exact .drop _ hrest
      · exact .keep _ (hv _) hrest
    | _ => exact .keep _ (.same v) hrest

theorem trims_without (t : Tree) : ∀ paths, Trims t (t.without paths) := by
  induction t using induct with
  | null | flag | number | text => exact fun _ => .same _
  | list ts ih => exact fun paths => .list (trimsItems_without ih paths 0)
  | map es ih => exact fun paths => .map (trimsEntries_without (fun e he => (ih e he).2) paths)
  | tagged tag content ih => exact fun paths => (ih _).tagged tag

mutual

/-- What is trimmed twice is trimmed. -/
theorem Trims.trans {t u w : Tree} : Trims t u → Trims u w → Trims t w
  | .same _, h' => h'
  | .list h, .same _ => .list h
  | .list h, .list h' => .list (h.trans h')
  | .map h, .same _ => .map h
  | .map h, .map h' => .map (h.trans h')
  | .tagged tag h, .same _ => .tagged tag h
  | .tagged tag h, .tagged _ h' => .tagged tag (h.trans h')

theorem TrimsItems.trans {ts us ws : List Tree} : TrimsItems ts us → TrimsItems us ws → TrimsItems ts ws
  | .nil, .nil => .nil
  | .cons h hs, .cons h' hs' => .cons (h.trans h') (hs.trans hs')

theorem TrimsEntries.trans {es fs gs : List (Tree × Tree)} :
    TrimsEntries es fs → TrimsEntries fs gs → TrimsEntries es gs
  | .nil, .nil => .nil
  | .drop e h, h' => .drop e (h.trans h')
  | .keep _ _ hs, .drop _ hs' => .drop _ (hs.trans hs')
  | .keep k h hs, .keep _ h' hs' => .keep k (h.trans h') (hs.trans hs')

end

theorem TrimsEntries.refl : ∀ es : List (Tree × Tree), TrimsEntries es es
  | [] => .nil
  | (k, v) :: es => .keep k (.same v) (.refl es)

theorem Trims.entries {es fs : List (Tree × Tree)} (h : Trims (.map es) (.map fs)) : TrimsEntries es fs := by
  cases h with
  | same => exact .refl es
  | map h => exact h

/-- The keys that stay keep their order. -/
theorem TrimsEntries.keys_sublist {fs : List (Tree × Tree)} : ∀ {es : List (Tree × Tree)}, TrimsEntries es fs →
    (fs.map (·.1)).Sublist (es.map (·.1))
  | _, .nil => .slnil
  | _, .drop _ h => h.keys_sublist.cons _
  | _, .keep _ _ h => h.keys_sublist.cons_cons _

/-! ## Dropped entries that stand last -/

/-- Whether an entry with this key stays when the paths are removed. -/
def keyStays (paths : List KeyPath) : Tree → Bool
  | .text s => !(after (.key s) paths).contains []
  | _ => true

theorem keyStays_text {paths : List KeyPath} {s : String} :
    keyStays paths (.text s) = true ↔ [] ∉ after (.key s) paths := by
  rw [keyStays, Bool.not_eq_true', ← Bool.not_eq_true, List.contains_iff_mem]

/-- Whether of the keys behind the first one dropped at most one stays. -/
def dropsLast (paths : List KeyPath) (keys : List Tree) : Bool :=
  decide ((keys.dropWhile (keyStays paths)).countP (keyStays paths) ≤ 1)

mutual

/-- Whether in each map the entries that the paths lead to stand last, with at most one other behind the first. -/
def droppedLast (paths : List KeyPath) : Tree → Bool
  | .list items => itemsDroppedLast paths 0 items
  | .map entries => dropsLast paths (entries.map (·.1)) && entriesDroppedLast paths entries
  | .tagged _ content => droppedLast (paths.map belowTag) content
  | _ => true

/-- The same for the items of a list from a position on. -/
def itemsDroppedLast (paths : List KeyPath) (position : Nat) : List Tree → Bool
  | [] => true
  | t :: ts => droppedLast (after (.index position) paths) t && itemsDroppedLast paths (position + 1) ts

/-- The same for the values of entries. -/
def entriesDroppedLast (paths : List KeyPath) : List (Tree × Tree) → Bool
  | [] => true
  | (.text s, v) :: es => droppedLast (after (.key s) paths) v && entriesDroppedLast paths es
  | _ :: es => entriesDroppedLast paths es

end

theorem dropsLast_iff {paths : List KeyPath} {keys : List Tree} :
    dropsLast paths keys = true ↔ ∃ front rest, keys = front ++ rest ∧ (∀ k ∈ front, keyStays paths k = true) ∧
      rest.countP (keyStays paths) ≤ 1 := by
  rw [dropsLast, decide_eq_true_iff]
  refine ⟨fun h => ?_, fun h => ?_⟩
  · exact ⟨_, _, List.takeWhile_append_dropWhile.symm, fun k hk => List.mem_takeWhile_imp hk, h⟩
  · obtain ⟨front, rest, rfl, hfront, hrest⟩ := h
    rw [List.dropWhile_append_of_pos hfront]
    exact Nat.le_trans (List.dropWhile_sublist _).countP_le hrest

theorem dropsLast_congr {paths qs : List KeyPath} {keys : List Tree}
    (h : ∀ k ∈ keys, keyStays paths k = keyStays qs k) (hlast : dropsLast paths keys = true) :
    dropsLast qs keys = true := by
  obtain ⟨front, rest, rfl, hfront, hrest⟩ := dropsLast_iff.1 hlast
  obtain ⟨hkeys, hkeys'⟩ := List.forall_mem_append.1 h
  refine dropsLast_iff.2 ⟨front, rest, rfl, fun k hk => hkeys k hk ▸ hfront k hk, ?_⟩
  rwa [List.countP_congr fun k hk => by rw [← hkeys' k hk]]

theorem entriesDroppedLast_iff {paths : List KeyPath} {es : List (Tree × Tree)} :
    entriesDroppedLast paths es = true ↔
      ∀ s v, (.text s, v) ∈ es → v.droppedLast (after (.key s) paths) = true := by
  induction es with
  | nil => simp [entriesDroppedLast]
  | cons e es ih =>
    obtain ⟨k, v⟩ := e
    cases k with
    | text s =>
      rw [entriesDroppedLast, Bool.and_eq_true, ih]
      simp only [List.mem_cons, Prod.mk.injEq, text.injEq]
      refine ⟨fun h s' v' hmem => ?_, fun h => ⟨h s v (.inl ⟨rfl, rfl⟩), fun s' v' hmem => h s' v' (.inr hmem)⟩⟩
      rcases hmem with ⟨rfl, rfl⟩ | hmem
      · exact h.1
      · exact h.2 s' v' hmem
    | _ => simp [entriesDroppedLast, ih]

/-! ## Removing entries one after the other -/

/-- Removes the entries that the paths lead to, one after the other. -/
def removeAll (paths : List KeyPath) (t : Tree) : Tree := paths.foldl (fun t path => t.remove path) t

@[simp] theorem removeAll_nil (t : Tree) : t.removeAll [] = t := rfl

@[simp] theorem removeAll_cons (path : KeyPath) (paths : List KeyPath) (t : Tree) :
    t.removeAll (path :: paths) = (t.remove path).removeAll paths := rfl

theorem removeAll_tagged (paths : List KeyPath) (tag : String) : ∀ content : Tree,
    (Tree.tagged tag content).removeAll paths = .tagged tag (content.removeAll (paths.map belowTag)) := by
  induction paths with
  | nil => exact fun _ => rfl
  | cons path paths ih =>
    intro content
    rw [removeAll_cons, remove_tagged, ih, List.map_cons, removeAll_cons]

/-- The items of a list are changed each by itself. -/
theorem remove_list (path : KeyPath) (ts : List Tree) :
    (Tree.list ts).remove path = .list (ts.mapIdx fun i t => t.removeAll (after (.index i) [path])) := by
  have hsame (h : ∀ i, after (.index i) [path] = []) :
      ts = ts.mapIdx fun i t => t.removeAll (after (.index i) [path]) :=
    (List.mapIdx_eq_iff.2 fun i => by simp [h]).symm
  cases path with
  | nil => exact congrArg Tree.list (hsame fun i => rfl)
  | cons step path =>
    cases step with
    | index j =>
      refine congrArg Tree.list (List.mapIdx_eq_iff.2 fun i => ?_).symm
      rw [List.getElem?_modify, Option.map_eq_map]
      refine congrArg (Option.map · _) (funext fun t => ?_)
      split_ifs with hji
      · subst hji
        rw [after_cons_self, removeAll_cons]
        rfl
      · rw [after_cons_of_ne fun h => hji (Step.index.inj h)]
        rfl
    | key label =>
      have hkeep : (Tree.list ts).remove (.key label :: path) = .list ts := by cases path <;> rfl
      rw [hkeep]
      exact congrArg Tree.list (hsame fun i => after_eq_nil (by simp))
    | variant => exact congrArg Tree.list (hsame fun i => after_eq_nil (by simp))

theorem removeAll_append (paths qs : List KeyPath) (t : Tree) :
    t.removeAll (paths ++ qs) = (t.removeAll paths).removeAll qs := List.foldl_append

theorem removeAll_list (paths : List KeyPath) : ∀ ts : List Tree,
    (Tree.list ts).removeAll paths = .list (ts.mapIdx fun i t => t.removeAll (after (.index i) paths)) := by
  induction paths with
  | nil => exact fun ts => congrArg Tree.list (List.mapIdx_eq_iff.2 fun i => by simp [after]).symm
  | cons path paths ih =>
    intro ts
    rw [removeAll_cons, remove_list, ih, List.mapIdx_mapIdx]
    refine congrArg (fun f => Tree.list (ts.mapIdx f)) (funext fun i => funext fun t => ?_)
    rw [Function.comp_apply, ← removeAll_append, ← after_append, List.singleton_append]

/-- What the removals leave of an entry. -/
def entryRemoved (paths : List KeyPath) : Tree × Tree → Option (Tree × Tree)
  | (.text s, v) =>
    if keyStays paths (.text s) then some (.text s, v.removeAll (after (.key s) paths)) else none
  | (k, v) => some (k, v)

theorem isSome_entryRemoved (paths : List KeyPath) (e : Tree × Tree) :
    (entryRemoved paths e).isSome = keyStays paths e.1 := by
  obtain ⟨k, v⟩ := e
  cases k with
  | text s =>
    rw [entryRemoved]
    cases keyStays paths (.text s) <;> rfl
  | _ => rfl

/-- Only paths that begin with its key matter to an entry. -/
theorem entry_congr {paths qs : List KeyPath} {e : Tree × Tree}
    (h : ∀ s, e.1 = .text s → after (.key s) paths = after (.key s) qs) :
    entryRemoved paths e = entryRemoved qs e ∧ keyStays paths e.1 = keyStays qs e.1 := by
  obtain ⟨k, v⟩ := e
  cases k with
  | text s =>
    have hsame := h s rfl
    rw [entryRemoved, entryRemoved, keyStays, keyStays, hsame]
    exact ⟨rfl, rfl⟩
  | _ => exact ⟨rfl, rfl⟩

/-- The last one of several can be moved to the front if no other stays, or if it goes itself. -/
theorem filterMap_last_first {α β : Type} {f : α → Option β} {xs : List α} {x : α}
    (h : (xs ++ [x]).countP (fun a => (f a).isSome) ≤ 1) : (x :: xs).filterMap f = (xs ++ [x]).filterMap f := by
  rw [List.filterMap_append, List.filterMap_cons, List.filterMap_cons]
  cases hx : f x with
  | none => exact (List.append_nil _).symm
  | some y =>
    rw [List.countP_append, List.countP_singleton, hx] at h
    have hnone : xs.countP (fun a => (f a).isSome) = 0 := by simpa using h
    have hxs : xs.filterMap f = [] := List.filterMap_eq_nil_iff.2 fun a ha => by
      simpa using List.countP_eq_zero.1 hnone a ha
    rw [hxs]
    rfl

section

variable {label : String} {path : KeyPath} {paths : List KeyPath} {front rest : List (Tree × Tree)} {v : Tree}

/-- A removal changes the order behind the gap only, and if at most one of these entries stays it does not matter. -/
theorem erase_behind (f : Tree × Tree → Option (Tree × Tree)) (hfront : Lacks label front) :
    ∃ moved, erase label (front ++ (.text label, v) :: rest) = front ++ moved ∧ moved.Perm rest ∧
      (rest.countP (fun e => (f e).isSome) ≤ 1 → moved.filterMap f = rest.filterMap f) := by
  rcases List.eq_nil_or_concat rest with rfl | ⟨rest, last, rfl⟩
  · exact ⟨[], by rw [erase_last v hfront, List.append_nil], .refl _, fun _ => rfl⟩
  · rw [List.concat_eq_append, erase_before_last v last hfront]
    exact ⟨last :: rest, rfl, (List.perm_append_singleton last rest).symm, filterMap_last_first⟩

/-- Where a key does not stand, a path that begins with it does not matter. -/
theorem entry_of_lacks {es : List (Tree × Tree)} (h : Lacks label es) :
    ∀ e ∈ es, entryRemoved ((.key label :: path) :: paths) e = entryRemoved paths e ∧
      keyStays ((.key label :: path) :: paths) e.1 = keyStays paths e.1 := by
  refine fun e he => entry_congr fun s hs => after_cons_of_ne fun hlabel => lacks_iff.1 h e he ?_
  rw [hs, Step.key.inj hlabel]

theorem filterMap_of_lacks {es : List (Tree × Tree)} (h : Lacks label es) :
    es.filterMap (entryRemoved ((.key label :: path) :: paths)) = es.filterMap (entryRemoved paths) :=
  List.filterMap_congr fun e he => (entry_of_lacks h e he).1

theorem dropsLast_of_lacks {es : List (Tree × Tree)} (h : Lacks label es)
    (hlast : dropsLast ((.key label :: path) :: paths) (es.map (·.1)) = true) :
    dropsLast paths (es.map (·.1)) = true := by
  refine dropsLast_congr (fun k hk => ?_) hlast
  obtain ⟨e, he, rfl⟩ := List.mem_map.1 hk
  exact (entry_of_lacks h e he).2

/-- If a key that is dropped stands among others, at most one of those behind it stays, and some of those in front of it
may be dropped. -/
theorem dropsLast_split {keys others : List Tree} {k : Tree} (hk : keyStays paths k = false) :
    dropsLast paths (keys ++ k :: others) = true ↔ ∃ before between, keys = before ++ between ∧
      (∀ l ∈ before, keyStays paths l = true) ∧ (between ++ others).countP (keyStays paths) ≤ 1 := by
  rw [dropsLast_iff]
  refine ⟨fun h => ?_, fun h => ?_⟩
  · obtain ⟨before, behind, hsplit, hbefore, hbehind⟩ := h
    rcases List.append_eq_append_iff.1 hsplit with ⟨as, hkeys, hrest⟩ | ⟨between, hkeys, hrest⟩
    · cases as with
      | nil =>
        rw [List.append_nil] at hkeys
        rw [List.nil_append] at hrest
        refine ⟨before, [], by rw [hkeys, List.append_nil], hbefore, ?_⟩
        rwa [← hrest, List.countP_cons_of_neg (by simp [hk])] at hbehind
      | cons a as =>
        obtain rfl := (List.cons.inj hrest).1
        have hstays := hbefore k (by simp [hkeys])
        rw [hk] at hstays
        exact Bool.noConfusion hstays
    · refine ⟨before, between, hkeys, hbefore, ?_⟩
      rw [hrest, List.countP_append, List.countP_cons_of_neg (by simp [hk])] at hbehind
      rwa [List.countP_append]
  · obtain ⟨before, between, rfl, hbefore, hcount⟩ := h
    refine ⟨before, between ++ k :: others, by simp, hbefore, ?_⟩
    rwa [List.countP_append, List.countP_cons_of_neg (by simp [hk]), ← List.countP_append]

/-- The entry that is removed first is gone, and those behind it stand in their order once the others are gone too. -/
theorem removeAll_erase (hfront : Lacks label front) (hrest : Lacks label rest)
    (hlast : dropsLast ([.key label] :: paths) ((front ++ (.text label, v) :: rest).map (·.1)) = true) :
    dropsLast paths ((erase label (front ++ (.text label, v) :: rest)).map (·.1)) = true ∧
      (erase label (front ++ (.text label, v) :: rest)).filterMap (entryRemoved paths) =
        (front ++ (.text label, v) :: rest).filterMap (entryRemoved ([.key label] :: paths)) := by
  have hgone' : keyStays ([.key label] :: paths) (.text label) = false := by
    rw [keyStays, after_cons_self]
    rfl
  have hgone : entryRemoved ([.key label] :: paths) (.text label, v) = none := by
    rw [entryRemoved, hgone', if_neg Bool.false_ne_true]
  obtain ⟨moved, herased, hperm, hmoved⟩ := @erase_behind label front rest v (entryRemoved paths) hfront
  rw [List.map_append, List.map_cons, dropsLast_split hgone'] at hlast
  obtain ⟨before, between, hkeys, hbefore, hcount⟩ := hlast
  have hlacks : Lacks label (front ++ moved) := fun e he => by
    rw [List.mem_append, hperm.mem_iff] at he
    exact he.elim (hfront e) (hrest e)
  refine ⟨?_, ?_⟩
  · rw [herased]
    have hmovedLast : dropsLast ([.key label] :: paths) ((front ++ moved).map (·.1)) = true := by
      refine dropsLast_iff.2 ⟨before, between ++ moved.map (·.1), ?_, hbefore, ?_⟩
      · rw [List.map_append, hkeys, List.append_assoc]
      · rw [((hperm.map _).append_left between).countP_eq]
        exact hcount
    exact dropsLast_of_lacks hlacks hmovedLast
  · have hfew : rest.countP (fun e => (entryRemoved paths e).isSome) ≤ 1 := by
      have hsame : rest.countP (fun e => (entryRemoved paths e).isSome) =
          (rest.map (·.1)).countP (keyStays ([.key label] :: paths)) := by
        rw [List.countP_map]
        refine List.countP_congr fun e he => ?_
        rw [isSome_entryRemoved, Function.comp_apply, (entry_of_lacks hrest e he).2]
      rw [List.countP_append] at hcount
      omega
    rw [herased, List.filterMap_append, List.filterMap_append, List.filterMap_cons_none hgone, hmoved hfew,
      filterMap_of_lacks hfront, filterMap_of_lacks hrest]

theorem keyStays_of_longer (step : Step) (k : Tree) :
    keyStays ((.key label :: step :: path) :: paths) k = keyStays paths k := by
  cases k with
  | text s =>
    by_cases hlabel : label = s
    · subst hlabel
      simp [keyStays, after_cons_self]
    · rw [keyStays, keyStays, after_cons_of_ne fun h => hlabel (Step.key.inj h)]
  | _ => rfl

/-- A removal further down changes one value. -/
theorem removeAll_adjust (step : Step) (hfront : Lacks label front) (hrest : Lacks label rest) :
    (front ++ (.text label, v.remove (step :: path)) :: rest).filterMap (entryRemoved paths) =
      (front ++ (.text label, v) :: rest).filterMap (entryRemoved ((.key label :: step :: path) :: paths)) := by
  have hentry : entryRemoved ((.key label :: step :: path) :: paths) (.text label, v) =
      entryRemoved paths (.text label, v.remove (step :: path)) := by
    rw [entryRemoved, entryRemoved, keyStays_of_longer, after_cons_self, removeAll_cons]
  rw [List.filterMap_append, List.filterMap_append, List.filterMap_cons, List.filterMap_cons, hentry,
    filterMap_of_lacks hfront, filterMap_of_lacks hrest]

end

/-- **Removing entries of one map.** Where those that are dropped stand last, the others keep their order. -/
theorem removeAll_map (paths : List KeyPath) : ∀ es : List (Tree × Tree), (Tree.map es).DistinctKeys →
    dropsLast paths (es.map (·.1)) = true →
      (Tree.map es).removeAll paths = .map (es.filterMap (entryRemoved paths)) := by
  induction paths with
  | nil =>
    intro es _ _
    have hself : es.filterMap (entryRemoved []) = es.filterMap some := List.filterMap_congr fun e _ => by
      obtain ⟨k, v⟩ := e
      cases k <;> rfl
    rw [hself, List.filterMap_some, removeAll_nil]
  | cons path paths ih =>
    intro es hkeys hlast
    have hnext : ((Tree.map es).remove path).DistinctKeys := (sheds_remove path _).keeps.distinctKeys hkeys
    rw [removeAll_cons]
    by_cases hkey : ∃ label rest, path = .key label :: rest
    · obtain ⟨label, path, rfl⟩ := hkey
      rcases hkeys.lacks_or_split label with hlacks | ⟨front, v, rest, rfl, hfront, hrest⟩
      · rw [remove_key_of_lacks hlacks, ih es hkeys (dropsLast_of_lacks hlacks hlast), filterMap_of_lacks hlacks]
      · cases path with
        | nil =>
          obtain ⟨hlast', hentries⟩ := removeAll_erase hfront hrest hlast
          rw [remove_key_map] at hnext ⊢
          rw [ih _ hnext hlast', hentries]
        | cons step path =>
          rw [remove_key_cons_map, adjust_split hfront] at hnext ⊢
          rw [ih _ hnext, removeAll_adjust step hfront hrest]
          rw [List.map_append, List.map_cons] at hlast ⊢
          exact dropsLast_congr (fun k _ => keyStays_of_longer step k) hlast
    · have hafter : ∀ s, after (.key s) (path :: paths) = after (.key s) paths := fun s => by
        refine List.filterMap_cons_none ?_
        cases path with
        | nil => rfl
        | cons step rest => exact after?_cons_of_ne fun hstep => hkey ⟨s, rest, by rw [hstep]⟩
      have hsame : (Tree.map es).remove path = .map es := by
        cases path with
        | nil => rfl
        | cons step rest =>
          cases step with
          | key label => exact absurd ⟨label, rest, rfl⟩ hkey
          | _ => rfl
      have hentries : entryRemoved (path :: paths) = entryRemoved paths :=
        funext fun e => (entry_congr fun s _ => hafter s).1
      rw [hsame, hentries]
      exact ih es hkeys (dropsLast_congr (fun k _ => (entry_congr (e := (k, k)) fun s _ => hafter s).2) hlast)

theorem removeAll_eq_self (h : ∀ path, t.remove path = t) (paths : List KeyPath) : t.removeAll paths = t := by
  induction paths with
  | nil => rfl
  | cons path paths ih => rw [removeAll_cons, h, ih]

theorem removeAll_items {paths : List KeyPath} {ts : List Tree}
    (ih : ∀ t ∈ ts, ∀ paths, t.droppedLast paths = true → t.removeAll paths = t.without paths) :
    ∀ position, itemsDroppedLast paths position ts = true →
      (ts.mapIdx fun i t => t.removeAll (after (.index (position + i)) paths)) = itemsWithout paths position ts := by
  induction ts with
  | nil => exact fun _ _ => rfl
  | cons t ts ihts =>
    intro position hlast
    obtain ⟨ht, hts⟩ := List.forall_mem_cons.1 ih
    rw [itemsDroppedLast, Bool.and_eq_true] at hlast
    have hrest := ihts hts (position + 1) hlast.2
    simp only [Nat.add_assoc, Nat.add_comm 1] at hrest
    rw [List.mapIdx_cons, itemsWithout, hrest, Nat.add_zero, ht _ hlast.1]

/-- **Removing entries in order.** Where in each map the dropped entries stand last, removing them one after the other
leaves them out and changes nothing else. -/
theorem removeAll_eq_without (t : Tree) : ∀ paths : List KeyPath, t.DistinctKeys → t.droppedLast paths = true →
    t.removeAll paths = t.without paths := by
  induction t using induct with
  | null | flag | number | text =>
    refine fun paths _ _ => removeAll_eq_self (fun path => ?_) paths
    rcases path with _ | ⟨_ | _ | _, _ | _⟩ <;> rfl
  | list ts ih =>
    intro paths hkeys hlast
    have hitems := removeAll_items (fun t ht qs => ih t ht qs (distinctKeys_list.1 hkeys t ht)) 0 hlast
    simp only [Nat.zero_add] at hitems
    rw [removeAll_list, without, hitems]
  | map es ih =>
    intro paths hkeys hlast
    rw [droppedLast, Bool.and_eq_true, entriesDroppedLast_iff] at hlast
    rw [removeAll_map paths es hkeys hlast.1, without, entriesWithout_eq]
    refine congrArg Tree.map (List.filterMap_congr fun e he => ?_)
    obtain ⟨k, v⟩ := e
    cases k with
    | text s =>
      have hv := (ih _ he).2 (after (.key s) paths) ((distinctKeys_map.1 hkeys).2 _ he).2 (hlast.2 s v he)
      rw [entryRemoved, entryWithout, hv]
      by_cases hdropped : [] ∈ after (.key s) paths
      · rw [if_pos hdropped, if_neg fun hstays => keyStays_text.1 hstays hdropped]
      · rw [if_neg hdropped, if_pos (keyStays_text.2 hdropped)]
    | _ => rfl
  | tagged tag content ih =>
    intro paths hkeys hlast
    rw [removeAll_tagged, ih _ (distinctKeys_tagged.1 hkeys) hlast]
    rfl

end Tree

end Provisioning
