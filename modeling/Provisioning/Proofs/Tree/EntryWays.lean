import Mathlib.Algebra.BigOperators.Group.Multiset.Basic
import Mathlib.Data.Multiset.OrderedMonoid
import Mathlib.Tactic.Abel
import Provisioning.Proofs.Tree.Order

/-!
# The entries of a document, by the ways to them

What is said about a dropped key is the text of a way to it, so entries are told apart by their ways, and each way is
counted as often as an entry stands there. `Tree.entryWays` are those to all entries of a document. A build only sees
the entries that it reaches through values and text keys, and the ways to these are `Tree.reportable`: a removal takes
away at least what it reports, and nothing that is done to a document brings a way back.
-/

namespace Provisioning

namespace KeyPath

/-- A path as its text shows it: a step to a variant's content shows nothing. -/
def shown : KeyPath → KeyPath
  | [] => []
  | .variant :: path => shown path
  | step :: path => step :: shown path

theorem renderFrom_shown (path : KeyPath) : ∀ first, renderFrom first (shown path) = renderFrom first path := by
  induction path with
  | nil => exact fun _ => rfl
  | cons step path ih =>
    intro first
    cases step with
    | variant => exact ih first
    | key label =>
      rw [shown, renderFrom, renderFrom, ih false]
      exact nofun
    | index i =>
      rw [shown, renderFrom, renderFrom, ih false]
      exact nofun

theorem map_shown_key (label : String) (paths : List KeyPath) :
    ((paths.map (.key label :: ·)).map shown : Multiset KeyPath) =
      (paths.map shown : Multiset KeyPath).map (.key label :: ·) := by
  rw [Multiset.map_coe, List.map_map, List.map_map]
  rfl

theorem map_shown_index (i : Nat) (paths : List KeyPath) :
    ((paths.map (.index i :: ·)).map shown : Multiset KeyPath) =
      (paths.map shown : Multiset KeyPath).map (.index i :: ·) := by
  rw [Multiset.map_coe, List.map_map, List.map_map]
  rfl

theorem map_shown_variant (paths : List KeyPath) : (paths.map (.variant :: ·)).map shown = paths.map shown := by
  rw [List.map_map]
  rfl

theorem render_shown (path : KeyPath) : (shown path).render = path.render := renderFrom_shown path true

/-- The way to an entry under a label, and those to the entries below it. -/
def fromKey (label : String) (below : Multiset KeyPath) : Multiset KeyPath :=
  {[.key label]} + below.map (.key label :: ·)

theorem fromKey_mono {label : String} {ways ways' : Multiset KeyPath} (h : ways ≤ ways') :
    fromKey label ways ≤ fromKey label ways' :=
  add_le_add_right (Multiset.map_le_map h) _

end KeyPath

namespace Tree

open KeyPath

/-! ## All entries -/

mutual

/-- The ways to all entries of a document. A key is named as it is once its tags are resolved, and the entries inside a
key stand where its map does. -/
def entryWays : Tree → Multiset KeyPath
  | .list items => itemsEntryWays 0 items
  | .map entries => entriesEntryWays entries
  | .tagged _ content => entryWays content
  | _ => 0

/-- The ways to the entries in the items of a list from a position on. -/
def itemsEntryWays (position : Nat) : List Tree → Multiset KeyPath
  | [] => 0
  | t :: ts => (entryWays t).map (.index position :: ·) + itemsEntryWays (position + 1) ts

/-- The ways to these entries and to those in their keys and values. -/
def entriesEntryWays : List (Tree × Tree) → Multiset KeyPath
  | [] => 0
  | (k, v) :: es => entryWays k + fromKey k.bare.label (entryWays v) + entriesEntryWays es

end

/-- Every entry is counted once. -/
theorem card_entryWays (t : Tree) : t.entryWays.card = t.entryCount := by
  induction t using induct with
  | null | flag | number | text => rfl
  | list ts ih =>
    have hitems : ∀ position, (itemsEntryWays position ts).card = itemsEntryCount ts := by
      induction ts with
      | nil => exact fun _ => rfl
      | cons t ts ihts =>
        intro position
        obtain ⟨ht, hts⟩ := List.forall_mem_cons.1 ih
        rw [itemsEntryWays, Multiset.card_add, Multiset.card_map, ht, ihts hts, itemsEntryCount]
    exact hitems 0
  | map es ih =>
    rw [entryWays, entryCount]
    induction es with
    | nil => rfl
    | cons e es ihes =>
      obtain ⟨k, v⟩ := e
      obtain ⟨⟨hk, hv⟩, hes⟩ := List.forall_mem_cons.1 ih
      rw [entriesEntryWays, fromKey, Multiset.card_add, Multiset.card_add, Multiset.card_add, Multiset.card_map,
        Multiset.card_singleton, ihes hes, entriesEntryCount]
      dsimp only at hk hv
      omega
  | tagged tag content ih => exact ih

/-! ## The entries that a build can see -/

mutual

/-- The ways to the entries that are reached through values and text keys. -/
def reportable : Tree → Multiset KeyPath
  | .list items => itemsReportable 0 items
  | .map entries => entriesReportable entries
  | .tagged _ content => reportable content
  | _ => 0

/-- The ways to such entries in the items of a list from a position on. -/
def itemsReportable (position : Nat) : List Tree → Multiset KeyPath
  | [] => 0
  | t :: ts => (reportable t).map (.index position :: ·) + itemsReportable (position + 1) ts

/-- The ways to these entries and to such entries in their values. -/
def entriesReportable : List (Tree × Tree) → Multiset KeyPath
  | [] => 0
  | (.text s, v) :: es => fromKey s (reportable v) + entriesReportable es
  | (k, _) :: es => fromKey k.label 0 + entriesReportable es

end

/-- The ways that a single entry brings. -/
def entryReportable (e : Tree × Tree) : Multiset KeyPath :=
  fromKey e.1.label (if e.1.isTextKey then e.2.reportable else 0)

theorem entriesReportable_eq (es : List (Tree × Tree)) : entriesReportable es = (es.map entryReportable).sum := by
  induction es with
  | nil => rfl
  | cons e es ih =>
    obtain ⟨k, v⟩ := e
    rw [List.map_cons, List.sum_cons, ← ih]
    cases k <;> rfl

theorem entriesReportable_cons (e : Tree × Tree) (es : List (Tree × Tree)) :
    entriesReportable (e :: es) = entryReportable e + entriesReportable es := by
  rw [entriesReportable_eq, entriesReportable_eq, List.map_cons, List.sum_cons]

theorem entriesReportable_append (es fs : List (Tree × Tree)) :
    entriesReportable (es ++ fs) = entriesReportable es + entriesReportable fs := by
  rw [entriesReportable_eq, entriesReportable_eq, entriesReportable_eq, List.map_append, List.sum_append]

theorem itemsReportable_append (ts us : List Tree) : ∀ position,
    itemsReportable position (ts ++ us) = itemsReportable position ts + itemsReportable (position + ts.length) us := by
  induction ts with
  | nil =>
    intro position
    rw [List.nil_append, itemsReportable, zero_add, List.length_nil, Nat.add_zero]
  | cons t ts ih =>
    intro position
    have hlength : position + (t :: ts).length = position + 1 + ts.length := by
      rw [List.length_cons, Nat.add_assoc, Nat.add_comm 1]
    rw [List.cons_append, itemsReportable, ih, itemsReportable, hlength]
    exact (add_assoc _ _ _).symm

/-! ### In another order -/

variable {t u : Tree}

theorem Edit.label_eq {r : List (Tree × Tree) → List (Tree × Tree) → Prop} (h : Edit r t u) : t.label = u.label := by
  cases h <;> rfl

theorem Edit.reportable (h : Edit List.Perm t u) : t.reportable = u.reportable := by
  induction h with
  | map hes =>
    rw [Tree.reportable, Tree.reportable, entriesReportable_eq, entriesReportable_eq]
    exact (hes.map _).sum_eq
  | item front rest _ ih =>
    rw [Tree.reportable, Tree.reportable, itemsReportable_append, itemsReportable_append, itemsReportable,
      itemsReportable, ih]
  | key front rest v hk _ =>
    have hkeys := hk.isTextKey_eq_false
    rw [Tree.reportable, Tree.reportable, entriesReportable_append, entriesReportable_append, entriesReportable_cons,
      entriesReportable_cons, entryReportable, entryReportable, hkeys.1, hkeys.2, hk.label_eq]
  | value front rest k _ ih =>
    rw [Tree.reportable, Tree.reportable, entriesReportable_append, entriesReportable_append, entriesReportable_cons,
      entriesReportable_cons, entryReportable, entryReportable, ih]
  | tagged tag _ ih => exact ih

theorem Reordered.reportable (h : Reordered t u) : t.reportable = u.reportable := by
  induction h with
  | refl => rfl
  | tail _ hlast ih => exact ih.trans hlast.reportable

/-! ### Without the keys that are not text -/

/-- Such a key is told of, and its entry goes. -/
theorem entries_cons_of_other {k : Tree} (h : k.isTextKey = false) (v : Tree) (es : List (Tree × Tree)) :
    entriesOtherKeyPaths ((k, v) :: es) = [.key k.label] :: entriesOtherKeyPaths es ∧
      entriesWithTextKeys ((k, v) :: es) = entriesWithTextKeys es := by
  cases k with
  | text s => exact Bool.noConfusion h
  | _ => exact ⟨rfl, rfl⟩

/-- The ways that are told of such keys, and those to the entries that stay, are those from before. -/
theorem reportable_withTextKeys (t : Tree) :
    (t.otherKeyPaths.map shown : Multiset KeyPath) + t.withTextKeys.reportable = t.reportable := by
  induction t using induct with
  | null | flag | number | text => rfl
  | list ts ih =>
    have hitems : ∀ position, ((itemsOtherKeyPaths position ts).map shown : Multiset KeyPath) +
        itemsReportable position (itemsWithTextKeys ts) = itemsReportable position ts := by
      induction ts with
      | nil => exact fun _ => rfl
      | cons t ts ihts =>
        intro position
        obtain ⟨ht, hts⟩ := List.forall_mem_cons.1 ih
        rw [itemsOtherKeyPaths, List.map_append, ← Multiset.coe_add, map_shown_index, itemsWithTextKeys,
          itemsReportable, itemsReportable, ← ihts hts, ← ht, Multiset.map_add]
        exact add_add_add_comm _ _ _ _
    exact hitems 0
  | map es ih =>
    rw [otherKeyPaths, withTextKeys, reportable, reportable]
    induction es with
    | nil => rfl
    | cons e es ihes =>
      obtain ⟨k, v⟩ := e
      obtain ⟨⟨-, hv⟩, hes⟩ := List.forall_mem_cons.1 ih
      have hrest := ihes hes
      cases hkey : k.isTextKey with
      | true =>
        obtain ⟨s, rfl⟩ := isTextKey_iff.1 hkey
        dsimp only at hv
        rw [entriesOtherKeyPaths, List.map_append, ← Multiset.coe_add, map_shown_key, entriesWithTextKeys,
          entriesReportable, entriesReportable, ← hrest, ← hv, fromKey, fromKey, Multiset.map_add]
        abel
      | false =>
        obtain ⟨hpath, hgone⟩ := entries_cons_of_other hkey v es
        rw [hpath, hgone, List.map_cons, ← Multiset.cons_coe, Multiset.cons_add, hrest, entriesReportable_cons,
          entryReportable, hkey]
        exact (Multiset.singleton_add _ _).symm
  | tagged tag content ih =>
    rw [otherKeyPaths, map_shown_variant, withTextKeys, reportable, ih, reportable]

/-! ### Setting an entry -/

theorem entryReportable_le (e : Tree × Tree) : entryReportable e ≤ fromKey e.1.label e.2.reportable := by
  refine fromKey_mono ?_
  split_ifs
  · exact le_refl _
  · exact zero_le

theorem reportable_insert_le (k v : Tree) (es : List (Tree × Tree)) :
    entriesReportable (insert k v es) ≤ entriesReportable es + fromKey k.label v.reportable := by
  induction es with
  | nil =>
    rw [insert, entriesReportable_cons, add_comm]
    exact add_le_add_right (entryReportable_le (k, v)) _
  | cons e es ih =>
    obtain ⟨l, w⟩ := e
    rw [insert]
    split_ifs with hsame
    · rw [entriesReportable_cons, entriesReportable_cons]
      cases hl : l.isTextKey with
      | true =>
        -- the keys are one text, so the new entry brings what it brings anywhere
        obtain ⟨s, rfl⟩ := isTextKey_iff.1 hl
        obtain rfl : k = .text s := by
          cases k <;> simp_all [same]
        calc entryReportable (.text s, v) + entriesReportable es
            ≤ fromKey s v.reportable + entriesReportable es := add_le_add_left (entryReportable_le (.text s, v)) _
          _ ≤ entryReportable (.text s, w) + (fromKey s v.reportable + entriesReportable es) := le_add_self
          _ = entryReportable (.text s, w) + entriesReportable es + fromKey s v.reportable := by abel
      | false =>
        have hold : entryReportable (l, v) = entryReportable (l, w) := by
          rw [entryReportable, entryReportable, hl]
          rfl
        rw [hold]
        exact le_self_add
    · rw [entriesReportable_cons, entriesReportable_cons, add_assoc]
      exact add_le_add_right ih _

/-! ## What removals leave -/

theorem getElem?_itemsWithout (paths : List KeyPath) (ts : List Tree) : ∀ position i,
    (itemsWithout paths position ts)[i]? = ts[i]?.map (without (after (.index (position + i)) paths)) := by
  induction ts with
  | nil => exact fun _ _ => rfl
  | cons t ts ih =>
    intro position i
    cases i with
    | zero => rfl
    | succ i =>
      rw [itemsWithout, List.getElem?_cons_succ, ih, List.getElem?_cons_succ, Nat.add_assoc, Nat.add_comm 1]

theorem of_mem_entriesWithout {paths : List KeyPath} {es : List (Tree × Tree)} {label : String} {v : Tree}
    (h : (.text label, v) ∈ entriesWithout paths es) :
    [] ∉ after (.key label) paths ∧ ∃ w, (.text label, w) ∈ es ∧ v = w.without (after (.key label) paths) := by
  rw [entriesWithout_eq, List.mem_filterMap] at h
  obtain ⟨⟨k, w⟩, hmem, hleft⟩ := h
  cases k with
  | text s =>
    rw [entryWithout] at hleft
    split_ifs at hleft with hdropped
    obtain ⟨hkey, rfl⟩ := Prod.mk.inj (Option.some.inj hleft)
    obtain rfl := Tree.text.inj hkey
    exact ⟨hdropped, w, hmem, rfl⟩
  | _ => cases hleft

theorem mem_after {step : Step} {path : KeyPath} {paths : List KeyPath} (h : step :: path ∈ paths) :
    path ∈ after step paths :=
  List.mem_filterMap.2 ⟨_, h, after?_cons_self⟩

/-- Where an entry is left out, its way leads nowhere. -/
theorem not_leadsTo_without (t : Tree) : ∀ (paths : List KeyPath), ∀ path ∈ paths, ¬(t.without paths).LeadsTo path := by
  induction t using induct with
  | null | flag | number | text => exact fun _ _ _ h => nomatch h
  | list ts ih =>
    intro paths path hpath h
    rw [without] at h
    cases h with
    | index ht hlead =>
      rw [getElem?_itemsWithout, Nat.zero_add, Option.map_eq_some_iff] at ht
      obtain ⟨t, ht, rfl⟩ := ht
      exact ih t (List.mem_of_getElem? ht) _ _ (mem_after hpath) hlead
  | map es ih =>
    intro paths path hpath h
    rw [without] at h
    cases h with
    | here hmem => exact (of_mem_entriesWithout hmem).1 (mem_after hpath)
    | key hmem hlead =>
      obtain ⟨-, w, hw, rfl⟩ := of_mem_entriesWithout hmem
      exact (ih _ hw).2 _ _ (mem_after hpath) hlead
  | tagged tag content ih =>
    intro paths path hpath h
    rw [without, leadsTo_tagged] at h
    exact ih _ _ (List.mem_map_of_mem hpath) h

theorem getElem?_split_of_ne {front : List Tree} {i : Nat} (h : front.length ≠ i) (t u : Tree) (rest : List Tree) :
    (front ++ t :: rest)[i]? = (front ++ u :: rest)[i]? := by
  have hset : (front ++ t :: rest).set front.length u = front ++ u :: rest := by simp
  rw [← hset, List.getElem?_set_ne h]

/-- A way leads somewhere still after a change that loses no entry. -/
theorem Edit.leadsTo {r : List (Tree × Tree) → List (Tree × Tree) → Prop} (hr : ∀ {es fs}, r es fs → es ⊆ fs)
    (h : Edit r t u) : ∀ path, t.LeadsTo path → u.LeadsTo path := by
  induction h with
  | map hes =>
    intro path hlead
    cases hlead with
    | here hmem => exact .here (hr hes hmem)
    | key hmem hlead => exact .key (hr hes hmem) hlead
  | @item t u front rest _ ih =>
    intro path hlead
    cases hlead with
    | @index i x _ path hx hlead =>
      by_cases hi : front.length = i
      · subst hi
        obtain rfl : t = x := by simpa using hx
        exact .index (by simp) (ih _ hlead)
      · exact .index (getElem?_split_of_ne hi t u rest ▸ hx) hlead
  | @key k l front rest v hk _ =>
    intro path hlead
    have hother {label : String} {x : Tree} (hmem : (.text label, x) ∈ front ++ (k, v) :: rest) :
        (.text label, x) ∈ front ++ (l, v) :: rest := by
      have hne : (Tree.text label, x) ≠ (k, v) := by
        rintro heq
        have hkey := hk.isTextKey_eq_false.1
        rw [← (Prod.mk.inj heq).1] at hkey
        exact Bool.noConfusion hkey
      simp only [List.mem_append, List.mem_cons, hne, false_or] at hmem ⊢
      exact hmem.imp_right .inr
    cases hlead with
    | here hmem => exact .here (hother hmem)
    | key hmem hlead => exact .key (hother hmem) hlead
  | @value v w front rest k _ ih =>
    intro path hlead
    have hother {label : String} {x : Tree} (hmem : (.text label, x) ∈ front ++ (k, v) :: rest) :
        (Tree.text label, x) = (k, v) ∨ (.text label, x) ∈ front ++ (k, w) :: rest := by
      simp only [List.mem_append, List.mem_cons] at hmem ⊢
      tauto
    have hchanged : (k, w) ∈ front ++ (k, w) :: rest := List.mem_append_right _ List.mem_cons_self
    cases hlead with
    | here hmem =>
      rcases hother hmem with heq | hmem
      · obtain ⟨rfl, rfl⟩ := Prod.mk.inj heq
        exact .here hchanged
      · exact .here hmem
    | key hmem hlead =>
      rcases hother hmem with heq | hmem
      · obtain ⟨rfl, rfl⟩ := Prod.mk.inj heq
        exact .key hchanged (ih _ hlead)
      · exact .key hmem hlead
  | tagged tag _ ih => exact fun path hlead => leadsTo_tagged.2 (ih _ (leadsTo_tagged.1 hlead))

theorem Reordered.leadsTo (h : Reordered t u) {path : KeyPath} (hlead : t.LeadsTo path) : u.LeadsTo path := by
  induction h with
  | refl => exact hlead
  | tail _ hlast ih => exact hlast.leadsTo List.Perm.subset _ ih

theorem Sheds.leadsTo (h : Sheds t u) {path : KeyPath} (hlead : u.LeadsTo path) : t.LeadsTo path := by
  induction h with
  | refl => exact hlead
  | tail _ hlast ih => exact ih (hlast.edit.leadsTo List.Subperm.subset _ hlead)

end Tree

end Provisioning
