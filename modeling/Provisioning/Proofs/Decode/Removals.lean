import Provisioning.Proofs.Decode.EntryOrder
import Provisioning.Proofs.Tree.EntryWays

/-!
# Removing keys in any order

The keys that a build skips are removed one after the other, each by its path. A path may run through an entry that
another one has removed, and since steps to keys and items look through tags, an entry can be reached by several paths.
As in every document that is read, no map holds a key twice.

A removal takes out the entry that its path leads to, if there is one, and leaves everything else (`Tree.LosesEntry`).
Afterwards a path leads where it led before, unless it runs through that entry, which can be told from what the two
paths show (`leadsTo_remove_iff`). So it does not matter in which order the keys are removed, nor how often.
-/

namespace Provisioning

namespace KeyPath

theorem shown_belowTag (path : KeyPath) : shown (belowTag path) = shown path := by
  unfold belowTag
  split <;> rfl

end KeyPath

namespace Tree

open KeyPath

variable {t u : Tree} {path : KeyPath}

/-- There is a key at the end of a path that leads to an entry. -/
theorem LeadsTo.shown_ne_nil (h : t.LeadsTo path) : shown path ≠ [] := by
  induction h with
  | here | key | index => exact List.cons_ne_nil _ _
  | variant _ ih => exact ih
  | through _ _ ih => exact ih

/-! ## One entry less -/

theorem LosesEntry.leadsTo (h : LosesEntry path t u) : t.LeadsTo path := by
  induction h with
  | here hes => exact .here (hes.mem_iff.2 List.mem_cons_self)
  | value label front rest _ ih => exact .key (List.mem_append_right _ List.mem_cons_self) ih
  | item front rest _ ih => exact .index (by simp) ih
  | tagged tag _ ih => exact leadsTo_tagged.2 ih

theorem remove_of_not_leadsTo (h : ¬t.LeadsTo path) : t.remove path = t :=
  (t.remove_cases path).resolve_right fun hloses => h hloses.leadsTo

theorem not_leadsTo_remove (hkeys : t.DistinctKeys) (path : KeyPath) : ¬(t.remove path).LeadsTo path := fun hlead =>
  t.not_leadsTo_without [path] path List.mem_cons_self ((remove_reordered path hkeys).leadsTo hlead)

theorem losesEntry_remove (hkeys : t.DistinctKeys) (h : t.LeadsTo path) : LosesEntry path t (t.remove path) := by
  refine (t.remove_cases path).resolve_left fun hsame => not_leadsTo_remove hkeys path ?_
  rw [hsame]
  exact h

/-- What is removed is gone, so it cannot be removed again. -/
theorem remove_remove_self (hkeys : t.DistinctKeys) (path : KeyPath) : (t.remove path).remove path = t.remove path :=
  remove_of_not_leadsTo (not_leadsTo_remove hkeys path)

/-! ## Where paths lead afterwards -/

section

variable {label : String} {front rest es : List (Tree × Tree)} {v : Tree}

theorem not_prefix_of_lacks (h : Lacks label es) (hlead : (Tree.map es).LeadsTo path) (steps : KeyPath) :
    ¬.key label :: steps <+: shown path := by
  obtain ⟨other, below, v, rfl, hmem, -⟩ := leadsTo_map.1 hlead
  intro hprefix
  obtain rfl := Step.key.inj (List.cons_prefix_cons.1 hprefix).1
  exact lacks_iff.1 h _ hmem rfl

/-- A path leads to one entry of a map or through it, or somewhere without it. -/
theorem leadsTo_map_split : (Tree.map (front ++ (.text label, v) :: rest)).LeadsTo path ↔
    (∃ below, path = .key label :: below ∧ (below = [] ∨ v.LeadsTo below)) ∨
      (Tree.map (front ++ rest)).LeadsTo path := by
  rw [leadsTo_map, leadsTo_map]
  refine ⟨fun h => ?_, fun h => ?_⟩
  · obtain ⟨other, below, x, rfl, hmem, hbelow⟩ := h
    rcases List.mem_cons.1 (List.perm_middle.mem_iff.1 hmem) with heq | hmem
    · obtain ⟨hkey, rfl⟩ := Prod.mk.inj heq
      obtain rfl := text.inj hkey
      exact .inl ⟨below, rfl, hbelow⟩
    · exact .inr ⟨other, below, x, rfl, hmem, hbelow⟩
  · rcases h with ⟨below, rfl, hbelow⟩ | ⟨other, below, x, rfl, hmem, hbelow⟩
    · exact ⟨label, below, v, rfl, by simp, hbelow⟩
    · exact ⟨other, below, x, rfl, List.perm_middle.mem_iff.2 (List.mem_cons_of_mem _ hmem), hbelow⟩

end

/-- A path leads where it led before, unless it runs through the entry that is lost. -/
theorem LosesEntry.leadsTo_iff (h : LosesEntry path t u) :
    t.DistinctKeys → ∀ q, u.LeadsTo q ↔ t.LeadsTo q ∧ ¬shown path <+: shown q := by
  induction h with
  | @here label v es fs hes =>
    intro hkeys q
    -- where the entry stood does not matter
    have horder : Reordered (.map es) (.map ((.text label, v) :: fs)) := .map hes
    have hsame : (Tree.map es).LeadsTo q ↔ (Tree.map ((.text label, v) :: fs)).LeadsTo q :=
      ⟨horder.leadsTo, horder.symm.leadsTo⟩
    have hlacks := (@DistinctKeys.lacks_of_split label v [] fs (Edit.distinctKeys (.map hes) hkeys)).2
    rw [hsame.trans (@leadsTo_map_split q label [] fs v)]
    refine ⟨fun hlead => ⟨.inr hlead, not_prefix_of_lacks hlacks hlead []⟩, fun h => h.1.resolve_left ?_⟩
    rintro ⟨below, rfl, -⟩
    exact h.2 (List.cons_prefix_cons.2 ⟨rfl, List.nil_prefix⟩)
  | @value path v w label front rest hloses ih =>
    intro hkeys q
    have hv : v.DistinctKeys := ((distinctKeys_map.1 hkeys).2 (.text label, v) (by simp)).2
    have hlacks : Lacks label (front ++ rest) := List.forall_mem_append.2 hkeys.lacks_of_split
    -- to the entry of the key itself a path leads as before; what is lost is below it
    have hbelow (below : KeyPath) : below = [] ∨ w.LeadsTo below ↔
        (below = [] ∨ v.LeadsTo below) ∧ ¬shown path <+: shown below := by
      rw [ih hv]
      by_cases hnil : below = []
      · subst hnil
        simp [shown, hloses.leadsTo.shown_ne_nil]
      · simp [hnil]
    rw [leadsTo_map_split, leadsTo_map_split]
    refine ⟨fun h => ?_, fun h => ?_⟩
    · rcases h with ⟨below, rfl, hlead⟩ | hlead
      · obtain ⟨hlead, hnot⟩ := (hbelow below).1 hlead
        exact ⟨.inl ⟨below, rfl, hlead⟩, fun hprefix => hnot (List.cons_prefix_cons.1 hprefix).2⟩
      · exact ⟨.inr hlead, not_prefix_of_lacks hlacks hlead _⟩
    · obtain ⟨⟨below, rfl, hlead⟩ | hlead, hnot⟩ := h
      · have hnot' : ¬shown path <+: shown below := fun hprefix => hnot (List.cons_prefix_cons.2 ⟨rfl, hprefix⟩)
        exact .inl ⟨below, rfl, (hbelow below).2 ⟨hlead, hnot'⟩⟩
      · exact .inr hlead
  | @item path t u front rest hloses ih =>
    intro hkeys q
    have hbelow := ih (distinctKeys_list.1 hkeys t (by simp))
    rw [leadsTo_list, leadsTo_list]
    refine ⟨fun h => ?_, fun h => ?_⟩
    · obtain ⟨i, below, x, rfl, hx, hlead⟩ := h
      by_cases hi : front.length = i
      · subst hi
        obtain rfl : u = x := by simpa using hx
        obtain ⟨hlead, hnot⟩ := (hbelow below).1 hlead
        exact ⟨⟨_, below, t, rfl, by simp, hlead⟩, fun hprefix => hnot (List.cons_prefix_cons.1 hprefix).2⟩
      · refine ⟨⟨i, below, x, rfl, getElem?_split_of_ne hi u t rest ▸ hx, hlead⟩, fun hprefix => hi ?_⟩
        exact Step.index.inj (List.cons_prefix_cons.1 hprefix).1
    · obtain ⟨⟨i, below, x, rfl, hx, hlead⟩, hnot⟩ := h
      by_cases hi : front.length = i
      · subst hi
        obtain rfl : t = x := by simpa using hx
        have hlead := (hbelow below).2 ⟨hlead, fun hprefix => hnot (List.cons_prefix_cons.2 ⟨rfl, hprefix⟩)⟩
        exact ⟨_, below, u, rfl, by simp, hlead⟩
      · exact ⟨i, below, x, rfl, getElem?_split_of_ne hi t u rest ▸ hx, hlead⟩
  | tagged tag _ ih =>
    intro hkeys q
    rw [leadsTo_tagged, leadsTo_tagged, ih (distinctKeys_tagged.1 hkeys), shown_belowTag, shown_belowTag]

/-- **Where paths lead after a removal.** The ways that are lost are those to the removed entry and to what is below
it, with or without the steps to variants. -/
theorem leadsTo_remove_iff (hkeys : t.DistinctKeys) (p q : KeyPath) :
    (t.remove p).LeadsTo q ↔ t.LeadsTo q ∧ ¬(t.LeadsTo p ∧ shown p <+: shown q) := by
  by_cases hp : t.LeadsTo p
  · rw [(losesEntry_remove hkeys hp).leadsTo_iff hkeys, and_iff_right hp]
  · rw [remove_of_not_leadsTo hp]
    exact (and_iff_left fun h => hp h.1).symm

/-! ## In any order -/

/-- **Removals in any order.** A removal either changes nothing or takes out the one entry that its path leads to, and
only the ways through that entry are lost. Of two removals either can come first, and a second one with the same path
changes nothing. So what a build is left with does not depend on the order in which the keys that it skipped are
removed, nor on how often they are. -/
theorem removals_commute (hkeys : t.DistinctKeys) :
    (∀ p q : KeyPath, ((t.remove p).remove q).Reordered ((t.remove q).remove p) ∧
      ((t.remove p).remove q).same ((t.remove q).remove p) = true) ∧
    (∀ p : KeyPath, (t.remove p).remove p = t.remove p) ∧
    (∀ p : KeyPath, (¬t.LeadsTo p ∧ t.remove p = t ∨ t.LeadsTo p ∧ LosesEntry p t (t.remove p)) ∧
      ∀ q, (t.remove p).LeadsTo q ↔ t.LeadsTo q ∧ ¬(t.LeadsTo p ∧ shown p <+: shown q)) ∧
    ∀ (s : Surroundings) (typeName : String) (place : Place) (skipped skipped' : List KeyPath) (rest : Tree),
      (∀ path, path ∈ skipped ↔ path ∈ skipped') → (s.accept typeName place t skipped).outcome = .ok rest →
        ∃ rest', (s.accept typeName place t skipped').outcome = .ok rest' ∧ rest.Reordered rest' ∧
          rest.same rest' = true := by
  refine ⟨fun p q => ?_, remove_remove_self hkeys, fun p => ⟨?_, leadsTo_remove_iff hkeys p⟩,
    fun s typeName place skipped skipped' rest hpaths hrest => ?_⟩
  · -- both orders come to the tree without the two entries, for which only counts which paths there are
    have horder := (Reordered.refl t).foldl_remove hkeys fun path => (List.Perm.swap q p []).mem_iff
    exact ⟨horder, horder.same⟩
  · by_cases hp : t.LeadsTo p
    · exact .inr ⟨hp, losesEntry_remove hkeys hp⟩
    · exact .inl ⟨hp, remove_of_not_leadsTo hp⟩
  · have haccepts := Surroundings.accept_eq_ok.1 hrest
    obtain ⟨rest', hrest', horder⟩ := haccepts.reordered (.refl t) hkeys hpaths
    exact ⟨rest', Surroundings.accept_eq_ok.2 hrest', horder, horder.same⟩

/-- A drive with a key that no drive has, and in it a disk with one that no disk has. -/
def wornDrive : Tree := .map [
  (.text "rack", .text "r1"),
  (.text "media", .tagged "Raid" (.list [.number (.integer 5), .map [
    (.text "wear", .number (.integer 2)), (.text "size_gb", .number (.integer 960)), (.text "ssd", .flag true)]])),
  (.text "bay", .number (.integer 3))]

/-- The way to the wear of its disk can be written in two ways. -/
theorem removals_commute_wornDrive :
    let rack : KeyPath := [.key "rack"]
    let media : KeyPath := [.key "media"]
    let wear : KeyPath := [.key "media", .variant, .index 1, .key "wear"]
    let untaggedWear : KeyPath := [.key "media", .index 1, .key "wear"]
    let s : Surroundings := ⟨Samples.schema, .nothing, ⟨false, 4⟩⟩
    let rest : Tree := .map [
      (.text "bay", .number (.integer 3)),
      (.text "media", .tagged "Raid" (.list [.number (.integer 5), .map [
        (.text "ssd", .flag true), (.text "size_gb", .number (.integer 960))]]))]
    wornDrive.DistinctKeys ∧
    ((wornDrive.remove wear).remove media).Reordered ((wornDrive.remove media).remove wear) ∧
    ((wornDrive.remove wear).remove untaggedWear).same ((wornDrive.remove untaggedWear).remove wear) = true ∧
    (wornDrive.remove wear).remove wear = wornDrive.remove wear ∧
    wornDrive.LeadsTo wear ∧ LosesEntry wear wornDrive (wornDrive.remove wear) ∧
    ¬(wornDrive.remove wear).LeadsTo untaggedWear ∧
    (s.accept "test.Drive" .root wornDrive [rack, wear]).outcome = .ok rest ∧
    ∃ rest', (s.accept "test.Drive" .root wornDrive [wear, rack, wear]).outcome = .ok rest' ∧
      rest.Reordered rest' ∧ rest.same rest' = true := by
  intro rack media wear untaggedWear s rest
  have hkeys : wornDrive.DistinctKeys := by decide
  obtain ⟨hcommute, htwice, hloses, haccept⟩ := removals_commute hkeys
  have hlead : wornDrive.LeadsTo wear :=
    .key (List.mem_cons_of_mem _ List.mem_cons_self) (.variant (.index rfl (.here List.mem_cons_self)))
  have hrest : (s.accept "test.Drive" .root wornDrive [rack, wear]).outcome = .ok rest := rfl
  refine ⟨hkeys, (hcommute wear media).1, (hcommute wear untaggedWear).2, htwice wear, hlead, ?_, ?_, hrest, ?_⟩
  · exact ((hloses wear).1.resolve_left fun h => h.1 hlead).2
  · exact fun h => (((hloses wear).2 untaggedWear).1 h).2 ⟨hlead, by decide⟩
  · exact haccept s "test.Drive" .root [rack, wear] [wear, rack, wear] rest (by simp) hrest

end Tree

end Provisioning
