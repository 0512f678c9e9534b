import Mathlib.Data.List.Forall2
import Mathlib.Data.List.Perm.Subperm
import Mathlib.Tactic.Tauto
import Provisioning.Proofs.Tree.Plain

/-!
# When two trees are one key

`Tree.same` decides whether two map keys are one key. It compares maps as sets of entries, from the left
one only: each of its entries needs an equal one on the right, and there must be as many. That is symmetric as
long as neither map has a key twice, and no document that was read has such a map.

So whether the keys of a map differ does not depend on the order of its entries (`pairwise_of_subperm`).
-/

namespace Provisioning

namespace Decimal.Binary64

theorem same_trans {x y z : Binary64} (hxy : x.same y = true) (hyz : y.same z = true) : x.same z = true := by
  cases x <;> cases y <;> cases z <;> simp only [same, Bool.false_eq_true] at hxy hyz ⊢
  case infinite.infinite.infinite s t u =>
    rw [beq_iff_eq] at hxy hyz ⊢
    exact hxy.trans hyz
  case finite.finite.finite s m e t n f u k g =>
    simp only [Bool.or_eq_true, Bool.and_eq_true, beq_iff_eq] at hxy hyz ⊢
    rcases hxy with ⟨hm, hn⟩ | ⟨⟨rfl, rfl⟩, rfl⟩
    · rcases hyz with ⟨-, hk⟩ | ⟨⟨rfl, rfl⟩, rfl⟩
      · exact .inl ⟨hm, hk⟩
      · exact .inl ⟨hm, hn⟩
    · exact hyz

end Decimal.Binary64

namespace Number

theorem same_comm (m n : Number) : m.same n = n.same m := by
  cases m <;> cases n <;> simp [same, Bool.beq_comm, Decimal.Binary64.same_comm]

theorem same_trans {k m n : Number} (hkm : k.same m = true) (hmn : m.same n = true) : k.same n = true := by
  cases k with
  | integer a =>
    cases m with
    | integer b =>
      cases n with
      | integer c =>
        have hab : a = b := by simpa [same] using hkm
        rw [hab]
        exact hmn
      | real => exact Bool.noConfusion hmn
    | real => exact Bool.noConfusion hkm
  | real x =>
    cases m with
    | integer => exact Bool.noConfusion hkm
    | real y =>
      cases n with
      | integer => exact Bool.noConfusion hmn
      | real z => exact Decimal.Binary64.same_trans hkm hmn

end Number

/-- Lists that differ in one item are related item by item if that item is. -/
theorem forall₂_split {α : Type} {p : α → α → Prop} (hrefl : ∀ x, p x x) (front rest : List α) {x y : α}
    (h : p x y) : List.Forall₂ p (front ++ x :: rest) (front ++ y :: rest) := by
  have hsame (l : List α) : List.Forall₂ p l l := List.forall₂_same.2 fun x _ => hrefl x
  exact List.rel_append (hsame front) (.cons h (hsame rest))

/-- In lists that are related item by item, every item has one that it is related to. -/
theorem forall₂_partners {α β : Type} {r : α → β → Prop} {xs : List α} {ys : List β} (h : List.Forall₂ r xs ys) :
    (∀ x ∈ xs, ∃ y ∈ ys, r x y) ∧ ∀ y ∈ ys, ∃ x ∈ xs, r x y := by
  induction h with
  | nil => exact ⟨nofun, nofun⟩
  | @cons x y xs ys hfirst _ ih =>
    refine ⟨List.forall_mem_cons.2 ⟨⟨y, List.mem_cons_self, hfirst⟩, fun x' hx' => ?_⟩,
      List.forall_mem_cons.2 ⟨⟨x, List.mem_cons_self, hfirst⟩, fun y' hy' => ?_⟩⟩
    · obtain ⟨z, hz, hrest⟩ := ih.1 x' hx'
      exact ⟨z, List.mem_cons_of_mem _ hz, hrest⟩
    · obtain ⟨z, hz, hrest⟩ := ih.2 y' hy'
      exact ⟨z, List.mem_cons_of_mem _ hz, hrest⟩

namespace Tree

/-! ## Lists and maps, part by part -/

theorem sameItems_iff {ts : List Tree} :
    ∀ {us : List Tree}, sameItems ts us = true ↔ List.Forall₂ (fun t u => t.same u = true) ts us := by
  induction ts with
  | nil =>
    intro us
    cases us <;> simp [sameItems]
  | cons t ts ih =>
    intro us
    cases us with
    | nil => simp [sameItems]
    | cons u us => rw [sameItems, Bool.and_eq_true, ih, List.forall₂_cons]

theorem coveredBy_iff {es fs : List (Tree × Tree)} :
    coveredBy es fs = true ↔ ∀ e ∈ es, ∃ f ∈ fs, e.1.same f.1 = true ∧ e.2.same f.2 = true := by
  induction es with
  | nil => simp [coveredBy]
  | cons e es ih =>
    obtain ⟨k, v⟩ := e
    rw [coveredBy, Bool.and_eq_true, ih, List.forall_mem_cons, List.any_eq_true]
    simp only [Bool.and_eq_true]

theorem same_map_iff {es fs : List (Tree × Tree)} :
    (Tree.map es).same (.map fs) = true ↔
      es.length = fs.length ∧ ∀ e ∈ es, ∃ f ∈ fs, e.1.same f.1 = true ∧ e.2.same f.2 = true := by
  rw [same, Bool.and_eq_true, beq_iff_eq, coveredBy_iff]

/-- Maps are one key if their entries are, one by one. -/
theorem same_map_of_forall₂ {es fs : List (Tree × Tree)}
    (h : List.Forall₂ (fun e f => e.1.same f.1 = true ∧ e.2.same f.2 = true) es fs) :
    (Tree.map es).same (.map fs) = true := by
  refine same_map_iff.2 ⟨h.length_eq, ?_⟩
  induction h with
  | nil => simp
  | cons hfirst _ ih =>
    refine List.forall_mem_cons.2 ⟨⟨_, List.mem_cons_self, hfirst⟩, fun e he => ?_⟩
    obtain ⟨f, hf, hsame⟩ := ih e he
    exact ⟨f, List.mem_cons_of_mem _ hf, hsame⟩

theorem same_self (t : Tree) : t.same t = true := by
  induction t using induct with
  | null | flag | number | text => simp [same]
  | list ts ih => exact sameItems_iff.2 (List.forall₂_same.2 ih)
  | map es ih => exact same_map_of_forall₂ (List.forall₂_same.2 ih)
  | tagged tag content ih => rw [same, ih, beq_self_eq_true, Bool.and_true]

/-! ## Transitivity -/

theorem same_trans {t : Tree} :
    ∀ {u w : Tree}, t.same u = true → u.same w = true → t.same w = true := by
  induction t using induct with
  | null | flag | text =>
    intro u w htu huw
    cases u <;> cases w <;> simp_all [same]
  | number n =>
    intro u w htu huw
    cases u with
    | number m =>
      cases w with
      | number k => exact Number.same_trans htu huw
      | _ => exact Bool.noConfusion huw
    | _ => exact Bool.noConfusion htu
  | list ts ih =>
    intro u w htu huw
    cases u with
    | list us =>
      cases w with
      | list ws =>
        rw [same, sameItems_iff] at htu huw ⊢
        induction htu generalizing ws with
        | nil => exact huw
        | @cons t u ts us ht _ ihts =>
          cases huw with
          | cons hu hus =>
            have hts := ihts (fun t ht => ih t (List.mem_cons_of_mem _ ht)) _ hus
            exact .cons (ih t List.mem_cons_self ht hu) hts
      | _ => exact Bool.noConfusion huw
    | _ => exact Bool.noConfusion htu
  | map es ih =>
    intro u w htu huw
    cases u with
    | map fs =>
      cases w with
      | map gs =>
        rw [same_map_iff] at htu huw ⊢
        obtain ⟨hlen, hes⟩ := htu
        obtain ⟨hlen', hfs⟩ := huw
        refine ⟨hlen.trans hlen', fun e he => ?_⟩
        obtain ⟨f, hf, hkey, hvalue⟩ := hes e he
        obtain ⟨g, hg, hkey', hvalue'⟩ := hfs f hf
        exact ⟨g, hg, (ih e he).1 hkey hkey', (ih e he).2 hvalue hvalue'⟩
      | _ => exact Bool.noConfusion huw
    | _ => exact Bool.noConfusion htu
  | tagged tag content ih =>
    intro u w htu huw
    cases u with
    | tagged tag' u =>
      cases w with
      | tagged tag'' w =>
        rw [same, Bool.and_eq_true, beq_iff_eq] at htu huw ⊢
        exact ⟨htu.1.trans huw.1, ih htu.2 huw.2⟩
      | _ => exact Bool.noConfusion huw
    | _ => exact Bool.noConfusion htu

/-! ## Symmetry -/

/-- If each of some things has a partner of its own, and there are no more partners than things, then every
partner is taken. -/
theorem exists_of_partners {α β : Type} {r : α → β → Prop} {xs : List α} :
    ∀ {ys : List β}, ys.length ≤ xs.length → xs.Pairwise (fun a b => ∀ y ∈ ys, r a y → ¬r b y) →
      (∀ x ∈ xs, ∃ y ∈ ys, r x y) → ∀ y ∈ ys, ∃ x ∈ xs, r x y := by
  induction xs with
  | nil =>
    intro ys hlen _ _ y hy
    rw [List.length_nil, Nat.le_zero, List.length_eq_zero_iff] at hlen
    rw [hlen] at hy
    exact absurd hy List.not_mem_nil
  | cons x xs ih =>
    intro ys hlen hown hall y hy
    obtain ⟨hfirst, hrest⟩ := List.pairwise_cons.1 hown
    obtain ⟨z, hz, hxz⟩ := hall x List.mem_cons_self
    -- without the partner of the first, the others keep theirs
    obtain ⟨front, rest, rfl⟩ := List.append_of_mem hz
    have hsub : ∀ y ∈ front ++ rest, y ∈ front ++ z :: rest := by
      intro y hy
      simp only [List.mem_append, List.mem_cons] at hy ⊢
      tauto
    have hothers : ∀ a ∈ xs, ∃ y ∈ front ++ rest, r a y := by
      intro a ha
      obtain ⟨y, hy, hay⟩ := hall a (List.mem_cons_of_mem _ ha)
      have hne : y ≠ z := by
        intro heq
        exact hfirst a ha z hz hxz (heq ▸ hay)
      simp only [List.mem_append, List.mem_cons] at hy
      exact ⟨y, by simp only [List.mem_append]; tauto, hay⟩
    have hlen' : (front ++ rest).length ≤ xs.length := by
      simp only [List.length_append, List.length_cons] at hlen ⊢
      omega
    have hown' := hrest.imp fun h y hy => h y (hsub y hy)
    by_cases hyz : y = z
    · exact ⟨x, List.mem_cons_self, hyz ▸ hxz⟩
    · have hy' : y ∈ front ++ rest := by
        simp only [List.mem_append, List.mem_cons] at hy ⊢
        tauto
      obtain ⟨a, ha, hay⟩ := ih hlen' hown' hothers y hy'
      exact ⟨a, List.mem_cons_of_mem _ ha, hay⟩

/-- Without repeated keys, each entry of the left map has an entry of the right one to itself. -/
theorem same_symm {t : Tree} :
    ∀ {u : Tree}, t.DistinctKeys → u.DistinctKeys → t.same u = true → u.same t = true := by
  induction t using induct with
  | null | flag | text =>
    intro u _ _ h
    cases u <;> simp_all [same]
  | number n =>
    intro u _ _ h
    cases u with
    | number m => exact (Number.same_comm m n).trans h
    | _ => exact Bool.noConfusion h
  | list ts ih =>
    intro u ht hu h
    cases u with
    | list us =>
      rw [distinctKeys_list] at ht hu
      rw [same, sameItems_iff] at h ⊢
      induction h with
      | nil => exact .nil
      | @cons t u ts us hfirst _ ihts =>
        rw [List.forall_mem_cons] at ht hu
        have hrest := ihts (fun t ht => ih t (List.mem_cons_of_mem _ ht)) ht.2 hu.2
        exact .cons (ih t List.mem_cons_self ht.1 hu.1 hfirst) hrest
    | _ => exact Bool.noConfusion h
  | map es ih =>
    intro u ht hu h
    cases u with
    | map fs =>
      obtain ⟨hdiffer, hes⟩ := distinctKeys_map.1 ht
      obtain ⟨-, hfs⟩ := distinctKeys_map.1 hu
      rw [same_map_iff] at h ⊢
      obtain ⟨hlen, hcover⟩ := h
      -- two entries with one partner would have one key
      have hown : es.Pairwise fun a b => ∀ f ∈ fs, a.1.same f.1 = true ∧ a.2.same f.2 = true →
          ¬(b.1.same f.1 = true ∧ b.2.same f.2 = true) := by
        refine hdiffer.imp_of_mem fun {a b} _ hb hab f hf ha hb' => ?_
        have hback : f.1.same b.1 = true := (ih b hb).1 (hes b hb).1 (hfs f hf).1 hb'.1
        have hsame : a.1.same b.1 = true := same_trans ha.1 hback
        rw [hab] at hsame
        exact Bool.noConfusion hsame
      refine ⟨hlen.symm, fun f hf => ?_⟩
      obtain ⟨e, he, hkey, hvalue⟩ := exists_of_partners (by omega) hown hcover f hf
      exact ⟨e, he, (ih e he).1 (hes e he).1 (hfs f hf).1 hkey, (ih e he).2 (hes e he).2 (hfs f hf).2 hvalue⟩
    | _ => exact Bool.noConfusion h
  | tagged tag content ih =>
    intro u ht hu h
    cases u with
    | tagged tag' u =>
      rw [distinctKeys_tagged] at ht hu
      rw [same, Bool.and_eq_true, beq_iff_eq] at h ⊢
      exact ⟨h.1.symm, ih ht hu h.2⟩
    | _ => exact Bool.noConfusion h

theorem same_comm {t u : Tree} (ht : t.DistinctKeys) (hu : u.DistinctKeys) : t.same u = u.same t := by
  rw [Bool.eq_iff_iff]
  exact ⟨same_symm ht hu, same_symm hu ht⟩

/-- Some of the entries of a map, in whatever order, have keys that differ if those of the map do. -/
theorem pairwise_of_subperm {es fs : List (Tree × Tree)} (hsub : List.Subperm fs es)
    (hkeys : ∀ e ∈ es, e.1.DistinctKeys) (h : es.Pairwise fun e f => e.1.same f.1 = false) :
    fs.Pairwise fun e f => e.1.same f.1 = false := by
  have hboth : es.Pairwise fun e f => e.1.same f.1 = false ∧ f.1.same e.1 = false := by
    refine h.imp_of_mem fun {e f} he hf hne => ⟨hne, ?_⟩
    rw [same_comm (hkeys f hf) (hkeys e he)]
    exact hne
  obtain ⟨gs, hperm, hgs⟩ := hsub
  have hfs := (hperm.pairwise_iff fun h => And.symm h).1 (hboth.sublist hgs)
  exact hfs.imp And.left

end Tree

end Provisioning
