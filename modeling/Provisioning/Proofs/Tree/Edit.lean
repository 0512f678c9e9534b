import Mathlib.Data.List.Perm.Basic
import Mathlib.Logic.Relation
import Provisioning.Proofs.Tree.Plain

/-!
# Changing one map of a document

`Edit r` relates two documents that differ in the entries of a single map, at any depth and in keys as in
values; how those entries differ, `r` says. Documents are `Reordered` if they have the same entries in
another order.
-/

namespace Provisioning.Tree

/-- The second document is the first one with the entries of one map changed. -/
inductive Edit (r : List (Tree × Tree) → List (Tree × Tree) → Prop) : Tree → Tree → Prop
  | map {es fs : List (Tree × Tree)} : r es fs → Edit r (.map es) (.map fs)
  | item {t u : Tree} (front rest : List Tree) :
      Edit r t u → Edit r (.list (front ++ t :: rest)) (.list (front ++ u :: rest))
  | key {k l : Tree} (front rest : List (Tree × Tree)) (v : Tree) :
      Edit r k l → Edit r (.map (front ++ (k, v) :: rest)) (.map (front ++ (l, v) :: rest))
  | value {v w : Tree} (front rest : List (Tree × Tree)) (k : Tree) :
      Edit r v w → Edit r (.map (front ++ (k, v) :: rest)) (.map (front ++ (k, w) :: rest))
  | tagged {t u : Tree} (tag : String) : Edit r t u → Edit r (.tagged tag t) (.tagged tag u)

/-- The second document has the entries of the first one in another order. -/
def Reordered : Tree → Tree → Prop := Relation.ReflTransGen (Edit List.Perm)

variable {r : List (Tree × Tree) → List (Tree × Tree) → Prop} {t u : Tree}

/-- A text has no map to change. -/
theorem Edit.isTextKey_eq_false (h : Edit r t u) : t.isTextKey = false ∧ u.isTextKey = false := by
  cases h <;> exact ⟨rfl, rfl⟩

/-- Nor has a text with tags around it. -/
theorem Edit.untagged_ne_text (h : Edit r t u) (s : String) : t.untagged ≠ .text s ∧ u.untagged ≠ .text s := by
  induction h with
  | tagged tag _ ih => exact ih
  | _ => exact ⟨nofun, nofun⟩

/-- A change of one map can be seen the other way round. -/
theorem Edit.reverse {q : List (Tree × Tree) → List (Tree × Tree) → Prop}
    (hq : ∀ {es fs}, r es fs → q fs es) (h : Edit r t u) : Edit q u t := by
  induction h with
  | map hes => exact .map (hq hes)
  | item front rest _ ih => exact .item front rest ih
  | key front rest v _ ih => exact .key front rest v ih
  | value front rest k _ ih => exact .value front rest k ih
  | tagged tag _ ih => exact .tagged tag ih

theorem itemsDepth_append (ts us : List Tree) :
    itemsDepth (ts ++ us) = max (itemsDepth ts) (itemsDepth us) := by
  induction ts with
  | nil => rw [List.nil_append, itemsDepth, Nat.zero_max]
  | cons t ts ih => rw [List.cons_append, itemsDepth, ih, itemsDepth, Nat.max_assoc]

theorem entriesDepth_append (es fs : List (Tree × Tree)) :
    entriesDepth (es ++ fs) = max (entriesDepth es) (entriesDepth fs) := by
  induction es with
  | nil => rw [List.nil_append, entriesDepth, Nat.zero_max]
  | cons e es ih =>
    obtain ⟨k, v⟩ := e
    rw [List.cons_append, entriesDepth, ih, entriesDepth]
    omega

/-- If no map gets shallower, the document does not. -/
theorem Edit.depth_le (hr : ∀ es fs, r es fs → entriesDepth es ≤ entriesDepth fs) (h : Edit r t u) :
    t.depth ≤ u.depth := by
  induction h with
  | map hes => exact hr _ _ hes
  | tagged tag _ ih => exact Nat.succ_le_succ ih
  | item front rest _ ih =>
    simp only [depth, itemsDepth_append, itemsDepth]
    omega
  | key front rest v _ ih =>
    simp only [depth, entriesDepth_append, entriesDepth]
    omega
  | value front rest k _ ih =>
    simp only [depth, entriesDepth_append, entriesDepth]
    omega

/-! ## Another order -/

namespace Reordered

theorem refl (t : Tree) : Reordered t t := Relation.ReflTransGen.refl

theorem trans {v : Tree} (h : Reordered t u) (h' : Reordered u v) : Reordered t v :=
  Relation.ReflTransGen.trans h h'

theorem map {es fs : List (Tree × Tree)} (h : es.Perm fs) : Reordered (.map es) (.map fs) :=
  .single (.map h)

theorem tagged (tag : String) (h : Reordered t u) : Reordered (.tagged tag t) (.tagged tag u) :=
  Relation.ReflTransGen.lift (Tree.tagged tag) (fun _ _ => Edit.tagged tag) _ _ h

theorem item (front rest : List Tree) (h : Reordered t u) :
    Reordered (.list (front ++ t :: rest)) (.list (front ++ u :: rest)) :=
  Relation.ReflTransGen.lift (fun t => Tree.list (front ++ t :: rest))
    (fun _ _ => Edit.item front rest) _ _ h

theorem value (front rest : List (Tree × Tree)) (k : Tree) (h : Reordered t u) :
    Reordered (.map (front ++ (k, t) :: rest)) (.map (front ++ (k, u) :: rest)) :=
  Relation.ReflTransGen.lift (fun v => Tree.map (front ++ (k, v) :: rest))
    (fun _ _ => Edit.value front rest k) _ _ h

theorem symm (h : Reordered t u) : Reordered u t := by
  induction h with
  | refl => exact refl _
  | tail _ hlast ih => exact Relation.ReflTransGen.head (hlast.reverse .symm) ih

/-- In another order a document is as deep as before. -/
theorem depth_le (h : Reordered t u) : t.depth ≤ u.depth := by
  induction h with
  | refl => exact Nat.le_refl _
  | tail _ hlast ih =>
    refine Nat.le_trans ih (Edit.depth_le (fun es fs hes => ?_) hlast)
    have hfs := entriesDepth_le_iff.1 (Nat.le_refl (entriesDepth fs))
    exact entriesDepth_le_iff.2 fun e he => hfs e (hes.mem_iff.1 he)

end Reordered

theorem Edit.plain (h : Edit List.Perm t u) : t.Plain → u.Plain := by
  induction h with
  | map hes =>
    intro hplain
    obtain ⟨htexts, hnodup, hvalues⟩ := plain_map.1 hplain
    exact plain_map.2 ⟨fun e he => htexts e (hes.mem_iff.2 he), (hes.map _).nodup_iff.1 hnodup,
      fun e he => hvalues e (hes.mem_iff.2 he)⟩
  | item front rest _ ih =>
    intro hplain
    rw [plain_list, List.forall_mem_append, List.forall_mem_cons] at hplain ⊢
    exact ⟨hplain.1, ih hplain.2.1, hplain.2.2⟩
  | key front rest v hk ih =>
    intro hplain
    have htext := (plain_map.1 hplain).1 _ (List.mem_append_right _ List.mem_cons_self)
    rw [hk.isTextKey_eq_false.1] at htext
    exact Bool.noConfusion htext
  | value front rest k _ ih =>
    intro hplain
    rw [plain_map, List.map_append, List.map_cons] at hplain ⊢
    simp only [List.forall_mem_append, List.forall_mem_cons] at hplain ⊢
    exact ⟨hplain.1, hplain.2.1, hplain.2.2.1, ih hplain.2.2.2.1, hplain.2.2.2.2⟩
  | tagged tag _ ih =>
    intro hplain
    obtain ⟨hrole, hcontent⟩ := plain_tagged.1 hplain
    exact plain_tagged.2 ⟨hrole, ih hcontent⟩

/-- In another order a plain document stays plain. -/
theorem Reordered.plain (h : Reordered t u) (hplain : t.Plain) : u.Plain := by
  induction h with
  | refl => exact hplain
  | tail _ hlast ih => exact hlast.plain ih

end Provisioning.Tree
