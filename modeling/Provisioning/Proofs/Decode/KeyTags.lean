import Provisioning.Proofs.Decode.Settled
import Provisioning.Proofs.Tree.EntryWays

/-!
# Text keys that lose their tags

Resolving a document takes the type tags and the core tags from its keys; a tag that names a variant stays. So where no
text key has such a tag (`Tree.TextKeysLoseTags`), all text keys of what is resolved are bare, and as its keys differ, a
text names at most one entry of a map (`Surroundings.addressable_of_resolves`).
-/

namespace Provisioning

namespace Tree

/-- Whether the texts among the keys of this very node have no tags once type tags and core tags are gone. -/
def textKeysLoseTags : Tree → Bool
  | .map es => es.all fun e => e.1.bare.isTextKey || !e.1.bare.untagged.isTextKey
  | _ => true

/-- Whatever tags text keys have, they are type tags and core tags. -/
def TextKeysLoseTags (t : Tree) : Prop := ∀ n ∈ t.nodes, n.textKeysLoseTags = true

instance (t : Tree) : Decidable t.TextKeysLoseTags := inferInstanceAs (Decidable (∀ n ∈ t.nodes, _))

theorem textKeysLoseTags_list {ts : List Tree} : (Tree.list ts).TextKeysLoseTags ↔ ∀ t ∈ ts, t.TextKeysLoseTags := by
  rw [TextKeysLoseTags, forall_nodes_list]
  exact and_iff_right rfl

theorem textKeysLoseTags_map {es : List (Tree × Tree)} :
    (Tree.map es).TextKeysLoseTags ↔
      (∀ e ∈ es, e.1.bare.untagged.isTextKey = true → e.1.bare.isTextKey = true) ∧
        ∀ e ∈ es, e.1.TextKeysLoseTags ∧ e.2.TextKeysLoseTags := by
  rw [TextKeysLoseTags, forall_nodes_map, textKeysLoseTags, List.all_eq_true]
  refine and_congr_left fun _ => forall₂_congr fun e _ => ?_
  cases e.1.bare.isTextKey <;> simp

theorem textKeysLoseTags_tagged {tag : String} {content : Tree} :
    (Tree.tagged tag content).TextKeysLoseTags ↔ content.TextKeysLoseTags := by
  rw [TextKeysLoseTags, forall_nodes_tagged]
  exact and_iff_right rfl

variable {t u : Tree}

/-! ## What entries that are dropped leave of the keys -/

/-- One tree is a text exactly if the other one is, and so below the tags. -/
structure TextAlike (t u : Tree) : Prop where
  isTextKey_eq : u.isTextKey = t.isTextKey
  untagged_eq : u.untagged.isTextKey = t.untagged.isTextKey

theorem Drops.textAlike (h : Drops t u) : TextAlike t u := by
  induction h with
  | tagged tag _ ih => exact ⟨rfl, ih.untagged_eq⟩
  | _ => exact ⟨rfl, rfl⟩

theorem Sheds.textAlike (h : Sheds t u) : TextAlike t u := by
  induction h with
  | refl => exact ⟨rfl, rfl⟩
  | tail _ hlast ih =>
    exact ⟨hlast.textAlike.isTextKey_eq.trans ih.isTextKey_eq, hlast.textAlike.untagged_eq.trans ih.untagged_eq⟩

theorem Drops.untaggedTextKeys (h : Drops t u) : t.UntaggedTextKeys → u.UntaggedTextKeys := by
  induction h with
  | entries hsub =>
    intro hkeys
    rw [untaggedTextKeys_map] at hkeys ⊢
    exact ⟨fun e he => hkeys.1 e (hsub.subset he), fun e he => hkeys.2 e (hsub.subset he)⟩
  | item front rest _ ih =>
    intro hkeys
    rw [untaggedTextKeys_list, List.forall_mem_append, List.forall_mem_cons] at hkeys ⊢
    exact ⟨hkeys.1, ih hkeys.2.1, hkeys.2.2⟩
  | value front rest k _ ih =>
    intro hkeys
    rw [untaggedTextKeys_map] at hkeys ⊢
    simp only [List.forall_mem_append, List.forall_mem_cons] at hkeys ⊢
    exact ⟨hkeys.1, hkeys.2.1, ⟨hkeys.2.2.1.1, ih hkeys.2.2.1.2⟩, hkeys.2.2.2⟩
  | tagged tag _ ih =>
    intro hkeys
    rw [untaggedTextKeys_tagged] at hkeys ⊢
    exact ih hkeys

theorem Sheds.untaggedTextKeys (h : Sheds t u) (ht : t.UntaggedTextKeys) : u.UntaggedTextKeys := by
  induction h with
  | refl => exact ht
  | tail _ hlast ih => exact hlast.untaggedTextKeys ih

theorem Sheds.addressable (h : Sheds t u) (ht : t.Addressable) : u.Addressable :=
  ⟨h.keeps.distinctKeys ht.distinctKeys, h.untaggedTextKeys ht.untaggedTextKeys⟩

end Tree

namespace Surroundings

variable {s : Surroundings} {depth : Nat}

/-- Resolving a key leaves a text where losing the tags does. -/
theorem textAlike_of_resolves (t : Tree) : ∀ depth u, s.Resolves depth t u → Tree.TextAlike t.bare u := by
  induction t using Tree.induct with
  | null | flag | number | text =>
    intro depth u h
    obtain ⟨-, rfl⟩ := (resolves_of_isScalar rfl).1 h
    exact ⟨rfl, rfl⟩
  | list items ih =>
    intro depth u h
    obtain ⟨-, us, -, rfl⟩ := resolves_list.1 h
    exact ⟨rfl, rfl⟩
  | map entries ih =>
    intro depth u h
    obtain ⟨-, es, -, rfl⟩ := resolves_map.1 h
    exact ⟨rfl, rfl⟩
  | tagged tag content ih =>
    intro depth u h
    obtain ⟨-, inner, hinner, htag⟩ := resolves_tagged.1 h
    have hcontent := ih _ _ hinner
    unfold ResolvesTagged at htag
    rw [Tree.bare]
    cases hrole : TagRole.ofTag tag with
    | core =>
      rw [hrole] at htag
      obtain rfl := htag
      exact hcontent
    | variant =>
      rw [hrole] at htag
      obtain rfl := htag
      exact ⟨rfl, hcontent.untagged_eq⟩
    | type name =>
      rw [hrole] at htag
      obtain ⟨d, x, -, hpasses⟩ := htag
      have hrest := hpasses.sheds.textAlike
      exact ⟨hrest.isTextKey_eq.trans hcontent.isTextKey_eq, hrest.untagged_eq.trans hcontent.untagged_eq⟩

theorem untaggedTextKeys_of_resolves (t : Tree) :
    t.TextKeysLoseTags → ∀ depth u, s.Resolves depth t u → u.UntaggedTextKeys := by
  induction t using Tree.induct with
  | null | flag | number | text =>
    intro _ depth u h
    obtain ⟨-, rfl⟩ := (resolves_of_isScalar rfl).1 h
    exact fun n hn => List.mem_singleton.1 hn ▸ trivial
  | list items ih =>
    intro hkeys depth u h
    obtain ⟨-, us, hus, rfl⟩ := resolves_list.1 h
    refine Tree.untaggedTextKeys_list.2 fun u hu => ?_
    obtain ⟨t, ht, htu⟩ := (forall₂_partners hus).2 u hu
    exact ih t ht (Tree.textKeysLoseTags_list.1 hkeys t ht) _ _ htu
  | map entries ih =>
    intro hkeys depth u h
    obtain ⟨-, es, hes, rfl⟩ := resolves_map.1 h
    obtain ⟨hlose, hbelow⟩ := Tree.textKeysLoseTags_map.1 hkeys
    have hall := @Tree.forall_mem_foldl_insert
      (fun k => (∀ s, k.untagged = .text s → k.isTextKey = true) ∧ k.UntaggedTextKeys) Tree.UntaggedTextKeys es
      (fun f hf => by
        obtain ⟨e, he, hkey, hvalue⟩ := (forall₂_partners hes).2 f hf
        have halike := textAlike_of_resolves e.1 _ _ hkey
        refine ⟨⟨fun s hs => ?_, (ih e he).1 (hbelow e he).1 _ _ hkey⟩, (ih e he).2 (hbelow e he).2 _ _ hvalue⟩
        rw [halike.isTextKey_eq]
        refine hlose e he ?_
        rw [← halike.untagged_eq, hs]
        rfl) [] (by simp)
    exact Tree.untaggedTextKeys_map.2 ⟨fun f hf => (hall f hf).1.1, fun f hf => ⟨(hall f hf).1.2, (hall f hf).2⟩⟩
  | tagged tag content ih =>
    intro hkeys depth u h
    obtain ⟨-, inner, hinner, htag⟩ := resolves_tagged.1 h
    have hcontent := ih (Tree.textKeysLoseTags_tagged.1 hkeys) _ _ hinner
    unfold ResolvesTagged at htag
    cases hrole : TagRole.ofTag tag with
    | core =>
      rw [hrole] at htag
      obtain rfl := htag
      exact hcontent
    | variant =>
      rw [hrole] at htag
      obtain rfl := htag
      exact Tree.untaggedTextKeys_tagged.2 hcontent
    | type name =>
      rw [hrole] at htag
      obtain ⟨d, x, -, hpasses⟩ := htag
      exact hpasses.sheds.untaggedTextKeys hcontent

/-- Of what is resolved, a text names at most one entry of a map. -/
theorem addressable_of_resolves {t u : Tree} (hkeys : t.TextKeysLoseTags) (h : s.Resolves depth t u) : u.Addressable :=
  ⟨(settling t _ _ h).2.distinctKeys, untaggedTextKeys_of_resolves t hkeys _ _ h⟩

theorem addressable_of_resolveRoot {document : Tree} {resolved : ResolvedRoot} (hkeys : document.TextKeysLoseTags)
    (h : (s.resolveRoot document).outcome = .ok resolved) : resolved.tree.Addressable := by
  cases hroot : document.rootType? with
  | none =>
    rw [resolveRoot_of_none hroot] at h
    obtain ⟨tree, htree, h⟩ := Traced.outcome_bind_eq_ok.1 h
    obtain rfl := Traced.outcome_pure_eq_ok.1 h
    exact addressable_of_resolves hkeys htree
  | some root =>
    rw [resolveRoot_of_type hroot] at h
    obtain ⟨tag, hrole, rfl⟩ := Tree.eq_of_rootType? hroot
    obtain ⟨d, -, h⟩ := Traced.outcome_bind_eq_ok.1 h
    obtain ⟨content, hcontent, h⟩ := Traced.outcome_bind_eq_ok.1 h
    obtain rfl := Traced.outcome_pure_eq_ok.1 h
    exact addressable_of_resolves (Tree.textKeysLoseTags_tagged.1 hkeys) hcontent

end Surroundings

end Provisioning
