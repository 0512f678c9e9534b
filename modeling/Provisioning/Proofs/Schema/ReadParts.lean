import Provisioning.Proofs.Schema.Skipped
import Provisioning.Proofs.Tree.Sameness

/-!
# The nodes that a build reads on its way

A build of a node builds nodes below it as shapes of their own: the items of a list, the values of wanted keys, what
a variant carries. `Schema.ReadsAt` says which node that is at which path. What such a node skips is skipped in the
whole, too, and told of from there (`skipped_of_readsAt`).
-/

namespace Provisioning

/-- The part of a list or a map behind a step that a reader takes as a shape. -/
inductive PartsReader.TakesPart : PartsReader → Tree → Step → Tree → Shape → Prop
  | item {shapes : List Shape} {finish : List Instance → Instance} {ts : List Tree} {i : Nat} {t : Tree}
      {shape : Shape} : ts[i]? = some t → shapes[i]? = some shape →
      TakesPart (.items shapes finish) (.list ts) (.index i) t shape
  | value {reader : MapReader} {es : List (Tree × Tree)} {k v : Tree} {key name : String} {shape : Shape} :
      (k, v) ∈ es → k.untagged = .text key → reader.wants key = some (name, shape) →
      TakesPart (.entries reader) (.map es) (.key key) v shape

namespace Schema

variable {σ : Schema} {node t u : Tree} {target shape inner : Shape} {way : KeyPath} {step : Step}
  {reader reader' : PartsReader} {b c : Built Instance}

/-- Read as a shape, a tree has a node at a path that is read as the target, or as that where it may be absent. -/
inductive ReadsAt (σ : Schema) (node : Tree) (target : Shape) : Tree → Shape → KeyPath → Prop
  | here {shape : Shape} : shape.base = target.base → ReadsAt σ node target node shape []
  | part {t u : Tree} {shape inner : Shape} {reader : PartsReader} {step : Step} {way : KeyPath} :
      σ.Takes shape.base reader → reader.TakesPart t step u inner → ReadsAt σ node target u inner way →
      ReadsAt σ node target t shape (step :: way)
  | one {shape inner : Shape} {name tag : String} {content : Tree} {way : KeyPath} :
      shape.base = .choice name → (σ.variants name).lookup tag = some (.one inner) →
      ReadsAt σ node target content inner way → ReadsAt σ node target (.tagged tag content) shape (.variant :: way)
  | payload {shape inner : Shape} {name tag : String} {payload : Payload} {reader : PartsReader}
      {content u : Tree} {step : Step} {way : KeyPath} :
      shape.base = .choice name → (σ.variants name).lookup tag = some payload → payload.Takes reader →
      reader.TakesPart content step u inner → ReadsAt σ node target u inner way →
      ReadsAt σ node target (.tagged tag content) shape (step :: way)
  | through {shape : Shape} {tag : String} {content : Tree} {way : KeyPath} :
      (∀ name, shape.base ≠ .choice name) → ReadsAt σ node target content shape.base way →
      ReadsAt σ node target (.tagged tag content) shape way

/-! ## One part -/

theorem built_of_readsItems {ts : List Tree} {shapes : List Shape} {bs : List (Built Instance)}
    (h : ReadsItems σ ts shapes bs) :
    ∀ {i : Nat}, ts[i]? = some t → shapes[i]? = some shape → ∃ c, σ.build t shape = .ok c ∧ bs[i]? = some c := by
  induction h with
  | nil => exact fun ht => absurd ht (by simp)
  | @cons _ _ b _ _ _ hfirst _ ih =>
    intro i ht hshape
    cases i with
    | zero =>
      obtain rfl := Option.some.inj ht
      obtain rfl := Option.some.inj hshape
      exact ⟨b, hfirst, rfl⟩
    | succ i => exact ih ht hshape

theorem mem_skippedInItems_of_getElem? {bs : List (Built Instance)} {p : KeyPath} (hp : p ∈ c.skipped) :
    ∀ {i position : Nat}, bs[i]? = some c → .index (position + i) :: p ∈ skippedInItems position bs := by
  induction bs with
  | nil => exact fun h => absurd h (by simp)
  | cons b bs ih =>
    intro i position h
    cases i with
    | zero =>
      obtain rfl := Option.some.inj h
      exact List.mem_append_left _ (List.mem_map_of_mem hp)
    | succ i =>
      have hrest : .index (position + 1 + i) :: p ∈ skippedInItems (position + 1) bs := ih h
      rw [Nat.add_right_comm, Nat.add_assoc] at hrest
      exact List.mem_append_right _ hrest

/-- What a part skips is skipped in the whole. -/
theorem skipped_of_takesPart (h : ReadsParts σ reader t b) (hpart : reader.TakesPart t step u inner) :
    ∃ c, σ.build u inner = .ok c ∧ ∀ p ∈ c.skipped, step :: p ∈ b.skipped := by
  cases hpart with
  | @item _ _ _ i _ _ ht hshape =>
    cases h with
    | items _ hbs =>
      obtain ⟨c, hc, hget⟩ := built_of_readsItems hbs ht hshape
      refine ⟨c, hc, fun p hp => ?_⟩
      rw [← Nat.zero_add i]
      exact mem_skippedInItems_of_getElem? hp hget
  | @value _ _ _ _ key _ _ hmem hkey hwants =>
    cases h with
    | entries hrs _ =>
      obtain ⟨r, hr, hentry⟩ := (forall₂_partners hrs).1 _ hmem
      cases hentry with
      | @wanted _ _ _ _ _ c hkey' hwants' hc =>
        obtain rfl := Tree.text.inj (hkey.symm.trans hkey')
        obtain ⟨rfl, rfl⟩ := Prod.mk.inj (Option.some.inj (hwants.symm.trans hwants'))
        exact ⟨c, hc, fun p hp => List.mem_flatMap.2 ⟨_, hr, List.mem_map_of_mem hp⟩⟩
      | unwanted hkey' hwants' =>
        obtain rfl := Tree.text.inj (hkey.symm.trans hkey')
        rw [hwants] at hwants'
        cases hwants'

/-- A reader is meant for lists of one length; the parts of a list are taken as the same shape by all of them. -/
theorem Takes.takesPart (h : σ.Takes shape reader) (h' : σ.Takes shape reader') (hparts : ReadsParts σ reader' t b)
    (hpart : reader.TakesPart t step u inner) : reader'.TakesPart t step u inner := by
  have hitems {item : Shape} {ts : List Tree} {n m i : Nat} {bs : List (Built Instance)}
      (hbs : ReadsItems σ ts (List.replicate m item) bs) (ht : ts[i]? = some u)
      (hshape : (List.replicate n item)[i]? = some inner) : (List.replicate m item)[i]? = some inner := by
    have hlength : ts.length = m := by rw [readsItems_length hbs, List.length_replicate]
    obtain ⟨hi, -⟩ := List.getElem?_eq_some_iff.1 ht
    obtain ⟨-, rfl⟩ := List.getElem?_eq_some_iff.1 hshape
    rw [List.getElem_replicate, List.getElem?_replicate, if_pos (hlength ▸ hi)]
  cases h with
  | list item n | distinct item n =>
    cases h' with
    | _ =>
      cases hpart with
      | item ht hshape =>
        cases hparts with
        | items _ hbs => exact .item ht (hitems hbs ht hshape)
  | record name | dictionary value =>
    cases h' with
    | _ => exact hpart

theorem takes_unique {payload : Payload} (h : payload.Takes reader) (h' : payload.Takes reader') :
    reader = reader' := by
  cases h with
  | several => cases h' with | several => rfl
  | fields => cases h' with | fields => rfl

/-! ## Nodes further down -/

/-- Whether a node may be absent makes no difference to what it skips. -/
theorem skipped_of_base_eq {shape' : Shape} (hbase : shape.base = shape'.base) (hb : σ.build t shape = .ok b)
    (hc : σ.build t shape' = .ok c) : b.skipped = c.skipped := by
  by_cases h : t = .null
  · subst h
    rw [skipped_of_isScalar rfl hb, skipped_of_isScalar rfl hc]
  · rw [← build_base h, hbase, build_base h, hc] at hb
    obtain rfl := Except.ok.inj hb
    rfl

/-- A list or a map that a reader takes is read by that reader. -/
theorem readsParts_of_build (htakes : σ.Takes shape.base reader) (hpart : reader.TakesPart t step u inner)
    (h : σ.build t shape = .ok b) : ∃ reader', σ.Takes shape.base reader' ∧ ReadsParts σ reader' t b := by
  cases hpart with
  | item => exact build_list_eq_ok_iff.1 h
  | value => exact build_map_eq_ok_iff.1 h

theorem build_of_one {name tag : String} {content : Tree} (hchoice : shape.base = .choice name)
    (hvariant : (σ.variants name).lookup tag = some (.one inner)) (h : σ.build (.tagged tag content) shape = .ok b) :
    ∃ d, σ.build content inner = .ok d ∧ b.skipped = d.skipped.map (.variant :: ·) := by
  have hsame {name' : String} {payload : Payload} (hchoice' : shape.base = .choice name')
      (hvariant' : (σ.variants name').lookup tag = some payload) : payload = .one inner := by
    obtain rfl := Shape.choice.inj (hchoice'.symm.trans hchoice)
    exact Option.some.inj (hvariant'.symm.trans hvariant)
  cases build_tagged_eq_ok_iff.1 h with
  | scalar hscalar => cases hscalar
  | parts _ hparts => cases hparts
  | bare hchoice' hvariant' => cases hsame hchoice' hvariant'
  | one hchoice' hvariant' hd =>
    obtain rfl := Payload.one.inj (hsame hchoice' hvariant')
    exact ⟨_, hd, rfl⟩
  | payload hchoice' hvariant' htakes =>
    cases hsame hchoice' hvariant'
    cases htakes
  | through hne => exact absurd hchoice (hne _)

theorem build_of_payload {name tag : String} {content : Tree} {payload : Payload} (hchoice : shape.base = .choice name)
    (hvariant : (σ.variants name).lookup tag = some payload) (htakes : payload.Takes reader)
    (h : σ.build (.tagged tag content) shape = .ok b) :
    ∃ d, ReadsParts σ reader content d ∧ b.skipped = d.skipped := by
  have hsame {name' : String} {payload' : Payload} (hchoice' : shape.base = .choice name')
      (hvariant' : (σ.variants name').lookup tag = some payload') : payload' = payload := by
    obtain rfl := Shape.choice.inj (hchoice'.symm.trans hchoice)
    exact Option.some.inj (hvariant'.symm.trans hvariant)
  cases build_tagged_eq_ok_iff.1 h with
  | scalar hscalar => cases hscalar
  | parts _ hparts => cases hparts
  | bare hchoice' hvariant' =>
    cases hsame hchoice' hvariant'
    cases htakes
  | one hchoice' hvariant' hd =>
    cases hsame hchoice' hvariant'
    cases htakes
  | payload hchoice' hvariant' htakes' hparts =>
    cases hsame hchoice' hvariant'
    obtain rfl := takes_unique htakes htakes'
    exact ⟨_, hparts, rfl⟩
  | through hne => exact absurd hchoice (hne _)

/-- **What a node skips is skipped in the whole.** If a build reads a node at a path as a target, then every key that
the build of the node as the target skips is skipped, behind that path. -/
theorem skipped_of_readsAt (h : σ.ReadsAt node target t shape way) :
    ∀ {b c : Built Instance}, σ.build t shape = .ok b → σ.build node target = .ok c →
      ∀ p ∈ c.skipped, way ++ p ∈ b.skipped := by
  induction h with
  | here hbase =>
    intro b c hb hc p hp
    rwa [List.nil_append, skipped_of_base_eq hbase hb hc]
  | part htakes hpart _ ih =>
    intro b c hb hc p hp
    obtain ⟨reader', htakes', hparts⟩ := readsParts_of_build htakes hpart hb
    obtain ⟨d, hd, hskipped⟩ := skipped_of_takesPart hparts (htakes.takesPart htakes' hparts hpart)
    exact hskipped _ (ih hd hc p hp)
  | one hchoice hvariant _ ih =>
    intro b c hb hc p hp
    obtain ⟨d, hd, hskipped⟩ := build_of_one hchoice hvariant hb
    rw [hskipped]
    exact List.mem_map_of_mem (ih hd hc p hp)
  | payload hchoice hvariant htakes hpart _ ih =>
    intro b c hb hc p hp
    obtain ⟨d, hparts, hskipped⟩ := build_of_payload hchoice hvariant htakes hb
    obtain ⟨e, he, hpart⟩ := skipped_of_takesPart hparts hpart
    rw [hskipped]
    exact hpart _ (ih he hc p hp)
  | through hne _ ih =>
    intro b c hb hc p hp
    exact ih ((build_tagged_of_ne_choice hne).1 hb) hc p hp

end Schema

end Provisioning
