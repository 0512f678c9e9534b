import Mathlib.Tactic.SplitIfs

/-!
# The order of texts is the order of their octets

Texts are compared by the code points of their characters. UTF-8 is made so that comparing the octets comes to the
same: of two characters the lesser one has the lesser encoding, and neither encoding is the beginning of the other, so
whatever follows them does not matter (`utf8EncodeChar_append_lt`).
-/

namespace Provisioning

open String (utf8EncodeChar)

/-- The octets of a text in UTF-8. -/
def utf8Octets (s : String) : List UInt8 := s.toUTF8.data.toList

theorem utf8Octets_eq (s : String) : utf8Octets s = s.toList.flatMap utf8EncodeChar := by
  change s.toByteArray.data.toList = _
  rw [← String.utf8Encode_toList, List.utf8Encode, List.data_toByteArray]

/-! ## Characters -/

/-- Octets are compared one after the other, each by its value. -/
theorem ofNat_cons_lt_iff {m n : Nat} {x y : List UInt8} (hm : m < 256) (hn : n < 256) :
    UInt8.ofNat m :: x < UInt8.ofNat n :: y ↔ m < n ∨ m = n ∧ x < y := by
  rw [List.cons_lt_cons_iff, UInt8.lt_iff_toNat_lt, ← UInt8.toNat_inj, UInt8.toNat_ofNat', UInt8.toNat_ofNat',
    Nat.mod_eq_of_lt hm, Nat.mod_eq_of_lt hn]

/-- Of two numbers the lesser one has the lesser digits. -/
theorem digits_lt (b : Nat) {m n : Nat} (h : m < n) : m / b < n / b ∨ m / b = n / b ∧ m % b < n % b := by
  rcases Nat.lt_or_eq_of_le (Nat.div_le_div_right (Nat.le_of_lt h) : m / b ≤ n / b) with hlt | heq
  · exact .inl hlt
  · refine .inr ⟨heq, ?_⟩
    have hm := Nat.div_add_mod m b
    have hn := Nat.div_add_mod n b
    rw [heq] at hm
    omega

theorem toNat_lt_of_char (c : Char) : c.val.toNat < 1114112 := by
  rcases c.valid with hlow | hhigh
  · have hbound : c.val.toNat < 55296 := hlow
    omega
  · exact hhigh.2

/-- Of two characters the lesser one has the lesser encoding, whatever follows. -/
theorem utf8EncodeChar_append_lt {c d : Char} (h : c < d) (x y : List UInt8) :
    utf8EncodeChar c ++ x < utf8EncodeChar d ++ y := by
  have hlt : c.val.toNat < d.val.toNat := h
  have hmax := toNat_lt_of_char d
  unfold utf8EncodeChar
  generalize c.val.toNat = m at hlt
  generalize d.val.toNat = n at hlt hmax
  -- an encoding is the first octet, which also tells its length, and then the digits to base 64
  have hdigits : ∀ k : Nat, k / 4096 = k / 64 / 64 ∧ k / 262144 = k / 64 / 64 / 64 := fun k => by omega
  have h1 := digits_lt 64 hlt
  have h2 : m / 64 < n / 64 → _ := digits_lt 64
  have h3 : m / 64 / 64 < n / 64 / 64 → _ := digits_lt 64
  have hm8 : m / 64 / 64 / 64 % 8 = m / 64 / 64 / 64 := by omega
  have hn8 : n / 64 / 64 / 64 % 8 = n / 64 / 64 / 64 := by omega
  dsimp only
  rw [(hdigits m).1, (hdigits n).1, (hdigits m).2, (hdigits n).2, hm8, hn8]
  split_ifs
  all_goals
    simp (disch := omega) only [List.cons_append, List.nil_append, ofNat_cons_lt_iff]
    omega

theorem utf8EncodeChar_ne_nil (c : Char) : utf8EncodeChar c ≠ [] := by
  unfold utf8EncodeChar
  dsimp only
  split_ifs <;> exact List.cons_ne_nil _ _

/-! ## Texts -/

theorem flatMap_utf8EncodeChar_lt {cs ds : List Char} (h : cs < ds) :
    cs.flatMap utf8EncodeChar < ds.flatMap utf8EncodeChar := by
  induction cs generalizing ds with
  | nil =>
    cases ds with
    | nil => exact absurd h (List.not_lt_nil _)
    | cons d ds =>
      obtain ⟨octet, octets, henc⟩ := List.exists_cons_of_ne_nil (utf8EncodeChar_ne_nil d)
      rw [List.flatMap_nil, List.flatMap_cons, henc, List.cons_append]
      exact List.nil_lt_cons octet _
  | cons c cs ih =>
    cases ds with
    | nil => exact absurd h (List.not_lt_nil _)
    | cons d ds =>
      rw [List.flatMap_cons, List.flatMap_cons]
      rcases List.cons_lt_cons_iff.1 h with hlt | ⟨rfl, hrest⟩
      · exact utf8EncodeChar_append_lt hlt _ _
      · exact List.append_left_lt (ih hrest)

/-- The lesser text has the lesser octets. -/
theorem utf8Octets_lt {s t : String} (h : s < t) : utf8Octets s < utf8Octets t := by
  rw [utf8Octets_eq, utf8Octets_eq]
  exact flatMap_utf8EncodeChar_lt (String.lt_iff.1 h)

/-- Comparing the octets of two texts compares the texts. -/
theorem utf8Octets_le_iff {s t : String} : utf8Octets s ≤ utf8Octets t ↔ s ≤ t := by
  refine ⟨fun h => String.not_lt.1 fun hlt => List.not_lt.2 h (utf8Octets_lt hlt), fun h => ?_⟩
  by_cases hlt : s < t
  · exact List.le_of_lt (utf8Octets_lt hlt)
  · rw [String.le_antisymm h (String.not_lt.1 hlt)]
    exact List.le_refl _

end Provisioning
