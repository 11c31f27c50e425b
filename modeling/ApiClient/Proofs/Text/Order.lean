import Mathlib.Data.List.Lex
import Mathlib.Data.String.Basic
import ApiClient.Text.Width

/-!
# The order of texts

* `lex_utf8EncodeChar`: the bytes of a character come before those of a greater one, whatever
  follows them;
* `lt_iff_bytes_lt`: texts are ordered by their bytes.
-/

namespace ApiClient.Text

/-- A smaller number has a smaller digit to the base of 64 where it differs first. -/
theorem digits_lt {m n : Nat} (h : m < n) :
    m / 262144 < n / 262144 ∨ m / 262144 = n / 262144 ∧ (m / 4096 % 64 < n / 4096 % 64 ∨
      m / 4096 % 64 = n / 4096 % 64 ∧ (m / 64 % 64 < n / 64 % 64 ∨
        m / 64 % 64 = n / 64 % 64 ∧ m % 64 < n % 64)) := by
  omega

/-- The bytes of a smaller character come first, whatever follows. The first byte tells how many
there are, and more of them are needed for greater characters. -/
theorem lex_utf8EncodeChar {c d : Char} (h : c < d) (s t : List UInt8) :
    String.utf8EncodeChar c ++ s < String.utf8EncodeChar d ++ t := by
  have hlt : c.val.toNat < d.val.toNat := h
  have hd : d.val.toNat < 0x110000 := by
    have hvalid := d.valid
    simp only [UInt32.isValidChar, Nat.isValidChar] at hvalid
    omega
  have hdigits := digits_lt hlt
  unfold String.utf8EncodeChar
  dsimp only
  split_ifs
  all_goals
    simp only [List.cons_append, List.nil_append, List.cons_lt_cons_iff, UInt8.lt_iff_toNat_lt,
      ← UInt8.toNat_inj, UInt8.toNat_ofNat']
    simp (disch := omega) only [Nat.mod_eq_of_lt]
    omega

/-- Texts are ordered by their bytes. -/
theorem lt_iff_bytes_lt {s t : String} : s < t ↔ bytes s.toList < bytes t.toList := by
  rw [String.lt_iff_toList_lt]
  generalize s.toList = s, t.toList = t
  -- one direction for all texts gives the other one, since two texts can always be compared
  have himp : ∀ s t : List Char, s < t → bytes s < bytes t := by
    intro s t h
    induction h with
    | @nil c s =>
      obtain ⟨b, rest, hb⟩ := List.exists_cons_of_ne_nil (@String.utf8EncodeChar_ne_nil c)
      rw [bytes, bytes, List.flatMap_cons, hb]
      exact List.nil_lt_cons b _
    | rel h => exact lex_utf8EncodeChar h _ _
    | cons _ ih => exact List.Lex.append_left _ ih _
  refine ⟨himp s t, fun h => ?_⟩
  rcases lt_trichotomy s t with hlt | rfl | hgt
  · exact hlt
  · exact absurd h (List.lt_irrefl _)
  · exact absurd h (List.lt_asymm (himp t s hgt))

end ApiClient.Text
