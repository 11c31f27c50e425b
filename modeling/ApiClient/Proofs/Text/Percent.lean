import Mathlib.Tactic.Common
import ApiClient.Text.Percent

/-!
# Encoded components

* `decodeBytes?_bytes`: the bytes of a text spell it;
* `Escaped`, `escaped_encode`: an encoded component is made of unreserved characters and escapes;
* `not_mem_encode`: nothing that is reserved is left in it;
* `decode?_encode`: an encoded component stands for the text that it is made of.
-/

namespace ApiClient.Text

theorem decodeBytes?_bytes (s : List Char) : decodeBytes? (bytes s) = some (String.ofList s) := by
  have hutf : (⟨(bytes s).toArray⟩ : ByteArray) = s.utf8Encode :=
    ByteArray.ext List.data_toByteArray.symm
  rw [decodeBytes?, hutf, String.fromUTF8?, dif_pos ByteArray.isValidUTF8_utf8Encode]
  rfl

namespace Percent

/-! ## Escaped bytes -/

theorem byte_of_digits (b : UInt8) : UInt8.ofNat (b.toNat / 16 * 16 + b.toNat % 16) = b := by
  rw [show b.toNat / 16 * 16 + b.toNat % 16 = b.toNat by omega, UInt8.ofNat_toNat]

theorem decodeBytes?_escapeByte (b : UInt8) (s : List Char) :
    decodeBytes? (escapeByte b ++ s) = (b :: ·) <$> decodeBytes? s := by
  have hb : b.toNat < 256 := b.toNat_lt
  have hhigh := Hex.value?_capital (b.toNat / 16) (by omega)
  have hlow := Hex.value?_capital (b.toNat % 16) (by omega)
  simp only [escapeByte, List.cons_append, List.nil_append]
  rw [decodeBytes?, hhigh, hlow]
  cases decodeBytes? s with
  | none => rfl
  | some more => exact congrArg some (congrArg (· :: more) (byte_of_digits b))

theorem decodeBytes?_escapeBytes (bs : List UInt8) (s : List Char) :
    decodeBytes? (bs.flatMap escapeByte ++ s) = (bs ++ ·) <$> decodeBytes? s := by
  induction bs with
  | nil => simp
  | cons b bs ih =>
    rw [List.flatMap_cons, List.append_assoc, decodeBytes?_escapeByte, ih]
    cases decodeBytes? s <;> rfl

theorem capital_isUnreserved : ∀ n < 16, isUnreserved (Hex.capital n) = true := by decide

/-- An escaped byte is a percent sign and digits. -/
theorem of_mem_escapeByte {b : UInt8} {c : Char} (h : c ∈ escapeByte b) :
    c = '%' ∨ isUnreserved c = true := by
  have hb : b.toNat < 256 := b.toNat_lt
  simp only [escapeByte, List.mem_cons, List.not_mem_nil, or_false] at h
  rcases h with rfl | rfl | rfl
  · exact .inl rfl
  · exact .inr (capital_isUnreserved _ (by omega))
  · exact .inr (capital_isUnreserved _ (by omega))

/-! ## Components -/

/-- Unreserved characters and escapes, each of them a percent sign and two hexadecimal digits. -/
inductive Escaped : List Char → Prop where
  | nil : Escaped []
  | unreserved {c : Char} {s : List Char} (hc : isUnreserved c = true) (hs : Escaped s) :
      Escaped (c :: s)
  | escape {a b : Char} {s : List Char} (ha : (Hex.value? a).isSome = true)
      (hb : (Hex.value? b).isSome = true) (hs : Escaped s) : Escaped ('%' :: a :: b :: s)

theorem escaped_escapeBytes (bs : List UInt8) {s : List Char} (hs : Escaped s) :
    Escaped (bs.flatMap escapeByte ++ s) := by
  induction bs with
  | nil => exact hs
  | cons b bs ih =>
    have hb : b.toNat < 256 := b.toNat_lt
    rw [List.flatMap_cons, List.append_assoc]
    refine .escape ?_ ?_ ih
    · rw [Hex.value?_capital (b.toNat / 16) (by omega)]
      rfl
    · rw [Hex.value?_capital (b.toNat % 16) (by omega)]
      rfl

theorem encode_cons (c : Char) (s : List Char) : encode (c :: s) = encodeChar c ++ encode s := by
  simp [encode]

theorem escaped_encode (s : List Char) : Escaped (encode s) := by
  induction s with
  | nil => exact .nil
  | cons c s ih =>
    rw [encode_cons, encodeChar]
    split
    · next hc => exact .unreserved hc ih
    · exact escaped_escapeBytes _ ih

theorem of_mem_encode {c : Char} {s : List Char} (h : c ∈ encode s) :
    c = '%' ∨ isUnreserved c = true := by
  rw [encode, List.mem_flatMap] at h
  obtain ⟨d, -, h⟩ := h
  unfold encodeChar at h
  split at h
  · next hd =>
    obtain rfl := List.mem_singleton.mp h
    exact .inr hd
  · obtain ⟨b, -, h⟩ := List.mem_flatMap.mp h
    exact of_mem_escapeByte h

theorem not_mem_encode {c : Char} (hc : c ≠ '%') (hr : isUnreserved c = false) (s : List Char) :
    c ∉ encode s := by
  intro h
  rcases of_mem_encode h with h | h
  · exact hc h
  · rw [hr] at h
    cases h

theorem count_encode {c : Char} (hc : c ≠ '%') (hr : isUnreserved c = false) (s : List Char) :
    (encode s).count c = 0 :=
  List.count_eq_zero.mpr (not_mem_encode hc hr s)

theorem decodeBytes?_of_ne {c : Char} (h : c ≠ '%') (s : List Char) :
    decodeBytes? (c :: s) = (String.utf8EncodeChar c ++ ·) <$> decodeBytes? s := by
  rw [decodeBytes?.eq_3 c s (by rintro a b rest rfl; exact absurd rfl h), if_neg h]

theorem decodeBytes?_encodeChar (c : Char) (s : List Char) :
    decodeBytes? (encodeChar c ++ s) = (String.utf8EncodeChar c ++ ·) <$> decodeBytes? s := by
  unfold encodeChar
  split
  · next h =>
    have hc : c ≠ '%' := by
      rintro rfl
      exact absurd h (by decide)
    exact decodeBytes?_of_ne hc s
  · exact decodeBytes?_escapeBytes _ s

theorem decodeBytes?_encode (s : List Char) : decodeBytes? (encode s) = some (bytes s) := by
  induction s with
  | nil => rfl
  | cons c s ih =>
    rw [encode_cons, decodeBytes?_encodeChar, ih]
    rfl

theorem decode?_encode (s : List Char) : decode? (encode s) = some (String.ofList s) := by
  rw [decode?, decodeBytes?_encode]
  exact decodeBytes?_bytes s

theorem encode_injective : Function.Injective encode := by
  intro s t h
  have hs := decode?_encode s
  rw [h, decode?_encode t, Option.some.injEq] at hs
  exact (String.ofList_injective hs).symm

theorem encode_ne_nil {s : List Char} (h : s ≠ []) : encode s ≠ [] :=
  fun he => h (encode_injective (he.trans rfl))

end Percent

end ApiClient.Text
