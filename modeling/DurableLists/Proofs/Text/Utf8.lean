import Mathlib.Data.List.Induction
import DurableLists.Text.Utf8

/-!
# Octets that are text

A text has one written form: decoding undoes encoding (`decode_encode`), and whatever decodes is the
encoding of what it decodes to (`encode_of_decode`). Octets below 128 always decode (`decode_ascii`).
-/

set_option autoImplicit false

namespace DurableLists

namespace Utf8

theorem decode_encode (text : String) : decode (encode text) = .ok text := by
  have hbytes : ByteArray.mk (encode text).toArray = text.toByteArray := by
    simp only [encode, Array.toArray_toList]
  have hvalid : (ByteArray.mk (encode text).toArray).IsValidUTF8 := hbytes ▸ text.isValidUTF8
  have hread : String.fromUTF8? (ByteArray.mk (encode text).toArray) = some text := by
    rw [String.fromUTF8?, dif_pos hvalid]
    rfl
  rw [decode, hread]

theorem encode_of_decode {bs : Bytes} {text : String} (h : decode bs = .ok text) :
    encode text = bs := by
  simp only [decode, String.fromUTF8?] at h
  by_cases hvalid : (ByteArray.mk bs.toArray).IsValidUTF8
  · simp only [dif_pos hvalid, Except.ok.injEq] at h
    subst h
    simp [encode, String.fromUTF8]
  · simp [dif_neg hvalid] at h

/-! ## Octets below 128 -/

theorem char_ascii :
    ∀ n < 128, (Char.ofNat n).utf8Size = 1 ∧ (Char.ofNat n).toUInt8 = UInt8.ofNat n := by
  decide

theorem valid_append_ascii (bs : Bytes) (b : UInt8) (hb : b < 128)
    (h : (ByteArray.mk bs.toArray).IsValidUTF8) :
    (ByteArray.mk (bs ++ [b]).toArray).IsValidUTF8 := by
  obtain ⟨hsize, hchar⟩ := char_ascii b.toNat hb
  have hpush := h.push hsize
  rw [hchar, UInt8.ofNat_toNat] at hpush
  have e : (ByteArray.mk bs.toArray).push b = ByteArray.mk (bs ++ [b]).toArray := by
    apply ByteArray.ext
    simp
  rw [← e]
  exact hpush

theorem valid_ascii (bs : Bytes) (h : ∀ b ∈ bs, b < 128) :
    (ByteArray.mk bs.toArray).IsValidUTF8 := by
  induction bs using List.reverseRecOn with
  | nil => exact ByteArray.isValidUTF8_empty
  | append_singleton bs b ih =>
    exact valid_append_ascii bs b (h b (by simp)) (ih fun c hc => h c (by simp [hc]))

theorem decode_ascii (bs : Bytes) (h : ∀ b ∈ bs, b < 128) : ∃ text, decode bs = .ok text := by
  refine ⟨String.fromUTF8 (ByteArray.mk bs.toArray) (valid_ascii bs h), ?_⟩
  rw [decode, String.fromUTF8?, dif_pos (valid_ascii bs h)]

end Utf8

end DurableLists
