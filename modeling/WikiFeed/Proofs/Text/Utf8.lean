import Mathlib.Tactic.SplitIfs
import WikiFeed.Text.Utf8

/-! # Text written in bytes

A text is read from its own bytes (`decode?_encode`). All bytes of a character are above the bytes
of single characters, or it is one of these. So a line feed is among the bytes of a text only if it
is in the text (`feed_not_mem_encode`). -/

namespace WikiFeed.Text

open List UInt8

theorem encode_append (s t : String) : encode (s ++ t) = encode s ++ encode t := by
  rw [encode, String.toList_append, flatMap_append]
  rfl

theorem utf8EncodeChar_eq (c : Char) : String.utf8EncodeChar c =
    if c.toNat ≤ 0x7F then [ofNat c.toNat]
    else if c.toNat ≤ 0x7FF then
      [ofNat (c.toNat / 64 % 32 + 192), ofNat (c.toNat % 64 + 128)]
    else if c.toNat ≤ 0xFFFF then
      [ofNat (c.toNat / 4096 % 16 + 224), ofNat (c.toNat / 64 % 64 + 128),
        ofNat (c.toNat % 64 + 128)]
    else
      [ofNat (c.toNat / 262144 % 8 + 240), ofNat (c.toNat / 4096 % 64 + 128),
        ofNat (c.toNat / 64 % 64 + 128), ofNat (c.toNat % 64 + 128)] := rfl

theorem feed_not_mem_utf8EncodeChar {c : Char} (h : c ≠ '\n') : 10 ∉ String.utf8EncodeChar c := by
  have hfeed : c.toNat ≠ 10 := fun heq => h (Char.toNat_inj.mp heq)
  rw [utf8EncodeChar_eq]
  -- every byte of a character that takes several is at least 128
  split_ifs <;> simp [← UInt8.toNat_inj] <;> omega

theorem feed_not_mem_encode {s : String} (h : '\n' ∉ s.toList) : 10 ∉ encode s := by
  rw [encode, mem_flatMap]
  rintro ⟨c, hc, hmem⟩
  exact feed_not_mem_utf8EncodeChar (fun heq => h (heq ▸ hc)) hmem

theorem decode?_encode (s : String) : decode? (encode s) = some s := by
  have hbytes : (encode s).toByteArray = s.toByteArray := String.utf8Encode_toList
  rw [decode?, hbytes]
  exact dif_pos s.isValidUTF8

end WikiFeed.Text
