import Mathlib.Data.List.Basic
import WikiFeed.Archive.Cipher

/-! # Scrambling and restoring

A block is scrambled by a permutation of its places and a key, so restoring undoes scrambling block
by block (`flatten_blocks_flatten`). What stands in the way for whole files is that a scrambled file
with the first bytes of an archive is taken for a plain one. `convert_convert_iff` says for which
files the two conversions undo each other in each order. -/

namespace WikiFeed.Cipher

open List

/-! ### One block -/

@[simp] theorem length_scrambleBlock (block : List UInt8) :
    (scrambleBlock block).length = blockSize := rfl

@[simp] theorem length_restoreBlock (block : List UInt8) :
    (restoreBlock block).length = blockSize := rfl

variable {block : List UInt8}

theorem exists_bytes (h : block.length = blockSize) :
    ∃ a b c d e f g i, block = [a, b, c, d, e, f, g, i] := by
  match block, h with
  | [a, b, c, d, e, f, g, i], _ => exact ⟨a, b, c, d, e, f, g, i, rfl⟩

theorem scrambleBlock_bytes (a b c d e f g i : UInt8) :
    scrambleBlock [a, b, c, d, e, f, g, i] =
      [g ^^^ 0x93, i ^^^ 0x94, f ^^^ 0x92, b ^^^ 0x8E, e ^^^ 0x91, a ^^^ 0x8D, c ^^^ 0x8F,
        d ^^^ 0x90] := rfl

theorem restoreBlock_bytes (a b c d e f g i : UInt8) :
    restoreBlock [a, b, c, d, e, f, g, i] =
      [f ^^^ 0x8D, d ^^^ 0x8E, g ^^^ 0x8F, i ^^^ 0x90, e ^^^ 0x91, c ^^^ 0x92, a ^^^ 0x93,
        b ^^^ 0x94] := rfl

theorem xor_xor_self (a k : UInt8) : a ^^^ k ^^^ k = a := by
  rw [UInt8.xor_assoc, UInt8.xor_self, UInt8.xor_zero]

theorem restoreBlock_scrambleBlock (h : block.length = blockSize) :
    restoreBlock (scrambleBlock block) = block := by
  obtain ⟨a, b, c, d, e, f, g, i, rfl⟩ := exists_bytes h
  simp only [scrambleBlock_bytes, restoreBlock_bytes, xor_xor_self]

theorem scrambleBlock_restoreBlock (h : block.length = blockSize) :
    scrambleBlock (restoreBlock block) = block := by
  obtain ⟨a, b, c, d, e, f, g, i, rfl⟩ := exists_bytes h
  simp only [scrambleBlock_bytes, restoreBlock_bytes, xor_xor_self]

/-- No block is scrambled to itself. The places `0`, `5`, `2` and `6` are moved around in a circle,
and the key bytes that are met on the way do not cancel out. -/
theorem scrambleBlock_ne (h : block.length = blockSize) : scrambleBlock block ≠ block := by
  obtain ⟨a, b, c, d, e, f, g, i, rfl⟩ := exists_bytes h
  rw [scrambleBlock_bytes]
  intro heq
  simp only [cons.injEq] at heq
  obtain ⟨ha, -, hc, -, -, hf, hg, -, -⟩ := heq
  have around : a ^^^ 0x03 = a := by
    calc a ^^^ 0x03 = a ^^^ 0x8D ^^^ 0x92 ^^^ 0x8F ^^^ 0x93 := by
          simp only [UInt8.xor_assoc]; rfl
      _ = a := by rw [hf, hc, hg, ha]
  have apart : (0x03 : UInt8) = 0 := by
    calc (0x03 : UInt8) = a ^^^ (a ^^^ 0x03) := by
          rw [← UInt8.xor_assoc, UInt8.xor_self, UInt8.zero_xor]
      _ = 0 := by rw [around, UInt8.xor_self]
  exact absurd apart (by decide)

theorem isPlain_scrambleBlock (h : block.length = blockSize) :
    isPlain (scrambleBlock block) ↔ block[6]? = some 0xC3 ∧ block[7]? = some 0xDF := by
  obtain ⟨a, b, c, d, e, f, g, i, rfl⟩ := exists_bytes h
  have undo (x k y : UInt8) : x ^^^ k = y ↔ x = y ^^^ k :=
    ⟨fun hx => by rw [← hx, xor_xor_self], fun hx => by rw [hx, xor_xor_self]⟩
  have hg : g ^^^ 0x93 = 0x50 ↔ g = 0xC3 := undo g 0x93 0x50
  have hi : i ^^^ 0x94 = 0x4B ↔ i = 0xDF := undo i 0x94 0x4B
  simp [scrambleBlock_bytes, isPlain, hg, hi]

/-! ### All blocks -/

variable {bytes : List UInt8}

section Blocks

variable {change back : List UInt8 → List UInt8}

theorem flatten_blocks_of_le (h : bytes.length ≤ blockSize) :
    (blocks change bytes).flatten = bytes := by
  rw [blocks]
  split_ifs with hempty hlong
  · simpa using (isEmpty_iff.mp hempty).symm
  · exact absurd hlong (Nat.not_lt.mpr h)
  · simp

theorem flatten_blocks_of_lt (h : blockSize < bytes.length) :
    (blocks change bytes).flatten =
      change (bytes.take blockSize) ++ (blocks change (bytes.drop blockSize)).flatten := by
  have hne : bytes.isEmpty = false := by
    cases bytes with
    | nil => exact absurd h (Nat.not_lt_zero _)
    | cons => rfl
  rw [blocks, hne, if_neg Bool.false_ne_true, if_pos h, flatten_cons]

variable (hlength : ∀ block, (change block).length = blockSize)

include hlength

theorem length_flatten_blocks (bytes : List UInt8) :
    (blocks change bytes).flatten.length = bytes.length := by
  induction bytes using blocks.induct with
  | case1 bytes hempty =>
    rw [isEmpty_iff.mp hempty, flatten_blocks_of_le (Nat.zero_le _)]
  | case2 bytes _ hlong ih =>
    rw [flatten_blocks_of_lt hlong, length_append, hlength, ih, length_drop]
    omega
  | case3 bytes _ hshort => rw [flatten_blocks_of_le (Nat.not_lt.mp hshort)]

/-- What undoes the change of each block undoes the change of the whole text. The blocks of the
changed text are the changed blocks, since no block changes its length. -/
theorem flatten_blocks_flatten
    (hback : ∀ block, block.length = blockSize → back (change block) = block) (bytes : List UInt8) :
    (blocks back (blocks change bytes).flatten).flatten = bytes := by
  induction bytes using blocks.induct with
  | case1 bytes hempty =>
    have hle : bytes.length ≤ blockSize := by simp [isEmpty_iff.mp hempty]
    rw [flatten_blocks_of_le hle, flatten_blocks_of_le hle]
  | case2 bytes _ hlong ih =>
    have htake : (bytes.take blockSize).length = blockSize := by
      rw [length_take, Nat.min_eq_left (Nat.le_of_lt hlong)]
    have hchanged : blockSize < (blocks change bytes).flatten.length := by
      rwa [length_flatten_blocks hlength]
    have hfirst : (blocks change bytes).flatten.take blockSize = change (bytes.take blockSize) := by
      rw [flatten_blocks_of_lt hlong, take_left' (hlength _)]
    have hrest : (blocks change bytes).flatten.drop blockSize =
        (blocks change (bytes.drop blockSize)).flatten := by
      rw [flatten_blocks_of_lt hlong, drop_left' (hlength _)]
    rw [flatten_blocks_of_lt hchanged, hfirst, hrest, hback _ htake, ih, take_append_drop]
  | case3 bytes _ hshort =>
    have hle := Nat.not_lt.mp hshort
    rw [flatten_blocks_of_le hle, flatten_blocks_of_le hle]

end Blocks

/-! ### Whole files -/

@[simp] theorem length_scramble (bytes : List UInt8) : (scramble bytes).length = bytes.length :=
  length_flatten_blocks length_scrambleBlock bytes

@[simp] theorem length_restore (bytes : List UInt8) : (restore bytes).length = bytes.length := by
  unfold restore
  split_ifs
  · rfl
  · exact length_flatten_blocks length_restoreBlock bytes

theorem scramble_of_le (h : bytes.length ≤ blockSize) :
    scramble bytes = bytes := flatten_blocks_of_le h

theorem restore_of_le (h : bytes.length ≤ blockSize) : restore bytes = bytes := by
  unfold restore
  split_ifs
  · rfl
  · exact flatten_blocks_of_le h

theorem restore_of_isPlain (h : isPlain bytes) : restore bytes = bytes :=
  if_pos h

theorem restore_scramble (h : ¬ isPlain (scramble bytes)) : restore (scramble bytes) = bytes := by
  rw [restore, if_neg h]
  exact flatten_blocks_flatten length_scrambleBlock (fun _ => restoreBlock_scrambleBlock) bytes

theorem scramble_restore (h : ¬ isPlain bytes) : scramble (restore bytes) = bytes := by
  rw [restore, if_neg h]
  exact flatten_blocks_flatten length_restoreBlock (fun _ => scrambleBlock_restoreBlock) bytes

theorem scramble_ne (h : blockSize < bytes.length) : scramble bytes ≠ bytes := by
  intro heq
  have htake : (bytes.take blockSize).length = blockSize := by
    rw [length_take, Nat.min_eq_left (Nat.le_of_lt h)]
  apply scrambleBlock_ne htake
  calc scrambleBlock (bytes.take blockSize)
      = (scramble bytes).take blockSize := by
        rw [scramble, flatten_blocks_of_lt h, take_left' (length_scrambleBlock _)]
    _ = bytes.take blockSize := by rw [heq]

theorem isPlain_scramble (h : blockSize < bytes.length) :
    isPlain (scramble bytes) ↔ bytes[6]? = some 0xC3 ∧ bytes[7]? = some 0xDF := by
  have htake : (bytes.take blockSize).length = blockSize := by
    rw [length_take, Nat.min_eq_left (Nat.le_of_lt h)]
  have hhead : isPlain (scramble bytes) = isPlain (scrambleBlock (bytes.take blockSize)) := by
    rw [scramble, flatten_blocks_of_lt h, isPlain, isPlain,
      take_append_of_le_length (by rw [length_scrambleBlock]; decide)]
  rw [hhead, isPlain_scrambleBlock htake, getElem?_take_of_lt (by decide),
    getElem?_take_of_lt (by decide)]

theorem isPlain_iff (bytes : List UInt8) : isPlain bytes ↔ [0x50, 0x4B] <+: bytes := by
  rw [isPlain, beq_iff_eq, prefix_iff_eq_take, eq_comm]
  rfl

/-- **When scrambling and restoring undo each other.** Both keep the length. Restoring undoes
scrambling unless the file has more than eight bytes and its scrambled form begins like an archive,
which is decided by the last two bytes of its first block; a file of at most eight bytes is not
changed at all. Scrambling undoes restoring unless the file was taken for a plain archive and
is long enough to be changed. -/
theorem convert_convert_iff {archive scrambled : String} (ha : isScrambled archive = false)
    (hs : isScrambled scrambled = true) (b : List UInt8) :
    (convert archive b).length = b.length ∧
    (convert scrambled b).length = b.length ∧
    (convert scrambled (convert archive b) = b ↔
      ¬ (8 < b.length ∧ b[6]? = some 0xC3 ∧ b[7]? = some 0xDF)) ∧
    ([0x50, 0x4B] <+: convert archive b ↔
      (8 < b.length ∧ b[6]? = some 0xC3 ∧ b[7]? = some 0xDF) ∨
        (b.length ≤ 8 ∧ [0x50, 0x4B] <+: b)) ∧
    (convert archive (convert scrambled b) = b ↔ ¬ [0x50, 0x4B] <+: b ∨ b.length ≤ 8) := by
  have hscramble (c : List UInt8) : convert archive c = scramble c := if_neg (by simp [ha])
  have hrestore (c : List UInt8) : convert scrambled c = restore c := if_pos hs
  simp only [hscramble, hrestore, ← isPlain_iff]
  refine ⟨length_scramble b, length_restore b, ?_⟩
  rcases Nat.lt_or_ge 8 b.length with hlong | hshort
  · simp only [hlong, Nat.not_le.mpr hlong, true_and, false_and, or_false]
    refine ⟨?_, isPlain_scramble hlong, ?_⟩
    · rw [← isPlain_scramble hlong]
      refine ⟨fun hback hplain => ?_, restore_scramble⟩
      rw [restore_of_isPlain hplain] at hback
      exact scramble_ne hlong hback
    · refine ⟨fun hback hplain => ?_, scramble_restore⟩
      rw [restore_of_isPlain hplain] at hback
      exact scramble_ne hlong hback
  · simp only [scramble_of_le hshort, restore_of_le hshort, hshort, Nat.not_lt.mpr hshort, true_and,
      false_and, false_or, or_true, not_false_eq_true, and_self]

def deceptive : List UInt8 := [0x50, 0x4B, 3, 4, 0, 0, 0xC3, 0xDF, 1]

theorem convert_convert_deceptive :
    (isScrambled "anim.zip" = false ∧ isScrambled "anim.dyn" = true) ∧
    convert "anim.dyn" (convert "anim.zip" deceptive) ≠ deceptive ∧
    [0x50, 0x4B] <+: convert "anim.zip" deceptive ∧
    convert "anim.zip" (convert "anim.dyn" deceptive) ≠ deceptive := by
  have ha : isScrambled "anim.zip" = false := by decide +kernel
  have hs : isScrambled "anim.dyn" = true := by decide +kernel
  obtain ⟨-, -, hback, hplain, hforth⟩ := convert_convert_iff ha hs deceptive
  refine ⟨⟨ha, hs⟩, ?_, hplain.mpr (.inl ⟨by decide, rfl, rfl⟩), ?_⟩
  · exact fun h => hback.mp h ⟨by decide, rfl, rfl⟩
  · exact fun h => (hforth.mp h).elim (fun hno => hno ⟨_, rfl⟩) (absurd · (by decide))

end WikiFeed.Cipher
