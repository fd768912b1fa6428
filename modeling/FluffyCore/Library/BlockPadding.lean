import FluffyCore.Library.ByteStrings

/-!
# Padding to whole blocks

A text is padded to a whole number of blocks with bytes that say how many they are. There is
always at least one, so the last byte of a padded text tells where the text ended, for texts
of every length.
-/

namespace FluffyCore.Library.BlockPadding

open ByteStrings

/-- How many bytes fill the last block; a whole one if the text ends at its border. -/
def paddingLen (size length : Nat) : Nat := size - length % size

/-- The padded text. -/
def pad (size : Nat) (text : Bytes) : Bytes :=
  text ++ List.replicate (paddingLen size text.length)
    (UInt8.ofNat (paddingLen size text.length))

section Size

variable {size : Nat} (positive : 0 < size)
include positive

/-- There is always some padding, a whole block of it for a text that fills its last block. -/
theorem paddingLen_pos (length : Nat) : 0 < paddingLen size length :=
  Nat.sub_pos_of_lt (Nat.mod_lt length positive)

omit positive in
/-- The padding is at most one block. -/
theorem paddingLen_le (length : Nat) : paddingLen size length ≤ size := Nat.sub_le _ _

/-- A padded text is a whole number of blocks. -/
theorem length_pad_mod (text : Bytes) : (pad size text).length % size = 0 := by
  have small := Nat.mod_lt text.length positive
  have whole : text.length + (size - text.length % size) =
      size * (text.length / size + 1) := by
    have split := Nat.div_add_mod text.length size
    rw [Nat.mul_add, Nat.mul_one]
    omega
  rw [pad, List.length_append, List.length_replicate, paddingLen, whole, Nat.mul_mod_right]

/-- A padded text is not empty, even if the text is. -/
theorem pad_ne_nil (text : Bytes) : pad size text ≠ [] := by
  intro empty
  have length := congrArg List.length empty
  rw [pad, List.length_append, List.length_replicate, List.length_nil] at length
  have := paddingLen_pos positive text.length
  omega

omit positive in
/-- Without its padding, a padded text is the text. -/
theorem take_pad (text : Bytes) :
    (pad size text).take ((pad size text).length - paddingLen size text.length) = text := by
  simp [pad]

omit positive in
/-- Behind the text there is the padding and nothing else. -/
theorem drop_pad (text : Bytes) :
    (pad size text).drop ((pad size text).length - paddingLen size text.length) =
      List.replicate (paddingLen size text.length)
        (UInt8.ofNat (paddingLen size text.length)) := by
  simp [pad]

/-- The last byte tells how long the padding is. -/
theorem getLast?_pad (text : Bytes) :
    (pad size text).getLast? = some (UInt8.ofNat (paddingLen size text.length)) := by
  have some_left := paddingLen_pos positive text.length
  rw [pad, List.getLast?_append, List.getLast?_replicate, if_neg (by omega), Option.some_or]

omit positive in
/-- Counted from the end, as many bytes as it says belong to the padding. -/
theorem getElem?_pad (text : Bytes) {index : Nat}
    (inside : index < paddingLen size text.length) :
    (pad size text)[(pad size text).length - 1 - index]? =
      some (UInt8.ofNat (paddingLen size text.length)) := by
  have position : (pad size text).length - 1 - index =
      text.length + (paddingLen size text.length - 1 - index) := by
    rw [pad, List.length_append, List.length_replicate]
    omega
  rw [position, pad, List.getElem?_append_right (Nat.le_add_right _ _), Nat.add_sub_cancel_left,
    List.getElem?_replicate, if_pos (by omega)]

omit positive in
/-- Blocks are shorter than what a byte can count. -/
theorem toNat_paddingLen (fits : size < 256) (length : Nat) :
    (UInt8.ofNat (paddingLen size length)).toNat = paddingLen size length := by
  have : paddingLen size length ≤ size := paddingLen_le length
  rw [UInt8.toNat_ofNat']
  omega

end Size

end FluffyCore.Library.BlockPadding
