import FluffyCore.Library.ByteStrings

/-!
# Hexadecimal text

Two digits for each byte, written in lower case and read in either case.
-/

namespace FluffyCore.Library.HexText

open ByteStrings

/-- Why a text is not hexadecimal: a byte that is no digit, or a digit that is left over. -/
inductive DecodeError where
  | invalidByte (found : UInt8)
  | oddLength
deriving DecidableEq

/-- The lower-case digit of a number below sixteen. -/
def hexDigit (value : Nat) : UInt8 :=
  if value < 10 then UInt8.ofNat (48 + value) else UInt8.ofNat (87 + value)

/-- The number a digit stands for. -/
def fromHexChar (char : UInt8) : Option Nat :=
  if 48 ≤ char ∧ char ≤ 57 then some (char.toNat - 48)
  else if 97 ≤ char ∧ char ≤ 102 then some (char.toNat - 87)
  else if 65 ≤ char ∧ char ≤ 70 then some (char.toNat - 55)
  else none

def encodeToString (bytes : Bytes) : Bytes :=
  bytes.flatMap fun byte => [hexDigit (byte.toNat / 16), hexDigit (byte.toNat % 16)]

/-- The first byte that is no digit is reported, and a missing digit only if there is none. -/
def decodeString : Bytes → Except DecodeError Bytes
  | [] => .ok []
  | [last] => match fromHexChar last with
    | none => .error (.invalidByte last)
    | some _ => .error .oddLength
  | high :: low :: rest =>
    match fromHexChar high with
    | none => .error (.invalidByte high)
    | some upper =>
      match fromHexChar low with
      | none => .error (.invalidByte low)
      | some lower =>
        match decodeString rest with
        | .error err => .error err
        | .ok bytes => .ok (UInt8.ofNat (upper * 16 + lower) :: bytes)

/-- Upper case, for ASCII letters. -/
def toUpper (text : Bytes) : Bytes :=
  text.map fun char => if 97 ≤ char ∧ char ≤ 122 then char - 32 else char

/-- The upper case form of a digit is read as the value of the digit. -/
theorem fromHexChar_upper (value : Fin 16) :
    fromHexChar (if 97 ≤ hexDigit value ∧ hexDigit value ≤ 122 then hexDigit value - 32
      else hexDigit value) = some value.val := by
  revert value
  decide

/-- What is written in upper case is read back. -/
theorem decodeString_toUpper (bytes : Bytes) :
    decodeString (toUpper (encodeToString bytes)) = .ok bytes := by
  induction bytes with
  | nil => rfl
  | cons byte bytes inductionHypothesis =>
    have bound : byte.toNat < 256 := byte.toNat_lt
    have high := fromHexChar_upper ⟨byte.toNat / 16, by omega⟩
    have low := fromHexChar_upper ⟨byte.toNat % 16, by omega⟩
    have whole : UInt8.ofNat (byte.toNat / 16 * 16 + byte.toNat % 16) = byte := by
      rw [Nat.div_add_mod', UInt8.ofNat_toNat]
    rw [encodeToString, List.flatMap_cons, toUpper, List.map_append]
    simp only [List.map_cons, List.map_nil, List.cons_append, List.nil_append]
    rw [decodeString, high]
    simp only [low]
    change (match decodeString (toUpper (encodeToString bytes)) with
      | .error err => _
      | .ok bytes => _) = _
    rw [inductionHypothesis]
    simp only [whole]

/-- Upper case digits lie between "0" and "F", and none of them is a colon. -/
theorem upper_hexDigit (value : Fin 16) (char : UInt8)
    (same : char = if 97 ≤ hexDigit value ∧ hexDigit value ≤ 122 then hexDigit value - 32
      else hexDigit value) : 48 ≤ char ∧ char ≤ 70 ∧ char ≠ 58 := by
  subst same
  revert value
  decide

/-- Digits and the letters up to F. -/
theorem mem_toUpper_encodeToString {bytes : Bytes} {char : UInt8}
    (inside : char ∈ toUpper (encodeToString bytes)) : 48 ≤ char ∧ char ≤ 70 ∧ char ≠ 58 := by
  obtain ⟨digit, member, same⟩ := List.mem_map.1 inside
  obtain ⟨byte, _, written⟩ := List.mem_flatMap.1 member
  have bound : byte.toNat < 256 := byte.toNat_lt
  rcases List.mem_cons.1 written with rfl | written
  · exact upper_hexDigit ⟨byte.toNat / 16, by omega⟩ char same.symm
  · rw [List.mem_singleton] at written
    subst written
    exact upper_hexDigit ⟨byte.toNat % 16, by omega⟩ char same.symm

end FluffyCore.Library.HexText
