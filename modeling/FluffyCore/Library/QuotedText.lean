import Mathlib.Data.List.Basic

/-!
# Quoted text

The `%q` verb prints a text between double quotes, with a backslash before a quote or a
backslash and an escape for every rune that is not printable.

The rune classes, the case mapping and the printable runes come from Go's Unicode tables.
They are a parameter here: any tables that agree with Go's documented ones on ASCII and keep
white space apart from word runes will do.
-/

namespace FluffyCore.Library.QuotedText

/-- The character tables a lexer and the quoting verb consult. -/
structure Unicode where
  isLetter : Char → Bool
  isDigit : Char → Bool
  isSpace : Char → Bool
  isPrint : Char → Bool
  toUpper : Char → Char
  ascii_letter : ∀ c : Char, c.toNat < 128 → isLetter c = c.isAlpha
  ascii_digit : ∀ c : Char, c.toNat < 128 → isDigit c = c.isDigit
  ascii_space : ∀ c : Char, c.toNat < 128 →
    isSpace c = decide (c.toNat = 32 ∨ 9 ≤ c.toNat ∧ c.toNat ≤ 13)
  ascii_print : ∀ c : Char, c.toNat < 128 → isPrint c = decide (32 ≤ c.toNat ∧ c.toNat < 127)
  ascii_upper : ∀ c : Char, c.toNat < 128 → toUpper c = c.toUpper
  space_apart : ∀ c : Char, isSpace c = true → isLetter c = false ∧ isDigit c = false

/-- A rune in the ASCII white space range is neither an ASCII letter nor a digit. -/
theorem ascii_space_apart (c : Char) (space : c.toNat = 32 ∨ 9 ≤ c.toNat ∧ c.toNat ≤ 13) :
    c.isAlpha = false ∧ c.isDigit = false := by
  constructor
  · cases letter : c.isAlpha with
    | false => rfl
    | true =>
      change (decide (c.val ≥ 'A'.val ∧ c.val ≤ 'Z'.val) ||
        (decide (c.val ≥ 'a'.val) && decide (c.val ≤ 'z'.val))) = true at letter
      simp only [Bool.or_eq_true, Bool.and_eq_true, decide_eq_true_eq, UInt32.le_iff_toNat_le,
        ge_iff_le] at letter
      change (65 ≤ c.toNat ∧ c.toNat ≤ 90) ∨ (97 ≤ c.toNat ∧ c.toNat ≤ 122) at letter
      omega
  · cases digit : c.isDigit with
    | false => rfl
    | true =>
      simp only [Char.isDigit, Bool.and_eq_true, decide_eq_true_eq, UInt32.le_iff_toNat_le,
        ge_iff_le] at digit
      change 48 ≤ c.toNat ∧ c.toNat ≤ 57 at digit
      omega

/-- Tables that know no rune outside ASCII. -/
def asciiTables : Unicode where
  isLetter c := c.isAlpha
  isDigit c := c.isDigit
  isSpace c := decide (c.toNat = 32 ∨ 9 ≤ c.toNat ∧ c.toNat ≤ 13)
  isPrint c := decide (32 ≤ c.toNat ∧ c.toNat < 127)
  toUpper c := c.toUpper
  ascii_letter _ _ := rfl
  ascii_digit _ _ := rfl
  ascii_space _ _ := rfl
  ascii_print _ _ := rfl
  ascii_upper _ _ := rfl
  space_apart c space := ascii_space_apart c (of_decide_eq_true space)

section Quoting

variable (unicode : Unicode)

/-- Visible ASCII runes are not white space. -/
theorem Unicode.isSpace_eq_false {c : Char} (ascii : c.toNat < 128)
    (visible : ¬ (c.toNat = 32 ∨ 9 ≤ c.toNat ∧ c.toNat ≤ 13)) : unicode.isSpace c = false := by
  rw [unicode.ascii_space c ascii]
  exact decide_eq_false visible

/-- The lower-case hexadecimal digits of a number at a fixed width. -/
def hexDigits : Nat → Nat → List Char
  | 0, _ => []
  | width + 1, n => hexDigits width (n / 16) ++ [Nat.digitChar (n % 16)]

/-- How the quoting verb prints one rune inside double quotes. -/
def quoteRune (c : Char) : List Char :=
  if c = '"' ∨ c = '\\' then ['\\', c]
  else if unicode.isPrint c then [c]
  else match c.toNat with
    | 7 => ['\\', 'a']
    | 8 => ['\\', 'b']
    | 12 => ['\\', 'f']
    | 10 => ['\\', 'n']
    | 13 => ['\\', 'r']
    | 9 => ['\\', 't']
    | 11 => ['\\', 'v']
    | n =>
      if n < 32 ∨ n = 127 then '\\' :: 'x' :: hexDigits 2 n
      else if n < 65536 then '\\' :: 'u' :: hexDigits 4 n
      else '\\' :: 'U' :: hexDigits 8 n

/-- The `%q` verb on a string. -/
def quote (text : String) : String :=
  String.ofList ('"' :: text.toList.flatMap (quoteRune unicode) ++ ['"'])

/-- A quote and a backslash are escaped. -/
theorem quoteRune_escaped {c : Char} (escaped : c = '"' ∨ c = '\\') :
    quoteRune unicode c = ['\\', c] := by
  rw [quoteRune, if_pos escaped]

/-- Another printable rune stands for itself. -/
theorem quoteRune_printable {c : Char} (plain : ¬ (c = '"' ∨ c = '\\'))
    (printable : unicode.isPrint c = true) : quoteRune unicode c = [c] := by
  rw [quoteRune, if_neg plain, if_pos printable]

/-- The runes of a quoted text. -/
theorem toList_quote (text : String) :
    (quote unicode text).toList = '"' :: (text.toList.flatMap (quoteRune unicode) ++ ['"']) := by
  rw [quote, String.toList_ofList, List.cons_append]

end Quoting

end FluffyCore.Library.QuotedText
