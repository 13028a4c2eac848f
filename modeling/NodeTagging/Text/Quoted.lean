/-!
# Quoted texts

A name is written between double quotes in the generated programs. Inside, the quote, the backslash
and the control characters are escaped: five of them by a letter, the other ones below `U+0020` by
four hexadecimal digits in small letters. Every other character stands for itself.

* `toList_quoted`: the written form is the concatenation of the forms of the characters;
* `escapeChar_ne_nil`: no character is dropped.
-/

namespace NodeTagging.Text

/-- The digit of a number below 16, in small letters. -/
def hexDigit (n : Nat) : Char :=
  Nat.digitChar n

/-- The letter that escapes a control character, for the five that have one. -/
def escapeLetter? (c : Char) : Option Char :=
  if c.toNat = 8 then some 'b'
  else if c.toNat = 9 then some 't'
  else if c.toNat = 10 then some 'n'
  else if c.toNat = 12 then some 'f'
  else if c.toNat = 13 then some 'r'
  else none

/-- The form of a character between quotes. -/
def escapeChar (c : Char) : List Char :=
  if c = '"' ∨ c = '\\' then ['\\', c]
  else
    match escapeLetter? c with
    | some letter => ['\\', letter]
    | none =>
      if c.toNat < 0x20 then
        ['\\', 'u', '0', '0', hexDigit (c.toNat / 16), hexDigit (c.toNat % 16)]
      else [c]

/-- A text between double quotes. -/
def quoted (s : String) : String :=
  String.ofList ('"' :: s.toList.flatMap escapeChar ++ ['"'])

theorem escapeChar_ne_nil (c : Char) : escapeChar c ≠ [] := by
  unfold escapeChar
  split
  · simp
  · split
    · simp
    · split <;> simp

/-- The written form is that of the characters, one after another, between two quotes. -/
theorem toList_quoted (s : String) :
    (quoted s).toList = '"' :: s.toList.flatMap escapeChar ++ ['"'] :=
  String.toList_ofList

end NodeTagging.Text
