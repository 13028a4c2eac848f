import NodeTagging.Json.Basic

/-!
# The tokens of a JSON document

A document is cut into tokens by an automaton that takes one character at a time, so that it stops
on every text. It stands between tokens (`Mode.between`), inside a string, after a backslash,
inside a `\u` escape, or inside a run of the characters that make up numbers and names.

A string is collected as character codes. Escaped surrogates are paired when the string ends; one
that stands alone becomes `U+FFFD`, the replacement character.
-/

namespace NodeTagging.Json

/-- A token of a JSON document. -/
inductive Token where
  /-- The sign `[`. -/
  | beginArray
  /-- The sign `]`. -/
  | endArray
  /-- The sign that opens an object. -/
  | beginObject
  /-- The sign that closes an object. -/
  | endObject
  /-- The colon between a name and its value. -/
  | nameSeparator
  /-- The comma between two items or members. -/
  | valueSeparator
  /-- A string, with its escapes resolved. -/
  | string (value : String)
  /-- A number, a truth value or null. -/
  | literal (value : Json)
deriving Repr, Inhabited

/-! ### Characters -/

/-- Whether a character is insignificant between tokens: space, tab, line feed, carriage return. -/
def isBlank (c : Char) : Bool :=
  c = ' ' || c = '\t' || c = '\n' || c = '\r'

/-- Whether a character can be part of a number or of one of the three names. -/
def isWordChar (c : Char) : Bool :=
  c.isAlphanum || c = '-' || c = '+' || c = '.'

/-- The token that a single sign stands for. -/
def sign? : Char → Option Token
  | '[' => some .beginArray
  | ']' => some .endArray
  | '\x7b' => some .beginObject
  | '\x7d' => some .endObject
  | ':' => some .nameSeparator
  | ',' => some .valueSeparator
  | _ => none

/-- The character code that follows a backslash, for the escapes of one letter. -/
def escapeCode? : Char → Option Nat
  | '"' => some '"'.toNat
  | '\\' => some '\\'.toNat
  | '/' => some '/'.toNat
  | 'b' => some 8
  | 'f' => some 12
  | 'n' => some 10
  | 'r' => some 13
  | 't' => some 9
  | _ => none

/-- The value of a hexadecimal digit of either case. -/
def hexValue? (c : Char) : Option Nat :=
  if c.isDigit then some (c.toNat - '0'.toNat)
  else if 'a' ≤ c ∧ c ≤ 'f' then some (c.toNat - 'a'.toNat + 10)
  else if 'A' ≤ c ∧ c ≤ 'F' then some (c.toNat - 'A'.toNat + 10)
  else none

/-- Whether a code is a high surrogate. -/
def isHighSurrogate (code : Nat) : Bool :=
  0xD800 ≤ code && code < 0xDC00

/-- Whether a code is a low surrogate. -/
def isLowSurrogate (code : Nat) : Bool :=
  0xDC00 ≤ code && code < 0xE000

/-- The character of a code; a surrogate has none and is replaced. -/
def charOfCode (code : Nat) : Char :=
  if isHighSurrogate code || isLowSurrogate code then '\uFFFD' else Char.ofNat code

/-- The characters of a sequence of codes, with each pair of surrogates joined. -/
def charsOfCodes : List Nat → List Char
  | [] => []
  | [code] => [charOfCode code]
  | high :: low :: rest =>
    if isHighSurrogate high && isLowSurrogate low then
      Char.ofNat (0x10000 + (high - 0xD800) * 0x400 + (low - 0xDC00)) :: charsOfCodes rest
    else charOfCode high :: charsOfCodes (low :: rest)

/-! ### Numbers and names -/

/-- Whether a text is the exponent part of a number, or nothing. -/
def isExponent : List Char → Bool
  | [] => true
  | e :: cs =>
    (e = 'e' || e = 'E') &&
      match cs with
      | '+' :: ds | '-' :: ds => !ds.isEmpty && ds.all Char.isDigit
      | ds => !ds.isEmpty && ds.all Char.isDigit

/-- Whether a text is the fraction of a number with its exponent, either of which may be missing. -/
def isFraction : List Char → Bool
  | '.' :: d :: cs => d.isDigit && isExponent (cs.dropWhile Char.isDigit)
  | cs => isExponent cs

/-- Whether a text is a number without a sign. -/
def isMagnitude : List Char → Bool
  | '0' :: cs => isFraction cs
  | d :: cs => d.isDigit && isFraction (cs.dropWhile Char.isDigit)
  | [] => false

/-- Whether a text is a number. -/
def isNumber : List Char → Bool
  | '-' :: cs => isMagnitude cs
  | cs => isMagnitude cs

/-- The value that a run of word characters stands for. -/
def literal? (word : List Char) : Option Json :=
  if word = ['t', 'r', 'u', 'e'] then some (.bool true)
  else if word = ['f', 'a', 'l', 's', 'e'] then some (.bool false)
  else if word = ['n', 'u', 'l', 'l'] then some .null
  else if isNumber word then some (.number (String.ofList word))
  else none

/-! ### The automaton -/

/-- Where the automaton stands. What has been read of the current token is kept last first. -/
inductive Mode where
  /-- Between two tokens. -/
  | between
  /-- Inside a string. -/
  | string (codes : List Nat)
  /-- Inside a string, after a backslash. -/
  | escape (codes : List Nat)
  /-- Inside a `\u` escape, of whose four digits some are still owed. -/
  | unit (codes : List Nat) (owed : Nat) (code : Nat)
  /-- Inside a number or a name. -/
  | word (chars : List Char)

/-- The automaton: the tokens read so far, last first, and where it stands. -/
structure Lexer where
  /-- The finished tokens, last first. -/
  tokens : List Token
  /-- Where the automaton stands. -/
  mode : Mode

namespace Lexer

/-- One character between two tokens. -/
def start (tokens : List Token) (c : Char) : Option Lexer :=
  if isBlank c then some ⟨tokens, .between⟩
  else if c = '"' then some ⟨tokens, .string []⟩
  else if isWordChar c then some ⟨tokens, .word [c]⟩
  else (sign? c).map fun t => ⟨t :: tokens, .between⟩

/-- The tokens after the end of a word, if it is one. -/
def endWord (tokens : List Token) (chars : List Char) : Option (List Token) :=
  (literal? chars.reverse).map fun v => .literal v :: tokens

/-- One character of the document; none where it cannot go on. -/
def step (l : Lexer) (c : Char) : Option Lexer :=
  match l.mode with
  | .between => start l.tokens c
  | .string codes =>
    if c = '"' then
      some ⟨.string (String.ofList (charsOfCodes codes.reverse)) :: l.tokens, .between⟩
    else if c = '\\' then some ⟨l.tokens, .escape codes⟩
    else if c.toNat < 0x20 then none
    else some ⟨l.tokens, .string (c.toNat :: codes)⟩
  | .escape codes =>
    if c = 'u' then some ⟨l.tokens, .unit codes 4 0⟩
    else (escapeCode? c).map fun code => ⟨l.tokens, .string (code :: codes)⟩
  | .unit codes owed code =>
    (hexValue? c).map fun d =>
      -- The last digit that was owed completes the code.
      if owed ≤ 1 then ⟨l.tokens, .string ((16 * code + d) :: codes)⟩
      else ⟨l.tokens, .unit codes (owed - 1) (16 * code + d)⟩
  | .word chars =>
    if isWordChar c then some ⟨l.tokens, .word (c :: chars)⟩
    else (endWord l.tokens chars).bind (start · c)

/-- The tokens at the end of the document, last first; none inside a string. -/
def finish (l : Lexer) : Option (List Token) :=
  match l.mode with
  | .between => some l.tokens
  | .word chars => endWord l.tokens chars
  | _ => none

end Lexer

/-- The tokens of a document in order; none where a token is malformed. -/
def tokens? (document : String) : Option (List Token) :=
  ((document.toList.foldlM Lexer.step ⟨[], .between⟩).bind Lexer.finish).map List.reverse

end NodeTagging.Json
