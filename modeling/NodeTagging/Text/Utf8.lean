/-!
# Decoding UTF-8

Bytes are read as UTF-8. A file need not hold valid text: each longest run of bytes that begins a
character and cannot be continued to one, and each byte that begins none, becomes one replacement
character `U+FFFD`. A byte order mark is a character like any other.

The decoder takes one byte at a time. Between characters it is `idle`; inside one it knows the
code collected so far, the range the next byte must lie in, and the number of bytes owed after it.
-/

namespace NodeTagging.Text.Utf8

/-- Where the decoder stands. -/
inductive State where
  /-- Between two characters. -/
  | idle
  /-- Inside a character: the code so far, the bounds of the next byte, the bytes owed after it. -/
  | inside (code low high owed : Nat)
deriving DecidableEq, Repr

/-- The character that stands for malformed bytes. -/
def replacement : Char := '\uFFFD'

/-- A byte between two characters: the characters it completes and the state after it. -/
def start (b : Nat) : List Char × State :=
  if b < 0x80 then ([Char.ofNat b], .idle)
  else if b < 0xC2 then ([replacement], .idle)
  else if b < 0xE0 then ([], .inside (b - 0xC0) 0x80 0xBF 0)
  else if b = 0xE0 then ([], .inside 0 0xA0 0xBF 1)
  else if b = 0xED then ([], .inside 0xD 0x80 0x9F 1)
  else if b < 0xF0 then ([], .inside (b - 0xE0) 0x80 0xBF 1)
  else if b = 0xF0 then ([], .inside 0 0x90 0xBF 2)
  else if b < 0xF4 then ([], .inside (b - 0xF0) 0x80 0xBF 2)
  else if b = 0xF4 then ([], .inside 4 0x80 0x8F 2)
  else ([replacement], .idle)

/-- A byte: the characters it completes and the state after it. A byte out of bounds ends the
    character that is being read and is then taken on its own. -/
def step : State → Nat → List Char × State
  | .idle, b => start b
  | .inside code low high owed, b =>
    if low ≤ b ∧ b ≤ high then
      let code' := code * 0x40 + (b - 0x80)
      match owed with
      | 0 => ([Char.ofNat code'], .idle)
      | n + 1 => ([], .inside code' 0x80 0xBF n)
    else (replacement :: (start b).1, (start b).2)

/-- The characters of the bytes read from a state on. -/
def decodeFrom : State → List Nat → List Char
  | .idle, [] => []
  | .inside .., [] => [replacement]
  | s, b :: bs => (step s b).1 ++ decodeFrom (step s b).2 bs

/-- The text of a sequence of bytes. -/
def decode (bytes : List Nat) : String :=
  String.ofList (decodeFrom .idle bytes)

/-- Bytes of ASCII stand for themselves. -/
theorem decodeFrom_ascii {bytes : List Nat} (h : ∀ b ∈ bytes, b < 0x80) :
    decodeFrom .idle bytes = bytes.map Char.ofNat := by
  induction bytes with
  | nil => rfl
  | cons b bs ih =>
    have hb : b < 0x80 := h b List.mem_cons_self
    simp [decodeFrom, step, start, hb, ih fun c hc => h c (List.mem_cons_of_mem b hc)]

end NodeTagging.Text.Utf8
