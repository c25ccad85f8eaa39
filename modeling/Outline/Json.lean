import Outline.Text.Basic

/-!
# JSON

Configuration files are JSON, and diagnostics are written as JSON. `readString?` takes a string off
the front of a text and `quote` writes one. Reading is strict: a control character must be escaped,
and an escaped surrogate must be half of a pair. Writing adds no blanks.
-/

set_option autoImplicit false

namespace Outline.Json

/-- Whether a character may stand between the parts of a JSON text. -/
def isGap (c : Char) : Bool := c == ' ' || c == '\t' || c == '\n' || c == '\r'

/-- The text without the blanks before its first part. -/
def skipGap (s : Text) : Text := s.dropWhile isGap

/-- What follows a given character, blanks before it skipped. -/
def readMark? (mark : Char) (s : Text) : Option Text :=
  match skipGap s with
  | [] => none
  | c :: rest => if c = mark then some rest else none

/-- What follows a given word, blanks before it skipped. -/
def readWord? (word s : Text) : Option Text := Text.after? word (skipGap s)

/-! ## Reading a string -/

/-- The value of a hexadecimal digit. -/
def hexValue? (c : Char) : Option Nat :=
  if '0' ≤ c ∧ c ≤ '9' then some (c.toNat - '0'.toNat)
  else if 'a' ≤ c ∧ c ≤ 'f' then some (c.toNat - 'a'.toNat + 10)
  else if 'A' ≤ c ∧ c ≤ 'F' then some (c.toNat - 'A'.toNat + 10)
  else none

/-- The value of four hexadecimal digits. -/
def hexUnit? (a b c d : Char) : Option Nat := do
  let a ← hexValue? a
  let b ← hexValue? b
  let c ← hexValue? c
  let d ← hexValue? d
  return ((a * 16 + b) * 16 + c) * 16 + d

/-- The character behind a backslash and a single letter. -/
def unescape? (c : Char) : Option Char :=
  match c with
  | '"' => some '"'
  | '\\' => some '\\'
  | '/' => some '/'
  | 'b' => some '\x08'
  | 'f' => some '\x0c'
  | 'n' => some '\n'
  | 'r' => some '\r'
  | 't' => some '\t'
  | _ => none

/-- The content of a string whose opening quote has been read, and what follows its closing
quote. -/
def readContent? : Text → Option (Text × Text)
  | [] => none
  | '"' :: rest => some ([], rest)
  | '\\' :: 'u' :: a :: b :: c :: d :: rest => do
    let unit ← hexUnit? a b c d
    if 0xD800 ≤ unit ∧ unit < 0xDC00 then
      match rest with
      | '\\' :: 'u' :: e :: f :: g :: h :: rest =>
        let low ← hexUnit? e f g h
        if 0xDC00 ≤ low ∧ low < 0xE000 then
          let point := 0x10000 + (unit - 0xD800) * 0x400 + (low - 0xDC00)
          (readContent? rest).map fun (content, after) => (Char.ofNat point :: content, after)
        else none
      | _ => none
    else if 0xDC00 ≤ unit ∧ unit < 0xE000 then none
    else (readContent? rest).map fun (content, after) => (Char.ofNat unit :: content, after)
  | '\\' :: c :: rest => do
    let c ← unescape? c
    (readContent? rest).map fun (content, after) => (c :: content, after)
  | c :: rest =>
    if c.toNat < 0x20 ∨ c = '\\' then none
    else (readContent? rest).map fun (content, after) => (c :: content, after)

/-- A string at the front of a text, blanks before it skipped, and what follows it. -/
def readString? (s : Text) : Option (Text × Text) := do
  let content ← readMark? '"' s
  readContent? content

/-! ## Writing a string -/

/-- A character as it stands in a JSON string: quote, backslash and control characters are
escaped and all else stands for itself. -/
def quoteChar (c : Char) : Text :=
  if c = '"' then ['\\', '"']
  else if c = '\\' then ['\\', '\\']
  else if c = '\x08' then ['\\', 'b']
  else if c = '\x0c' then ['\\', 'f']
  else if c = '\n' then ['\\', 'n']
  else if c = '\r' then ['\\', 'r']
  else if c = '\t' then ['\\', 't']
  else if c.toNat < 0x20 then
    let digits := Nat.toDigits 16 c.toNat
    ['\\', 'u'] ++ List.replicate (4 - digits.length) '0' ++ digits
  else [c]

/-- A text as a JSON string. -/
def quote (s : Text) : Text := '"' :: s.flatMap quoteChar ++ ['"']

/-! ## Writing values -/

/-- A JSON array of written values. -/
def array (items : List Text) : Text := '[' :: [','].intercalate items ++ [']']

/-- A JSON object with keys and written values, in order. -/
def object (members : List (String × Text)) : Text :=
  '{' :: [','].intercalate (members.map fun (key, value) => quote key.toList ++ ':' :: value) ++
    ['}']

end Outline.Json
