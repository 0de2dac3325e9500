import Skew.Toml.Scalar

/-!
# Reading configuration documents

A document is read line by line: headers in brackets, keys with values, comments.
Strings are quoted once or three times, with or without escapes; arrays may go over
several lines, tables in braces may not.
-/

namespace Skew.Toml

/-! ## Gaps and comments -/

def isGap (c : Char) : Bool := c = ' ' || c = '\t'

def skipGaps (s : List Char) : List Char := s.dropWhile isGap

/-- Characters that may stand in comments and on one line of a string. -/
def isPlainChar (c : Char) : Bool := c = '\t' || (32 ≤ c.toNat && c.toNat ≠ 127)

def readNewline? : List Char → Option (List Char)
  | '\n' :: s => some s
  | '\r' :: '\n' :: s => some s
  | _ => none

def skipComment : List Char → List Char
  | '#' :: s => s.dropWhile isPlainChar
  | s => s

/-- The rest of a line: nothing but gaps and a comment. -/
def readLineEnd? (s : List Char) : Option (List Char) :=
  match skipComment (skipGaps s) with
  | [] => some []
  | s => readNewline? s

/-- Skips gaps, comments and line ends. The fuel is the length of the text. -/
def skipLines : Nat → List Char → List Char
  | 0, s => s
  | fuel + 1, s =>
    match skipComment (skipGaps s) with
    | [] => []
    | s => match readNewline? s with
      | some s => skipLines fuel s
      | none => s

/-! ## Strings -/

/-- A character given by `n` hexadecimal digits. -/
def readCodePoint? (n : Nat) (s : List Char) : Option (Char × List Char) :=
  let ds := s.take n
  let code := Text.ofHex ds
  if ds.length = n ∧ ds.all isHexDigit ∧ code.isValidChar then some (Char.ofNat code, s.drop n)
  else none

def readEscape? : List Char → Option (Char × List Char)
  | 'b' :: s => some ('\x08', s)
  | 't' :: s => some ('\t', s)
  | 'n' :: s => some ('\n', s)
  | 'f' :: s => some ('\x0c', s)
  | 'r' :: s => some ('\r', s)
  | '"' :: s => some ('"', s)
  | '\\' :: s => some ('\\', s)
  | 'u' :: s => readCodePoint? 4 s
  | 'U' :: s => readCodePoint? 8 s
  | _ => none

/-- The rest of a string of one line; escapes count between double quotes only. -/
def readLineString? (quote : Char) : Nat → List Char → List Char → Option (String × List Char)
  | 0, _, _ => none
  | _ + 1, _, [] => none
  | fuel + 1, seen, c :: s =>
    if c = quote then some (String.ofList seen.reverse, s)
    else if c = '\\' ∧ quote = '"' then
      match readEscape? s with
      | some (c, s) => readLineString? quote fuel (c :: seen) s
      | none => none
    else if isPlainChar c then readLineString? quote fuel (c :: seen) s
    else none

/-- Skips blanks and line ends behind a backslash that ends a line. -/
def skipBlankLines : Nat → List Char → List Char
  | 0, s => s
  | fuel + 1, s =>
    match readNewline? (skipGaps s) with
    | some s => skipBlankLines fuel s
    | none => skipGaps s

/-- The rest of a string of several lines. Up to two quotes may stand before the three
that end it. -/
def readBlockString? (quote : Char) : Nat → List Char → List Char → Option (String × List Char)
  | 0, _, _ => none
  | _ + 1, _, [] => none
  | fuel + 1, seen, c :: s =>
    if c = quote then
      let run := (c :: s).takeWhile (· = quote)
      let rest := (c :: s).dropWhile (· = quote)
      if run.length < 3 then readBlockString? quote fuel (run ++ seen) rest
      else if run.length ≤ 5 then
        some (String.ofList ((run.drop 3 ++ seen).reverse), rest)
      else none
    else if c = '\\' ∧ quote = '"' then
      match readEscape? s with
      | some (c, s) => readBlockString? quote fuel (c :: seen) s
      | none =>
        match readNewline? (skipGaps s) with
        | some s => readBlockString? quote fuel seen (skipBlankLines s.length s)
        | none => none
    else match readNewline? (c :: s) with
      | some s => readBlockString? quote fuel ('\n' :: seen) s
      | none => if isPlainChar c then readBlockString? quote fuel (c :: seen) s else none

/-- A line end right behind the opening quotes does not count. -/
def skipFirstNewline (s : List Char) : List Char := (readNewline? s).getD s

/-- A string behind its opening quote. -/
def readString? (quote : Char) (s : List Char) : Option (String × List Char) :=
  match s with
  | a :: b :: s =>
    if a = quote ∧ b = quote then
      let s := skipFirstNewline s
      readBlockString? quote s.length.succ [] s
    else readLineString? quote s.length.succ.succ.succ [] (a :: b :: s)
  | s => readLineString? quote s.length.succ [] s

/-! ## Keys -/

def isBareChar (c : Char) : Bool := c.isAlphanum || c = '_' || c = '-'

/-- One part of a key. -/
def readSimpleKey? : List Char → Option (String × List Char)
  | [] => none
  | c :: s =>
    if c = '"' ∨ c = '\'' then readLineString? c s.length.succ [] s
    else
      let key := (c :: s).takeWhile isBareChar
      if key.isEmpty then none else some (String.ofList key, (c :: s).dropWhile isBareChar)

/-- The parts of a key between points, with gaps allowed around them. -/
def readKey? : Nat → List Char → Option (List String × List Char)
  | 0, _ => none
  | fuel + 1, s => do
    let (k, s) ← readSimpleKey? (skipGaps s)
    match skipGaps s with
    | '.' :: s =>
      let (ks, s) ← readKey? fuel s
      some (k :: ks, s)
    | s => some ([k], s)

/-- Arrays and tables in braces nest up to this depth, and keys have no more parts. -/
def maxDepth : Nat := 79

/-! ## Values -/

abbrev ValueReader := List Char → Option (Value × List Char)

/-- A key, an equals sign and a value. -/
def readPair? (value : ValueReader) (s : List Char) :
    Option ((List String × Value) × List Char) := do
  let (key, s) ← readKey? maxDepth s
  match s with
  | '=' :: s =>
    let (v, s) ← value (skipGaps s)
    some ((key, v), s)
  | _ => none

/-- The rest of an array behind its opening bracket or a comma. -/
def readItems? (value : ValueReader) : Nat → List Value → List Char → Option (Value × List Char)
  | 0, _, _ => none
  | fuel + 1, seen, s =>
    match skipLines s.length.succ s with
    | ']' :: s => some (.array seen.reverse, s)
    | s => do
      let (v, s) ← value s
      match skipLines s.length.succ s with
      | ',' :: s => readItems? value fuel (v :: seen) s
      | ']' :: s => some (.array (v :: seen).reverse, s)
      | _ => none

/-- The rest of a table in braces, at a key. -/
def readPairs? (value : ValueReader) : Nat → List (List String × Value) → List Char →
    Option (Value × List Char)
  | 0, _, _ => none
  | fuel + 1, seen, s => do
    let (p, s) ← readPair? value s
    match skipGaps s with
    | ',' :: s => readPairs? value fuel (p :: seen) s
    | '}' :: s =>
      let v ← inlineTable? (p :: seen).reverse
      some (v, s)
    | _ => none

/-- Reads a value with arrays and tables nested up to the given depth. -/
def readValue? : Nat → ValueReader
  | _, '"' :: s => (readString? '"' s).map fun (t, s) => (.str t, s)
  | _, '\'' :: s => (readString? '\'' s).map fun (t, s) => (.str t, s)
  | depth + 1, '[' :: s => readItems? (readValue? depth) s.length.succ [] s
  | depth + 1, '{' :: s =>
    match skipGaps s with
    | '}' :: s => some (.inline false [], s)
    | s => readPairs? (readValue? depth) s.length.succ [] s
  | _, s => readScalar? s

/-! ## Documents -/

/-- A header and the rest of its line. -/
def readHeader? : List Char → Option ((Bool × List String) × List Char)
  | '[' :: '[' :: s => do
    let (key, s) ← readKey? maxDepth s
    match s with
    | ']' :: ']' :: s => some ((true, key), ← readLineEnd? s)
    | _ => none
  | '[' :: s => do
    let (key, s) ← readKey? maxDepth s
    match s with
    | ']' :: s => some ((false, key), ← readLineEnd? s)
    | _ => none
  | _ => none

/-- Reads lines into a table, below the header that is open. -/
def readLines? : Nat → List String → Table → List Char → Option Table
  | 0, _, t, s => if s.isEmpty then some t else none
  | fuel + 1, header, t, s =>
    match skipLines s.length.succ s with
    | [] => some t
    | '[' :: s => do
      let ((isElement, key), s) ← readHeader? ('[' :: s)
      let t ← if isElement then openElement? t key else openTable? t key
      readLines? fuel key t s
    | s => do
      let ((key, v), s) ← readPair? (readValue? maxDepth) s
      let s ← readLineEnd? s
      let t ← assign? t header key v
      readLines? fuel header t s

/-- The document of a text; a byte order mark at its start does not count. -/
def read? (s : String) : Option Table :=
  let cs := match s.toList with
    | '\ufeff' :: cs => cs
    | cs => cs
  readLines? cs.length.succ [] [] cs

end Skew.Toml
