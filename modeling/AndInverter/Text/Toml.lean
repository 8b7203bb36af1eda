/-!
The pieces of a line in the TOML format: gaps, comments, keys and integers.

* `key?` reads a key, whose parts are joined by points, and `integer?` an integer;
* between double quotes a backslash begins an escape, between single quotes it does not.
-/

namespace AndInverter.Text.Toml

/-! ### Gaps and comments -/

/-- A space or a tab. -/
def isGap (c : Char) : Bool := c = ' ' || c = '\t'

/-- Drops the gap at the head. -/
def skipGap (s : List Char) : List Char := s.dropWhile isGap

/-- A character that may stand in a comment and between quotes: of the control characters, only
the tab. -/
def isPlain (c : Char) : Bool := c = '\t' || (0x20 ≤ c.toNat && c.toNat ≠ 0x7f)

/-- Nothing but a gap and a comment. -/
def isLineEnd (s : List Char) : Bool :=
  match skipGap s with
  | [] => true
  | '#' :: comment => comment.all isPlain
  | _ => false

/-! ### Integers -/

/-- The value of a digit in a base up to sixteen. -/
def digitIn? (base : Nat) (c : Char) : Option Nat :=
  let value :=
    if c.isDigit then c.toNat - '0'.toNat
    else if 'a' ≤ c ∧ c ≤ 'f' then c.toNat - 'a'.toNat + 10
    else if 'A' ≤ c ∧ c ≤ 'F' then c.toNat - 'A'.toNat + 10
    else base
  if value < base then some value else none

/-- The number written by digits; between two of them an underscore may stand. -/
def digits? (base : Nat) : Nat → List Char → Option Nat
  | _, [] => none
  | n, [c] => do return base * n + (← digitIn? base c)
  | n, c :: '_' :: rest => do digits? base (base * n + (← digitIn? base c)) rest
  | n, c :: rest => do digits? base (base * n + (← digitIn? base c)) rest

/-- A decimal number does not begin with a zero unless it is one. -/
def decimal? (s : List Char) : Option Nat :=
  match s with
  | '0' :: _ :: _ => none
  | s => digits? 10 0 s

/-- The number of integers from zero on. -/
def integerCount : Int := 0x8000000000000000

/-- An integer. -/
def integer? (s : List Char) : Option Int := do
  let n : Int ← match s with
    | '0' :: 'x' :: s => (digits? 16 0 s).map Int.ofNat
    | '0' :: 'o' :: s => (digits? 8 0 s).map Int.ofNat
    | '0' :: 'b' :: s => (digits? 2 0 s).map Int.ofNat
    | '+' :: s => (decimal? s).map Int.ofNat
    | '-' :: s => (decimal? s).map fun n => -(n : Int)
    | s => (decimal? s).map Int.ofNat
  if -integerCount ≤ n ∧ n < integerCount then some n else none

/-! ### Escapes -/

/-- The character that a letter behind a backslash stands for. -/
def lettered? : Char → Option Char
  | 'b' => some '\x08'
  | 't' => some '\t'
  | 'n' => some '\n'
  | 'f' => some '\x0c'
  | 'r' => some '\r'
  | '"' => some '"'
  | '\\' => some '\\'
  | _ => none

/-- The character whose number is written by hexadecimal digits. -/
def numbered? (digits : List Char) : Option Char := do
  let n ← digits.foldlM (fun n c => (digitIn? 16 c).map (16 * n + ·)) 0
  let c := Char.ofNat n
  if c.toNat = n then some c else none

/-- What a text with escapes stands for.  Behind `u` come four digits, behind `U` eight. -/
def unescape : List Char → Option (List Char)
  | [] => some []
  | '\\' :: 'u' :: a :: b :: c :: d :: rest => do
    return (← numbered? [a, b, c, d]) :: (← unescape rest)
  | '\\' :: 'U' :: a :: b :: c :: d :: e :: f :: g :: h :: rest => do
    return (← numbered? [a, b, c, d, e, f, g, h]) :: (← unescape rest)
  | '\\' :: c :: rest => do return (← lettered? c) :: (← unescape rest)
  | c :: rest => if isPlain c && c ≠ '\\' then (unescape rest).map (c :: ·) else none

/-- The text up to the closing double quote, and what follows it; a quote behind a backslash
does not close. -/
def quoted? : List Char → Option (List Char × List Char)
  | [] => none
  | '"' :: rest => some ([], rest)
  | '\\' :: c :: rest => (quoted? rest).map fun (body, rest) => ('\\' :: c :: body, rest)
  | c :: rest => (quoted? rest).map fun (body, rest) => (c :: body, rest)

/-! ### Keys -/

/-- A character of a key without quotes. -/
def isKeyChar (c : Char) : Bool := c.isAlphanum || c = '_' || c = '-'

/-- One part of a key and the rest of the line.  Between double quotes there may be escapes,
between single quotes every character stands for itself. -/
def keyPart? : List Char → Option (String × List Char)
  | '"' :: s => do
    let (body, rest) ← quoted? s
    return (String.ofList (← unescape body), rest)
  | '\'' :: s =>
    let body := s.takeWhile (· ≠ '\'')
    match s.drop body.length with
    | _ :: rest => if body.all isPlain then some (String.ofList body, rest) else none
    | [] => none
  | s =>
    let body := s.takeWhile isKeyChar
    if body.isEmpty then none else some (String.ofList body, s.drop body.length)

/-- A key of so many parts at most, joined by points, and the rest of the line. -/
def keyWithin : (bound : Nat) → List Char → Option (List String × List Char)
  | 0, _ => none
  | bound + 1, s => do
    let (part, rest) ← keyPart? (skipGap s)
    match skipGap rest with
    | '.' :: rest =>
      let (parts, rest) ← keyWithin bound rest
      return (part :: parts, rest)
    | rest => return ([part], rest)

/-- A key and the rest of the line.  Each part takes a character at least. -/
def key? (s : List Char) : Option (List String × List Char) := keyWithin s.length s

end AndInverter.Text.Toml
