import Custody.Text

/-!
# Scanning JSON text

The pieces of a reader that knows what it wants: it reads the names, numbers
and flags it expects and passes over everything else. A **scan** takes what
it recognises off the front of the text and returns the rest, or fails.

Passing over a value checks its grammar but not what it means: a number may
be of any size, an escape in a string need not be a character. Reading a
string is stricter, every escape must be a character or one of a pair that
is.
-/

namespace Custody

/-- Characters not yet scanned. -/
abbrev Chars := List Char

namespace Scan

/-- A blank between two tokens. -/
def isBlank (c : Char) : Bool := c = ' ' || c = '\n' || c = '\t' || c = '\r'

/-- Passes over blanks. -/
def blanks (cs : Chars) : Chars := cs.dropWhile isBlank

/-- A decimal digit. -/
def isDigit (c : Char) : Bool := '0' ≤ c && c ≤ '9'

/-- Passes over one digit or more. -/
def digits : Chars → Option Chars
  | c :: rest => if isDigit c then some (rest.dropWhile isDigit) else none
  | [] => none

/-- Passes over the digits of a whole number, which has no needless zero in
front. -/
def wholeDigits : Chars → Option Chars
  | '0' :: c :: rest => if isDigit c then none else some (c :: rest)
  | cs => digits cs

/-- Passes over an exponent, if there is one. -/
def exponent : Chars → Option Chars
  | c :: rest =>
    if c = 'e' || c = 'E' then
      match rest with
      | '+' :: rest => digits rest
      | '-' :: rest => digits rest
      | rest => digits rest
    else some (c :: rest)
  | [] => some []

/-- Passes over a number. -/
def number (cs : Chars) : Option Chars := do
  let cs ← wholeDigits (match cs with | '-' :: rest => rest | cs => cs)
  match cs with
  | '.' :: rest => exponent (← digits rest)
  | cs => exponent cs

/-- The number of four hexadecimal digits. -/
def hex4? (a b c d : Char) : Option Nat := Hex.read? [a, b, c, d]

/-- The character of a one-letter escape. -/
def escaped? : Char → Option Char
  | '"' => some '"'
  | '\\' => some '\\'
  | '/' => some '/'
  | 'b' => some (Char.ofNat 8)
  | 'f' => some (Char.ofNat 12)
  | 'n' => some '\n'
  | 'r' => some '\r'
  | 't' => some '\t'
  | _ => none

/-- Passes over the rest of a string whose opening quote was taken. -/
def stringTail : Chars → Option Chars
  | '"' :: rest => some rest
  | '\\' :: 'u' :: a :: b :: c :: d :: rest =>
    if (hex4? a b c d).isSome then stringTail rest else none
  | '\\' :: c :: rest => if (escaped? c).isSome then stringTail rest else none
  | c :: rest => if c.toNat < 32 then none else stringTail rest
  | [] => none

/-- The first number of a pair that stands for one character. -/
def isLeading (n : Nat) : Bool := 0xD800 ≤ n && n < 0xDC00

/-- The second number of a pair that stands for one character. -/
def isTrailing (n : Nat) : Bool := 0xDC00 ≤ n && n < 0xE000

/-- The character that a pair of numbers stands for. -/
def paired (n m : Nat) : Char :=
  Char.ofNat (0x10000 + (n - 0xD800) * 0x400 + (m - 0xDC00))

/-- Reads the rest of a string whose opening quote was taken; `before` is
what was read of it, last character first. -/
def readTail (before : List Char) : Chars → Option (String × Chars)
  | '"' :: rest => some (String.ofList before.reverse, rest)
  | '\\' :: 'u' :: a :: b :: c :: d :: rest =>
    match hex4? a b c d with
    | none => none
    | some n =>
      if isTrailing n then none
      else if isLeading n then
        match rest with
        | '\\' :: 'u' :: a :: b :: c :: d :: rest =>
          match hex4? a b c d with
          | none => none
          | some m => if isTrailing m then readTail (paired n m :: before) rest else none
        | _ => none
      else readTail (Char.ofNat n :: before) rest
  | '\\' :: c :: rest =>
    match escaped? c with
    | some c => readTail (c :: before) rest
    | none => none
  | c :: rest => if c.toNat < 32 then none else readTail (c :: before) rest
  | [] => none

/-- Reads a string. -/
def string? (cs : Chars) : Option (String × Chars) :=
  match blanks cs with
  | '"' :: rest => readTail [] rest
  | _ => none

/-- Passes over the colon between a name and its value. -/
def colon (cs : Chars) : Option Chars :=
  match blanks cs with
  | ':' :: rest => some rest
  | _ => none

/-- Passes over a name and the colon after it. -/
def name (cs : Chars) : Option Chars := do
  match blanks cs with
  | '"' :: rest => colon (← stringTail rest)
  | _ => none

mutual

/-- Passes over a value made of at most `size` tokens. -/
def valueWithin : (size : Nat) → Chars → Option Chars
  | 0, _ => none
  | size + 1, cs =>
    match blanks cs with
    | '"' :: rest => stringTail rest
    | '[' :: rest =>
      match blanks rest with
      | ']' :: rest => some rest
      | rest => elementsWithin size rest
    | '\x7b' :: rest =>
      match blanks rest with
      | '\x7d' :: rest => some rest
      | rest => membersWithin size rest
    | 't' :: 'r' :: 'u' :: 'e' :: rest => some rest
    | 'f' :: 'a' :: 'l' :: 's' :: 'e' :: rest => some rest
    | 'n' :: 'u' :: 'l' :: 'l' :: rest => some rest
    | cs => number cs

/-- Passes over the elements of an array and its closing bracket. -/
def elementsWithin : (size : Nat) → Chars → Option Chars
  | 0, _ => none
  | size + 1, cs => do
    match blanks (← valueWithin size cs) with
    | ',' :: rest => elementsWithin size rest
    | ']' :: rest => some rest
    | _ => none

/-- Passes over the members of an object and its closing brace. -/
def membersWithin : (size : Nat) → Chars → Option Chars
  | 0, _ => none
  | size + 1, cs => do
    match blanks (← valueWithin size (← name cs)) with
    | ',' :: rest => membersWithin size rest
    | '\x7d' :: rest => some rest
    | _ => none

end

/-- Passes over any value. Every token is a character at least, and each
level of nesting is passed on with one less, so twice the length of the text
is enough. -/
def value (cs : Chars) : Option Chars := valueWithin (2 * cs.length + 2) cs

/-- Reads a flag. -/
def flag? (cs : Chars) : Option (Bool × Chars) :=
  match blanks cs with
  | 't' :: 'r' :: 'u' :: 'e' :: rest => some (true, rest)
  | 'f' :: 'a' :: 'l' :: 's' :: 'e' :: rest => some (false, rest)
  | _ => none

/-- The number that a list of decimal digits stands for. -/
def decimal (cs : List Char) : Nat :=
  cs.foldl (fun n c => n * 10 + (c.toNat - '0'.toNat)) 0

/-- Whether a number goes on with a fraction or an exponent. -/
def goesOn : Chars → Bool
  | c :: _ => c = '.' || c = 'e' || c = 'E'
  | [] => false

/-- Reads a whole number of at most 64 bits, written without fraction and
exponent. -/
def word? (cs : Chars) : Option (Nat × Chars) := do
  let cs := blanks cs
  let rest ← wholeDigits cs
  let n := decimal (cs.takeWhile isDigit)
  if goesOn rest || UInt64.size ≤ n then none else some (n, rest)

end Scan

end Custody
