/-!
# Text conventions

Two conventions are shared by everything this library prints or reads:
hexadecimal digits, lower case when written and of either case when read,
and **identifiers**, the names that may stand in a storage path.
-/

namespace Custody

namespace Hex

/-- The digit of a number below sixteen, in lower case. -/
def digit (n : Nat) : Char :=
  if n < 10 then Char.ofNat ('0'.toNat + n) else Char.ofNat ('a'.toNat + (n - 10))

/-- The number a hexadecimal digit of either case stands for. -/
def ofDigit? (c : Char) : Option Nat :=
  if '0' ≤ c ∧ c ≤ '9' then some (c.toNat - '0'.toNat)
  else if 'a' ≤ c ∧ c ≤ 'f' then some (c.toNat - 'a'.toNat + 10)
  else if 'A' ≤ c ∧ c ≤ 'F' then some (c.toNat - 'A'.toNat + 10)
  else none

/-- The last `width` digits of a number, padded with zeros. -/
def fixed : (width : Nat) → Nat → List Char
  | 0, _ => []
  | width + 1, n => fixed width (n / 16) ++ [digit (n % 16)]

/-- The number a list of digits stands for, read after the digits of
`value`. -/
def readFrom? (value : Nat) : List Char → Option Nat
  | [] => some value
  | c :: rest =>
    match ofDigit? c with
    | some d => readFrom? (value * 16 + d) rest
    | none => none

/-- The number a nonempty list of digits stands for. -/
def read? : List Char → Option Nat
  | [] => none
  | c :: rest => readFrom? 0 (c :: rest)

/-- The two digits of each byte, in order. -/
def ofBytes (bytes : List UInt8) : String :=
  String.ofList (bytes.flatMap fun b => fixed 2 b.toNat)

/-- The bytes that a list of digits stands for, two digits each. -/
def toBytes? : List Char → Option (List UInt8)
  | [] => some []
  | high :: low :: rest =>
    match read? [high, low], toBytes? rest with
    | some n, some bytes => some (UInt8.ofNat n :: bytes)
    | _, _ => none
  | [_] => none

end Hex

namespace Identifier

/-- An ASCII letter or an underscore. -/
def isStart (c : Char) : Bool :=
  ('a' ≤ c && c ≤ 'z') || ('A' ≤ c && c ≤ 'Z') || c == '_'

/-- An ASCII letter, a digit or an underscore. -/
def isRest (c : Char) : Bool := isStart c || ('0' ≤ c && c ≤ '9')

/-- **An identifier** is a letter or underscore followed by letters, digits
and underscores, all of them ASCII. -/
def isValid (text : String) : Bool :=
  match text.toList with
  | [] => false
  | c :: rest => isStart c && rest.all isRest

end Identifier

end Custody
