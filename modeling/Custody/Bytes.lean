import Custody.Address
import Custody.Identity
import Custody.Key
import Custody.Path

/-!
# The byte format

Values and stores have one byte form. Numbers have a fixed width, the least
significant byte first; a choice among constructors is a 32-bit number, a
length a 64-bit one; text is its length in bytes followed by UTF-8; a map is
its length followed by its pairs.

A **decoder** consumes bytes from the front and returns the rest. It is
strict about single choices, a flag is 0 or 1 and text is valid UTF-8, and
indifferent to what follows the value and to the order of the pairs of a
map.
-/

namespace Custody

/-- A sequence of bytes. -/
abbrev Bytes := List UInt8

namespace Bytes

/-- A number in `width` bytes, least significant first. Higher bytes are
dropped. -/
def ofNat : (width : Nat) → Nat → Bytes
  | 0, _ => []
  | width + 1, n => UInt8.ofNat (n % 256) :: ofNat width (n / 256)

/-- The number written in a sequence of bytes. -/
def toNat : Bytes → Nat
  | [] => 0
  | b :: rest => b.toNat + 256 * toNat rest

/-- The number of a constructor. -/
def tag (n : Nat) : Bytes := ofNat 4 n

/-- A 64-bit number. -/
def word (n : Nat) : Bytes := ofNat 8 n

/-- A signed 64-bit number in two's complement. -/
def signed (i : Int) : Bytes := word (i % UInt64.size).toNat

/-- A flag. -/
def flag (b : Bool) : Bytes := [if b then 1 else 0]

/-- The UTF-8 bytes of a text. -/
def ofText (s : String) : Bytes := s.toByteArray.data.toList

/-- The text of a sequence of bytes, if they are valid UTF-8. -/
def toText? (bytes : Bytes) : Option String := String.fromUTF8? ⟨bytes.toArray⟩

/-- A text, its length first. -/
def text (s : String) : Bytes := word (ofText s).length ++ ofText s

/-- Something that may be missing. -/
def optional {α : Type} (write : α → Bytes) : Option α → Bytes
  | none => flag false
  | some a => flag true ++ write a

/-- A sequence, its length first. -/
def sequence {α : Type} (write : α → Bytes) (elements : List α) : Bytes :=
  word elements.length ++ elements.flatMap write

end Bytes

/-- **A decoder**: takes a value off the front of the bytes, or fails. -/
abbrev Decoder (α : Type) := StateT Bytes Option α

namespace Decoder

variable {α β : Type}

/-- The next `count` bytes. -/
def bytes (count : Nat) : Decoder Bytes := fun input =>
  let front := input.take count
  if front.length = count then some (front, input.drop count) else none

/-- The number in the next `width` bytes. -/
def number (width : Nat) : Decoder Nat := Bytes.toNat <$> bytes width

/-- The number of a constructor. -/
def tag : Decoder Nat := number 4

/-- A 64-bit number. -/
def word : Decoder Nat := number 8

/-- A signed 64-bit number. -/
def signed : Decoder Int := do
  let n ← word
  return if 2 * n < UInt64.size then (n : Int) else (n : Int) - UInt64.size

/-- A flag. -/
def flag : Decoder Bool := do
  match ← number 1 with
  | 0 => return false
  | 1 => return true
  | _ => failure

/-- A text. -/
def text : Decoder String := do
  let raw ← bytes (← word)
  Bytes.toText? raw

/-- Something that may be missing. -/
def optional (read : Decoder α) : Decoder (Option α) := do
  if ← flag then some <$> read else return none

/-- A number of values in a row. -/
def times : Nat → Decoder α → Decoder (List α)
  | 0, _ => return []
  | count + 1, read => do
    let a ← read
    let others ← times count read
    return a :: others

/-- A sequence. -/
def sequence (read : Decoder α) : Decoder (List α) := do times (← word) read

/-- The pairs of a map. -/
def pairs (readKey : Decoder α) (readValue : Decoder β) : Decoder (List (α × β)) :=
  sequence do
    let key ← readKey
    let value ← readValue
    return (key, value)

/-- The value at the front of a sequence of bytes. -/
def decode? (read : Decoder α) (input : Bytes) : Option α := (read.run input).map Prod.fst

end Decoder

/-! ## Names of things -/

namespace Address

/-- The bytes of an address. -/
def bytes (a : Address) : Bytes := Bytes.word a.raw.toNat

/-- Decodes an address. -/
def decoder : Decoder Address := do return ⟨UInt64.ofNat (← Decoder.word)⟩

end Address

namespace ResourceId

/-- The bytes of an identity. -/
def bytes (id : ResourceId) : Bytes := Bytes.word id.number

/-- Decodes an identity. -/
def decoder : Decoder ResourceId := do return ⟨← Decoder.word⟩

end ResourceId

namespace Domain

/-- The number of a domain. -/
def number : Domain → Nat
  | storage => 0
  | privateLinks => 1
  | publicLinks => 2

/-- The bytes of a domain. -/
def bytes (d : Domain) : Bytes := Bytes.tag d.number

/-- Decodes a domain. -/
def decoder : Decoder Domain := do
  match ← Decoder.tag with
  | 0 => return storage
  | 1 => return privateLinks
  | 2 => return publicLinks
  | _ => failure

end Domain

namespace Path

/-- The bytes of a path. -/
def bytes (p : Path) : Bytes := p.domain.bytes ++ Bytes.text p.identifier

/-- Decodes a path. -/
def decoder : Decoder Path := do
  let domain ← Domain.decoder
  let identifier ← Decoder.text
  return ⟨domain, identifier⟩

end Path

namespace Key

/-- The bytes of a key. -/
def bytes : Key → Bytes
  | bool b => Bytes.tag 0 ++ Bytes.flag b
  | int i => Bytes.tag 1 ++ Bytes.signed i
  | uint n => Bytes.tag 2 ++ Bytes.word n
  | str s => Bytes.tag 3 ++ Bytes.text s
  | address a => Bytes.tag 4 ++ a.bytes

/-- Decodes a key. -/
def decoder : Decoder Key := do
  match ← Decoder.tag with
  | 0 => bool <$> Decoder.flag
  | 1 => int <$> Decoder.signed
  | 2 => uint <$> Decoder.word
  | 3 => str <$> Decoder.text
  | 4 => address <$> Address.decoder
  | _ => failure

end Key

end Custody
