import Custody.Blake3
import Custody.Bytes.Value
import Custody.Fault
import Custody.Store

/-!
# The bytes and the root of a store

A store is the map of its accounts, each account the map of its domains,
each domain the map of its entries. The **root** of a store is the digest of
its bytes, a commitment to everything that is stored.
-/

namespace Custody

namespace Link

/-- The bytes of a link. -/
def bytes (l : Link) : Bytes := l.source.bytes ++ l.target.bytes ++ l.promise.bytes

/-- Decodes a link. -/
def decoder : Decoder Link := do
  let source ← Path.decoder
  let target ← Path.decoder
  let promise ← RefTy.decoder
  return ⟨source, target, promise⟩

end Link

namespace Entry

/-- The bytes of an entry, if its value has a byte form. -/
def bytes? : Entry → Option Bytes
  | value v => do return Bytes.tag 0 ++ (← v.bytes?)
  | link l => some (Bytes.tag 1 ++ l.bytes)

/-- Decodes an entry. -/
def decoder : Decoder Entry := do
  match ← Decoder.tag with
  | 0 => value <$> Value.decoder
  | 1 => link <$> Link.decoder
  | _ => failure

end Entry

namespace SortedMap

variable {κ α : Type} [Ord κ]

/-- The bytes of a map, its size first, if all its values have a byte
form. -/
def bytes? (key : κ → Bytes) (value : α → Option Bytes) (m : SortedMap κ α) :
    Option Bytes :=
  Value.writeParts key (m.entries.map fun e => (e.1, value e.2))

/-- Decodes a map; a later pair replaces an earlier one with its key. -/
def decoder [Std.LawfulEqOrd κ] [Std.TransOrd κ] (key : Decoder κ) (value : Decoder α) :
    Decoder (SortedMap κ α) :=
  SortedMap.ofList <$> Decoder.pairs key value

end SortedMap

namespace Store

/-- **The bytes of a store**, if no reference is stored. -/
def bytes? (s : Store) : Option Bytes :=
  s.accounts.bytes? Address.bytes
    (SortedMap.bytes? Domain.bytes (SortedMap.bytes? Bytes.text Entry.bytes?))

/-- Decodes a store. -/
def decoder : Decoder Store := do
  let slots := SortedMap.decoder Decoder.text Entry.decoder
  let domains := SortedMap.decoder Domain.decoder slots
  return ⟨← SortedMap.decoder Address.decoder domains⟩

/-- The bytes of a store; a stored reference is refused. -/
def toBytes (s : Store) : Except Fault Bytes :=
  match s.bytes? with
  | some bytes => .ok bytes
  | none => .error (.codec "a reference has no byte form")

/-- The store at the front of a sequence of bytes. -/
def ofBytes (bytes : Bytes) : Except Fault Store :=
  match Decoder.decode? decoder bytes with
  | some s => .ok s
  | none => .error (.codec "the bytes are not those of a store")

/-- **The root of a store**: the digest of its bytes. -/
def root (s : Store) : Except Fault Bytes := Blake3.digest <$> s.toBytes

end Store

namespace Value

/-- The bytes of a value; a reference in it is refused. -/
def toBytes (v : Value) : Except Fault Bytes :=
  match v.bytes? with
  | some bytes => .ok bytes
  | none => .error (.codec "a reference has no byte form")

/-- The value at the front of a sequence of bytes. -/
def ofBytes (bytes : Bytes) : Except Fault Value :=
  match Decoder.decode? decoder bytes with
  | some v => .ok v
  | none => .error (.codec "the bytes are not those of a value")

end Value

end Custody
