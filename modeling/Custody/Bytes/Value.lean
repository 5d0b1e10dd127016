import Custody.Bytes.Ty
import Custody.Value

/-!
# The bytes of values

A value is the number of its sort followed by its parts. References have no
byte form, so a value has one exactly when no reference stands anywhere in
it; and a decoded value never contains one.
-/

namespace Custody

namespace Capability

/-- The bytes of a capability. -/
def bytes (c : Capability) : Bytes :=
  c.address.bytes ++ c.path.bytes ++ Bytes.optional RefTy.bytes c.promise

/-- Decodes a capability. -/
def decoder : Decoder Capability := do
  let address ← Address.decoder
  let path ← Path.decoder
  let promise ← Decoder.optional RefTy.decoder
  return ⟨address, path, promise⟩

end Capability

namespace Value

/-- The bytes of all parts, each after its label, if all parts have a byte
form. -/
def joinParts {κ : Type} (label : κ → Bytes) : List (κ × Option Bytes) → Option Bytes
  | [] => some []
  | (k, part) :: rest => do
    let bytes ← part
    let others ← joinParts label rest
    return label k ++ bytes ++ others

/-- A sequence of labelled parts, its length first. -/
def writeParts {κ : Type} (label : κ → Bytes) (parts : List (κ × Option Bytes)) :
    Option Bytes := do
  return Bytes.word parts.length ++ (← joinParts label parts)

/-- The bytes of a value without parts. -/
def scalarBytes? : Value → Option Bytes
  | .nil => some (Bytes.tag 0)
  | .bool b => some (Bytes.tag 1 ++ Bytes.flag b)
  | .int i => some (Bytes.tag 2 ++ Bytes.signed i)
  | .uint n => some (Bytes.tag 3 ++ Bytes.word n)
  | .str s => some (Bytes.tag 4 ++ Bytes.text s)
  | .address a => some (Bytes.tag 5 ++ a.bytes)
  | .path p => some (Bytes.tag 6 ++ p.bytes)
  | .capability c => some (Bytes.tag 11 ++ c.bytes)
  | _ => none

/-- The bytes of an empty or filled field. -/
def slotBytes? : Option (Option Bytes) → Option Bytes
  | none => some (Bytes.flag false)
  | some part => do return Bytes.flag true ++ (← part)

/-- The reading behind `bytes?`. -/
def bytesReading : Reading (Option Bytes) where
  scalar := scalarBytes?
  array parts := do
    return Bytes.tag 7 ++ (← writeParts (fun _ => []) (parts.map fun part => ((), part)))
  dict entries := do return Bytes.tag 8 ++ (← writeParts Key.bytes entries)
  struct typeName fields := do
    return Bytes.tag 9 ++ Bytes.text typeName ++ (← writeParts Bytes.text fields)
  resource r fields := do
    let slots ← writeParts Bytes.text (fields.map fun f => (f.1, slotBytes? f.2))
    return Bytes.tag 10 ++ r.id.bytes ++ Bytes.text r.typeName ++ slots

/-- **The bytes of a value**, if no reference stands in it. -/
def bytes? : Value → Option Bytes := fold bytesReading

/-- Decodes a value nested at most `depth` deep. -/
def decoderWithin : (depth : Nat) → Decoder Value
  | 0 => failure
  | depth + 1 => do
    match ← Decoder.tag with
    | 0 => return .nil
    | 1 => .bool <$> Decoder.flag
    | 2 => .int <$> Decoder.signed
    | 3 => .uint <$> Decoder.word
    | 4 => .str <$> Decoder.text
    | 5 => .address <$> Address.decoder
    | 6 => .path <$> Path.decoder
    | 7 => .array <$> Decoder.sequence (decoderWithin depth)
    | 8 => do
      let entries ← Decoder.pairs Key.decoder (decoderWithin depth)
      return .dict (Table.sorted entries)
    | 9 => do
      let typeName ← Decoder.text
      let fields ← Decoder.pairs Decoder.text (decoderWithin depth)
      return .struct typeName (Table.ofList fields)
    | 10 => do
      let id ← ResourceId.decoder
      let typeName ← Decoder.text
      let fields ← Decoder.pairs Decoder.text (Decoder.optional (decoderWithin depth))
      return .resource id typeName (Table.ofList fields)
    | 11 => .capability <$> Capability.decoder
    | _ => failure

/-- Decodes a value. Every level takes a byte at least, so the number of
bytes bounds the depth. -/
def decoder : Decoder Value := do decoderWithin (← get).length

end Value

end Custody
