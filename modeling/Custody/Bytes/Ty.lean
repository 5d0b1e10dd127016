import Custody.Bytes
import Custody.Ty

/-!
# The bytes of types

A type is the number of its constructor followed by its arguments. The two
forms of capability type share a number and are told apart by a flag.
-/

namespace Custody

namespace Ty

/-- The bytes of a type. -/
def bytes : Ty → Bytes
  | any => Bytes.tag 0
  | never => Bytes.tag 1
  | anyStruct => Bytes.tag 2
  | anyResource => Bytes.tag 3
  | bool => Bytes.tag 4
  | int => Bytes.tag 5
  | uint => Bytes.tag 6
  | string => Bytes.tag 7
  | address => Bytes.tag 8
  | path => Bytes.tag 9
  | array element => Bytes.tag 10 ++ element.bytes
  | dict key element => Bytes.tag 11 ++ key.bytes ++ element.bytes
  | composite name => Bytes.tag 12 ++ Bytes.text name
  | restricted base interfaces =>
    Bytes.tag 13 ++ Bytes.optional Bytes.text base ++ Bytes.sequence Bytes.text interfaces
  | anyCapability => Bytes.tag 14 ++ Bytes.flag false
  | capability authorized target =>
    Bytes.tag 14 ++ Bytes.flag true ++ Bytes.flag authorized ++ target.bytes
  | reference authorized target => Bytes.tag 15 ++ Bytes.flag authorized ++ target.bytes

/-- Decodes a type nested at most `depth` deep. -/
def decoderWithin : (depth : Nat) → Decoder Ty
  | 0 => failure
  | depth + 1 => do
    match ← Decoder.tag with
    | 0 => return any
    | 1 => return never
    | 2 => return anyStruct
    | 3 => return anyResource
    | 4 => return bool
    | 5 => return int
    | 6 => return uint
    | 7 => return string
    | 8 => return address
    | 9 => return path
    | 10 => array <$> decoderWithin depth
    | 11 => do
      let key ← decoderWithin depth
      let element ← decoderWithin depth
      return dict key element
    | 12 => composite <$> Decoder.text
    | 13 => do
      let base ← Decoder.optional Decoder.text
      let interfaces ← Decoder.sequence Decoder.text
      return restricted base interfaces
    | 14 => do
      if ← Decoder.flag then
        let authorized ← Decoder.flag
        let target ← decoderWithin depth
        return capability authorized target
      else return anyCapability
    | 15 => do
      let authorized ← Decoder.flag
      let target ← decoderWithin depth
      return reference authorized target
    | _ => failure

/-- Decodes a type. Every level takes a byte at least, so the number of
bytes bounds the depth. -/
def decoder : Decoder Ty := do decoderWithin (← get).length

end Ty

namespace RefTy

/-- The bytes of a borrow type. -/
def bytes (r : RefTy) : Bytes := Bytes.flag r.authorized ++ r.target.bytes

/-- Decodes a borrow type. -/
def decoder : Decoder RefTy := do
  let authorized ← Decoder.flag
  let target ← Ty.decoder
  return ⟨authorized, target⟩

end RefTy

end Custody
