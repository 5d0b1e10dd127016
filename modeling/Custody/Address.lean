import Custody.Text
import Custody.ValueFault

/-!
# Account addresses

An address is a 64-bit number. It is **printed** as `0x` and sixteen digits;
it is **read** from hexadecimal digits of either case, any number of them,
after an optional `0x` and an optional plus sign, as long as the number fits.
-/

namespace Custody

/-- **The address of an account.** -/
structure Address where
  /-- The number behind the address. -/
  raw : UInt64
deriving DecidableEq, Inhabited

namespace Address

instance : Ord Address := ⟨compareOn raw⟩

instance : Std.TransOrd Address := inferInstanceAs (Std.TransCmp (compareOn raw))

instance : Std.LawfulEqOrd Address where
  compare_self {a} := (Std.ReflCmp.compare_self : compareOn raw a a = .eq)
  eq_of_compare {a b} h := by
    obtain ⟨a⟩ := a
    obtain ⟨b⟩ := b
    exact congrArg mk (Std.LawfulEqOrd.eq_of_compare h)

/-- The written form: `0x` and sixteen lower-case digits. -/
def text (a : Address) : String :=
  String.ofList ('0' :: 'x' :: Hex.fixed 16 a.raw.toNat)

/-- Drops one leading `0x`. -/
def dropMarker : List Char → List Char
  | '0' :: 'x' :: rest => rest
  | cs => cs

/-- Drops one leading plus sign. -/
def dropSign : List Char → List Char
  | '+' :: rest => rest
  | cs => cs

/-- The address a text stands for, if it stands for one. -/
def ofText? (text : String) : Option Address :=
  match Hex.read? (dropSign (dropMarker text.toList)) with
  | some n => if n < UInt64.size then some ⟨UInt64.ofNat n⟩ else none
  | none => none

/-- Reads an address, refusing a text that stands for none. -/
def parse (text : String) : Except ValueFault Address :=
  match ofText? text with
  | some a => .ok a
  | none => .error (.invalidAddress text)

end Address

end Custody
