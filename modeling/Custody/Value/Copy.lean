import Custody.Value.Roots

/-!
# Copying, storing and comparing values

A copyable value can be copied; a copy that meets a resource anywhere fails.
A value can be stored when it contains no reference and no resource with an
empty field. Two values are **the same** when they differ at most in the
order of the fields of their composites.

Structs take no linear field, neither when they are made nor later.
-/

namespace Custody

namespace Value

/-! ## Copies -/

/-- The results of all parts, or the first refusal. -/
def gather {ε κ α : Type} : List (κ × Except ε α) → Except ε (List (κ × α))
  | [] => .ok []
  | (k, part) :: rest => do
    let a ← part
    let others ← gather rest
    return (k, a) :: others

/-- The reading behind `copy`. -/
def copyReading : Reading (Except ValueFault Value) where
  scalar v := .ok v
  array parts := do
    let elements ← gather (parts.map fun part => ((), part))
    return .array (elements.map Prod.snd)
  dict entries := do return .dict (← gather entries)
  struct typeName fields := do return .struct typeName (← gather fields)
  resource r _ := .error (.copyOfLinear r.typeName)

/-- **A copy of a value**, refused at the first resource met. -/
def copy : Value → Except ValueFault Value := fold copyReading

/-! ## Storable values -/

/-- The reading behind `isStorable`. -/
def storableReading : Reading Bool where
  scalar
    | .reference _ => false
    | _ => true
  array parts := parts.all id
  dict entries := entries.all Prod.snd
  struct _ fields := fields.all Prod.snd
  resource _ fields := fields.all fun f => f.2.any id

/-- **Whether a value may be stored**: no reference in it, no empty field. -/
def isStorable : Value → Bool := fold storableReading

/-! ## Sameness -/

/-- Whether two values without parts are equal. -/
def sameScalar : Value → Value → Bool
  | .nil, .nil => true
  | .bool a, .bool b => a = b
  | .int a, .int b => a = b
  | .uint a, .uint b => a = b
  | .str a, .str b => a = b
  | .address a, .address b => a = b
  | .path a, .path b => a = b
  | .capability a, .capability b => a = b
  | .reference a, .reference b => a = b
  | _, _ => false

/-- The reading behind `same`. -/
def sameReading : Reading (Value → Bool) where
  scalar v w := sameScalar v w
  array tests
    | .array others =>
      tests.length = others.length && (tests.zip others).all fun p => p.1 p.2
    | _ => false
  dict tests
    | .dict others =>
      tests.length = others.length
        && (tests.zip others).all fun p => p.1.1 = p.2.1 && p.1.2 p.2.2
    | _ => false
  struct typeName tests
    | .struct otherName others =>
      typeName = otherName && tests.length = others.length
        && tests.all fun t => (Table.get? others t.1).any t.2
    | _ => false
  resource r tests
    | .resource otherId otherName others =>
      r.id = otherId && r.typeName = otherName && tests.length = others.length
        && tests.all fun t =>
          match t.2, Table.get? others t.1 with
          | some test, some (some w) => test w
          | none, some none => true
          | _, _ => false
    | _ => false

/-- **Whether two values are the same** up to the order of the fields of
composites. -/
def same : Value → Value → Bool := fold sameReading

end Value

namespace Resource

/-- Whether every field is filled with a value that may be stored. -/
def isComplete (r : Resource) : Bool := r.toValue.isStorable

end Resource

/-! ## Structs -/

/-- **A struct**, taken apart. -/
structure Struct where
  /-- The composite it is a value of. -/
  typeName : String
  /-- Its fields. -/
  fields : Table String Value

namespace Struct

/-- The value that a struct is. -/
def toValue (s : Struct) : Value := .struct s.typeName s.fields

/-- Gives a field a value, refusing a linear one. -/
def set (s : Struct) (name : String) (v : Value) : Except ValueFault Struct :=
  if v.isLinear then .error (.linearInCopyable s.typeName name)
  else .ok { s with fields := Table.put s.fields name v }

/-- A struct made of assignments to its fields, refused at the first linear
one. -/
def make (typeName : String) (fields : List (String × Value)) : Except ValueFault Struct :=
  fields.foldlM (fun s f => s.set f.1 f.2) ⟨typeName, []⟩

end Struct

end Custody
