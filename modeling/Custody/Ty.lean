/-!
# Types

A type describes a value as seen by whoever loads or borrows it. Composites
and interfaces are named and looked up in a `Registry`; a **restricted** type
views a composite through some of its interfaces only. A `RefTy` is the type
a value is borrowed at: `&T`, or `auth &T` when the borrower may go down to
a more specific type.
-/

namespace Custody

/-- **A type.** -/
inductive Ty where
  /-- The type of everything. -/
  | any
  /-- The type of nothing, the element type of an empty container. -/
  | never
  /-- Everything that is not linear. -/
  | anyStruct
  /-- Everything that is linear. -/
  | anyResource
  | bool
  | int
  | uint
  | string
  | address
  | path
  | array (element : Ty)
  | dict (key element : Ty)
  /-- A declared composite or interface. -/
  | composite (name : String)
  /-- A value of the named base, or of any type without one, seen only
  through the listed interfaces. -/
  | restricted (base : Option String) (interfaces : List String)
  /-- A capability that promises no type. -/
  | anyCapability
  /-- A capability that promises a target, authorized or not. -/
  | capability (authorized : Bool) (target : Ty)
  /-- A reference to a target, authorized or not. -/
  | reference (authorized : Bool) (target : Ty)
deriving DecidableEq, Inhabited

/-- **The type of a borrow**, `&T` or `auth &T`. -/
structure RefTy where
  /-- Whether the borrower may ask for a more specific type. -/
  authorized : Bool
  /-- The type the value is seen at. -/
  target : Ty
deriving DecidableEq, Inhabited

namespace Ty

/-- The type of a capability that promises `promise`, if anything. -/
def ofPromise : Option RefTy → Ty
  | some ⟨authorized, target⟩ => capability authorized target
  | none => anyCapability

/-- The mark in front of a borrowed type. -/
def borrowMark (authorized : Bool) : String := if authorized then "auth &" else "&"

/-- The written form of a type. -/
def text : Ty → String
  | any => "Any"
  | never => "Never"
  | anyStruct => "AnyStruct"
  | anyResource => "AnyResource"
  | bool => "Bool"
  | int => "Int"
  | uint => "UInt"
  | string => "String"
  | address => "Address"
  | path => "Path"
  | array element => "[" ++ element.text ++ "]"
  | dict key element => "\x7b" ++ key.text ++ ": " ++ element.text ++ "\x7d"
  | composite name => name
  | restricted base interfaces =>
    base.getD "" ++ "\x7b" ++ String.intercalate ", " interfaces ++ "\x7d"
  | anyCapability => "Capability"
  | capability authorized target =>
    "Capability<" ++ borrowMark authorized ++ target.text ++ ">"
  | reference authorized target => borrowMark authorized ++ target.text

end Ty

namespace RefTy

/-- The written form, such as `auth &T`. -/
def text (r : RefTy) : String := Ty.borrowMark r.authorized ++ r.target.text

end RefTy

end Custody
