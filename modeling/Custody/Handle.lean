import Custody.Address
import Custody.Identity
import Custody.Path
import Custody.Ty

/-!
# Handles: capabilities and references

A **capability** names a link path of an account. It may be copied and
stored, and grants nothing by itself: every borrow resolves it anew through
the link, so removing the link revokes every copy.

A **reference** is a view of one stored or local value, issued to one frame.
It ends with that frame and is never stored.
-/

namespace Custody

/-- **A capability**: a handle to a link path. -/
structure Capability where
  /-- The account the link belongs to. -/
  address : Address
  /-- The link path. -/
  path : Path
  /-- The type the capability declares for a borrow, if any. -/
  promise : Option RefTy
deriving DecidableEq

namespace Capability

/-- The same capability declaring another type. -/
def retype (c : Capability) (promise : RefTy) : Capability :=
  { c with promise := some promise }

/-- The written form. -/
def text (c : Capability) : String :=
  let place := "(" ++ c.address.text ++ c.path.text ++ ")"
  match c.promise with
  | some r => "Capability<" ++ r.text ++ ">" ++ place
  | none => "Capability" ++ place

end Capability

/-- **What a reference points at.** -/
inductive Target where
  /-- A stored value. -/
  | stored (address : Address) (path : Path)
  /-- A local of a frame. -/
  | binding (frame : FrameId) (name : String)
deriving DecidableEq

namespace Target

/-- The written form. -/
def text : Target → String
  | stored address path => address.text ++ path.text
  | binding frame name => frame.text ++ ":" ++ name

end Target

/-- **A reference** onto a value. -/
structure Reference where
  /-- Its own identity. -/
  id : RefId
  /-- What it points at. -/
  target : Target
  /-- The resource it was issued for, none for other values. -/
  identity : Option ResourceId
  /-- The type the value is seen at. -/
  granted : RefTy
  /-- The frame whose end is its own. -/
  frame : FrameId
deriving DecidableEq

namespace Reference

/-- The written form. -/
def text (r : Reference) : String :=
  r.id.text ++ " " ++ r.granted.text ++ " -> " ++ r.target.text

end Reference

end Custody
