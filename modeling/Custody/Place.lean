import Custody.Handle
import Custody.Key

/-!
# Places

A place is where a resource can be held: a local of a frame, a field of
another resource, a slot of account storage, or an element of a container
that stands in one of these. Places are told apart by equality, so a resource
that moves within a container changes its place.
-/

namespace Custody

/-- **A place** that can hold a value. -/
inductive Place where
  /-- The local of a frame. -/
  | binding (frame : FrameId) (name : String)
  /-- The field of a resource. -/
  | field (owner : ResourceId) (name : String)
  /-- The slot of account storage. -/
  | stored (address : Address) (path : Path)
  /-- The element of the container at another place. -/
  | element (container : Place) (key : Key)
deriving DecidableEq

namespace Place

/-- The place reached from `p` by the keys of nested containers, outermost
first. -/
def within (p : Place) (keys : List Key) : Place := keys.foldl element p

/-- The place of the outermost container. -/
def base : Place → Place
  | element container _ => container.base
  | p => p

/-- The frame whose local the place lies in. -/
def frame? (p : Place) : Option FrameId :=
  match p.base with
  | binding frame _ => some frame
  | _ => none

/-- Whether the place lies in account storage. -/
def isStored (p : Place) : Bool :=
  match p.base with
  | stored _ _ => true
  | _ => false

/-- The written form, such as `frame2:coins[0]`. -/
def text : Place → String
  | binding frame name => frame.text ++ ":" ++ name
  | field owner name => owner.text ++ "." ++ name
  | stored address path => address.text ++ path.text
  | element container key => container.text ++ "[" ++ key.text ++ "]"

@[simp] theorem within_nil (p : Place) : p.within [] = p := rfl

@[simp] theorem within_cons (p : Place) (key : Key) (keys : List Key) :
    p.within (key :: keys) = (p.element key).within keys := rfl

@[simp] theorem base_element (p : Place) (key : Key) : (p.element key).base = p.base := rfl

/-- Going into containers does not change what they stand in. -/
@[simp] theorem base_within (p : Place) (keys : List Key) : (p.within keys).base = p.base := by
  induction keys generalizing p with
  | nil => rfl
  | cons key keys ih => simp [ih]

end Place

end Custody
