/-!
# Identities

Resources, call frames and references are told apart by numbers handed out
in increasing order. The numbers are unbounded here: nothing in the rules of
this library depends on their width, only the byte format does.
-/

namespace Custody

/-- **The identity of a resource**, independent of where it is held. -/
structure ResourceId where
  /-- The number behind the identity. -/
  number : Nat
deriving DecidableEq, Inhabited

namespace ResourceId

instance : Ord ResourceId := ⟨compareOn number⟩

instance : Std.TransOrd ResourceId := inferInstanceAs (Std.TransCmp (compareOn number))

instance : Std.LawfulEqOrd ResourceId where
  compare_self {a} := (Std.ReflCmp.compare_self : compareOn number a a = .eq)
  eq_of_compare {a b} h := by
    obtain ⟨a⟩ := a
    obtain ⟨b⟩ := b
    exact congrArg mk (Std.LawfulEqOrd.eq_of_compare h)

/-- The written form, such as `#7`. -/
def text (id : ResourceId) : String := "#" ++ toString id.number

end ResourceId

/-- **The identity of a call frame.** -/
structure FrameId where
  /-- The number behind the identity. -/
  number : Nat
deriving DecidableEq, Inhabited

namespace FrameId

/-- The scope of a transaction outside every call frame. -/
def transaction : FrameId := ⟨0⟩

/-- The written form, such as `frame2`. -/
def text (id : FrameId) : String := "frame" ++ toString id.number

end FrameId

/-- **The identity of a reference.** -/
structure RefId where
  /-- The number behind the identity. -/
  number : Nat
deriving DecidableEq, Inhabited

namespace RefId

/-- The written form, such as `ref3`. -/
def text (id : RefId) : String := "ref" ++ toString id.number

end RefId

end Custody
