import Custody.Handle
import Custody.SortedMap

/-!
# Outstanding references

A target has at most one outstanding reference, which belongs to the frame
that asked for it. The reference ends when its frame does, or with the frame
whose local it points at; its identity is never used again, so a copy kept
by the host is recognised as ended.
-/

namespace Custody

/-- **An outstanding reference** onto a target. -/
structure Loan where
  /-- The reference. -/
  id : RefId
  /-- The frame it belongs to. -/
  frame : FrameId
deriving DecidableEq

/-- **The outstanding references**, by target. -/
structure Loans where
  /-- The number of the next new reference. -/
  next : Nat
  /-- The loan on each borrowed target. -/
  outstanding : Table Target Loan

namespace Loans

/-- No references; identities start at one. -/
def empty : Loans := ⟨1, []⟩

instance : Inhabited Loans := ⟨empty⟩

/-- Whether a reference onto the target is outstanding. -/
def isBorrowed (l : Loans) (target : Target) : Bool := Table.contains l.outstanding target

/-- Lends the target to a frame, unless it is lent already. -/
def acquire (l : Loans) (target : Target) (frame : FrameId) : Option (RefId × Loans) :=
  if l.isBorrowed target then none
  else some (⟨l.next⟩, ⟨l.next + 1, Table.put l.outstanding target ⟨⟨l.next⟩, frame⟩⟩)

/-- Whether the reference is the one outstanding on its target. -/
def isLive (l : Loans) (r : Reference) : Bool :=
  (Table.get? l.outstanding r.target).any (·.id = r.id)

/-- Whether a loan ends with the frame: it belongs to the frame, or its
target is a local of it. -/
def endsWith (frame : FrameId) (target : Target) (loan : Loan) : Bool :=
  loan.frame = frame
    || match target with
      | .binding owner _ => owner = frame
      | .stored _ _ => false

/-- Ends every reference that ends with the frame. -/
def releaseFrame (l : Loans) (frame : FrameId) : Loans :=
  { l with outstanding := l.outstanding.filter fun e => !endsWith frame e.1 e.2 }

/-- Ends every reference. -/
def releaseAll (l : Loans) : Loans := { l with outstanding := [] }

/-- The number of outstanding references. -/
def size (l : Loans) : Nat := l.outstanding.length

end Loans

end Custody
