import Custody.Fault
import Custody.Value.Roots

/-!
# The ledger of ownership

The ledger records, for every resource it knows, where the resource is: held
at a place, **in flight** between two places, or destroyed. A move is two
entries, a release at the old place and a settlement at the new one, and each
is checked against the record: a resource that is not in flight cannot
settle, and one that is not held where the mover says cannot be released.
This is what keeps a forged duplicate of a resource from ever being accepted.

A step on the ledger may fail halfway through a list of resources, so the
steps are actions of `LedgerM`, in which the entries made before a failure
stay made. That a failed settlement makes none is a property of the checks
that come first, not of the monad.
-/

namespace Custody

/-- **Where a resource is.** -/
inductive Holding where
  /-- Held at a place. -/
  | owned (place : Place)
  /-- Taken from one place and not yet put into another. -/
  | inFlight
  /-- Gone for good. -/
  | destroyed
deriving DecidableEq

namespace Holding

/-- Whether the resource still exists. -/
def isLive : Holding → Bool
  | destroyed => false
  | _ => true

end Holding

/-- **The ledger.** -/
structure Ledger where
  /-- The number of the next new identity. -/
  next : Nat
  /-- The record of every known identity. -/
  records : SortedMap ResourceId Holding

/-- Actions on the ledger. A failure keeps the entries made before it. -/
abbrev LedgerM := ExceptT Fault (StateM Ledger)

namespace Ledger

/-- The ledger that knows no resource; identities start at one. -/
def empty : Ledger := ⟨1, SortedMap.empty⟩

instance : Inhabited Ledger := ⟨empty⟩

/-- The record of an identity. -/
def holding? (l : Ledger) (id : ResourceId) : Option Holding := l.records.get? id

/-- Enters a record. -/
def record (l : Ledger) (id : ResourceId) (h : Holding) : Ledger :=
  { l with records := l.records.insert id h }

/-- The number of known identities. -/
def size (l : Ledger) : Nat := l.records.size

/-- Enters a resource found in storage; new identities stay above it. -/
def adopt (l : Ledger) (id : ResourceId) (place : Place) : Ledger :=
  { next := max l.next (id.number + 1), records := l.records.insert id (.owned place) }

/-- A new identity, in flight. -/
def mint (l : Ledger) : ResourceId × Ledger :=
  (⟨l.next⟩, { next := l.next + 1, records := l.records.insert ⟨l.next⟩ .inFlight })

/-- Points the record of a held resource at another place. -/
def relocate (l : Ledger) (id : ResourceId) (place : Place) : Ledger :=
  match l.holding? id with
  | some (.owned _) => l.record id (.owned place)
  | _ => l

/-- The resources held by a local of the frame, by identity. -/
def heldIn (l : Ledger) (frame : FrameId) : List (ResourceId × Place) :=
  l.records.entries.filterMap fun entry =>
    match entry.2 with
    | .owned place => if place.frame? = some frame then some (entry.1, place) else none
    | _ => none

/-- The resources a transaction must not leave behind: those in flight, and
those held by a local. -/
def lingering (l : Ledger) : List (ResourceId × Option Place) :=
  l.records.entries.filterMap fun entry =>
    match entry.2 with
    | .inFlight => some (entry.1, none)
    | .owned place => if place.frame?.isSome then some (entry.1, some place) else none
    | .destroyed => none

/-- Forgets the resources that were destroyed. -/
def forgetDestroyed (l : Ledger) : Ledger :=
  { l with records := l.records.filter fun _ h => h.isLive }

/-! ## Single entries -/

/-- Refuses an identity that is not in flight. -/
def expectInFlight (id : ResourceId) : LedgerM Unit := do
  match (← get).holding? id with
  | some .inFlight => return
  | some (.owned place) => throw (.alreadyOwned id place)
  | some .destroyed => throw (.useAfterDestroy id)
  | none => throw (.unknownResource id)

/-- Puts a resource in flight into a place. -/
def settle (id : ResourceId) (place : Place) : LedgerM Unit := do
  expectInFlight id
  modify (·.record id (.owned place))

/-- Takes a resource out of the place that holds it. -/
def release (id : ResourceId) (place : Place) : LedgerM Unit := do
  match (← get).holding? id with
  | some (.owned holder) =>
    if holder = place then modify (·.record id .inFlight)
    else throw (.alreadyOwned id holder)
  | some .inFlight => throw (.alreadyInFlight id)
  | some .destroyed => throw (.useAfterDestroy id)
  | none => throw (.unknownResource id)

/-- Refuses to destroy a resource unless it is held at the given place, or
in flight when none is given. -/
def checkDestroy (id : ResourceId) (place? : Option Place) : LedgerM Unit := do
  match (← get).holding? id, place? with
  | some .destroyed, _ => throw (.doubleDestroy id)
  | some .inFlight, none => return
  | some .inFlight, some _ => throw (.alreadyInFlight id)
  | some (.owned holder), place? =>
    if place? = some holder then return else throw (.alreadyOwned id holder)
  | none, _ => throw (.unknownResource id)

/-- Enters that a resource is gone. -/
def destroy (id : ResourceId) (place? : Option Place) : LedgerM Unit := do
  checkDestroy id place?
  modify (·.record id .destroyed)

/-! ## Whole values -/

/-- Refuses resources that are not all in flight and distinct, also from
those already `seen`. -/
def expectDistinct (seen : List ResourceId) : List (ResourceId × Place) → LedgerM Unit
  | [] => return
  | (id, place) :: rest => do
    expectInFlight id
    if id ∈ seen then throw (.alreadyOwned id place)
    expectDistinct (id :: seen) rest

/-- **Puts every root of a value into its place**, for a value that goes to
`place`. -/
def settleValue (v : Value) (place : Place) : LedgerM Unit := do
  expectDistinct [] (v.placings place)
  (v.placings place).forM fun root => settle root.1 root.2

/-- Refuses resources that are not all held at their places. -/
def expectHeld : List (ResourceId × Place) → LedgerM Unit
  | [] => return
  | (id, place) :: rest => do
    if (← get).holding? id = some (.owned place) then expectHeld rest
    else release id place

/-- **Takes every root of a value out of its place**, for a value that
stands at `place`. -/
def releaseValue (v : Value) (place : Place) : LedgerM Unit := do
  expectHeld (v.placings place)
  (v.placings place).forM fun root => release root.1 root.2

end Ledger

end Custody
