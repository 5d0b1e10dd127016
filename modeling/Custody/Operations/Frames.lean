import Custody.State

/-!
# Opening and closing frames

A frame is opened inside a transaction. Closing the innermost frame ends the
references that end with it, and it is a fault when one of its locals still
holds a resource; the frame is closed all the same. Unwinding closes all
frames down to a given one and reports the first fault.
-/

namespace Custody

namespace Frames

open CustodyM

/-- **Opens a frame.** -/
def push : CustodyM FrameId :=
  guarded do
    let _ ← requireTransaction
    let s ← get
    let (id, stack) ← ofExcept (s.stack.push s.settings.maxFrames)
    modify fun s => { s with stack := stack }
    return id

/-- **Closes the innermost frame**, which must be the one named. -/
def pop (frame : FrameId) : CustodyM Unit :=
  guarded do
    let (_, stack) ← ofExcept ((← get).stack.pop frame)
    modify fun s => { s with stack := stack, loans := s.loans.releaseFrame frame }
    match ((← get).ledger.heldIn frame).head? with
    | some (id, place) => throw (.unhandledResource id place.text)
    | none => return

/-- Closes the listed frames, innermost first, each in spite of the faults
of those before, and fails with the first fault. -/
def popAll : List FrameId → CustodyM Unit
  | [] => return
  | frame :: rest => do
    let first ← observing (pop frame)
    let others ← observing (popAll rest)
    ofExcept first
    ofExcept others

/-- The open frames from the innermost down to the given one. -/
def downTo (frame : FrameId) : List Frame → List FrameId
  | [] => []
  | f :: rest => if f.id = frame then [f.id] else f.id :: downTo frame rest

/-- **Closes every frame down to the given one**, this one included. -/
def unwind (frame : FrameId) : CustodyM Unit := do
  let stack := (← get).stack
  if stack.contains frame then popAll (downTo frame stack.frames)
  else guarded (throw (.frameMismatch frame.text stack.currentText))

/-- Ends a frame after what was done in it: unwinds it in any case. The
fault of what was done comes before a fault of the unwinding. -/
def leave {α : Type} (frame : FrameId) (outcome : Except Fault α) : CustodyM α := do
  let unwound ← observing (unwind frame)
  let a ← ofExcept outcome
  ofExcept unwound
  return a

/-- **Does something in a frame of its own.** -/
def within {α : Type} (body : FrameId → CustodyM α) : CustodyM α := do
  let frame ← push
  leave frame (← observing (body frame))

end Frames

end Custody
