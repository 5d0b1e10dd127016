import Custody.Fault
import Custody.Value

/-!
# Call frames and their locals

A frame binds names to values. A local whose linear value was moved out
stays bound as **moved**, so that a second use is told apart from a name
that never existed. Frames are stacked, innermost first; their identities
grow and are never used again.
-/

namespace Custody

/-- **What a local is bound to.** -/
inductive Binding where
  /-- A value. -/
  | live (v : Value)
  /-- Nothing any more: the value was moved out. -/
  | moved

/-- **A call frame.** -/
structure Frame where
  /-- Its identity. -/
  id : FrameId
  /-- Its locals, in the order in which they were first bound. -/
  locals : Table String Binding

namespace Frame

/-- The value of a local. -/
def value (f : Frame) (name : String) : Except Fault Value :=
  match Table.get? f.locals name with
  | some (.live v) => .ok v
  | some .moved => .error (.useAfterMove name)
  | none => .error (.unknownBinding name)

/-- Binds a local. -/
def setLocal (f : Frame) (name : String) (b : Binding) : Frame :=
  { f with locals := Table.put f.locals name b }

end Frame

/-- **The stack of open frames.** -/
structure CallStack where
  /-- The open frames, innermost first. -/
  frames : List Frame
  /-- The number of the next new frame. -/
  next : Nat

namespace CallStack

/-- The stack without frames; identities start at one. -/
def empty : CallStack := ⟨[], 1⟩

instance : Inhabited CallStack := ⟨empty⟩

/-- The number of open frames. -/
def depth (s : CallStack) : Nat := s.frames.length

/-- The innermost frame. -/
def current? (s : CallStack) : Option FrameId := s.frames.head?.map Frame.id

/-- The outermost frame. -/
def outermost? (s : CallStack) : Option FrameId := s.frames.getLast?.map Frame.id

/-- Whether the frame is open. -/
def contains (s : CallStack) (id : FrameId) : Bool := s.frames.any (·.id = id)

/-- Closes all frames. -/
def clear (s : CallStack) : CallStack := { s with frames := [] }

/-- The text naming the innermost frame in a complaint about another. -/
def currentText (s : CallStack) : String := (s.current?.map FrameId.text).getD "no frame"

/-- The open frame of that identity. -/
def frame (s : CallStack) (id : FrameId) : Except Fault Frame :=
  match s.frames.find? (·.id = id) with
  | some f => .ok f
  | none => .error (.frameMismatch id.text "no such frame")

/-- The value of a local of an open frame. -/
def value (s : CallStack) (id : FrameId) (name : String) : Except Fault Value := do
  (← s.frame id).value name

/-- Opens a frame, unless `limit` frames are open. -/
def push (s : CallStack) (limit : Nat) : Except Fault (FrameId × CallStack) :=
  if limit ≤ s.depth then .error (.frameDepthExceeded limit)
  else .ok (⟨s.next⟩, ⟨⟨⟨s.next⟩, []⟩ :: s.frames, s.next + 1⟩)

/-- Closes the innermost frame, which must be the one named. -/
def pop (s : CallStack) (id : FrameId) : Except Fault (Frame × CallStack) :=
  match s.frames with
  | top :: rest =>
    if top.id = id then .ok (top, { s with frames := rest })
    else .error (.frameMismatch id.text s.currentText)
  | [] => .error (.frameMismatch id.text s.currentText)

/-- Binds a local in the first of the frames with the identity. -/
def setLocalIn (id : FrameId) (name : String) (b : Binding) : List Frame → List Frame
  | [] => []
  | f :: rest =>
    if f.id = id then f.setLocal name b :: rest else f :: setLocalIn id name b rest

/-- Binds a local of an open frame. -/
def setLocal (s : CallStack) (id : FrameId) (name : String) (b : Binding) : CallStack :=
  { s with frames := setLocalIn id name b s.frames }

end CallStack

end Custody
