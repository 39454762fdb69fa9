import TracedScript.Text.Source

/-!
# Frames

What code runs in, and who called it. A call stack is never empty; names are looked up from the
scope of its top frame, and the frames below serve only to report where an error came from.
-/

namespace TracedScript

/-- Scopes are known by number. -/
abbrev ScopeId := Nat

inductive FrameKind where
  /-- The top level of a program. -/
  | program
  /-- The top level of an included module. -/
  | module
  /-- The body of a function. -/
  | function
  deriving DecidableEq, Repr

structure Frame where
  /-- The name shown in reports. -/
  display : String
  /-- The scope in which the frame's statements run. -/
  scope : ScopeId
  kind : FrameKind
  /-- The span of the call or include that made the frame. -/
  callSite : Option Span
  /-- The number of function frames from the bottom of the stack up to this frame. -/
  depth : Nat
  deriving DecidableEq, Repr

/-- A frame and those that called it, nearest first. -/
structure CallStack where
  top : Frame
  callers : List Frame
  deriving DecidableEq, Repr

namespace CallStack

/-- A frame that nothing called. -/
def root (display : String) (scope : ScopeId) (kind : FrameKind) : CallStack :=
  ⟨⟨display, scope, kind, none, 0⟩, []⟩

/-- The frames, innermost first. -/
def frames (s : CallStack) : List Frame := s.top :: s.callers

/-- Calls a frame from this stack at the given span. -/
def call (s : CallStack) (display : String) (scope : ScopeId) (callSite : Span)
    (kind : FrameKind) : CallStack :=
  ⟨⟨display, scope, kind, some callSite, s.top.depth + if kind = .function then 1 else 0⟩,
    s.frames⟩

def display (s : CallStack) : String := s.top.display

/-- `return` may be used. -/
def inFunction (s : CallStack) : Bool := s.top.kind = .function

end CallStack

end TracedScript
