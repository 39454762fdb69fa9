import TracedScript.Fault.Basic
import TracedScript.Frame
import TracedScript.Value.Trace

/-!
# Errors of a running program

A failure is a fault together with where it happened: a span, the call stack, and the origin of the
value to blame. What is not known where the fault arises is filled in on the way out, and nothing
that is known is changed there.
-/

namespace TracedScript

structure Failure where
  kind : FaultKind
  message : String
  span : Option Span
  /-- The frame that it arose in, and that frame's callers. -/
  stack : Option CallStack
  /-- Where the value to blame has been, oldest first. -/
  origin : List Hop
  deriving DecidableEq, Repr

/-- The fault as a failure, with the given span if there is one. -/
def Fault.failure (f : Fault) (span : Option Span) : Failure := ⟨f.kind, f.message, span, none, []⟩

/-- The fault as a failure at a span. -/
def Fault.failAt (f : Fault) (span : Span) : Failure := f.failure (some span)

namespace Failure

/-- Attaches where the value to blame has been, unless that is known. -/
def withOrigin (e : Failure) (origin : List Hop) : Failure :=
  if e.origin.isEmpty then { e with origin } else e

/-- Attaches the call stack, unless one is known. -/
def inFrame (e : Failure) (stack : CallStack) : Failure :=
  { e with stack := e.stack.or (some stack) }

/-- Attaches a span, unless one is known. -/
def orSpan (e : Failure) (span : Span) : Failure := { e with span := e.span.or (some span) }

/-- Attaches both. -/
def complete (e : Failure) (stack : CallStack) (span : Span) : Failure :=
  (e.orSpan span).inFrame stack

/-- No handler catches it. -/
def isFatal (e : Failure) : Bool := e.kind = .panic

variable (e : Failure) (origin : List Hop)

@[simp] theorem kind_withOrigin : (e.withOrigin origin).kind = e.kind := by
  unfold withOrigin
  split <;> rfl

@[simp] theorem message_withOrigin : (e.withOrigin origin).message = e.message := by
  unfold withOrigin
  split <;> rfl

end Failure

/-- The result is a failure of the given kind with the given message. -/
def FailsAs {α : Type} (x : Except Failure α) (kind : FaultKind) (message : String) : Prop :=
  ∃ e, x = .error e ∧ e.kind = kind ∧ e.message = message

namespace Fault

variable {α : Type} (f : Fault) (span : Option Span)

theorem failsAs_failure : FailsAs (.error (f.failure span) : Except Failure α) f.kind f.message :=
  ⟨_, rfl, rfl, rfl⟩

theorem failsAs_withOrigin (origin : List Hop) :
    FailsAs (.error ((f.failure span).withOrigin origin) : Except Failure α) f.kind f.message :=
  ⟨_, rfl, (f.failure span).kind_withOrigin origin, (f.failure span).message_withOrigin origin⟩

end Fault

end TracedScript
