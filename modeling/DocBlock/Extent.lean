/-! A stretch of the pending text that is marked while reading, and how often it was closed. -/

namespace DocBlock

inductive Closings where
  | none | once | repeated
  deriving DecidableEq, Repr, Inhabited

def Closings.next : Closings → Closings
  | .none => .once
  | .once | .repeated => .repeated

/-- The stretch from `start` up to, not including, `stop`. -/
structure Extent where
  start : Int := 0
  stop : Int := 0
  closings : Closings := .none
  deriving DecidableEq, Repr, Inhabited

namespace Extent

def openAt (e : Extent) (pos : Int) : Extent := { e with start := pos, stop := pos }

def closeAt (e : Extent) (stop : Int) : Extent :=
  { e with stop := max stop e.start, closings := e.closings.next }

def isClosed (e : Extent) : Bool := e.closings ≠ .none

def isClosedOnce (e : Extent) : Bool := e.closings = .once

def isRepeated (e : Extent) : Bool := e.closings = .repeated

end Extent

end DocBlock
