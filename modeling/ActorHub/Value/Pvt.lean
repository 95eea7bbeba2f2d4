import ActorHub.Number.Decimal

/-!
# Positions in motion

A position, a velocity and the time at which they hold. Time is atomic time in seconds, counted
from the origin of the modified Julian date; not-a-number marks an unknown component.
-/

namespace ActorHub

structure Pvt where
  position : Binary64
  velocity : Binary64
  time : Binary64
deriving DecidableEq, Repr

namespace Pvt

/-- All components are known and finite, and the time is positive. -/
def isValid (p : Pvt) : Bool :=
  p.position.isFinite && p.velocity.isFinite && p.time.isFinite && p.time.isPositive

def hasVelocity (p : Pvt) : Bool :=
  !p.velocity.equals Binary64.zero

/-- The position extrapolated to a time, for a valid triplet. -/
def positionAt (p : Pvt) (t : Binary64) : Option Binary64 :=
  if p.isValid then
    some (.ofFloat (p.position.toFloat + p.velocity.toFloat * (t.toFloat - p.time.toFloat)))
  else none

def equals (a b : Pvt) : Bool :=
  a.position.equals b.position && a.velocity.equals b.velocity && a.time.equals b.time

def display (p : Pvt) : String :=
  let component := FloatLayout.detailed.render
  "PVT(" ++ ", ".intercalate [component p.position, component p.velocity, component p.time] ++ ")"

end Pvt

namespace AtomicTime

def secondsPerDay : Float := 86400.0

/-- The modified Julian date at which civil time in seconds is zero. -/
def epochDay : Float := 40587.0

/-- The seconds by which atomic time is ahead of civil time. -/
def lead : Float := 35.0

/-- Atomic time for seconds of civil time. -/
def ofCivil (seconds : Binary64) : Binary64 :=
  let days := epochDay + seconds.toFloat / secondsPerDay
  .ofFloat ((days + lead / secondsPerDay) * secondsPerDay)

end AtomicTime

end ActorHub
