/-!
# Sets of code points

A set of characters is written down by the sorted code points at which membership changes, so a
character belongs to it exactly when an odd number of boundaries lie at or below it.
-/

namespace ActorHub.Text

structure CodePoints where
  /-- The points where membership changes, in ascending order. -/
  boundaries : List Nat

def CodePoints.contains (s : CodePoints) (c : Char) : Bool :=
  (s.boundaries.takeWhile (· ≤ c.toNat)).length % 2 == 1

end ActorHub.Text
