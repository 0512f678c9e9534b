import Provisioning.Context.Basic

/-!
# Tallies of look-ups

What a watched context was asked, in order, and whether it knew the answer.
-/

namespace Provisioning

/-- The names looked up, in order, with whether each was found. -/
structure Tally where
  lookups : List (String × Bool) := []
deriving DecidableEq, Repr, Inhabited

namespace Tally

/-- Notes a look-up. -/
def note (t : Tally) (name : String) (found : Bool) : Tally := ⟨t.lookups ++ [(name, found)]⟩

/-- The names looked up, in order. -/
def names (t : Tally) : List String := t.lookups.map (·.1)

/-- How many look-ups there were. -/
def calls (t : Tally) : Nat := t.lookups.length

/-- How many look-ups found nothing. -/
def misses (t : Tally) : Nat := t.lookups.countP (!·.2)

/-- How often a name was looked up. -/
def count (t : Tally) (name : String) : Nat := t.lookups.countP (·.1 == name)

end Tally

end Provisioning
