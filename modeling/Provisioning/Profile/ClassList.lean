import Provisioning.Schema.Basic

/-!
# Lists of asset classes

The classes that may be provisioned under a profile, each once, in the order first named. The empty list
restricts nothing: `permits` is the question to ask, not `contains`.
-/

namespace Provisioning

theorem nodup_firstOccurrences {α : Type} [BEq α] [LawfulBEq α] (xs : List α) :
    (firstOccurrences xs).Nodup := by
  induction xs with
  | nil => exact List.nodup_nil
  | cons x xs ih =>
    refine List.nodup_cons.2 ⟨fun h => ?_, ih.filter _⟩
    simpa using (List.mem_filter.1 h).2

/-- Class names without repetitions. -/
structure ClassList where
  names : List String
  nodup : names.Nodup
deriving DecidableEq

namespace ClassList

/-- The list that restricts nothing. -/
def unrestricted : ClassList := ⟨[], List.nodup_nil⟩

instance : Inhabited ClassList := ⟨unrestricted⟩

/-- The classes of a list, each at its first place. -/
def ofList (names : List String) : ClassList :=
  ⟨firstOccurrences names, nodup_firstOccurrences names⟩

/-- Whether every class is permitted. -/
def isUnrestricted (l : ClassList) : Bool := l.names.isEmpty

/-- Whether a class is named; the comparison is exact. -/
def contains (l : ClassList) (name : String) : Bool := l.names.contains name

/-- Whether a class may be provisioned. -/
def permits (l : ClassList) (name : String) : Bool := l.isUnrestricted || l.contains name

end ClassList

end Provisioning
