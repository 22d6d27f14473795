/-!
# Names in order

Names are listed in the order of their code points. Sorting keeps what is sorted: a name that
stands twice is listed twice.
-/

namespace Reckoner.Text

/-- Names in the order of their code points. -/
def sortNames (names : List String) : List String := names.mergeSort fun a b => !decide (b < a)

/-- Sorting neither drops nor adds a name. -/
theorem sortNames_perm (names : List String) : (sortNames names).Perm names :=
  List.mergeSort_perm names _

/-- A name is listed if and only if it was given. -/
theorem mem_sortNames {name : String} {names : List String} :
    name ∈ sortNames names ↔ name ∈ names :=
  (sortNames_perm names).mem_iff

end Reckoner.Text
