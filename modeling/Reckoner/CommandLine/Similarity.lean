import Reckoner.Text.Sorting

/-!
# Similar names

A name that is not known is compared with those that are. How similar two names are is measured by
the characters they share in order: those of the longest run that both hold, and of the longest
runs on either side of it, and so on. Up to three known names are suggested, the most similar ones
among those that share at least three fifths of their characters.
-/

namespace Reckoner.CommandLine

/-- The number of characters with which two texts begin alike. -/
def sharedStart : List Char → List Char → Nat
  | a :: as, b :: bs => if a = b then sharedStart as bs + 1 else 0
  | _, _ => 0

/-- A run of characters that two texts share: where it starts in each, and its length. -/
structure SharedRun where
  first : Nat
  second : Nat
  length : Nat
deriving DecidableEq, Repr

/-- The longest shared run; of several, the one that starts first in the first text, then in the
second. -/
def longestRun (as bs : List Char) : SharedRun :=
  let runs := (List.range as.length).flatMap fun i =>
    (List.range bs.length).map fun j => ⟨i, j, sharedStart (as.drop i) (bs.drop j)⟩
  runs.foldl (fun best run => if best.length < run.length then run else best) ⟨0, 0, 0⟩

/-- The number of characters that two texts share in order. -/
def sharedCount (as bs : List Char) : Nat :=
  match longestRun as bs with
  | ⟨i, j, n⟩ =>
    if _h : 0 < n ∧ i < as.length then
      sharedCount (as.take i) (bs.take j) + n + sharedCount (as.drop (i + n)) (bs.drop (j + n))
    else 0
termination_by as.length
decreasing_by
  · simp only [List.length_take]
    omega
  · simp only [List.length_drop]
    omega

/-- A known name, with how many of how many characters it shares. -/
structure Candidate where
  shared : Nat
  total : Nat
  name : String
deriving DecidableEq, Repr

namespace Candidate

/-- A known name compared with one that is not. -/
def of (unknown name : String) : Candidate :=
  ⟨2 * sharedCount name.toList unknown.toList, name.length + unknown.length, name⟩

/-- At least three fifths of the characters are shared. -/
def isSimilar (c : Candidate) : Bool := 3 * c.total ≤ 5 * c.shared

/-- Less similar than another, or as similar with a name that comes first. -/
def rankedBelow (c d : Candidate) : Bool :=
  c.shared * d.total < d.shared * c.total ||
    (c.shared * d.total == d.shared * c.total && c.name < d.name)

end Candidate

/-- The known names that are suggested for one that is not, in order. -/
def suggestions (unknown : String) (known : List String) : List String :=
  let similar := (known.map (Candidate.of unknown)).filter (·.isSimilar)
  Text.sortNames (((similar.mergeSort fun c d => !c.rankedBelow d).take 3).map (·.name))

end Reckoner.CommandLine
