import Reckoner.FileTree
import Reckoner.Text.Sorting

/-!
# Packages of a source tree

Which packages a source tree holds: every directory with a marker in it, the program's own one or
below it, named by the way to it from the source directory with points between.
-/

namespace Reckoner.Packages

/-- The directory of the sources. -/
def sourceDirectory : String := "src"

/-- The directory of the program's packages in it. -/
def topPackage : String := "exprcalc"

/-- The name of what marks a package. -/
def marker : String := "__init__.py"

/-- All places on the way to a place, itself included. -/
def waysTo (place : FileTree.Place) : List FileTree.Place :=
  (List.range place.length).map fun n => place.take (n + 1)

/-- All places that exist in a tree with the given paths, each once. -/
def existing (paths : List String) : List FileTree.Place :=
  (paths.flatMap fun path => waysTo (FileTree.placeOf path)).eraseDups

/-- The package that is marked at a place. -/
def package? : FileTree.Place → Option String
  | source :: top :: rest =>
    if source = sourceDirectory ∧ top = topPackage ∧ rest.getLast? = some marker then
      some (".".intercalate (top :: rest.dropLast))
    else none
  | _ => none

/-- The packages of a tree with the given paths, in order. -/
def find (paths : List String) : List String :=
  Text.sortNames ((existing paths).filterMap package?)

/-- The markers of the program's own source tree. -/
def ownPaths : List String :=
  ["", "/apps", "/core", "/exceptions", "/parser", "/parser/token", "/utils"].map fun directory =>
    sourceDirectory ++ "/" ++ topPackage ++ directory ++ "/" ++ marker

end Reckoner.Packages
