/-!
# File trees

The files a program can see, as data: texts by path, relative to the working directory or from the
root. A path is followed step by step, so a file in the middle of a path or a directory that does
not exist leads nowhere.
-/

namespace Reckoner

/-- Files by path, and directories that hold none of them. -/
structure FileTree where
  files : List (String × String)
  directories : List String := []
deriving Inhabited

/-- What a path leads to. -/
inductive FileEntry where
  | file (text : String)
  | directory
deriving DecidableEq, Repr

namespace FileTree

/-- A place in the tree: the names on the way from the working directory, or from the root, which
has the name `/`. -/
abbrev Place := List String

/-- The parts of a path between slashes. -/
def parts (path : String) : List String := path.splitOn "/"

/-- The place from which a path sets out. -/
def origin (path : String) : Place := if path.startsWith "/" then ["/"] else []

/-- One step from a place. Above the working directory `..` is a name like any other. -/
def step (place : Place) (part : String) : Place :=
  if part = "" ∨ part = "." then place
  else if part = ".." then
    match place.getLast? with
    | none | some ".." => place ++ [".."]
    | some "/" => place
    | some _ => place.dropLast
  else place ++ [part]

/-- The place a path names, whether or not it exists. -/
def placeOf (path : String) : Place := (parts path).foldl step (origin path)

/-- The text of the file at a place. -/
def textAt? (tree : FileTree) (place : Place) : Option String :=
  (tree.files.find? fun (path, _) => placeOf path == place).map (·.2)

/-- The place is a directory: it is listed as one, or something lies below it. -/
def isDirectory (tree : FileTree) (place : Place) : Bool :=
  place == [] ||
    (tree.directories.any fun path => place.isPrefixOf (placeOf path)) ||
    tree.files.any fun (path, _) => place.isPrefixOf (placeOf path) && placeOf path != place

/-- Follows the parts of a path from a place, which has to be a directory as long as parts are
left. -/
def follow (tree : FileTree) (place : Place) : List String → Option Place
  | [] => some place
  | part :: rest =>
    if tree.isDirectory place then follow tree (step place part) rest else none

/-- What a path leads to, if it leads anywhere. -/
def find? (tree : FileTree) (path : String) : Option FileEntry := do
  if path = "" then none
  let place ← tree.follow (origin path) (parts path)
  match tree.textAt? place with
  | some text => some (.file text)
  | none => if tree.isDirectory place then some .directory else none

/-- The text of the file that a path leads to. -/
def read? (tree : FileTree) (path : String) : Option String :=
  match tree.find? path with
  | some (.file text) => some text
  | _ => none

end FileTree

end Reckoner
