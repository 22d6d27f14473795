import Reckoner.FileTree
import Reckoner.Log
import Reckoner.NumberText

/-!
# The version of a release

The version is named in a project file, if one that describes this project is found; else it is
that of the installed package. The project file is the nearest one above the program's own place,
unless a variable names another.
-/

namespace Reckoner.Release

/-- The project whose version is looked for. -/
def projectName : String := "exprcalc"

/-- The version of the installed package. -/
def installedVersion : String := "0.1.0"

/-- The version if none is found. -/
def unknownVersion : String := "0.0.0"

/-- The name of project files. -/
def projectFile : String := "pyproject.toml"

/-- The part of the program's own project file that names its version. -/
def ownProjectFile : String :=
  "[project]\nname = \"" ++ projectName ++ "\"\nversion = \"" ++ installedVersion ++ "\"\n"

/-! ## Project files -/

/-- A value in a project file. -/
inductive Value where
  | string (s : String)
  | int (n : Int)
  | bool (b : Bool)
deriving DecidableEq, Repr, Inhabited

namespace Value

/-- What the kind of a value is called. -/
def kind : Value → String
  | .string _ => "str"
  | .int _ => "int"
  | .bool _ => "bool"

/-- The value as it is printed. -/
def text : Value → String
  | .string s => s
  | .int n => toString n
  | .bool b => if b then "True" else "False"

/-- A value that counts as none: an empty text, zero, or false. -/
def isEmpty : Value → Bool
  | .string s => s == ""
  | .int n => n == 0
  | .bool b => !b

end Value

/-- A character behind a backslash in a quoted text. -/
def unescape : Char → Char
  | 'n' => '\n'
  | 't' => '\t'
  | 'r' => '\r'
  | c => c

/-- The text up to the closing quote. Only between double quotes does a backslash escape. -/
def quotedText (mark : Char) : List Char → Option (List Char)
  | [] => none
  | '\\' :: c :: cs =>
    if mark = '"' then (quotedText mark cs).map (unescape c :: ·)
    else (quotedText mark (c :: cs)).map ('\\' :: ·)
  | c :: cs => if c = mark then some [] else (quotedText mark cs).map (c :: ·)

/-- The value behind the equals sign of a line. -/
def value? (cs : List Char) : Option Value :=
  match cs with
  | [] => none
  | mark :: rest =>
    if mark = '"' ∨ mark = '\'' then
      (quotedText mark rest).map fun s => .string (String.ofList s)
    else
      match String.ofList (Text.trim (cs.takeWhile (· != '#'))) with
      | "true" => some (.bool true)
      | "false" => some (.bool false)
      | bare => match NumberText.readInt bare.toList with
        | .ok n => some (.int n)
        | .error _ => none

/-- A name as it is written, with quotes around it or without. -/
def bareName (cs : List Char) : String :=
  String.ofList ((Text.trim cs).filter fun c => c != '"' && c != '\'')

/-- A field of a file: the table it stands in, its name, and its value. -/
structure Field where
  table : String
  name : String
  value : Value
deriving DecidableEq, Repr

/-- A line of a file. -/
inductive Line where
  /-- The heading of a table. -/
  | heading (table : String)
  | field (name : String) (value : Value)
  /-- A comment, or anything else that says nothing. -/
  | silent
deriving DecidableEq, Repr

/-- What a line says. -/
def Line.read (line : String) : Line :=
  match Text.trim line.toList with
  | '[' :: cs => .heading (bareName (cs.takeWhile (· != ']')))
  | '#' :: _ => .silent
  | cs =>
    match value? (Text.trim ((cs.dropWhile (· != '=')).drop 1)) with
    | some v => .field (bareName (cs.takeWhile (· != '='))) v
    | none => .silent

/-- The fields of the lines of a table and of the tables that follow it. -/
def fields (table : String) : List Line → List Field
  | [] => []
  | .heading next :: rest => fields next rest
  | .field name value :: rest => ⟨table, name, value⟩ :: fields table rest
  | .silent :: rest => fields table rest

/-- Why a version cannot be told. -/
inductive Fault where
  /-- A value of the kind that is named has no part of the given name. -/
  | noPart (kind name : String)
  /-- A part of a version that looks like digits but is no number. -/
  | notInt (text : String)
  | intTooLong (digits : Nat)
  /-- The project file cannot be read. -/
  | unreadable (path : String)
deriving DecidableEq, Repr

/-- The fault in words. -/
def Fault.message : Fault → String
  | noPart kind name => "'" ++ kind ++ "' object has no attribute '" ++ name ++ "'"
  | notInt text => "invalid literal for int() with base 10: " ++ Text.quoted text
  | intTooLong digits => digitLimitMessage digits
  | unreadable path => "[Errno 2] No such file or directory: " ++ Text.quoted path

/-- The version that a project file names, if the file describes the project. -/
def versionOf (text : String) : Except Fault (Option Value) :=
  let all := fields "" ((text.splitOn "\n").map Line.read)
  let get? (table name : String) : Option Value :=
    (all.find? fun f => f.table == table && f.name == name).map (·.value)
  match get? "" "project" with
  | some v => .error (.noPart v.kind "get")
  | none =>
    if get? "project" "name" = some (.string projectName) then .ok (get? "project" "version")
    else .ok none

/-! ## Finding the file -/

/-- The places of project files in a directory and above it, the nearest first. -/
def candidates (directory : FileTree.Place) : List FileTree.Place :=
  (List.range (directory.length + 1)).map fun n =>
    directory.take (directory.length - n) ++ [projectFile]

/-- Where the project file is: at the place that is named, else the nearest one that exists in the
directory of the program's own file or above it. -/
def findProjectFile? (tree : FileTree) (named : String) (own : FileTree.Place) :
    Option FileTree.Place :=
  if named ≠ "" then some (FileTree.placeOf named)
  else (candidates own.dropLast).find? fun place =>
    (tree.textAt? place).isSome || tree.isDirectory place

/-- The version that is named in the project file, if there is one. -/
def projectVersion (tree : FileTree) (named : String) (own : FileTree.Place) :
    Except Fault (Option Value) :=
  match findProjectFile? tree named own with
  | none => .ok none
  | some place =>
    match tree.textAt? place with
    | some text => versionOf text
    | none => .error (.unreadable ("/".intercalate place))

/-! ## The version -/

/-- The version of a package, if it is installed. -/
def packageVersion? (installed : Bool) (package : String) : Option String :=
  if installed && package == projectName then some installedVersion else none

/-- The warning that no version was found. -/
def notFoundWarning : Log.Record :=
  ⟨projectName ++ "._version", Log.warning, projectName ++ " version not found"⟩

/-- The version, and what is logged about it: what the project file names, else that of the
package; one that is empty does not count. -/
def version (fromProject : Option Value) (fromPackage : Option String) :
    Value × List Log.Record :=
  match fromProject.filter (!·.isEmpty), fromPackage.filter (· != "") with
  | some v, _ => (v, [])
  | none, some s => (.string s, [])
  | none, none => (.string unknownVersion, [notFoundWarning])

/-- The numbers among the first three parts of a version, which points divide. -/
def versionNumbers : Value → Except Fault (List Int)
  | .string s =>
    let parts := ((s.splitOn ".").take 3).filter fun part =>
      part != "" && part.toList.all Text.isDigitLike
    parts.mapM fun part =>
      match NumberText.readInt part.toList with
      | .ok n => .ok n
      | .error .malformed => .error (.notInt part)
      | .error (.tooLong digits) => .error (.intTooLong digits)
  | v => .error (.noPart v.kind "split")

/-- The line that shows the version. -/
def versionLine (version : String) : String := projectName ++ " " ++ version ++ "\n"

end Reckoner.Release
