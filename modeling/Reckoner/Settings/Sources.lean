import Reckoner.FileTree
import Reckoner.Release
import Reckoner.Settings.Interpolation

/-!
# Sources of settings

Settings come from built-in defaults, from files and from environment variables, in this order of
rank: what is read later overrides what was read before, and the environment is applied anew after
every reading, so it always wins. What was stored before a fault stays stored.
-/

namespace Reckoner.Settings

/-- Changes the store; on a fault the store stays as it was when the fault arose. -/
abbrev Loading := EStateM Fault Store

/-- Names of variables that hold settings begin like this. -/
def variableStem : String := "EXPRCALC_"

/-- The built-in default of the option `version`: the project's name and the version of the installed
package, which the package's own project file names too. -/
def builtinVersion : String := Release.projectName ++ " " ++ Release.installedVersion

/-- The built-in settings. -/
def builtin : Store where
  defaults := [("version", .text builtinVersion)]
  sections := [("logging", [("log_level", .text "WARNING")]),
    ("output", [("float_precision", .text "")])]

/-- The files that are read without being named: one in the home directory, one for the whole
system, one in the working directory. -/
def standardFiles (home : String) : List String :=
  [home ++ "/.exprcalcrc", "/etc/exprcalc.ini", "exprcalc.ini"]

/-- The section and option that a variable sets: the rest of its name in lower case, divided at the
first underscore. The section `default` is the one of defaults. -/
def variableTarget? (name : String) : Option (String × String) :=
  if name.startsWith variableStem then
    let rest := (Text.lower (String.ofList (name.toList.drop variableStem.length))).toList
    match rest.dropWhile (· != '_') with
    | [] => none
    | _ :: option =>
      let sectionName := String.ofList (rest.takeWhile (· != '_'))
      some (if sectionName = "default" then defaultSection else sectionName, String.ofList option)
  else none

/-- Sets an option to a value that is checked first. A section is added even if the value is
refused; a section without a name is added too, but its options become defaults. -/
def assign (sectionName option value : String) : Loading Unit := do
  modify (·.addSection sectionName)
  match checkSettable value with
  | .error fault => throw fault
  | .ok () =>
    modify (·.put (if sectionName = "" then defaultSection else sectionName)
      (Text.lower option) (.text value))

/-- Applies the variables in their order. -/
def applyVariables (environment : List (String × String)) : Loading Unit :=
  environment.forM fun (name, value) =>
    match variableTarget? name with
    | some (sectionName, option) => assign sectionName option value
    | none => pure ()

/-- Reads a file and answers whether it could be opened. -/
def readFile (tree : FileTree) (path : String) : Loading Bool := do
  match tree.read? path with
  | none => pure false
  | some text =>
    let d := Document.read path text
    modify (·.addDocument d)
    match d.fault with
    | none => pure true
    | some fault => throw fault

/-- Starts afresh with the built-in settings, the files that can be opened, and the variables. -/
def reload (tree : FileTree) (environment : List (String × String)) (paths : List String) :
    Loading Unit := do
  set builtin
  paths.forM fun path => do
    let _ ← readFile tree path
  applyVariables environment

/-- Reads one more file, which has to be there. -/
def readMore (tree : FileTree) (environment : List (String × String)) (path : String) :
    Loading Unit := do
  if ← readFile tree path then applyVariables environment else throw (.noFile path)

end Reckoner.Settings
