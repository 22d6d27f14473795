import Reckoner.CommandLine.Request
import Reckoner.CommandLine.Session
import Reckoner.Log
import Reckoner.Settings.Lookup
import Reckoner.Settings.Sources

/-!
# The command

What the program does for a command line: it reads the request, checks and reads the configuration
file that is named, sets up the log, and calculates one expression or the lines of a session. All
it writes goes to a terminal, which remains when the program ends early.
-/

namespace Reckoner.CommandLine

/-- The stream of the log that is the error stream. -/
def errorStream : Nat := 0

/-- What has been written. The log writes to the error stream, and so do reports of errors. -/
structure Terminal where
  output : String := ""
  log : Log.State := {}

namespace Terminal

/-- What stands in the error stream. -/
def errors (t : Terminal) : String := t.log.textOf errorStream

/-- Prints a text. -/
def print (s : String) (t : Terminal) : Terminal := { t with output := t.output ++ s }

/-- Writes to the error stream. -/
def report (s : String) (t : Terminal) : Terminal :=
  { t with log := t.log.write errorStream s }

/-- Logs a stage of a run. -/
def note (elapsed : String) (n : RunNote) (t : Terminal) : Terminal :=
  { t with log := t.log.log ⟨"exprcalc.apps.calc", Log.debug, n.message elapsed⟩ }

/-- The terminal without what has been written. -/
def cleared (t : Terminal) : Terminal := { output := "", log := { t.log with written := [] } }

end Terminal

/-- Why the program ends before it has done all it was to do. -/
inductive Ending where
  | exit (code : Nat)
  /-- A fault in the configuration that is not dealt with. -/
  | fault (f : Settings.Fault)
  /-- An error of a calculation that no stage reports. -/
  | error (e : CalcError)
deriving Inhabited

/-- The exit code. -/
def Ending.exitCode : Ending → Nat
  | exit code => code
  | fault _ | error _ => 1

/-- A part of the program: it writes, and may end the program. -/
abbrev Program := EStateM Ending Terminal

/-- Where the program runs. -/
structure Surroundings where
  tree : FileTree
  /-- The environment variables, in order. -/
  environment : List (String × String)
  /-- The settings that have been loaded. -/
  store : Settings.Store

/-- What remains to be done when everything is set up. -/
inductive Job where
  | session (options : RunOptions)
  | expression (options : RunOptions) (text : String)

/-- Ends the program with a complaint. -/
def complain {α : Type} (c : Complaint) : Program α := do
  modify (·.report c.report)
  throw (.exit c.exitCode)

/-- A result; a fault in the configuration ends the program. -/
def orFault {α : Type} : Except Settings.Fault α → Program α
  | .ok a => pure a
  | .error f => throw (.fault f)

/-- The configuration file of a request has to be a file. -/
def checkConfig (tree : FileTree) (path : String) : Program Unit :=
  match tree.find? path with
  | none => complain (.noSuchFile path)
  | some .directory => complain (.isDirectory path)
  | some (.file _) => pure ()

/-- The settings with those of the named file. -/
def loadConfig (s : Surroundings) (path : String) : Program Settings.Store :=
  match Settings.readMore s.tree s.environment path s.store with
  | .ok _ store => pure store
  | .error f _ => throw (.fault f)

/-- The level of the log: the one of debug messages if the request asks for them, else the one it
names, else the configured one. -/
def levelOf (request : Request) (store : Settings.Store) : Program Log.LevelChoice :=
  if request.verbose then pure (.number Log.debug)
  else match request.logLevel.filter (· != "") with
    | some name => pure (.named name)
    | none => do pure (.named (← orFault store.logLevel))

/-- The number of significant digits that is configured. -/
def precisionOf (store : Settings.Store) : Program (Option Int) :=
  match store.floatPrecision? with
  | .ok precision => pure precision
  | .error (.notInt _) | .error (.intTooLong _) => complain .badPrecision
  | .error f => throw (.fault f)

/-- Puts a request into effect, as far as the job it sets. -/
def prepare (s : Surroundings) (request : Request) : Program Job := do
  if request.help then
    modify (·.print helpText)
    throw (.exit 0)
  let store ← match request.config with
    | none => pure s.store
    | some path => do
      checkConfig s.tree path
      loadConfig s path
  let level ← levelOf request store
  modify fun t => { t with log := t.log.setUp level Log.consoleFormat errorStream }
  let precision ← precisionOf store
  let options : RunOptions :=
    { showTokens := request.tokens, showTree := request.ast, precision := precision,
      trace := (← get).log.isEnabledFor Log.debug }
  if request.interactive then pure (.session options)
  else if request.words = [] then complain .noExpression
  else pure (.expression options (" ".intercalate request.words))

/-- The job that a command line sets. -/
def start (s : Surroundings) (args : List String) : Program Job :=
  match Request.read args with
  | .ok request => prepare s request
  | .error c => complain c

/-- Shows an answer. An error that no stage reports ends the program. -/
def showAnswer (elapsed : String) (a : Answer) : Program Unit := do
  modify fun t => a.notes.foldl (fun t n => t.note elapsed n) t
  modify fun t => (t.print a.output).report a.report
  match a.fatal? with
  | some e => throw (.error e)
  | none => pure ()

/-- What asks for a line. -/
def prompt : String := "> "

/-- Asks for a line. -/
def ask : Program Unit := modify (·.print prompt)

/-- Shows the answer to a line and asks for another. -/
def reply (elapsed : String) (a : Answer) : Program Unit := do
  showAnswer elapsed a
  ask

/-- Asks for lines and answers them until no more come. -/
def converse (elapsed : String) (options : RunOptions) (lines : List String) : Program Unit := do
  ask
  (Session.answers options lines).forM (reply elapsed)

/-- Shows the answer to the expression of a command line; an error ends the program. -/
def conclude (elapsed : String) (a : Answer) : Program Unit := do
  showAnswer elapsed a
  if a.error.isSome then throw (.exit 1)

/-- The whole program. `input` is what is typed in, `elapsed` says how long a run takes. -/
def command (s : Surroundings) (input elapsed : String) (args : List String) : Program Unit := do
  match ← start s args with
  | .session options => converse elapsed options (Session.lines input)
  | .expression options text => conclude elapsed (Answer.ofText options text)

end Reckoner.CommandLine
