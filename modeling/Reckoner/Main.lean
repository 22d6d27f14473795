import Reckoner.CommandLine.Command

/-!
# The program

The outer layer: it hands the arguments, the environment and the files to the command, and writes
out what the command has written, line by line in a session. Nothing is decided here.
-/

namespace Reckoner.CommandLine

/-- The text of a file, if it can be read. -/
def readText? (path : String) : IO (Option String) := do
  try
    pure (some (← IO.FS.readFile path))
  catch _ => pure none

/-- The path leads to a directory. -/
def leadsToDirectory (path : String) : IO Bool := do
  ((← IO.currentDir) / path).isDir

/-- The files at the given paths, with the directories on the way to them. -/
def loadTree (paths : List String) : IO FileTree := do
  let files ← paths.filterMapM fun path => do pure ((← readText? path).map (path, ·))
  let ways := paths.flatMap fun path =>
    (List.range path.length).map fun n => String.ofList (path.toList.take (n + 1))
  pure { files := files, directories := ← ways.filterM leadsToDirectory }

/-- The environment variables, in order. -/
def loadVariables : IO (List (String × String)) := do
  try
    let text := (String.fromUTF8? (← IO.FS.readBinFile "/proc/self/environ")).getD ""
    pure ((text.splitOn "\x00").map fun entry =>
      let cs := entry.toList
      (String.ofList (cs.takeWhile (· != '=')), String.ofList ((cs.dropWhile (· != '=')).drop 1)))
  catch _ => pure []

/-- Writes out what a terminal holds. -/
def flush (t : Terminal) : IO Terminal := do
  let output ← IO.getStdout
  output.putStr t.output
  output.flush
  (← IO.getStderr).putStr t.errors
  pure t.cleared

/-- Nanoseconds as seconds, to the microsecond. -/
def seconds (nanoseconds : Nat) : String :=
  let micros := toString (nanoseconds / 1000 % 1000000)
  toString (nanoseconds / 1000000000) ++ "."
    ++ String.ofList (List.replicate (6 - micros.length) '0') ++ micros ++ "s"

/-- A result, and how long it took. -/
def timed {α : Type} (compute : Unit → α) : IO (α × String) := do
  let before ← IO.monoNanosNow
  let a ← IO.lazyPure compute
  let after ← IO.monoNanosNow
  pure (a, seconds (after - before))

/-- The exit code of an ending; what is not dealt with is reported. -/
def finish (e : Ending) : IO UInt32 := do
  match e with
  | .exit _ => pure ()
  | .fault f => IO.eprintln f.message
  | .error e => IO.eprintln e.message
  pure e.exitCode.toUInt32

/-- Performs a part of the program and writes out what it wrote. -/
def perform {α : Type} (p : Program α) (t : Terminal)
    (next : α → Terminal → IO UInt32) : IO UInt32 := do
  match p t with
  | .ok a t => next a (← flush t)
  | .error e t => do
    let _ ← flush t
    finish e

/-- Answers lines that have come in, and then does what comes next. -/
def replyAll (options : RunOptions) (next : Terminal → IO UInt32) :
    List String → Terminal → IO UInt32
  | [], t => next t
  | line :: rest, t => do
    let (a, elapsed) ← timed fun _ => Answer.ofLine options line
    perform (reply elapsed a) t fun _ t => replyAll options next rest t

/-- Answers lines until no more come. -/
partial def listen (options : RunOptions) (t : Terminal) : IO UInt32 := do
  let line ← (← IO.getStdin).getLine
  if line = "" then pure 0 else replyAll options (listen options) (Session.lines line) t

/-- Carries out a job. -/
def carryOut (job : Job) (t : Terminal) : IO UInt32 := do
  match job with
  | .session options => perform ask t fun _ t => listen options t
  | .expression options text =>
    let (a, elapsed) ← timed fun _ => Answer.ofText options text
    perform (conclude elapsed a) t fun _ _ => pure 0

/-- The configuration file that the arguments name. -/
def namedConfig (args : List String) : List String :=
  match Request.read args with
  | .ok request => request.config.toList
  | .error _ => []

/-- Runs the command with the arguments, the files and the environment of the process. -/
def runProcess (args : List String) : IO UInt32 := do
  let standard := Settings.standardFiles ((← IO.getEnv "HOME").getD ".")
  let tree ← loadTree (standard ++ namedConfig args)
  let environment ← loadVariables
  match Settings.reload tree environment standard {} with
  | .error f _ => finish (.fault f)
  | .ok _ store => perform (start ⟨tree, environment, store⟩ args) {} carryOut

end Reckoner.CommandLine

/-- The program. -/
def main (args : List String) : IO UInt32 := Reckoner.CommandLine.runProcess args
