import Reckoner.Run
import Reckoner.Text.Blank
import Reckoner.Text.Lines

/-!
# Sessions

In a session every line is calculated in a run of its own, so no line has an influence on the
answer to another. Blank lines are passed over. An error that a stage reports is part of the answer
to its line; any other ends the session.
-/

namespace Reckoner

/-- The line that reports an error, if a stage reports it. -/
def CalcError.report? (e : CalcError) : Option String :=
  e.stage?.map fun stage => stage.name ++ " error: " ++ e.message ++ "\n"

/-- How a text is answered. -/
structure Answer where
  /-- What is printed. -/
  output : String := ""
  /-- What is noted for the log. -/
  notes : List RunNote := []
  error : Option CalcError := none

namespace Answer

/-- The answer to an expression. -/
def ofText (options : RunOptions) (text : String) : Answer :=
  match Run.calculate options text {} with
  | .ok _ t => ⟨t.output, t.notes, none⟩
  | .error e t => ⟨t.output, t.notes, some e⟩

/-- The answer to a line of a session. -/
def ofLine (options : RunOptions) (line : String) : Answer :=
  if line.toList.all Text.isBlank then {} else ofText options line

/-- The error that ends a session. -/
def fatal? (a : Answer) : Option CalcError := a.error.filter (·.stage?.isNone)

/-- What is reported of the error. -/
def report (a : Answer) : String := ((a.error.bind (·.report?)).getD "")

end Answer

namespace Session

/-- The lines of what is typed in. -/
def lines (input : String) : List String :=
  (Text.lines (Text.unifyLineEnds input.toList)).map fun line => String.ofList (Text.chomp line)

/-- The answers to the lines, up to one that ends the session. -/
def answers (options : RunOptions) : List String → List Answer
  | [] => []
  | line :: rest =>
    let a := Answer.ofLine options line
    if a.fatal?.isSome then [a] else a :: answers options rest

/-- What a session prints besides the prompts. -/
def output (as : List Answer) : String := String.join (as.map (·.output))

/-- What a session reports. -/
def reports (as : List Answer) : String := String.join (as.map (·.report))

end Session

end Reckoner
