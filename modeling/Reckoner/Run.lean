import Reckoner.Calculation

/-!
# Runs

A run calculates the expression in one text in plain stages: all tokens, then the tree, then the
value. What it prints on the way, and what it notes for the log, is kept in a transcript that
remains when a stage fails.
-/

namespace Reckoner

namespace Number

/-- Numbers of significant digits that can be asked for: those that fit in 32 bits. -/
def PrecisionInRange (digits : Int) : Prop := -0x80000000 ≤ digits ∧ digits ≤ 0x7FFFFFFF

instance (digits : Int) : Decidable (PrecisionInRange digits) :=
  inferInstanceAs (Decidable (_ ∧ _))

/-- How a result is printed: doubles with the given number of significant digits, if there is one;
integers in full. -/
def format (precision : Option Int) : Number → Except CalcError String
  | float x =>
    match precision with
    | none => .ok (Binary64.text x)
    | some digits =>
      if PrecisionInRange digits then .ok (Binary64.textWithDigits digits x)
      else .error .precisionRange
  | v => .ok v.text

end Number

/-- What a run prints besides the result, and how. -/
structure RunOptions where
  /-- Print the listing of the tokens. -/
  showTokens : Bool := false
  /-- Print the dump of the tree. -/
  showTree : Bool := false
  /-- Significant digits of a double result; all that it takes to read it back if none is given. -/
  precision : Option Int := none
  /-- Note the stages for the log. -/
  trace : Bool := false
  /-- The limit on nesting. -/
  limit : Nat := nestingLimit

/-- A stage of a run, as noted for the log. -/
inductive RunNote where
  | tokens (ts : List Token)
  /-- The dump of the tree. -/
  | tree (dump : String)
  | finished (text : String) (value : Number)

/-- The note in words; `elapsed` says how long the run took. -/
def RunNote.message (elapsed : String) : RunNote → String
  | tokens ts => "tokens: " ++ Token.inspectAll ts
  | tree dump =>
    "syntax tree:\n" ++ String.ofList (dump.toList.reverse.dropWhile (· == '\n')).reverse
  | finished text value =>
    Text.quoted text ++ " -> " ++ value.inspect ++ " in " ++ elapsed

/-- What a run has printed and noted so far. -/
structure Transcript where
  output : String := ""
  notes : List RunNote := []

/-- A computation that prints and notes; the transcript remains when it fails. -/
abbrev Run := EStateM CalcError Transcript

namespace Run

/-- The result of a stage. -/
def stage {α : Type} : Except CalcError α → Run α
  | .ok a => pure a
  | .error e => throw e

/-- Prints a text. -/
def print (s : String) : Run Unit := modify fun t => { t with output := t.output ++ s }

/-- Notes a stage for the log, if that is wanted. -/
def note (options : RunOptions) (n : RunNote) : Run Unit :=
  if options.trace then modify fun t => { t with notes := t.notes ++ [n] } else pure ()

/-- Calculates the expression in a text and prints its value. -/
def calculate (options : RunOptions) (text : String) : Run Number := do
  let ts ← stage (tokenize text)
  note options (.tokens ts)
  if options.showTokens then print (Token.listing ts)
  let tree ← stage (parseTokens options.limit ts)
  if options.trace then
    let dump ← stage (tree.dumpWithin options.limit)
    note options (.tree dump)
  if options.showTree then
    let dump ← stage (tree.dumpWithin options.limit)
    print dump
  let value ← stage (tree.evalWithin options.limit)
  note options (.finished text value)
  let line ← stage (value.format options.precision)
  print (line ++ "\n")
  pure value

end Run

end Reckoner
