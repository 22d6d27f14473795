/-!
# Lines

A text as its lines, whatever convention ends them. Every line keeps its line feed; the last one
may have none. Nothing of the text is lost: the lines together are the text.
-/

namespace Reckoner.Text

/-- Line ends of all three conventions as line feeds. -/
def unifyLineEnds : List Char → List Char
  | '\r' :: '\n' :: cs => '\n' :: unifyLineEnds cs
  | '\r' :: cs => '\n' :: unifyLineEnds cs
  | c :: cs => c :: unifyLineEnds cs
  | [] => []

/-- The lines of a text, each with its line feed. -/
def lines : List Char → List (List Char)
  | [] => []
  | c :: cs =>
    if c = '\n' then ['\n'] :: lines cs
    else match lines cs with
      | [] => [[c]]
      | line :: rest => (c :: line) :: rest

/-- The lines together are the text. -/
theorem flatten_lines (cs : List Char) : (lines cs).flatten = cs := by
  induction cs with
  | nil => rfl
  | cons c cs ih =>
    by_cases h : c = '\n'
    · simp [lines, h, ih]
    · cases hl : lines cs with
      | nil => simp_all [lines]
      | cons line rest =>
        rw [hl] at ih
        simpa [lines, h, hl] using ih

/-- A line without its line feed. -/
def chomp (line : List Char) : List Char :=
  if line.getLast? = some '\n' then line.dropLast else line

end Reckoner.Text
