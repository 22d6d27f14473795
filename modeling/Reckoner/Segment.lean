import Reckoner.Literal
import Reckoner.Text.Blank

/-!
# Segments

The first cut through a text: from left to right into segments, each as long as possible, that are
runs of blanks, runs of digits and points, names, or single other characters. Where a segment ends
depends on the class of its first character alone, so the cut needs no second look, and a text is
the concatenation of its segments.
-/

namespace Reckoner

/-- What a segment is a run of. -/
inductive CharClass where
  /-- Blank characters. -/
  | blank
  /-- Digits and points. -/
  | numeral
  /-- A letter or underscore followed by letters, digits and underscores. -/
  | word
  /-- A single character of any other sort. -/
  | single
deriving DecidableEq, Repr

namespace CharClass

/-- The class of the segment that a character begins. -/
def of (c : Char) : CharClass :=
  if Text.isBlank c then blank
  else if c.isDigit || c == '.' then numeral
  else if c.isAlpha || c == '_' then word
  else single

/-- The character extends a segment of the class. -/
def extends? : CharClass → Char → Bool
  | blank, c => Text.isBlank c
  | numeral, c => c.isDigit || c == '.'
  | word, c => c.isAlphanum || c == '_'
  | single, _ => false

end CharClass

/-- A piece of the text. -/
structure Segment where
  cls : CharClass
  chars : List Char
  /-- Offset in the text, in characters. -/
  pos : Nat
deriving DecidableEq, Repr

namespace Segment

/-- The segments of a text whose first character has the offset `pos`. -/
def cut (pos : Nat) : List Char → List Segment
  | [] => []
  | c :: cs =>
    let cls := CharClass.of c
    let run := c :: cs.takeWhile cls.extends?
    ⟨cls, run, pos⟩ :: cut (pos + run.length) (cs.dropWhile cls.extends?)
termination_by cs => cs.length
decreasing_by
  have := (List.dropWhile_suffix (l := cs) (CharClass.of c).extends?).length_le
  simp only [List.length_cons]
  omega

/-- Cutting loses nothing. -/
theorem flatMap_chars_cut (pos : Nat) (cs : List Char) : (cut pos cs).flatMap chars = cs := by
  fun_induction cut pos cs with
  | case1 => rfl
  | case2 pos c cs cls run ih =>
    rw [List.flatMap_cons, ih]
    simp [run, List.takeWhile_append_dropWhile]

/-- The punctuation marks of expressions, by their kinds. -/
def punctuation? : Char → Option TokenKind
  | '+' | '-' | '*' | '/' => some .operator
  | '(' => some .lparen
  | ')' => some .rparen
  | ',' => some .comma
  | _ => none

/-- The token a segment makes: none for blanks. -/
def token? (s : Segment) : Except CalcError (Option Token) :=
  match s.cls with
  | .blank => .ok none
  | .numeral => (Number.ofLiteral s.chars).map fun v => some ⟨.number, .number v, s.pos⟩
  | .word =>
    let name := String.ofList s.chars
    match MathFunction.ofName? name with
    | some _ => .ok (some ⟨.function, .text name, s.pos⟩)
    | none => .error (.unknownFunction name)
  | .single =>
    let c := s.chars.headD ' '
    match punctuation? c with
    | some kind => .ok (some ⟨kind, .text (String.ofList [c]), s.pos⟩)
    | none => .error (.unexpectedChar c s.pos)

end Segment

end Reckoner
