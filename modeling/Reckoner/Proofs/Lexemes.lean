import Mathlib
import Reckoner.Arithmetic
import Reckoner.Proofs.Numerals
import Reckoner.TokenStream

/-!
# Lexemes and blanks between them

An expression is written as a row of lexemes with blanks between them, or none. The cut through the
text gives the lexemes back if no two that are runs of characters stand side by side, since each run
ends in front of a blank and of a mark (`Spacing.ofSegments_cut`).
-/

namespace Reckoner

open TokenStream (ofSegments)

/-- The lexemes of expressions; a number in a spelling that is read as it. -/
inductive Lexeme where
  | number (chars : List Char) (v : Number) (h : Number.ofLiteral chars = .ok v)
  | function (f : MathFunction)
  | operator (op : Operator)
  | lparen | rparen | comma

namespace Lexeme

def chars : Lexeme → List Char
  | number chars _ _ => chars
  | function f => f.name.toList
  | operator op => op.symbol.toList
  | lparen => ['(']
  | rparen => [')']
  | comma => [',']

def cls : Lexeme → CharClass
  | number .. => .numeral
  | function _ => .word
  | _ => .single

/-- The token the lexeme makes at a place. -/
def token (pos : Nat) : Lexeme → Token
  | number _ v _ => ⟨.number, .number v, pos⟩
  | function f => ⟨.function, .text f.name, pos⟩
  | operator op => ⟨.operator, .text op.symbol, pos⟩
  | lparen => ⟨.lparen, .text "(", pos⟩
  | rparen => ⟨.rparen, .text ")", pos⟩
  | comma => ⟨.comma, .text ",", pos⟩

/-- Of two lexemes side by side one is a single mark. -/
def Apart (x y : Lexeme) : Prop := x.cls = .single ∨ y.cls = .single

end Lexeme

/-! ## Where a segment ends -/

namespace CharClass

theorem not_isBlank_of_isAlphanum {c : Char} (h : c.isAlphanum = true) : Text.isBlank c = false := by
  simp [Char.isAlphanum, Char.isAlpha, Char.isUpper, Char.isLower, Char.isDigit,
    UInt32.le_iff_toNat_le] at h
  simp [Text.isBlank, Text.scatteredBlanks]
  omega

theorem isBlank_eq_false {c : Char} (h : CharClass.of c ≠ .blank) : Text.isBlank c = false := by
  rw [← Bool.not_eq_true]
  intro hc
  exact h (if_pos hc)

theorem not_extends_of_isBlank {cls : CharClass} (hcls : cls ≠ .blank) {c : Char}
    (h : Text.isBlank c = true) : cls.extends? c = false := by
  have halphanum : c.isAlphanum = false := by
    rw [← Bool.not_eq_true]
    intro hc
    rw [not_isBlank_of_isAlphanum hc] at h
    cases h
  have hdigit : c.isDigit = false := (Bool.or_eq_false_iff.mp halphanum).2
  have hpoint : c ≠ '.' := by
    rintro rfl
    cases h
  have hunderscore : c ≠ '_' := by
    rintro rfl
    cases h
  cases cls <;> simp_all [extends?]

theorem not_extends_of_single {c : Char} (h : CharClass.of c = .single) (cls : CharClass) :
    cls.extends? c = false := by
  unfold CharClass.of at h
  cases cls <;> simp [extends?, Char.isAlphanum] <;> grind

end CharClass

/-- A run is cut off as a whole if what follows does not extend it. -/
theorem Segment.cut_append {c : Char} {cs rest : List Char}
    (hrun : ∀ d ∈ cs, (CharClass.of c).extends? d = true)
    (hrest : ∀ d ∈ rest.head?, (CharClass.of c).extends? d = false) (pos : Nat) :
    cut pos (c :: (cs ++ rest)) =
      ⟨CharClass.of c, c :: cs, pos⟩ :: cut (pos + (c :: cs).length) rest := by
  rw [cut, takeWhile_run hrun hrest, dropWhile_run hrun hrest]

/-! ## The characters of a lexeme -/

theorem CharClass.of_digit {c : Char} (h : c.isDigit = true) : CharClass.of c = .numeral := by
  have halphanum : c.isAlphanum = true := by
    rw [Char.isAlphanum, h, Bool.or_true]
  simp [CharClass.of, not_isBlank_of_isAlphanum halphanum, h]

namespace Lexeme

/-- The first character of a lexeme decides its class, and the others extend it. -/
theorem chars_cut (x : Lexeme) : ∃ c cs, x.chars = c :: cs ∧ CharClass.of c = x.cls ∧
    ∀ d ∈ cs, x.cls.extends? d = true := by
  cases x with
  | number chars v h =>
    obtain ⟨d, ds, hchars, hd, hds⟩ := Number.chars_of_ofLiteral h
    refine ⟨d, ds, hchars, CharClass.of_digit hd, fun c hc => ?_⟩
    simpa [cls, CharClass.extends?] using hds c hc
  | function f => cases f <;> exact ⟨_, _, rfl, rfl, List.all_eq_true.mp rfl⟩
  | operator op => cases op <;> exact ⟨_, _, rfl, rfl, nofun⟩
  | lparen | rparen | comma => exact ⟨_, _, rfl, rfl, nofun⟩

theorem cls_ne_blank (x : Lexeme) : x.cls ≠ .blank := by
  cases x <;> nofun

theorem token?_eq (x : Lexeme) (pos : Nat) :
    Segment.token? ⟨x.cls, x.chars, pos⟩ = .ok (some (x.token pos)) := by
  cases x with
  | number chars v h =>
    simp only [cls, Segment.token?, Lexeme.chars, h]
    rfl
  | function f =>
    simp only [cls, Segment.token?, Lexeme.chars, String.ofList_toList, MathFunction.ofName?_name]
    rfl
  | operator op => cases op <;> rfl
  | lparen | rparen | comma => rfl

end Lexeme

/-! ## Texts -/

/-- A text of the lexemes, in order: with any blanks in front of each and behind the last. -/
inductive Spacing : List Lexeme → List Char → Prop
  | last {blanks : List Char} (h : ∀ c ∈ blanks, Text.isBlank c = true) : Spacing [] blanks
  | next {blanks cs : List Char} {x : Lexeme} {xs : List Lexeme}
      (h : ∀ c ∈ blanks, Text.isBlank c = true) (hs : Spacing xs cs) :
      Spacing (x :: xs) (blanks ++ (x.chars ++ cs))

theorem tokenize_eq_ok_iff {text : String} {ts : List Token} :
    tokenize text = .ok ts ↔ TokenStream.ofText text = ⟨ts, none⟩ := by
  rw [tokenize]
  generalize TokenStream.ofText text = s
  obtain ⟨pending, failure⟩ := s
  cases failure <;> simp [TokenStream.toList]

theorem tokenize_eq_error_iff {text : String} {e : CalcError} :
    tokenize text = .error e ↔ (TokenStream.ofText text).failure = some e := by
  unfold tokenize TokenStream.toList
  cases (TokenStream.ofText text).failure <;> simp

/-- The token at the beginning of the text. -/
def Token.unplaced (t : Token) : Token := { t with pos := 0 }

/-- The segment of a run of blanks, if there are any. -/
def Segment.ofGap (pos : Nat) (gap : List Char) : List Segment :=
  if gap = [] then [] else [⟨.blank, gap, pos⟩]

theorem Segment.cut_gap {gap rest : List Char} (hgap : ∀ c ∈ gap, Text.isBlank c = true)
    (hrest : ∀ c ∈ rest.head?, Text.isBlank c = false) (pos : Nat) :
    cut pos (gap ++ rest) = ofGap pos gap ++ cut (pos + gap.length) rest := by
  cases gap with
  | nil => rfl
  | cons c gap =>
    have hc : CharClass.of c = .blank := by
      rw [CharClass.of, hgap c List.mem_cons_self]
      rfl
    have hrun : ∀ d ∈ gap, (CharClass.of c).extends? d = true := by
      rw [hc]
      exact fun d hd => hgap d (List.mem_cons_of_mem c hd)
    rw [List.cons_append, cut_append hrun (by rwa [hc]), hc]
    rfl

theorem TokenStream.ofSegments_gap (pos : Nat) (gap : List Char) (ss : List Segment) :
    ofSegments (Segment.ofGap pos gap ++ ss) = ofSegments ss := by
  unfold Segment.ofGap
  split
  · rfl
  · simp [ofSegments, Segment.token?]

namespace Spacing

theorem tight {x : Lexeme} {xs : List Lexeme} {cs : List Char} (h : Spacing xs cs) :
    Spacing (x :: xs) (x.chars ++ cs) :=
  @next [] cs x xs nofun h

theorem flatMap_chars (xs : List Lexeme) : Spacing xs (xs.flatMap Lexeme.chars) := by
  induction xs with
  | nil => exact .last nofun
  | cons x xs ih => exact ih.tight

/-- What comes next in a text is a blank or the first lexeme. -/
theorem head {xs : List Lexeme} {cs : List Char} (h : Spacing xs cs) :
    ∀ c ∈ cs.head?, Text.isBlank c = true ∨ ∃ x ∈ xs.head?, CharClass.of c = x.cls := by
  intro c hc
  cases h with
  | last h => exact .inl (h c (List.mem_of_mem_head? hc))
  | @next blanks cs x xs h hs =>
    cases blanks with
    | nil =>
      obtain ⟨d, ds, hchars, hcls, -⟩ := x.chars_cut
      rw [List.nil_append, hchars] at hc
      cases hc
      exact .inr ⟨x, rfl, hcls⟩
    | cons d ds =>
      cases hc
      exact .inl (h _ List.mem_cons_self)

/-- Where the next lexeme may not touch this one there is a blank between them. -/
theorem not_extends {x : Lexeme} {xs : List Lexeme} {cs : List Char} (h : Spacing xs cs)
    (hapart : ∀ y ∈ xs.head?, x.Apart y) : ∀ c ∈ cs.head?, x.cls.extends? c = false := by
  intro c hc
  rcases h.head c hc with hblank | ⟨y, hy, hcls⟩
  · exact CharClass.not_extends_of_isBlank x.cls_ne_blank hblank
  · rcases hapart y hy with hx | hy
    · rw [hx]
      rfl
    · exact CharClass.not_extends_of_single (hcls.trans hy) _

/-- **The cut gives the lexemes back.** -/
theorem ofSegments_cut {xs : List Lexeme} {cs : List Char} (h : Spacing xs cs)
    (hapart : xs.IsChain Lexeme.Apart) (pos : Nat) :
    ∃ ts, ofSegments (Segment.cut pos cs) = ⟨ts, none⟩ ∧
      ts.map Token.unplaced = xs.map (Lexeme.token 0) := by
  induction h generalizing pos with
  | @last blanks h =>
    refine ⟨[], ?_, rfl⟩
    have hend : ∀ c ∈ ([] : List Char).head?, Text.isBlank c = false := nofun
    rw [← List.append_nil blanks, Segment.cut_gap h hend, TokenStream.ofSegments_gap, Segment.cut]
    rfl
  | @next blanks cs x xs h hs ih =>
    obtain ⟨hfirst, hrest⟩ := List.isChain_cons.mp hapart
    obtain ⟨c, run, hchars, hcls, hrun⟩ := x.chars_cut
    -- The run of the lexeme ends with it: what the rest of the text begins with does not extend it.
    have hnot := hs.not_extends hfirst
    rw [← hcls] at hrun hnot
    have hblank : Text.isBlank c = false := CharClass.isBlank_eq_false (hcls ▸ x.cls_ne_blank)
    obtain ⟨ts, hts, hmap⟩ := ih hrest (pos + blanks.length + (c :: run).length)
    have htoken := x.token?_eq (pos + blanks.length)
    refine ⟨x.token (pos + blanks.length) :: ts, ?_, ?_⟩
    · have hfront : ∀ d ∈ (x.chars ++ cs).head?, Text.isBlank d = false := by
        rw [hchars]
        intro d hd
        cases hd
        exact hblank
      rw [Segment.cut_gap h hfront, TokenStream.ofSegments_gap, hchars, List.cons_append,
        Segment.cut_append hrun hnot, hcls, ← hchars, ofSegments, htoken, hchars, hts]
    · rw [List.map_cons, hmap, List.map_cons]
      cases x <;> rfl

end Spacing

end Reckoner
