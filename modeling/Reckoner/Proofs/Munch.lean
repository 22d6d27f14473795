import Reckoner.Proofs.Lexemes

/-!
# Longest segments

The cut through a text makes one step at a time and never looks back. `Munch` says what comes out
without speaking of steps: the segments follow one another from the first character to the last, each is
a run of one of the four classes, and no longer beginning of what was left there is a run of any class.
There is one such row of segments for each text, and it is the cut (`munch_iff`).
-/

namespace Reckoner

namespace CharClass

theorem of_eq_blank_iff {c : Char} : CharClass.of c = .blank ↔ Text.isBlank c = true := by
  unfold CharClass.of
  by_cases h : Text.isBlank c = true
  · simp [h]
  · simp only [h]
    grind

theorem of_eq_numeral_iff {c : Char} : CharClass.of c = .numeral ↔ c.isDigit = true ∨ c = '.' := by
  constructor
  · intro h
    unfold CharClass.of at h
    grind
  · rintro (h | rfl)
    · exact of_digit h
    · rfl

theorem of_eq_word_iff {c : Char} : CharClass.of c = .word ↔ c.isAlpha = true ∨ c = '_' := by
  constructor
  · intro h
    unfold CharClass.of at h
    grind
  · rintro (h | rfl)
    · have hblank : Text.isBlank c = false :=
        not_isBlank_of_isAlphanum (by rw [Char.isAlphanum, h, Bool.true_or])
      have hdigit : c.isDigit = false := by
        rw [← Bool.not_eq_true]
        intro hdigit
        simp [Char.isAlpha, Char.isUpper, Char.isLower, Char.isDigit, UInt32.le_iff_toNat_le]
          at h hdigit
        have hval : c.val.toNat = c.toNat := rfl
        omega
      have hpoint : c ≠ '.' := by
        rintro rfl
        cases h
      simp [CharClass.of, hblank, hdigit, hpoint, h]
    · rfl

end CharClass

/-- The characters are a run of the class. -/
def IsRun : CharClass → List Char → Prop
  | .blank, cs => cs ≠ [] ∧ ∀ c ∈ cs, Text.isBlank c = true
  | .numeral, cs => cs ≠ [] ∧ ∀ c ∈ cs, c.isDigit = true ∨ c = '.'
  | .word, cs => ∃ c ds, cs = c :: ds ∧ (c.isAlpha = true ∨ c = '_') ∧
      ∀ d ∈ ds, d.isAlphanum = true ∨ d = '_'
  | .single, cs => ∃ c, cs = [c] ∧ Text.isBlank c = false ∧ ¬(c.isDigit = true ∨ c = '.') ∧
      ¬(c.isAlpha = true ∨ c = '_')

/-- The first character of a run decides its class, and the others extend it. -/
theorem isRun_iff {cls : CharClass} {run : List Char} :
    IsRun cls run ↔ ∃ c cs, run = c :: cs ∧ CharClass.of c = cls ∧
      ∀ d ∈ cs, cls.extends? d = true := by
  have hsplit {p : Char → Prop} : (run ≠ [] ∧ ∀ c ∈ run, p c) ↔
      ∃ c cs, run = c :: cs ∧ p c ∧ ∀ d ∈ cs, p d := by
    cases run with
    | nil => simp
    | cons c cs => simp
  cases cls with
  | blank =>
    rw [IsRun, hsplit]
    simp only [CharClass.of_eq_blank_iff, CharClass.extends?]
  | numeral =>
    rw [IsRun, hsplit]
    simp only [CharClass.of_eq_numeral_iff, CharClass.extends?, Bool.or_eq_true, beq_iff_eq]
  | word =>
    simp only [IsRun, CharClass.of_eq_word_iff, CharClass.extends?, Bool.or_eq_true, beq_iff_eq]
  | single =>
    constructor
    · rintro ⟨c, rfl, hblank, hnumeral, hword⟩
      refine ⟨c, [], rfl, ?_, fun _ hd => absurd hd List.not_mem_nil⟩
      cases hcls : CharClass.of c with
      | blank => simp [CharClass.of_eq_blank_iff.mp hcls] at hblank
      | numeral => exact absurd (CharClass.of_eq_numeral_iff.mp hcls) hnumeral
      | word => exact absurd (CharClass.of_eq_word_iff.mp hcls) hword
      | single => rfl
    · rintro ⟨c, cs, rfl, hcls, hcs⟩
      have hnil : cs = [] := by
        cases cs with
        | nil => rfl
        | cons d cs => cases hcs d List.mem_cons_self
      subst hnil
      refine ⟨c, rfl, ?_, ?_, ?_⟩
      · exact CharClass.isBlank_eq_false (by rw [hcls]; decide)
      · rw [← CharClass.of_eq_numeral_iff, hcls]
        decide
      · rw [← CharClass.of_eq_word_iff, hcls]
        decide

/-- A run of one of the classes stands at the beginning of the text, and no longer one does. -/
structure Segment.Longest (s : Segment) (rest : List Char) : Prop where
  isRun : IsRun s.cls s.chars
  longest : ∀ cls run, run <+: s.chars ++ rest → IsRun cls run → run.length ≤ s.chars.length

/-- The segments of a text, from an offset on, each as long as possible. -/
inductive Munch : Nat → List Char → List Segment → Prop
  | nil {pos : Nat} : Munch pos [] []
  | cons {s : Segment} {rest : List Char} {ss : List Segment} (h : s.Longest rest)
      (hs : Munch (s.pos + s.chars.length) rest ss) : Munch s.pos (s.chars ++ rest) (s :: ss)

namespace Segment.Longest

variable {s : Segment} {rest : List Char} (h : s.Longest rest)

include h

/-- With one character more it would still be a run. -/
theorem not_extends : ∀ d ∈ rest.head?, s.cls.extends? d = false := by
  obtain ⟨c, cs, hchars, hcls, hcs⟩ := isRun_iff.mp h.isRun
  intro d hd
  rw [← Bool.not_eq_true]
  intro hextends
  obtain ⟨us, rfl⟩ := List.head?_eq_some_iff.mp hd
  have hlonger : IsRun s.cls (s.chars ++ [d]) := by
    refine isRun_iff.mpr ⟨c, cs ++ [d], by rw [hchars]; rfl, hcls, fun x hx => ?_⟩
    rcases List.mem_append.mp hx with hx | hx
    · exact hcs x hx
    · rw [List.mem_singleton.mp hx]
      exact hextends
  have hle := h.longest _ _ ⟨us, by simp⟩ hlonger
  rw [List.length_append] at hle
  exact Nat.not_succ_le_self _ hle

theorem cut_eq : cut s.pos (s.chars ++ rest) = s :: cut (s.pos + s.chars.length) rest := by
  have hnot := h.not_extends
  obtain ⟨cls, chars, pos⟩ := s
  obtain ⟨c, cs, rfl, rfl, hcs⟩ := isRun_iff.mp h.isRun
  exact Segment.cut_append hcs hnot pos

end Segment.Longest

theorem Segment.longest_of_cut {pos : Nat} {c : Char} {cs : List Char} :
    Longest ⟨CharClass.of c, c :: cs.takeWhile (CharClass.of c).extends?, pos⟩
      (cs.dropWhile (CharClass.of c).extends?) := by
  refine ⟨isRun_iff.mpr ⟨c, _, rfl, rfl, fun d hd => ?_⟩, ?_⟩
  · exact List.all_eq_true.mp List.all_takeWhile d hd
  · intro cls run hpre hrun
    obtain ⟨d, ds, rfl, rfl, hds⟩ := isRun_iff.mp hrun
    rw [List.cons_append, List.takeWhile_append_dropWhile, List.cons_prefix_cons] at hpre
    obtain ⟨rfl, hpre⟩ := hpre
    have hle : ds <+: cs.takeWhile (CharClass.of d).extends? := by
      obtain ⟨ws, rfl⟩ := hpre
      rw [List.takeWhile_append_of_pos hds]
      exact List.prefix_append ds _
    simpa using hle.length_le

/-- **The cut is the one row of longest segments.** -/
theorem munch_iff {pos : Nat} {cs : List Char} {ss : List Segment} :
    Munch pos cs ss ↔ ss = Segment.cut pos cs := by
  constructor
  · intro h
    induction h with
    | nil => rw [Segment.cut]
    | cons h _ ih => rw [h.cut_eq, ← ih]
  · rintro rfl
    fun_induction Segment.cut pos cs with
    | case1 => exact .nil
    | case2 pos c cs cls run ih =>
      have hcons := Munch.cons (s := ⟨cls, run, pos⟩) Segment.longest_of_cut ih
      simpa [run, cls, List.takeWhile_append_dropWhile] using hcons

end Reckoner
