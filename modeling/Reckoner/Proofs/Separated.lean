import Reckoner.Proofs.Munch
import Reckoner.Proofs.Seams

/-!
# Texts with blanks between them

A blank or a mark on one side of a place in a text keeps the lexemes apart there (`Parted`): a segment
that runs across makes no token. The tokens of two texts with blanks between them are therefore those of
the first and, at later places, those of the second, and it is the error of the first that ends them if
there is one. Words joined by spaces keep their tokens (`ofText_separated`).
-/

namespace Reckoner

open TokenStream (ofSegments ofText ofChars)

/-- Between the two characters no lexeme goes on. -/
def Parted (c d : Char) : Prop :=
  Text.isBlank c = true ∨ Text.isBlank d = true ∨ CharClass.of c = .single ∨ CharClass.of d = .single

theorem CharClass.of_punctuation {c : Char} (h : (Segment.punctuation? c).isSome = true) :
    CharClass.of c = .single := by
  unfold Segment.punctuation? at h
  split at h <;> first | rfl | cases h

/-! ## Blanks make no tokens -/

theorem TokenStream.ofSegments_cut_blanks {gap : List Char}
    (hgap : ∀ c ∈ gap, Text.isBlank c = true) (pos : Nat) (cs : List Char) :
    ofSegments (Segment.cut pos (gap ++ cs)) = ofSegments (Segment.cut (pos + gap.length) cs) := by
  -- The blanks that the text goes on with belong to the same segment as those in front.
  obtain ⟨more, rest, rfl, hmore, hrest⟩ : ∃ more rest, cs = more ++ rest ∧
      (∀ c ∈ more, Text.isBlank c = true) ∧ ∀ c ∈ rest.head?, Text.isBlank c = false := by
    refine ⟨_, _, (List.takeWhile_append_dropWhile (p := Text.isBlank)).symm,
      List.all_eq_true.mp List.all_takeWhile, fun c hc => ?_⟩
    have hnot := List.head?_dropWhile_not Text.isBlank cs
    rw [Option.mem_def.mp hc] at hnot
    simpa using hnot
  have hall : ∀ c ∈ gap ++ more, Text.isBlank c = true := by
    intro c hc
    rcases List.mem_append.mp hc with hc | hc
    · exact hgap c hc
    · exact hmore c hc
  rw [← List.append_assoc, Segment.cut_gap hall hrest, Segment.cut_gap hmore hrest,
    ofSegments_gap, ofSegments_gap, List.length_append, Nat.add_assoc]

theorem TokenStream.ofSegments_cut_gap {gap : List Char} (hgap : ∀ c ∈ gap, Text.isBlank c = true)
    (pos : Nat) : ofSegments (Segment.cut pos gap) = ⟨[], none⟩ := by
  have hblanks := ofSegments_cut_blanks hgap pos []
  rw [List.append_nil] at hblanks
  rw [hblanks, Segment.cut]
  rfl

/-! ## Where the last segment ends -/

/-- The last character of a text is the last of its last segment. -/
theorem Segment.last_of_cut {pos : Nat} {cs : List Char} {s : Segment}
    (h : s ∈ (cut pos cs).getLast?) :
    ∃ c ∈ cs.getLast?, CharClass.of c = s.cls ∨ s.cls.extends? c = true := by
  fun_induction cut pos cs with
  | case1 => cases h
  | case2 pos c cs cls run ih =>
    rw [List.getLast?_cons] at h
    have hcs := List.takeWhile_append_dropWhile (p := cls.extends?) (l := cs)
    cases hlast : (cut (pos + run.length) (cs.dropWhile cls.extends?)).getLast? with
    | some s' =>
      rw [hlast] at h ih
      cases h
      obtain ⟨d, hd, hclass⟩ := ih rfl
      refine ⟨d, ?_, hclass⟩
      rw [← hcs, ← List.cons_append, List.getLast?_append, Option.mem_def.mp hd]
      rfl
    | none =>
      rw [hlast] at h
      cases h
      have hdrop : cs.dropWhile cls.extends? = [] := by
        cases hdrop : cs.dropWhile cls.extends? with
        | nil => rfl
        | cons d ds =>
          rw [hdrop, cut, List.getLast?_cons] at hlast
          cases hlast
      rw [hdrop, List.append_nil] at hcs
      refine ⟨_, List.getLast?_cons, ?_⟩
      cases hd : cs.getLast? with
      | none => exact .inl rfl
      | some d =>
        have hmem : d ∈ cs.takeWhile cls.extends? := by
          rw [hcs]
          exact List.mem_of_getLast? hd
        exact .inr (List.all_eq_true.mp List.all_takeWhile d hmem)

/-- A segment ends in front of a place where its last character is parted from the next. -/
theorem Segment.not_extends_of_parted {s : Segment} {c d : Char} (hs : s.cls ≠ .blank)
    (hc : CharClass.of c = s.cls ∨ s.cls.extends? c = true) (h : Parted c d) :
    s.cls.extends? d = false := by
  rcases h with hblank | hblank | hmark | hmark
  · rcases hc with hc | hc
    · rw [CharClass.of, if_pos hblank] at hc
      exact absurd hc.symm hs
    · rw [CharClass.not_extends_of_isBlank hs hblank] at hc
      cases hc
  · exact CharClass.not_extends_of_isBlank hs hblank
  · rcases hc with hc | hc
    · rw [← hc, hmark]
      rfl
    · rw [CharClass.not_extends_of_single hmark] at hc
      cases hc
  · exact CharClass.not_extends_of_single hmark s.cls

/-! ## Two texts -/

theorem TokenStream.andThen_nil (s : TokenStream) : s.andThen ⟨[], none⟩ = s := by
  obtain ⟨pending, _ | e⟩ := s
  · exact congrArg (TokenStream.mk · none) (List.append_nil pending)
  · rfl

/-- The tokens in front of a place where the text is parted, and those behind it. -/
theorem TokenStream.ofSegments_cut_append {cs ds : List Char}
    (h : ∀ c ∈ cs.getLast?, ∀ d ∈ ds.head?, Parted c d) (pos : Nat) :
    ofSegments (Segment.cut pos (cs ++ ds)) = (ofSegments (Segment.cut pos cs)).andThen
      (ofSegments (Segment.cut (pos + cs.length) ds)) := by
  -- The blanks at the end of the first text may go on in the second, so they are taken off first.
  obtain ⟨front, gap, rfl, hgap, hfront⟩ : ∃ front gap, cs = front ++ gap ∧
      (∀ c ∈ gap, Text.isBlank c = true) ∧ ∀ c ∈ front.getLast?, Text.isBlank c = false := by
    refine ⟨_, _, (List.rdropWhile_append_rtakeWhile (p := Text.isBlank)).symm,
      fun c hc => List.mem_rtakeWhile_imp hc, fun c hc => ?_⟩
    have hnot := List.rdropWhile_last_not Text.isBlank cs (List.ne_nil_of_mem (List.mem_of_getLast? hc))
    rwa [List.getLast_of_mem_getLast? hc, Bool.not_eq_true] at hnot
  have hsplit {us : List Char} (hus : ∀ c ∈ front.getLast?, ∀ d ∈ us.head?, Parted c d) :
      ofSegments (Segment.cut pos (front ++ us)) = (ofSegments (Segment.cut pos front)).andThen
        (ofSegments (Segment.cut (pos + front.length) us)) := by
    rw [Segment.cut_append_cut, ofSegments_append]
    intro s hs d hd
    obtain ⟨c, hc, hclass⟩ := Segment.last_of_cut hs
    refine Segment.not_extends_of_parted (fun hcls => ?_) hclass (hus c hc d hd)
    rw [hcls, CharClass.of_eq_blank_iff] at hclass
    cases (hfront c hc).symm.trans (hclass.elim id id)
  have hgap_parted : ∀ c ∈ front.getLast?, ∀ d ∈ gap.head?, Parted c d :=
    fun c _ d hd => .inr (.inl (hgap d (List.mem_of_mem_head? hd)))
  rw [hsplit hgap_parted, ofSegments_cut_gap hgap, andThen_nil, List.append_assoc, hsplit,
    ofSegments_cut_blanks hgap, List.length_append, Nat.add_assoc]
  intro c hc d hd
  cases gap with
  | nil => exact h c (by simpa using hc) d hd
  | cons b gap =>
    cases hd
    exact hgap_parted c hc _ rfl

/-! ## Texts -/

section Separated

variable {s w u : String} (hw : ∀ c ∈ w.toList, Text.isBlank c = true)
  (hsep : w ≠ "" ∨ (∃ c ∈ s.toList.getLast?, (Segment.punctuation? c).isSome = true) ∨
    ∃ c ∈ u.toList.head?, (Segment.punctuation? c).isSome = true)

include hw hsep

theorem parted_of_separated :
    ∀ c ∈ s.toList.getLast?, ∀ d ∈ (w.toList ++ u.toList).head?, Parted c d := by
  intro c hc d hd
  cases hchars : w.toList with
  | cons b bs =>
    rw [hchars] at hd hw
    cases hd
    exact .inr (.inl (hw _ List.mem_cons_self))
  | nil =>
    rw [hchars] at hd
    rcases hsep with hne | ⟨c', hc', hmark⟩ | ⟨d', hd', hmark⟩
    · exact absurd (String.toList_eq_nil_iff.mp hchars) hne
    · cases hc'.symm.trans hc
      exact .inr (.inr (.inl (CharClass.of_punctuation hmark)))
    · cases hd'.symm.trans hd
      exact .inr (.inr (.inr (CharClass.of_punctuation hmark)))

theorem ofText_append : ofText (s ++ w ++ u) =
    (ofText s).andThen ((ofText u).shift (s.length + w.length)) := by
  have hparted := parted_of_separated hw hsep
  have hlater := TokenStream.ofSegments_cut (s.length + w.length) u.toList
  simp only [ofText, ofChars, String.toList_append, List.append_assoc]
  rw [← hlater, TokenStream.ofSegments_cut_append hparted, TokenStream.ofSegments_cut_blanks hw,
    Nat.zero_add, String.length_toList, String.length_toList]

end Separated

/-- The tokens of words in a row, with a space between each and the next. -/
def TokenStream.ofWords : List String → TokenStream
  | [] => ⟨[], none⟩
  | word :: words => (ofText word).andThen ((ofWords words).shift (word.length + 1))

theorem isBlank_of_mem_space : ∀ c ∈ " ".toList, Text.isBlank c = true :=
  List.all_eq_true.mp rfl

theorem ofText_intercalate (words : List String) :
    ofText (" ".intercalate words) = .ofWords words := by
  induction words with
  | nil =>
    rw [String.intercalate_nil, ofText, ofChars, String.toList_empty, Segment.cut]
    rfl
  | cons word words ih =>
    cases words with
    | nil =>
      have hword : " ".intercalate [word] = word := by
        rw [← String.toList_inj, String.toList_intercalate]
        simp
      rw [hword]
      exact (TokenStream.andThen_nil _).symm
    | cons next words =>
      have hrow : " ".intercalate (word :: next :: words) =
          word ++ " " ++ " ".intercalate (next :: words) := by
        rw [← String.toList_inj, String.toList_intercalate]
        simp [List.intercalate_cons_cons]
      have hne : " " ≠ "" := by decide
      rw [hrow, ofText_append isBlank_of_mem_space (.inl hne), ih]
      rfl

/-- **Blanks or a mark in between keep the tokens of two texts apart.** An error of the first text is
the error of the whole; otherwise the tokens of the second follow, and its error, at their later places.
So words can be joined by spaces. -/
theorem ofText_separated {s w u : String} (hw : ∀ c ∈ w.toList, Text.isBlank c = true)
    (hsep : w ≠ "" ∨ (∃ c ∈ s.toList.getLast?, (Segment.punctuation? c).isSome = true) ∨
      ∃ c ∈ u.toList.head?, (Segment.punctuation? c).isSome = true) :
    (∀ ts e, ofText s = ⟨ts, some e⟩ →
      ofText (s ++ w ++ u) = ⟨ts, some e⟩ ∧ tokenize (s ++ w ++ u) = .error e) ∧
    (∀ ts us, ofText s = ⟨ts, none⟩ → ofText u = ⟨us, none⟩ →
      tokenize (s ++ w ++ u) = .ok (ts ++ us.map (Token.shift (s.length + w.length)))) ∧
    (∀ ts us e, ofText s = ⟨ts, none⟩ → ofText u = ⟨us, some e⟩ →
      ofText (s ++ w ++ u) =
        ⟨ts ++ us.map (Token.shift (s.length + w.length)), some (e.shift (s.length + w.length))⟩ ∧
      tokenize (s ++ w ++ u) = .error (e.shift (s.length + w.length))) ∧
    ∀ words, ofText (" ".intercalate words) = .ofWords words := by
  have happend := ofText_append hw hsep
  refine ⟨fun ts e hs => ?_, fun ts us hs hu => ?_, fun ts us e hs hu => ?_, ofText_intercalate⟩
  · rw [hs] at happend
    exact ⟨happend, tokenize_eq_error_iff.mpr (by rw [happend]; rfl)⟩
  · rw [hs, hu] at happend
    exact tokenize_eq_ok_iff.mpr happend
  · rw [hs, hu] at happend
    exact ⟨happend, tokenize_eq_error_iff.mpr (by rw [happend]; rfl)⟩

/-- A name at the end of the first text and a number at the beginning of the second stay apart. -/
theorem ofText_separated_name :
    ofText "2sin 2é" =
      ⟨[⟨.number, .number (.int 2), 0⟩, ⟨.function, .text "sin", 1⟩, ⟨.number, .number (.int 2), 5⟩],
        some (.unexpectedChar 'é' 6)⟩ := by
  have hne : " " ≠ "" := by decide
  have hfront : ofText "2sin" =
      ⟨[⟨.number, .number (.int 2), 0⟩, ⟨.function, .text "sin", 1⟩], none⟩ := by
    cbv
  have hrear : ofText "2é" = ⟨[⟨.number, .number (.int 2), 0⟩], some (.unexpectedChar 'é' 1)⟩ := by
    cbv
  obtain ⟨-, -, herror, -⟩ :=
    ofText_separated (s := "2sin") (u := "2é") isBlank_of_mem_space (.inl hne)
  exact (herror _ _ _ hfront hrear).1

end Reckoner
