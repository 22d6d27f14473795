import Reckoner.Proofs.Munch

/-!
# Tilings of a text

The tokens of a text can be made exactly if the text is a row of lexemes with gaps of blanks, some of
them empty, and no two lexemes without a gap between them run together. There is at most one such
tiling, and the tokens stand where its lexemes do (`tokenize_iff_tiling`). If there is none, the
longest segments in front of the first bad one make tokens, and the error is that of the bad one.
-/

namespace Reckoner

open TokenStream (ofSegments ofText)

/-- Lexemes with blanks in front of the first and behind each. -/
structure Tiling where
  front : List Char
  tiles : List (Lexeme × List Char)

/-- Side by side the two would be read as one. -/
def Lexeme.Merges (x y : Lexeme) : Prop :=
  x.cls = .numeral ∧ y.cls = .numeral ∨ x.cls = .word ∧ (y.cls = .word ∨ y.cls = .numeral)

namespace Tiling

def tileChars (tiles : List (Lexeme × List Char)) : List Char :=
  tiles.flatMap fun x => x.1.chars ++ x.2

/-- The text that is tiled. -/
def chars (t : Tiling) : List Char := t.front ++ tileChars t.tiles

/-- The tokens of the lexemes, the first of which stands at the offset. -/
def tokensFrom (pos : Nat) : List (Lexeme × List Char) → List Token
  | [] => []
  | (x, gap) :: rest => x.token pos :: tokensFrom (pos + x.chars.length + gap.length) rest

def tokens (t : Tiling) : List Token := tokensFrom t.front.length t.tiles

/-- The gaps are blank, and where there is none the lexemes stay apart. -/
structure Fits (t : Tiling) : Prop where
  front : ∀ c ∈ t.front, Text.isBlank c = true
  gaps : ∀ x ∈ t.tiles, ∀ c ∈ x.2, Text.isBlank c = true
  apart : t.tiles.IsChain fun x y => x.2 = [] → ¬x.1.Merges y.1

/-! ## The segments of a tiling -/

def tileSegments (pos : Nat) : List (Lexeme × List Char) → List Segment
  | [] => []
  | (x, gap) :: rest =>
    ⟨x.cls, x.chars, pos⟩ :: (Segment.ofGap (pos + x.chars.length) gap ++
      tileSegments (pos + x.chars.length + gap.length) rest)

theorem Fits.tail {front : List Char} {x : Lexeme × List Char} {tiles : List (Lexeme × List Char)}
    (h : Fits ⟨front, x :: tiles⟩) : Fits ⟨x.2, tiles⟩ where
  front := h.gaps x List.mem_cons_self
  gaps := fun y hy => h.gaps y (List.mem_cons_of_mem x hy)
  apart := (List.isChain_cons.mp h.apart).2

end Tiling

/-! ## Where a lexeme ends -/

namespace Lexeme

theorem eq_of_chars {x y : Lexeme} (h : x.chars = y.chars) : x = y := by
  have hcls : x.cls = y.cls := by
    obtain ⟨c, cs, hx, hcx, -⟩ := x.chars_cut
    obtain ⟨d, ds, hy, hdy, -⟩ := y.chars_cut
    rw [hx, hy] at h
    cases h
    exact hcx.symm.trans hdy
  cases x with
  | number chars v hv =>
    cases y with
    | number chars' w hw =>
      cases (h : chars = chars')
      cases hv.symm.trans hw
      rfl
    | _ => cases hcls
  | function f =>
    cases y with
    | function g =>
      have hfg : f.name = g.name := String.toList_inj.mp h
      have hofName := MathFunction.ofName?_name f
      rw [hfg, MathFunction.ofName?_name g] at hofName
      cases hofName
      rfl
    | _ => cases hcls
  | operator op =>
    cases y with
    | operator op' => cases op <;> cases op' <;> first | rfl | cases h
    | number | function => cases hcls
    | lparen | rparen | comma => cases op <;> cases h
  | lparen | rparen | comma =>
    cases y with
    | number | function => cases hcls
    | operator op => cases op <;> cases h
    | lparen | rparen | comma => first | rfl | cases h

/-- Two lexemes run together exactly if the first character of the second extends the first. -/
theorem merges_iff {x y : Lexeme} {c : Char} {cs : List Char} (hy : y.chars = c :: cs) :
    x.Merges y ↔ x.cls.extends? c = true := by
  obtain ⟨d, ds, hd, hcls, -⟩ := y.chars_cut
  rw [hy] at hd
  cases hd
  rw [Merges, ← hcls, CharClass.of_eq_numeral_iff, CharClass.of_eq_word_iff]
  cases hx : x.cls with
  | blank => exact absurd hx x.cls_ne_blank
  | numeral => simp [CharClass.extends?]
  | single => simp [CharClass.extends?]
  | word =>
    -- A point extends no name, but no number begins with one either.
    have hpoint : c ≠ '.' := by
      rintro rfl
      cases y with
      | number chars v h =>
        obtain ⟨d, ds, hchars, hdigit, -⟩ := Number.chars_of_ofLiteral h
        cases hchars.symm.trans hy
        cases hdigit
      | function f => cases hcls
      | operator op => cases op <;> cases hy
      | lparen | rparen | comma => cases hy
    simp only [CharClass.extends?, Char.isAlphanum, Bool.or_eq_true, beq_iff_eq, hpoint]
    grind

end Lexeme

/-! ## From a tiling to the tokens -/

namespace Tiling

variable {t : Tiling}

theorem head_tileChars {tiles : List (Lexeme × List Char)} {c : Char}
    (h : c ∈ (tileChars tiles).head?) :
    ∃ x gap rest cs, tiles = (x, gap) :: rest ∧ x.chars = c :: cs := by
  cases tiles with
  | nil => cases h
  | cons x rest =>
    obtain ⟨d, ds, hchars, -⟩ := x.1.chars_cut
    simp only [tileChars, List.flatMap_cons, hchars, List.cons_append, List.head?_cons] at h
    cases h
    exact ⟨x.1, x.2, rest, ds, rfl, hchars⟩

theorem not_isBlank_head_tileChars {tiles : List (Lexeme × List Char)} :
    ∀ c ∈ (tileChars tiles).head?, Text.isBlank c = false := by
  intro c hc
  obtain ⟨x, -, -, cs, -, hchars⟩ := head_tileChars hc
  obtain ⟨d, ds, hd, hcls, -⟩ := x.chars_cut
  rw [hchars] at hd
  cases hd
  exact CharClass.isBlank_eq_false (hcls ▸ x.cls_ne_blank)

/-- What stands behind a lexeme does not extend it. -/
theorem Fits.not_extends {front gap : List Char} {x : Lexeme} {tiles : List (Lexeme × List Char)}
    (h : Fits ⟨front, (x, gap) :: tiles⟩) :
    ∀ c ∈ (gap ++ tileChars tiles).head?, x.cls.extends? c = false := by
  intro c hc
  cases gap with
  | cons d gap =>
    cases hc
    exact CharClass.not_extends_of_isBlank x.cls_ne_blank
      (h.gaps _ List.mem_cons_self _ List.mem_cons_self)
  | nil =>
    obtain ⟨y, gap', rest, cs, rfl, hchars⟩ := head_tileChars hc
    have hapart := (List.isChain_cons.mp h.apart).1 (y, gap') rfl rfl
    rw [Lexeme.merges_iff hchars] at hapart
    exact Bool.eq_false_iff.mpr hapart

/-- The segments are the lexemes and the gaps that are not empty. -/
theorem Fits.cut_tileChars {front : List Char} {tiles : List (Lexeme × List Char)}
    (h : Fits ⟨front, tiles⟩) (pos : Nat) :
    Segment.cut pos (tileChars tiles) = tileSegments pos tiles := by
  induction tiles generalizing front pos with
  | nil => rw [tileChars, List.flatMap_nil, Segment.cut, tileSegments]
  | cons x rest ih =>
    obtain ⟨x, gap⟩ := x
    obtain ⟨c, cs, hchars, hcls, hcs⟩ := x.chars_cut
    have hnot := h.not_extends
    rw [← hcls] at hcs hnot
    have hsplit : tileChars ((x, gap) :: rest) = c :: (cs ++ (gap ++ tileChars rest)) := by
      simp [tileChars, hchars]
    rw [hsplit, Segment.cut_append hcs hnot, Segment.cut_gap h.tail.front not_isBlank_head_tileChars,
      ih h.tail, tileSegments, hcls, hchars]

theorem Fits.cut_chars (h : t.Fits) :
    Segment.cut 0 t.chars = Segment.ofGap 0 t.front ++ tileSegments t.front.length t.tiles := by
  rw [chars, Segment.cut_gap h.front not_isBlank_head_tileChars, Nat.zero_add, h.cut_tileChars]

theorem ofSegments_tileSegments (tiles : List (Lexeme × List Char)) (pos : Nat) :
    ofSegments (tileSegments pos tiles) = ⟨tokensFrom pos tiles, none⟩ := by
  induction tiles generalizing pos with
  | nil => rfl
  | cons x rest ih =>
    rw [tileSegments, ofSegments, x.1.token?_eq]
    simp only [TokenStream.ofSegments_gap, ih]
    rfl

theorem Fits.ofChars_eq (h : t.Fits) : TokenStream.ofChars t.chars = ⟨t.tokens, none⟩ := by
  rw [TokenStream.ofChars, h.cut_chars, TokenStream.ofSegments_gap, ofSegments_tileSegments, tokens]

/-! ## One tiling at most -/

theorem ofGap_append_inj {pos p q : Nat} {gap gap' : List Char}
    {tiles tiles' : List (Lexeme × List Char)}
    (h : Segment.ofGap pos gap ++ tileSegments p tiles =
      Segment.ofGap pos gap' ++ tileSegments q tiles') :
    gap = gap' ∧ tileSegments p tiles = tileSegments q tiles' := by
  -- A gap cannot be taken for a lexeme, so there is one on both sides or on none.
  have hne {r : Nat} {us : List (Lexeme × List Char)} {g : List Char} {ss : List Segment} :
      tileSegments r us ≠ ⟨.blank, g, pos⟩ :: ss := by
    cases us with
    | nil => nofun
    | cons x us =>
      intro hus
      exact x.1.cls_ne_blank (congrArg Segment.cls (List.cons.inj hus).1)
  unfold Segment.ofGap at h
  split at h <;> split at h
  · next hgap hgap' => exact ⟨hgap.trans hgap'.symm, h⟩
  · exact absurd h hne
  · exact absurd h.symm hne
  · obtain ⟨hseg, htiles⟩ := List.cons.inj h
    exact ⟨congrArg Segment.chars hseg, htiles⟩

theorem tileSegments_inj {pos : Nat} {tiles tiles' : List (Lexeme × List Char)}
    (h : tileSegments pos tiles = tileSegments pos tiles') : tiles = tiles' := by
  induction tiles generalizing pos tiles' with
  | nil =>
    cases tiles' with
    | nil => rfl
    | cons x tiles' => cases h
  | cons x tiles ih =>
    cases tiles' with
    | nil => cases h
    | cons y tiles' =>
      obtain ⟨x, gap⟩ := x
      obtain ⟨y, gap'⟩ := y
      obtain ⟨hseg, hrest⟩ := List.cons.inj h
      cases Lexeme.eq_of_chars (congrArg Segment.chars hseg)
      obtain ⟨rfl, htiles⟩ := ofGap_append_inj hrest
      rw [ih htiles]

theorem Fits.unique {u : Tiling} (ht : t.Fits) (hu : u.Fits) (h : t.chars = u.chars) : t = u := by
  have hsegments := ht.cut_chars
  rw [h, hu.cut_chars] at hsegments
  obtain ⟨hfront, htiles⟩ := ofGap_append_inj hsegments.symm
  obtain ⟨front, tiles⟩ := t
  obtain ⟨front', tiles'⟩ := u
  cases (hfront : front = front')
  cases tileSegments_inj htiles
  rfl

end Tiling

/-! ## Segments that are lexemes and segments that are not -/

/-- The error of a segment that is neither blank nor a lexeme. -/
inductive Segment.Fails : Segment → CalcError → Prop
  | numeral {chars : List Char} {pos : Nat} {e : CalcError}
      (h : Number.ofLiteral chars = .error e) : Fails ⟨.numeral, chars, pos⟩ e
  | word {chars : List Char} {pos : Nat} (h : ∀ f : MathFunction, f.name.toList ≠ chars) :
      Fails ⟨.word, chars, pos⟩ (.unknownFunction (String.ofList chars))
  | single {c : Char} {pos : Nat} (h : c ∉ ['+', '-', '*', '/', '(', ')', ',']) :
      Fails ⟨.single, [c], pos⟩ (.unexpectedChar c pos)

/-- The tokens of segments each of which is blank or a lexeme. -/
inductive Yields : List Segment → List Token → Prop
  | nil : Yields [] []
  | blank {chars : List Char} {pos : Nat} {ss : List Segment} {ts : List Token} (h : Yields ss ts) :
      Yields (⟨.blank, chars, pos⟩ :: ss) ts
  | lexeme (x : Lexeme) {pos : Nat} {ss : List Segment} {ts : List Token} (h : Yields ss ts) :
      Yields (⟨x.cls, x.chars, pos⟩ :: ss) (x.token pos :: ts)

theorem Segment.fails_or_lexeme {s : Segment} (h : IsRun s.cls s.chars) :
    s.cls = .blank ∨ (∃ x : Lexeme, s = ⟨x.cls, x.chars, s.pos⟩) ∨ ∃ e, s.Fails e := by
  obtain ⟨cls, chars, pos⟩ := s
  cases cls with
  | blank => exact .inl rfl
  | numeral =>
    cases hv : Number.ofLiteral chars with
    | ok v => exact .inr (.inl ⟨.number chars v hv, rfl⟩)
    | error e => exact .inr (.inr ⟨e, .numeral hv⟩)
  | word =>
    by_cases hname : ∃ f : MathFunction, f.name.toList = chars
    · obtain ⟨f, rfl⟩ := hname
      exact .inr (.inl ⟨.function f, rfl⟩)
    · exact .inr (.inr ⟨_, .word (not_exists.mp hname)⟩)
  | single =>
    obtain ⟨c, hc, -⟩ := h
    cases (hc : chars = [c])
    by_cases hmark : c ∈ ['+', '-', '*', '/', '(', ')', ',']
    · refine .inr (.inl ?_)
      simp only [List.mem_cons, List.not_mem_nil, or_false] at hmark
      rcases hmark with rfl | rfl | rfl | rfl | rfl | rfl | rfl
      exacts [⟨.operator .add, rfl⟩, ⟨.operator .sub, rfl⟩, ⟨.operator .mul, rfl⟩,
        ⟨.operator .div, rfl⟩, ⟨.lparen, rfl⟩, ⟨.rparen, rfl⟩, ⟨.comma, rfl⟩]
    · exact .inr (.inr ⟨_, .single hmark⟩)

theorem Segment.Fails.token?_eq {s : Segment} {e : CalcError} (h : s.Fails e) :
    s.token? = .error e := by
  cases h with
  | numeral h =>
    simp only [token?, h]
    rfl
  | word h =>
    next chars pos =>
    have hnone : MathFunction.ofName? (String.ofList chars) = none := by
      rw [Option.eq_none_iff_forall_ne_some]
      intro f hf
      apply h f
      rw [MathFunction.name_of_ofName? hf, String.toList_ofList]
    simp only [token?, hnone]
  | single h =>
    next c pos =>
    have hnone : punctuation? c = none := by
      unfold punctuation?
      split <;> first | rfl | simp at h
    simp only [token?, List.headD_cons, hnone]

theorem Yields.ofSegments_append {before ss : List Segment} {ts : List Token}
    (h : Yields before ts) :
    ofSegments (before ++ ss) = ⟨ts ++ (ofSegments ss).pending, (ofSegments ss).failure⟩ := by
  induction h with
  | nil => rfl
  | blank _ ih => exact ih
  | lexeme x _ ih =>
    rw [List.cons_append, ofSegments, x.token?_eq]
    simp only [ih]
    rfl

/-- Either all segments make tokens, or there is a first one that fails. -/
theorem Munch.yields_or_fails {pos : Nat} {cs : List Char} {ss : List Segment}
    (h : Munch pos cs ss) :
    (∃ ts, Yields ss ts) ∨
      ∃ before s after ts e, ss = before ++ s :: after ∧ Yields before ts ∧ s.Fails e := by
  induction h with
  | nil => exact .inl ⟨[], .nil⟩
  | @cons s rest ss hs _ ih =>
    rcases Segment.fails_or_lexeme hs.isRun with hblank | ⟨x, hx⟩ | ⟨e, he⟩
    · obtain ⟨cls, chars, pos⟩ := s
      cases (hblank : cls = .blank)
      rcases ih with ⟨ts, hts⟩ | ⟨before, s', after, ts, e, rfl, hbefore, he⟩
      · exact .inl ⟨ts, .blank hts⟩
      · exact .inr ⟨_ :: before, s', after, ts, e, rfl, .blank hbefore, he⟩
    · rw [hx]
      rcases ih with ⟨ts, hts⟩ | ⟨before, s', after, ts, e, rfl, hbefore, he⟩
      · exact .inl ⟨_, .lexeme x hts⟩
      · exact .inr ⟨_ :: before, s', after, _, e, rfl, .lexeme x hbefore, he⟩
    · exact .inr ⟨[], s, ss, [], e, rfl, .nil, he⟩

/-! ## From the segments to a tiling -/

/-- Longest segments that make tokens are the tiles and gaps of a tiling. -/
theorem Munch.exists_tiling {pos : Nat} {cs : List Char} {ss : List Segment} {ts : List Token}
    (h : Munch pos cs ss) (hts : Yields ss ts) : ∃ t : Tiling, t.Fits ∧ t.chars = cs := by
  induction h generalizing ts with
  | nil => exact ⟨⟨[], []⟩, ⟨nofun, nofun, .nil⟩, rfl⟩
  | @cons s rest ss hs _ ih =>
    cases hts with
    | blank hts =>
      obtain ⟨t, ht, rfl⟩ := ih hts
      refine ⟨⟨_ ++ t.front, t.tiles⟩, ⟨fun c hc => ?_, ht.gaps, ht.apart⟩, List.append_assoc ..⟩
      rcases List.mem_append.mp hc with hc | hc
      · exact hs.isRun.2 c hc
      · exact ht.front c hc
    | lexeme x hts =>
      obtain ⟨t, ht, rfl⟩ := ih hts
      refine ⟨⟨[], (x, t.front) :: t.tiles⟩, ⟨nofun, fun y hy => ?_, ?_⟩, ?_⟩
      · rcases List.mem_cons.mp hy with rfl | hy
        · exact ht.front
        · exact ht.gaps y hy
      · refine List.isChain_cons.mpr ⟨fun y hy hgap hmerges => ?_, ht.apart⟩
        obtain ⟨c, us, hchars, -⟩ := y.1.chars_cut
        obtain ⟨tiles, htiles⟩ := List.head?_eq_some_iff.mp hy
        have hhead : c ∈ t.chars.head? := by
          have hfront : t.front = [] := hgap
          simp [Tiling.chars, hfront, Tiling.tileChars, htiles, hchars]
        have hextends := (Lexeme.merges_iff hchars).mp hmerges
        rw [hs.not_extends c hhead] at hextends
        cases hextends
      · simp [Tiling.chars, Tiling.tileChars]

/-! ## The tokens of a text -/

theorem Munch.ofText_of_fails {text : String} {before after : List Segment} {s : Segment}
    {ts : List Token} {e : CalcError} (h : Munch 0 text.toList (before ++ s :: after))
    (hbefore : Yields before ts) (hs : s.Fails e) : ofText text = ⟨ts, some e⟩ := by
  rw [ofText, TokenStream.ofChars, ← munch_iff.mp h, hbefore.ofSegments_append, ofSegments,
    hs.token?_eq]
  simp only [List.append_nil]

theorem Munch.ofText_of_yields {text : String} {ss : List Segment} {ts : List Token}
    (h : Munch 0 text.toList ss) (hss : Yields ss ts) : ofText text = ⟨ts, none⟩ := by
  have happend : ofSegments (ss ++ []) = ⟨ts ++ [], none⟩ := hss.ofSegments_append
  rw [List.append_nil, List.append_nil] at happend
  rw [ofText, TokenStream.ofChars, ← munch_iff.mp h, happend]

/-- A segment stands in the text where its offset says. -/
theorem Munch.getElem?_of_mem {pos i : Nat} {cs : List Char} {ss : List Segment} {s : Segment}
    (h : Munch pos cs ss) (hs : s ∈ ss) {c : Char} (hc : s.chars[i]? = some c) :
    ∃ j, s.pos + i = pos + j ∧ cs[j]? = some c := by
  induction h with
  | nil => cases hs
  | @cons u rest us hu _ ih =>
    rcases List.mem_cons.mp hs with rfl | hs
    · refine ⟨i, rfl, ?_⟩
      rw [List.getElem?_append_left (List.getElem?_eq_some_iff.mp hc).1, hc]
    · obtain ⟨j, hj, hget⟩ := ih hs
      refine ⟨u.chars.length + j, by omega, ?_⟩
      rw [List.getElem?_append_right (Nat.le_add_right ..), Nat.add_sub_cancel_left, hget]

/-- **The tokens are the tiling of the text.** There is at most one tiling, and the text has tokens
exactly if there is one. If not, its longest segments, of which there is one row, have a first that
fails, and the tokens in front of it come before its error. -/
theorem tokenize_iff_tiling (text : String) :
    (∀ ts, tokenize text = .ok ts ↔
      ∃ t : Tiling, t.Fits ∧ t.chars = text.toList ∧ t.tokens = ts) ∧
    (∀ t u : Tiling, t.Fits ∧ t.chars = text.toList → u.Fits ∧ u.chars = text.toList → t = u) ∧
    (∃! ss, Munch 0 text.toList ss) ∧
    ((¬∃ t : Tiling, t.Fits ∧ t.chars = text.toList) →
      ∃ ts e, ofText text = ⟨ts, some e⟩ ∧ tokenize text = .error e) ∧
    (∀ ts e, ofText text = ⟨ts, some e⟩ ↔
      ∃ before s after, Munch 0 text.toList (before ++ s :: after) ∧ Yields before ts ∧ s.Fails e) ∧
    ∀ ts c p, ofText text = ⟨ts, some (.unexpectedChar c p)⟩ → text.toList[p]? = some c := by
  have hmunch : Munch 0 text.toList (Segment.cut 0 text.toList) := munch_iff.mpr rfl
  have hfails : ∀ ts e, ofText text = ⟨ts, some e⟩ ↔
      ∃ before s after, Munch 0 text.toList (before ++ s :: after) ∧ Yields before ts ∧
        s.Fails e := by
    intro ts e
    constructor
    · intro h
      rcases hmunch.yields_or_fails with ⟨us, hus⟩ | ⟨before, s, after, us, e', hss, hus, hs⟩
      · cases h.symm.trans (hmunch.ofText_of_yields hus)
      · rw [hss] at hmunch
        cases h.symm.trans (hmunch.ofText_of_fails hus hs)
        exact ⟨before, s, after, hmunch, hus, hs⟩
    · rintro ⟨before, s, after, h, hts, hs⟩
      exact h.ofText_of_fails hts hs
  refine ⟨fun ts => ⟨fun h => ?_, ?_⟩, ?_, ?_, fun hnone => ?_, hfails, fun ts c p h => ?_⟩
  · rw [tokenize_eq_ok_iff] at h
    rcases hmunch.yields_or_fails with ⟨us, hus⟩ | ⟨before, s, after, us, e, hss, hus, hs⟩
    · obtain ⟨t, ht, hchars⟩ := hmunch.exists_tiling hus
      have htokens := ht.ofChars_eq
      rw [hchars] at htokens
      cases h.symm.trans htokens
      exact ⟨t, ht, hchars, rfl⟩
    · rw [hss] at hmunch
      cases h.symm.trans (hmunch.ofText_of_fails hus hs)
  · rintro ⟨t, ht, hchars, rfl⟩
    rw [tokenize_eq_ok_iff, ofText, ← hchars, ht.ofChars_eq]
  · rintro t u ⟨ht, htext⟩ ⟨hu, hutext⟩
    exact ht.unique hu (htext.trans hutext.symm)
  · exact ⟨_, hmunch, fun ss hss => munch_iff.mp hss⟩
  · rcases hmunch.yields_or_fails with ⟨us, hus⟩ | ⟨before, s, after, us, e, hss, hus, hs⟩
    · exact absurd (hmunch.exists_tiling hus) hnone
    · rw [hss] at hmunch
      have htext := hmunch.ofText_of_fails hus hs
      exact ⟨us, e, htext, tokenize_eq_error_iff.mpr (by rw [htext])⟩
  · obtain ⟨before, s, after, hss, -, hs⟩ := (hfails ts _).mp h
    generalize he : CalcError.unexpectedChar c p = e at hs
    cases hs with
    | single =>
      cases he
      obtain ⟨j, hj, hget⟩ := hss.getElem?_of_mem (List.mem_append_right _ List.mem_cons_self)
        (i := 0) (c := c) rfl
      rwa [show j = p by simpa using hj.symm] at hget
    | word => cases he
    | numeral hv =>
      rw [← he] at hv
      rcases Number.error_of_ofLiteral hv with hinvalid | ⟨n, hlimit⟩
      · cases hinvalid
      · cases hlimit

/-- A name right behind a number, and a letter that begins no lexeme. -/
theorem tokenize_iff_tiling_samples :
    tokenize "2sin " = .ok [⟨.number, .number (.int 2), 0⟩, ⟨.function, .text "sin", 1⟩] ∧
    "2sin é".toList[5]? = some 'é' := by
  have hfits : Tiling.Fits ⟨[], [(.number ['2'] (.int 2) rfl, []), (.function .sin, [' '])]⟩ := by
    refine ⟨nofun, fun x hx c hc => ?_, ?_⟩
    · simp only [List.mem_cons, List.not_mem_nil, or_false] at hx
      rcases hx with rfl | rfl
      · cases hc
      · cases List.mem_singleton.mp hc
        rfl
    · simp [Lexeme.Merges, Lexeme.cls]
  have herror : ofText "2sin é" =
      ⟨[⟨.number, .number (.int 2), 0⟩, ⟨.function, .text "sin", 1⟩],
        some (.unexpectedChar 'é' 5)⟩ := by
    cbv
  obtain ⟨htiling, -⟩ := tokenize_iff_tiling "2sin "
  obtain ⟨-, -, -, -, -, hplace⟩ := tokenize_iff_tiling "2sin é"
  exact ⟨(htiling _).mpr ⟨_, hfits, rfl, rfl⟩, hplace _ _ _ herror⟩

end Reckoner
