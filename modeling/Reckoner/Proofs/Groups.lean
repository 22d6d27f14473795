import Reckoner.Proofs.NestingLimit
import Reckoner.Proofs.Parser.Exchange
import Reckoner.Proofs.Seams
import Reckoner.Proofs.ShortestDecimal
import Reckoner.Proofs.Tiling

/-!
# Values in place of expressions

An expression in parentheses can be replaced by its value as it is printed, wherever it stands: the text
around it may be anything, and need not be an expression (`calculate_replace_group`). The printed value is
a literal, with a minus sign in front of it or not, and has the value it was printed from
(`Number.exists_text`). The marks around the parentheses' content cut it off from the rest of the text,
so the tokens are the same but between them (`parallel_of_group`).
-/

namespace Reckoner

open TokenStream (ofSegments ofText)

/-! ## Printed values -/

/-- The text of the number is a literal, or one behind a minus sign: an integer whose absolute value
fits, or a double in the range of positional form. -/
def Number.Printable : Number → Prop
  | int n => n ≠ intMin
  | float x =>
    Binary64.value (Binary64.magnitude x) = 0 ∨
      (10 : ℚ) ^ (-4 : Int) ≤ Binary64.value (Binary64.magnitude x) ∧
        Binary64.value (Binary64.magnitude x) < 10 ^ 16

theorem Binary64.value_eq_zero_iff {w : Nat} : value w = 0 ↔ w = 0 := by
  constructor
  · intro h
    by_contra hw
    have hnum : (numerator w : ℚ) ≠ 0 := Nat.cast_ne_zero.mpr (numerator_ne_zero hw)
    have hden : (denominator w : ℚ) ≠ 0 := Nat.cast_ne_zero.mpr (denominator_ne_zero w)
    exact div_ne_zero hnum hden h
  · rintro rfl
    exact value_zero

namespace Number

theorem ofLiteral_zero : ofLiteral ['0', '.', '0'] = .ok (float (Binary64.ofWord false 0)) := by
  have hnumeral : Numeral.ofChars? ['0', '.', '0'] = some ⟨['0'], some ['0']⟩ := rfl
  unfold ofLiteral
  rw [hnumeral]
  exact if_pos (@Binary64.isFinite_ofWord false 0 (by decide))

theorem toList_text_float {x : Float} (hfinite : x.isFinite = true) :
    (float x).text.toList = Binary64.signChars x ++
      if Binary64.magnitude x = 0 then ['0', '.', '0']
      else (Decimal.shortest (Binary64.magnitude x)).chars .plain := by
  have hlt := Binary64.magnitude_lt hfinite
  unfold text Binary64.text
  dsimp only
  rw [if_neg (Nat.not_lt_of_lt hlt), String.toList_ofList, if_neg (Nat.ne_of_lt hlt)]
  rfl

/-- The text of a double without its sign. -/
theorem exists_text_magnitude {x : Float} (hfinite : x.isFinite = true)
    (hx : (float x).Printable) :
    ∃ chars, (float x).text.toList = Binary64.signChars x ++ chars ∧
      ofLiteral chars = .ok (float (Binary64.ofWord false (Binary64.magnitude x))) := by
  rw [toList_text_float hfinite]
  by_cases hzero : Binary64.magnitude x = 0
  · rw [if_pos hzero, hzero]
    exact ⟨_, rfl, ofLiteral_zero⟩
  · rw [if_neg hzero]
    obtain ⟨hlow, hhigh⟩ := hx.resolve_left (hzero ∘ Binary64.value_eq_zero_iff.mp)
    exact ⟨_, rfl, ofLiteral_shortest (Binary64.magnitude_lt hfinite) hlow hhigh⟩

/-- A printed number is a literal that is read as it, or a minus sign and a literal of which it is
the negation. -/
theorem exists_text {v : Number} (hvalid : v.Valid) (hv : v.Printable) :
    ofLiteral v.text.toList = .ok v ∨
      ∃ chars u, v.text.toList = '-' :: chars ∧ ofLiteral chars = .ok u ∧ u.negate = .ok v := by
  cases v with
  | int n =>
    unfold text
    rw [String.toList_append, String.toList_ofList]
    by_cases hn : n < 0
    · rw [if_pos hn]
      have hfits : Fits (n.natAbs : Int) := by
        have hne : n ≠ intMin := hv
        obtain ⟨hlow, hhigh⟩ := (hvalid : Fits n)
        unfold Fits intMin intMax at *
        omega
      refine .inr ⟨_, _, rfl, ofLiteral_toDigits hfits, ?_⟩
      have hneg : -(n.natAbs : Int) = n := by omega
      rw [negate, hneg]
      exact if_pos hvalid
    · rw [if_neg hn]
      obtain ⟨k, rfl⟩ := Int.eq_ofNat_of_zero_le (Int.not_lt.mp hn)
      exact .inl (ofLiteral_toDigits hvalid)
  | float x =>
    obtain ⟨chars, htext, hchars⟩ := exists_text_magnitude hvalid hv
    rw [htext, Binary64.signChars]
    cases hsign : Binary64.isNegative x with
    | false =>
      rw [Binary64.ofWord_magnitude hvalid hsign] at hchars
      exact .inl hchars
    | true =>
      refine .inr ⟨chars, _, rfl, hchars, ?_⟩
      rw [negate, Binary64.neg_ofWord_magnitude hvalid hsign]
      exact if_pos hvalid

end Number

/-! ## Texts with a value -/

/-- The tokens of the text, all of them, spell a tree of the value. -/
def Denotes (text : String) (ts : List Token) (v : Number) : Prop :=
  ofText text = ⟨ts, none⟩ ∧ ∃ x, Spells .expr ts x ∧ x.eval = .ok v

theorem Expr.eval_of_evalWithin {x : Expr} {limit : Nat} {r : Except CalcError Number}
    (h : x.evalWithin limit = r) (hr : r ≠ .error .nestedTooDeeply) : x.eval = r := by
  have hle := Nat.le_max_left limit (x.height + 1)
  rcases x.evalWithin_persists hle with hnested | hsame
  · exact absurd (h.symm.trans hnested) hr
  · have hlt := Nat.le_max_right limit (x.height + 1)
    rw [← evalWithin_eq_eval hlt, hsame, h]

theorem exists_denotes_of_calculate {limit : Nat} {text : String} {v : Number}
    (h : calculate limit text = .ok v) : ∃ ts, Denotes text ts v := by
  obtain ⟨x, hx, hv⟩ := ok_of_bind h
  have hfailure : (ofText text).failure = none := Parser.failure_of_parse hx
  refine ⟨(ofText text).pending, by rw [← hfailure], x, TokenStream.spells_of_parse hx, ?_⟩
  exact Expr.eval_of_evalWithin hv nofun

theorem Tiling.Fits.ofText_eq {t : Tiling} {text : String} (h : t.Fits) (ht : t.chars = text.toList) :
    ofText text = ⟨t.tokens, none⟩ := by
  rw [ofText, ← ht, h.ofChars_eq]

/-- The tokens of a printed number are a literal, with a minus sign in front of it or not. -/
theorem exists_spells_text {v : Number} (hvalid : v.Valid) (hv : v.Printable) :
    ∃ ts x, ofText v.text = ⟨ts, none⟩ ∧ Spells .expr ts x ∧ x.eval = .ok v ∧ ts.length ≤ 2 ∧
      x.height ≤ 1 := by
  have hnone : ∀ c ∈ ([] : List Char), Text.isBlank c = true :=
    fun _ hc => absurd hc List.not_mem_nil
  rcases Number.exists_text hvalid hv with hliteral | ⟨chars, u, htext, hliteral, hnegate⟩
  · have hfits : Tiling.Fits ⟨[], [(.number _ v hliteral, [])]⟩ :=
      ⟨hnone, fun x hx => by rw [List.mem_singleton.mp hx]; exact hnone, .singleton _⟩
    have hchars : Tiling.chars ⟨[], [(.number _ v hliteral, [])]⟩ = v.text.toList := by
      simp [Tiling.chars, Tiling.tileChars, Lexeme.chars]
    refine ⟨_, _, hfits.ofText_eq hchars, .ofTerm (.ofUnary (.ofPrimary (.number rfl))), rfl,
      one_le_two, ?_⟩
    rw [Expr.height]
    exact Nat.zero_le 1
  · have hfits : Tiling.Fits ⟨[], [(.operator .sub, []), (.number chars u hliteral, [])]⟩ := by
      refine ⟨hnone, fun x hx => ?_, by simp [Lexeme.Merges, Lexeme.cls]⟩
      rcases List.mem_pair.mp hx with rfl | rfl <;> exact hnone
    have hchars : Tiling.chars ⟨[], [(.operator .sub, []), (.number chars u hliteral, [])]⟩ =
        v.text.toList := by
      simp [Tiling.chars, Tiling.tileChars, Lexeme.chars, Operator.symbol, htext]
    refine ⟨_, _, hfits.ofText_eq hchars, .ofTerm (.ofUnary (.negation (.ofPrimary (.number rfl)))),
      ?_, Nat.le_refl 2, ?_⟩
    · rw [Expr.eval_negate]
      exact hnegate
    · rw [Expr.height, Expr.height]

theorem exists_denotes_text {v : Number} (hvalid : v.Valid) (hv : v.Printable) :
    ∃ ts, Denotes v.text ts v := by
  obtain ⟨ts, x, htext, hx, heval, -, -⟩ := exists_spells_text hvalid hv
  exact ⟨ts, htext, x, hx, heval⟩

/-! ## Parentheses in a text -/

mutual

/-- Where the tokens stand makes no difference. -/
theorem Spells.shift (k : Nat) {p : Phrase} {ts : List Token} {e : Expr} :
    Spells p ts e → Spells p (ts.map (Token.shift k)) e
  | .ofTerm h => .ofTerm (h.shift k)
  | .ofUnary h => .ofUnary (h.shift k)
  | .ofPrimary h => .ofPrimary (h.shift k)
  | .sum hop hl hr => by
    rw [List.map_append, List.map_cons]
    exact .sum hop (hl.shift k) (hr.shift k)
  | .product hop hl hr => by
    rw [List.map_append, List.map_cons]
    exact .product hop (hl.shift k) (hr.shift k)
  | .negation h => .negation (h.shift k)
  | .number ht => .number (t := Token.shift k _) ht
  | .group hopening h hclosing => by
    rw [List.map_cons, List.map_append]
    exact .group hopening (h.shift k) hclosing
  | .call hname hf hopening h hclosing harity => by
    rw [List.map_cons, List.map_cons, List.map_append]
    exact .call hname hf hopening (h.shift k) hclosing harity

theorem SpellsArgs.shift (k : Nat) {ts : List Token} {es : List Expr} :
    SpellsArgs ts es → SpellsArgs (ts.map (Token.shift k)) es
  | .last h => .last (h.shift k)
  | .more h hcomma hs => by
    rw [List.map_append, List.map_cons]
    exact .more (h.shift k) hcomma (hs.shift k)

end

theorem CalcError.unplaced_shift (k : Nat) (e : CalcError) : (e.shift k).unplaced = e.unplaced := by
  cases e <;> rfl

namespace Parser.Parallel

theorem shift (k k' : Nat) (s : TokenStream) : Parallel (s.shift k) (s.shift k') := by
  constructor
  · apply Exchange.of_map_unplaced
    simp [TokenStream.shift, Token.unplaced_shift]
  · simp [TokenStream.shift, Function.comp_def, CalcError.unplaced_shift]

theorem andThen {s r r' : TokenStream} (h : Parallel r r') :
    Parallel (s.andThen r) (s.andThen r') := by
  unfold TokenStream.andThen
  split
  · exact ⟨(Exchange.refl _).append h.pending, h.failure⟩
  · exact ⟨.refl _, rfl⟩

end Parser.Parallel

/-- The tokens around a group are those of the texts in front of it and behind it. -/
theorem ofText_group {a b e : String} {ts : List Token} (he : ofText e = ⟨ts, none⟩) :
    ∃ k l, ofText (a ++ "(" ++ e ++ ")" ++ b) = (ofText a).andThen
      ⟨⟨.lparen, .text "(", k⟩ :: (ts.map (Token.shift (k + 1)) ++
        ⟨.rparen, .text ")", l⟩ :: ((ofText b).shift (l + 1)).pending),
        ((ofText b).shift (l + 1)).failure⟩ := by
  refine ⟨0 + a.toList.length, 0 + a.toList.length + 1 + e.toList.length, ?_⟩
  have htext : (a ++ "(" ++ e ++ ")" ++ b).toList =
      a.toList ++ '(' :: (e.toList ++ ')' :: b.toList) := by
    simp [String.toList_append]
  have hgroup : ofSegments (Segment.cut 0 e.toList) = ⟨ts, none⟩ := he
  rw [ofText, TokenStream.ofChars, htext, Segment.cut_mark rfl, Segment.cut_mark rfl,
    TokenStream.ofSegments_append]
  congr 1
  have hopening (pos : Nat) :
      Segment.token? ⟨.single, ['('], pos⟩ = .ok (some ⟨.lparen, .text "(", pos⟩) := rfl
  have hclosing (pos : Nat) :
      Segment.token? ⟨.single, [')'], pos⟩ = .ok (some ⟨.rparen, .text ")", pos⟩) := rfl
  rw [ofSegments, hopening, TokenStream.ofSegments_append, TokenStream.ofSegments_cut, hgroup,
    ofSegments, hclosing, TokenStream.ofSegments_cut]
  rfl

theorem parallel_of_group {e e' : String} {ts us : List Token} {v : Number} (h : Denotes e ts v)
    (h' : Denotes e' us v) (a b : String) :
    Parser.Parallel (ofText (a ++ "(" ++ e ++ ")" ++ b)) (ofText (a ++ "(" ++ e' ++ ")" ++ b)) := by
  obtain ⟨he, x, hx, hxv⟩ := h
  obtain ⟨he', y, hy, hyv⟩ := h'
  obtain ⟨k, l, htext⟩ := ofText_group (a := a) (b := b) he
  obtain ⟨k', l', htext'⟩ := ofText_group (a := a) (b := b) he'
  have hb := Parser.Parallel.shift (l + 1) (l' + 1) (ofText b)
  rw [htext, htext']
  refine .andThen ⟨?_, hb.failure⟩
  exact .group rfl rfl (hx.shift _) (hy.shift _) (hxv.trans hyv.symm) rfl rfl hb.pending

/-- **An expression in parentheses can be replaced by its printed value.** Whatever stands in front of
the parentheses and behind them, with the value between them the calculation ends as with the
expression: with an equal number, or with the same error but for the places of tokens. -/
theorem calculate_replace_group {limit : Nat} {e : String} {v : Number}
    (he : calculate limit e = .ok v) (hv : v.Printable) (a b : String)
    (hleft : calculate limit (a ++ "(" ++ e ++ ")" ++ b) ≠ .error .nestedTooDeeply)
    (hright : calculate limit (a ++ "(" ++ v.text ++ ")" ++ b) ≠ .error .nestedTooDeeply) :
    (∃ w, calculate limit (a ++ "(" ++ e ++ ")" ++ b) = .ok w ∧
      calculate limit (a ++ "(" ++ v.text ++ ")" ++ b) = .ok w ∧ (w == w) = true) ∨
    ∃ err err', calculate limit (a ++ "(" ++ e ++ ")" ++ b) = .error err ∧
      calculate limit (a ++ "(" ++ v.text ++ ")" ++ b) = .error err' ∧
      err.unplaced = err'.unplaced := by
  obtain ⟨ts, hts⟩ := exists_denotes_of_calculate he
  obtain ⟨us, hus⟩ := exists_denotes_text (valid_of_calculate he) hv
  have hparallel := parallel_of_group hts hus a b
  generalize a ++ "(" ++ e ++ ")" ++ b = left at *
  generalize a ++ "(" ++ v.text ++ ")" ++ b = right at *
  rcases TokenStream.parse_exchange hparallel limit with h | h | ⟨x, y, hx, hy, hxy⟩ | ⟨err, err', hx, hy, herr⟩
  · exact absurd (by rw [calculate, parseText, h]; rfl) hleft
  · exact absurd (by rw [calculate, parseText, h]; rfl) hright
  · have hx : calculate limit left = x.evalWithin limit := by rw [calculate, parseText, hx]; rfl
    have hy : calculate limit right = y.evalWithin limit := by rw [calculate, parseText, hy]; rfl
    have hxeval := Expr.eval_of_evalWithin hx.symm hleft
    have hyeval := Expr.eval_of_evalWithin hy.symm hright
    have hsame := (hxeval.symm.trans hxy).trans hyeval
    cases hw : calculate limit left with
    | ok w => exact .inl ⟨w, rfl, (hsame.symm.trans hw), Number.beq_self (valid_of_calculate hw)⟩
    | error err => exact .inr ⟨err, err, rfl, hsame.symm.trans hw, rfl⟩
  · exact .inr ⟨err, err', by rw [calculate, parseText, hx]; rfl,
      by rw [calculate, parseText, hy]; rfl, herr⟩

/-- `2*(7-10)` is `2*(-3)`, and what `sqrt(7-10)+` lacks is what `sqrt(-3)+` lacks. -/
theorem calculate_replace_group_samples :
    (∃ w, calculate 10 ("2*" ++ "(" ++ "7-10" ++ ")" ++ "") = .ok w ∧
      calculate 10 ("2*" ++ "(" ++ (Number.int (-3)).text ++ ")" ++ "") = .ok w) ∧
    ∃ err err', calculate 10 ("sqrt" ++ "(" ++ "7-10" ++ ")" ++ "+") = .error err ∧
      calculate 10 ("sqrt" ++ "(" ++ (Number.int (-3)).text ++ ")" ++ "+") = .error err' ∧
      err.unplaced = err'.unplaced := by
  have he : calculate 10 "7-10" = .ok (.int (-3)) := by cbv
  have hv : (Number.int (-3)).Printable := by
    change (-3 : Int) ≠ Number.intMin
    decide
  have htext : (Number.int (-3)).text = "-3" := by cbv
  have hproduct : calculate 10 ("2*" ++ "(" ++ "7-10" ++ ")" ++ "") = .ok (.int (-6)) := by cbv
  have hproduct' : calculate 10 ("2*" ++ "(" ++ "-3" ++ ")" ++ "") = .ok (.int (-6)) := by cbv
  have hroot : calculate 10 ("sqrt" ++ "(" ++ "7-10" ++ ")" ++ "+") =
      .error (.unexpectedEnd "an operand") := by cbv
  have hroot' : calculate 10 ("sqrt" ++ "(" ++ "-3" ++ ")" ++ "+") =
      .error (.unexpectedEnd "an operand") := by cbv
  constructor
  · rcases calculate_replace_group he hv "2*" "" (by rw [hproduct]; rintro ⟨⟩)
      (by rw [htext, hproduct']; rintro ⟨⟩) with ⟨w, hw, hw', -⟩ | ⟨err, -, herr, -⟩
    · exact ⟨w, hw, hw'⟩
    · cases hproduct.symm.trans herr
  · rcases calculate_replace_group he hv "sqrt" "+" (by rw [hroot]; rintro ⟨⟩)
      (by rw [htext, hroot']; rintro ⟨⟩) with ⟨w, hw, -⟩ | herr
    · cases hroot.symm.trans hw
    · exact herr

end Reckoner
