import Reckoner.Proofs.ExactValues
import Reckoner.Proofs.Groups
import Reckoner.Proofs.Parser.Interruption

/-!
# Printed numbers as expressions

A printed number is an expression again, and with a few exceptions one of the same value
(`printed_is_reread`). No literal has a sign, so a negative number is read as a negation; only the least
integer has no absolute value that could be negated. Doubles in positional form are read back exactly.
Beyond that range a double is printed with an exponent mark (`Decimal.scientificChars_cases`): its digits
up to the mark are a literal, and the mark is read as a name, which stops the lexer before the parser can
object to it.
-/

namespace Reckoner

open Numeral (IsDigits natValue)
open TokenStream (ofSegments ofText)

/-! ## Doubles with an exponent mark -/

namespace Decimal

/-- With an exponent mark there is one digit in front of the point, if there is a point. -/
theorem scientificChars_cases {ds : List Char} (hds : IsDigits ds) (lead : Int) :
    ∃ front sign digits, scientificChars ds lead = front ++ 'e' :: sign :: digits ∧
      (sign = '-' ∨ sign = '+') ∧ ((∃ c, front = [c] ∧ IsDigits [c]) ∨
        ∃ c fraction, front = [c] ++ '.' :: fraction ∧ IsDigits [c] ∧ IsDigits fraction) := by
  obtain ⟨sign, digits, hexponent, hsign⟩ : ∃ sign digits, exponentChars lead = 'e' :: sign :: digits ∧
      (sign = '-' ∨ sign = '+') := by
    refine ⟨_, _, rfl, ?_⟩
    split
    · exact .inl rfl
    · exact .inr rfl
  have hfirst {c : Char} {cs : List Char} (h : IsDigits (c :: cs)) : IsDigits [c] :=
    h.of_subset nofun (by simp)
  match ds, hds with
  | [c], hds =>
    refine ⟨[c], sign, digits, ?_, hsign, .inl ⟨c, rfl, hds⟩⟩
    change [c] ++ exponentChars lead = _
    rw [hexponent]
  | c :: second :: rest, hds =>
    refine ⟨[c] ++ '.' :: second :: rest, sign, digits, ?_, hsign, .inr ⟨c, _, rfl, hfirst hds, ?_⟩⟩
    · rw [scientificChars, hexponent, List.append_assoc]
      rfl
    · exact hds.of_subset nofun (by simp)

end Decimal

/-- A quotient of less than ten is not rounded to infinity. -/
theorem Binary64.nearest_lt_of_lt_ten {num den : Nat} (hden : den ≠ 0) (h : num < 10 * den) :
    nearest num den < infinityWord := by
  have hten : nearest 10 1 < infinityWord := nearest_one_lt (by decide)
  have hvalue : value (nearest 10 1) = 10 := nearest_one_of_lt (by decide)
  have hpos : (0 : ℚ) < den := by exact_mod_cast Nat.pos_of_ne_zero hden
  have hle := (isNearest_nearest num hden).value_le hten.le (u := nearest 10 1) (by
    rw [hvalue, div_le_iff₀ hpos]
    exact_mod_cast h.le)
  exact lt_of_le_of_lt (value_strictMono.le_iff_le.mp hle) hten

namespace Number

theorem ofLiteral_digit {c : Char} (hc : IsDigits [c]) :
    ofLiteral [c] = .ok (int (natValue [c])) := by
  have hshort : ¬Numeral.Overlong [c] :=
    fun h => absurd h.2.1 (Nat.not_lt_of_le (show 1 ≤ maxDigits by decide))
  have hlt : natValue [c] < 10 ^ 1 := Numeral.natValue_lt hc.2
  rw [ofLiteral_digits hc hshort, if_pos]
  unfold intMax
  omega

theorem exists_ofLiteral_digit_point {c : Char} {fraction : List Char} (hc : IsDigits [c])
    (hfraction : IsDigits fraction) : ∃ x, ofLiteral ([c] ++ '.' :: fraction) = .ok (float x) := by
  have hlt : natValue ([c] ++ fraction) < 10 ^ (fraction.length + 1) :=
    Numeral.natValue_lt (List.forall_mem_append.mpr ⟨hc.2, hfraction.2⟩)
  have hword : Binary64.nearest (natValue ([c] ++ fraction)) (powerOfTen fraction.length) <
      Binary64.infinityWord := by
    apply Binary64.nearest_lt_of_lt_ten (powerOfTen_ne_zero _)
    rw [powerOfTen_eq, ← Nat.pow_succ']
    exact hlt
  rw [ofLiteral_fraction hc hfraction]
  exact ⟨_, if_pos (Binary64.isFinite_ofWord hword)⟩

/-- Outside of the range of positional form a double is printed as a literal and an exponent mark. -/
theorem exists_text_scientific {x : Float} (hx : x.isFinite = true) (hout : ¬(float x).Printable) :
    ∃ front sign digits u, (float x).text.toList =
        Binary64.signChars x ++ (front ++ 'e' :: sign :: digits) ∧
      (sign = '-' ∨ sign = '+') ∧ ofLiteral front = .ok u := by
  have hlt := Binary64.magnitude_lt hx
  have hpos : Binary64.magnitude x ≠ 0 :=
    fun hzero => hout (.inl (Binary64.value_eq_zero_iff.mpr hzero))
  have hdigits := Decimal.isDigits_digitChars (Decimal.coefficient_shortest_ne_zero hlt hpos)
  have hrange := mt (Decimal.positional_shortest_iff hlt hpos).mp fun hrange => hout (.inr hrange)
  have hscientific : (Decimal.shortest (Binary64.magnitude x)).chars .plain =
      Decimal.scientificChars _ _ := if_neg hrange
  obtain ⟨front, sign, digits, hchars, hsign, hfront⟩ := Decimal.scientificChars_cases hdigits _
  rw [toList_text_float hx, if_neg hpos, hscientific, hchars]
  rcases hfront with ⟨c, rfl, hc⟩ | ⟨c, fraction, rfl, hc, hfraction⟩
  · exact ⟨_, sign, digits, _, rfl, hsign, ofLiteral_digit hc⟩
  · obtain ⟨y, hy⟩ := exists_ofLiteral_digit_point hc hfraction
    exact ⟨_, sign, digits, _, rfl, hsign, hy⟩

end Number

/-! ## Tokens of printed numbers -/

/-- A literal in front of an exponent mark is a token of its own, and the mark is a name that no function
has. -/
theorem ofSegments_exponent {front digits : List Char} {u : Number}
    (hfront : Number.ofLiteral front = .ok u) {sign : Char} (hsign : sign = '-' ∨ sign = '+')
    (pos : Nat) : ofSegments (Segment.cut pos (front ++ 'e' :: sign :: digits)) =
      ⟨[⟨.number, .number u, pos⟩], some (.unknownFunction "e")⟩ := by
  obtain ⟨c, cs, hchars, hcls, hrun⟩ := (Lexeme.number front u hfront).chars_cut
  have hfirst : Segment.cut pos (front ++ 'e' :: sign :: digits) =
      ⟨.numeral, front, pos⟩ :: Segment.cut (pos + front.length) ('e' :: sign :: digits) := by
    have hchars : front = c :: cs := hchars
    have hmark : ∀ d ∈ ('e' :: sign :: digits).head?, (CharClass.of c).extends? d = false := by
      rw [hcls]
      rintro _ ⟨⟩
      rfl
    rw [hchars, List.cons_append, Segment.cut_append (hcls ▸ hrun) hmark, hcls]
    rfl
  have hsecond : Segment.cut (pos + front.length) ('e' :: sign :: digits) =
      ⟨.word, ['e'], pos + front.length⟩ :: Segment.cut (pos + front.length + 1) (sign :: digits) := by
    have hends : ∀ d ∈ (sign :: digits).head?, (CharClass.of 'e').extends? d = false := by
      rintro _ ⟨⟩
      rcases hsign with rfl | rfl <;> rfl
    exact @Segment.cut_append 'e' [] (sign :: digits) nofun hends (pos + front.length)
  have hname : Segment.token? ⟨.word, ['e'], pos + front.length⟩ = .error (.unknownFunction "e") := rfl
  have hnumber : Segment.token? ⟨.numeral, front, pos⟩ = .ok (some ⟨.number, .number u, pos⟩) :=
    (Lexeme.number front u hfront).token?_eq pos
  rw [hfirst, hsecond, ofSegments, hnumber]
  dsimp only
  rw [ofSegments, hname]

theorem Segment.cut_digits {ds : List Char} (h : IsDigits ds) (pos : Nat) :
    cut pos ds = [⟨.numeral, ds, pos⟩] := by
  obtain ⟨hne, hall⟩ := h
  obtain ⟨c, cs, rfl⟩ := List.exists_cons_of_ne_nil hne
  obtain ⟨hc, hcs⟩ := List.forall_mem_cons.mp hall
  have hcls := CharClass.of_digit hc
  have hrun : ∀ d ∈ cs, (CharClass.of c).extends? d = true := by
    intro d hd
    rw [hcls, CharClass.extends?, hcs d hd, Bool.true_or]
  have hcut := @Segment.cut_append c cs [] hrun (by simp) pos
  rw [List.append_nil, hcls, cut] at hcut
  exact hcut

/-- A minus sign in front of a text is a token of its own. -/
theorem ofText_minus {text : String} {cs : List Char} (h : text.toList = '-' :: cs) :
    ofText text = ⟨⟨.operator, .text "-", 0⟩ :: (ofSegments (Segment.cut 1 cs)).pending,
      (ofSegments (Segment.cut 1 cs)).failure⟩ := by
  have hmark : Segment.cut 0 ('-' :: cs) = ⟨.single, ['-'], 0⟩ :: Segment.cut 1 cs := by
    have hcut := Segment.cut_mark (m := '-') rfl 0 [] cs
    rw [Segment.cut] at hcut
    exact hcut
  rw [ofText, TokenStream.ofChars, h, hmark]
  rfl

/-! ## Calculations -/

/-- Where the parser would take all tokens, it comes upon the failure behind them. -/
theorem calculate_of_takesAll {limit : Nat} {text : String} {ts : List Token} {e : CalcError}
    (htext : ofText text = ⟨ts, some e⟩) (hall : Parser.TakesAll limit ts)
    (he : ∀ rest, ¬Parser.Fault limit ts rest e) : calculate limit text = .error e := by
  rw [calculate, parseText, htext, (Parser.parse_eq_failure_iff he).mpr hall]
  rfl

theorem Spells.takesAll {limit : Nat} {ts : List Token} {x : Expr} (h : Spells .expr ts x)
    (hlimit : ts.length ≤ limit) : Parser.TakesAll limit ts :=
  ⟨.ok x, Parser.whole_of_spells h hlimit⟩

section Rereading

variable {limit : Nat} (hlimit : 2 ≤ limit)

include hlimit

theorem calculate_text_of_printable {v : Number} (hvalid : v.Valid) (hv : v.Printable) :
    calculate limit v.text = .ok v := by
  obtain ⟨ts, x, htext, hx, heval, hlength, hheight⟩ := exists_spells_text hvalid hv
  have hparse : parseText limit v.text = .ok x := by
    rw [parseText, htext]
    exact parseTokens_of_spells hx (hlength.trans hlimit)
  rw [calculate, hparse]
  change x.evalWithin limit = .ok v
  rw [Expr.evalWithin_eq_eval (by omega), heval]

theorem calculate_text_intMin :
    calculate limit (Number.int Number.intMin).text =
      .error (.invalidNumber "9223372036854775808") := by
  have hchars : (Number.int Number.intMin).text.toList =
      '-' :: Nat.toDigits 10 9223372036854775808 := rfl
  have htoken : Segment.token? ⟨.numeral, Nat.toDigits 10 9223372036854775808, 1⟩ =
      .error (.invalidNumber "9223372036854775808") := rfl
  have hdigits := Segment.cut_digits (Numeral.isDigits_toDigits 9223372036854775808) 1
  have htext : ofText (Number.int Number.intMin).text =
      ⟨[⟨.operator, .text "-", 0⟩], some (.invalidNumber "9223372036854775808")⟩ := by
    rw [ofText_minus hchars, hdigits, ofSegments, htoken]
  obtain ⟨n, rfl⟩ : ∃ n, limit = n + 2 := ⟨limit - 2, by omega⟩
  refine calculate_of_takesAll htext ⟨.error (.unexpectedEnd Parser.operandName), rfl⟩ ?_
  rintro rest ⟨⟩

theorem calculate_text_scientific {x : Float} (hx : x.isFinite = true)
    (hout : ¬(Number.float x).Printable) :
    calculate limit (Number.float x).text = .error (.unknownFunction "e") := by
  obtain ⟨front, sign, digits, u, htext, hsign, hliteral⟩ := Number.exists_text_scientific hx hout
  have hfault {ts : List Token} (rest : List Token) :
      ¬Parser.Fault limit ts rest (.unknownFunction "e") := by
    rintro ⟨⟩
  rw [Binary64.signChars] at htext
  split at htext
  · rw [List.singleton_append] at htext
    have hstream := ofText_minus htext
    rw [ofSegments_exponent hliteral hsign] at hstream
    have hspells : Spells .expr [⟨.operator, .text "-", 0⟩, ⟨.number, .number u, 1⟩] _ :=
      .ofTerm (.ofUnary (.negation (.ofPrimary (.number rfl))))
    exact calculate_of_takesAll hstream (hspells.takesAll hlimit) hfault
  · have hstream : ofText (Number.float x).text =
        ⟨[⟨.number, .number u, 0⟩], some (.unknownFunction "e")⟩ := by
      rw [ofText, TokenStream.ofChars, htext]
      exact ofSegments_exponent hliteral hsign 0
    have hspells : Spells .expr [⟨.number, .number u, 0⟩] _ :=
      .ofTerm (.ofUnary (.ofPrimary (.number rfl)))
    exact calculate_of_takesAll hstream (hspells.takesAll (one_le_two.trans hlimit)) hfault

/-- **A printed number is read back**, unless it is the least integer, whose absolute value is no
literal, or a double that is printed with an exponent mark, which is no function. -/
theorem printed_is_reread :
    (∀ n, Number.Fits n → n ≠ Number.intMin →
      calculate limit (Number.int n).text = .ok (.int n) ∧ (Number.int n == .int n) = true) ∧
    calculate limit (Number.int Number.intMin).text =
      .error (.invalidNumber "9223372036854775808") ∧
    ∀ x : Float, x.isFinite = true →
      (Binary64.toRat x = 0 ∨ 10 ^ (-4 : Int) ≤ |Binary64.toRat x| ∧ |Binary64.toRat x| < 10 ^ 16 →
        calculate limit (Number.float x).text = .ok (.float x) ∧
          (Number.float x == .float x) = true) ∧
      (¬(Binary64.toRat x = 0 ∨ 10 ^ (-4 : Int) ≤ |Binary64.toRat x| ∧ |Binary64.toRat x| < 10 ^ 16) →
        calculate limit (Number.float x).text = .error (.unknownFunction "e")) := by
  refine ⟨fun n hn hne => ?_, calculate_text_intMin hlimit, fun x hx => ?_⟩
  · have hvalid : (Number.int n).Valid := hn
    exact ⟨calculate_text_of_printable hlimit hvalid hne, Number.beq_self hvalid⟩
  · have hvalid : (Number.float x).Valid := hx
    have hprintable : (Number.float x).Printable ↔ Binary64.toRat x = 0 ∨
        10 ^ (-4 : Int) ≤ |Binary64.toRat x| ∧ |Binary64.toRat x| < 10 ^ 16 := by
      rw [← abs_eq_zero, Binary64.abs_toRat hx]
      exact Iff.rfl
    rw [← hprintable]
    exact ⟨fun h => ⟨calculate_text_of_printable hlimit hvalid h, Number.beq_self hvalid⟩,
      calculate_text_scientific hlimit hx⟩

end Rereading

/-- Negative zero, and the double `2 ^ 54`. -/
theorem printed_is_reread_doubles :
    calculate nestingLimit (Number.float (Binary64.ofWord true 0)).text =
        .ok (.float (Binary64.ofWord true 0)) ∧
      calculate nestingLimit (Number.float (Binary64.ofWord false (1077 * Binary64.hiddenBit))).text =
        .error (.unknownFunction "e") := by
  obtain ⟨-, -, hdoubles⟩ := @printed_is_reread nestingLimit (by decide)
  constructor
  · have hzero := Binary64.toRat_ofWord_zero true
    exact ((hdoubles _ (Binary64.isFinite_ofWord (by decide))).1 (.inl hzero)).1
  · have hlarge : (10 : ℚ) ^ 16 ≤ Binary64.toRat (Binary64.ofWord false (1077 * Binary64.hiddenBit)) := by
      have hvalue := @Binary64.value_word 2 Binary64.hiddenBit (by decide) (by decide)
        (.inr (Nat.le_refl _))
      have hword : (2 + 1074 : Int).toNat * Binary64.hiddenBit + Binary64.hiddenBit =
          1077 * Binary64.hiddenBit := by decide
      rw [hword] at hvalue
      rw [Binary64.toRat_ofWord (by decide), if_neg nofun, hvalue]
      norm_num [Binary64.hiddenBit]
    refine (hdoubles _ (Binary64.isFinite_ofWord (by decide))).2 ?_
    rintro (hzero | ⟨-, hlt⟩)
    · rw [hzero] at hlarge
      exact absurd hlarge (by norm_num)
    · exact absurd (hlarge.trans (le_abs_self _)) (not_le_of_gt hlt)

end Reckoner
