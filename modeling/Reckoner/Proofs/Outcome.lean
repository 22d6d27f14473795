import Reckoner.Proofs.Lexed
import Reckoner.Proofs.Parser.Interruption
import Reckoner.Proofs.Traps

/-!
# How a calculation ends

Whatever the text and the limit on nesting, a calculation ends with a valid number or with an error of
one of its stages, and of the traps of the primitive operations under it only one is reached: an
integer literal can have more digits than are converted and still pass the check in front, which counts
significant digits only. `MeetsOverlong` says exactly when that happens.
-/

namespace Reckoner

open TokenStream (ofText ofTokens)

/-! ## Trees from tokens of a text -/

/-- The property passes from operands to what is built of them with known operators and functions. -/
structure Expr.Hereditary (P : Expr → Prop) : Prop where
  binary (op : Operator) {l r : Expr} : P l → P r → P (.binary op.symbol l r)
  call (f : MathFunction) {args : List Expr} :
    args.length = f.arity → (∀ a ∈ args, P a) → P (.call f.name args)
  negate {e : Expr} : P e → P (.negate e)

mutual

theorem Spells.hereditary {P : Expr → Prop} (hP : Expr.Hereditary P) {p : Phrase}
    {ts : List Token} {e : Expr} :
    Spells p ts e → (∀ t ∈ ts, t.kind = .number → P (.literal t.value)) → P e
  | .ofTerm h | .ofUnary h | .ofPrimary h => h.hereditary hP
  | .sum hop hl hr => by
    intro hts
    have hleft := hl.hereditary hP fun t ht => hts t (by simp [ht])
    have hright := hr.hereditary hP fun t ht => hts t (by simp [ht])
    simp only [List.mem_cons, List.not_mem_nil, or_false] at hop
    rcases hop with rfl | rfl
    · exact hP.binary .add hleft hright
    · exact hP.binary .sub hleft hright
  | .product hop hl hr => by
    intro hts
    have hleft := hl.hereditary hP fun t ht => hts t (by simp [ht])
    have hright := hr.hereditary hP fun t ht => hts t (by simp [ht])
    simp only [List.mem_cons, List.not_mem_nil, or_false] at hop
    rcases hop with rfl | rfl
    · exact hP.binary .mul hleft hright
    · exact hP.binary .div hleft hright
  | .negation h =>
    fun hts => hP.negate (h.hereditary hP fun t ht => hts t (List.mem_cons_of_mem _ ht))
  | .number ht => fun hts => hts _ List.mem_cons_self ht
  | .group _ h _ => fun hts => h.hereditary hP fun t ht => hts t (by simp [ht])
  | .call _ _ _ h _ harity => fun hts =>
    hP.call _ harity (h.hereditary hP fun t ht => hts t (by simp [ht]))

theorem SpellsArgs.hereditary {P : Expr → Prop} (hP : Expr.Hereditary P) {ts : List Token}
    {es : List Expr} :
    SpellsArgs ts es → (∀ t ∈ ts, t.kind = .number → P (.literal t.value)) → ∀ e ∈ es, P e
  | .last h => by
    intro hts e he
    rw [List.mem_singleton.mp he]
    exact h.hereditary hP hts
  | .more h _ hs => by
    have hfirst := h.hereditary hP
    have hrest := hs.hereditary hP
    intro hts e he
    rcases List.mem_cons.mp he with rfl | he
    · exact hfirst fun t ht => hts t (by simp [ht])
    · exact hrest (fun t ht => hts t (by simp [ht])) e he

end

theorem Spells.wellFormed {p : Phrase} {ts : List Token} {e : Expr} (h : Spells p ts e)
    (hts : ∀ t ∈ ts, t.Lexed) : e.WellFormed := by
  refine h.hereditary ⟨.binary, .call, .negate⟩ fun t ht hkind => ?_
  obtain ⟨v, hv, hvalid⟩ := (hts t ht).number hkind
  rw [hv]
  exact .literal hvalid

/-- The tokens need not stand in one text, or in this order. -/
theorem wellFormed_of_parseTokens {limit : Nat} {ts : List Token} {e : Expr}
    (hts : ∀ t ∈ ts, ∃ text, t ∈ (ofText text).pending) (h : parseTokens limit ts = .ok e) :
    e.WellFormed := by
  refine (TokenStream.spells_of_parse h).wellFormed fun t ht => ?_
  obtain ⟨text, htext⟩ := hts t ht
  exact TokenStream.lexed_ofSegments htext

theorem wellFormed_of_parseText {limit : Nat} {text : String} {e : Expr}
    (h : parseText limit text = .ok e) : e.WellFormed :=
  (TokenStream.spells_of_parse h).wellFormed fun _ ht => TokenStream.lexed_ofSegments ht

/-! ## Ends -/

/-- The calculation on primitive operations with their traps. -/
def Trapping.calculate (limit : Nat) (text : String) : Trapping Number := do
  let e ← of (parseText limit text)
  evalWithin limit e

theorem Trapping.calculate_eq (limit : Nat) (text : String) :
    calculate limit text = of (Reckoner.calculate limit text) :=
  of_bind fun _ he => evalWithin_eq (wellFormed_of_parseText he) limit

/-- An integer literal of the text has more digits than are converted though few enough are
significant, everything in front of it makes tokens, and the parser takes them all. -/
def MeetsOverlong (limit : Nat) (text : String) : Prop :=
  ∃ before s after, Segment.cut 0 text.toList = before ++ s :: after ∧
    (∀ b ∈ before, ∃ o, b.token? = .ok o) ∧ s.cls = .numeral ∧ Numeral.Overlong s.chars ∧
    Parser.TakesAll limit (ofText text).pending

theorem digitLimit_not_fault {limit n : Nat} {text : String} (rest : List Token) :
    ¬Parser.Fault limit (ofText text).pending rest (.digitLimit n) := by
  intro h
  cases h.stage_isSome (TokenStream.namesFunctions_ofText text)

theorem parseText_eq_digitLimit_iff {limit n : Nat} {text : String} :
    parseText limit text = .error (.digitLimit n) ↔
      (ofText text).failure = some (.digitLimit n) ∧
        Parser.TakesAll limit (ofText text).pending := by
  have hiff (hfailure : (ofText text).failure = some (.digitLimit n)) :
      parseText limit text = .error (.digitLimit n) ↔
        Parser.TakesAll limit (ofText text).pending := by
    have hstream : ofText text = ⟨(ofText text).pending, some (.digitLimit n)⟩ := by
      rw [← hfailure]
    rw [parseText, hstream]
    exact Parser.parse_eq_failure_iff digitLimit_not_fault
  constructor
  · intro h
    rcases TokenStream.fault_of_parse h with hfailure | ⟨rest, hfault⟩
    · exact ⟨hfailure, (hiff hfailure).mp h⟩
    · exact absurd hfault (digitLimit_not_fault rest)
  · rintro ⟨hfailure, hall⟩
    exact (hiff hfailure).mpr hall

theorem meetsOverlong_iff_parseText {limit : Nat} {text : String} :
    MeetsOverlong limit text ↔ ∃ n, parseText limit text = .error (.digitLimit n) := by
  simp only [parseText_eq_digitLimit_iff]
  constructor
  · rintro ⟨before, s, after, hcut, hbefore, hcls, hlong, hall⟩
    have htoken := Segment.token?_eq_digitLimit_iff.mpr ⟨hcls, hlong, rfl⟩
    exact ⟨_, TokenStream.failure_ofSegments_iff.mpr ⟨before, s, after, hcut, hbefore, htoken⟩, hall⟩
  · rintro ⟨n, hfailure, hall⟩
    obtain ⟨before, s, after, hcut, hbefore, htoken⟩ :=
      TokenStream.failure_ofSegments_iff.mp hfailure
    obtain ⟨hcls, hlong, -⟩ := Segment.token?_eq_digitLimit_iff.mp htoken
    exact ⟨before, s, after, hcut, hbefore, hcls, hlong, hall⟩

/-- So many zeros are more than are converted, though none of them is significant. -/
theorem meetsOverlong_zeros (limit : Nat) {n : Nat} (h : maxDigits < n) :
    MeetsOverlong limit (String.ofList (List.replicate n '0')) := by
  obtain ⟨k, rfl⟩ := Nat.exists_eq_succ_of_ne_zero (Nat.ne_zero_of_lt h)
  have hcut : Segment.cut 0 (List.replicate (k + 1) '0') =
      [⟨.numeral, List.replicate (k + 1) '0', 0⟩] := by
    have hclass : CharClass.of '0' = .numeral := by decide
    rw [List.replicate_succ, Segment.cut]
    simp [hclass, CharClass.extends?, Segment.cut]
  have hlong : Numeral.Overlong (List.replicate (k + 1) '0') := by
    refine ⟨by simp, by simpa using h, ?_⟩
    simp [Numeral.significantDigits]
  have hpending : (ofText (String.ofList (List.replicate (k + 1) '0'))).pending = [] := by
    have htoken : Segment.token? ⟨.numeral, List.replicate (k + 1) '0', 0⟩ = .error _ :=
      Segment.token?_eq_digitLimit_iff.mpr ⟨rfl, hlong, rfl⟩
    rw [TokenStream.ofText, TokenStream.ofChars, String.toList_ofList, hcut, TokenStream.ofSegments,
      htoken]
  refine ⟨[], _, [], by rw [String.toList_ofList, hcut]; rfl, fun b hb => ?_, rfl, hlong, ?_⟩
  · cases hb
  · rw [hpending]
    exact ⟨.error (.unexpectedEnd Parser.operandName), rfl⟩

/-- What keeps a text from having a tree belongs to a stage, but for the limit on digits. -/
theorem stage_of_parseText {limit : Nat} {text : String} {err : CalcError}
    (h : parseText limit text = .error err) : err.stage?.isSome ∨ ∃ n, err = .digitLimit n := by
  rcases TokenStream.fault_of_parse h with hfailure | ⟨rest, hfault⟩
  · refine (TokenStream.stage_of_failure hfailure).imp_left fun hstage => ?_
    rw [hstage]
    rfl
  · exact .inl (hfault.stage_isSome (TokenStream.namesFunctions_ofText text))

theorem valid_of_calculate {limit : Nat} {text : String} {v : Number}
    (h : calculate limit text = .ok v) : v.Valid := by
  obtain ⟨e, he, hv⟩ := ok_of_bind h
  exact ((wellFormed_of_parseText he).evaluates limit).ok hv

theorem stage_of_calculate {limit : Nat} {text : String} {err : CalcError}
    (h : calculate limit text = .error err) : err.stage?.isSome ∨ ∃ n, err = .digitLimit n := by
  rcases error_of_bind h with h | ⟨e, he, h⟩
  · exact stage_of_parseText h
  · rw [(((wellFormed_of_parseText he).evaluates limit).error h).stage_eq]
    exact .inl rfl

theorem meetsOverlong_iff {limit : Nat} {text : String} :
    MeetsOverlong limit text ↔ ∃ n, calculate limit text = .error (.digitLimit n) := by
  rw [meetsOverlong_iff_parseText]
  constructor
  · rintro ⟨n, h⟩
    exact ⟨n, by rw [calculate, h]; rfl⟩
  · rintro ⟨n, h⟩
    rcases error_of_bind h with h | ⟨e, he, h⟩
    · exact ⟨n, h⟩
    · cases (((wellFormed_of_parseText he).evaluates limit).error h).stage_eq

theorem CalcError.IsArithmetic.stop_eq {err : CalcError} (h : err.IsArithmetic) :
    err.stop = .error err := by
  cases err <;> first | rfl | cases h

/-- **Evaluation is total on well-formed trees.** It ends with a valid number or with one of the
errors of arithmetic, and no primitive operation under it traps. -/
theorem Trapping.evalWithin_ends {e : Expr} {depth : Nat}
    (he : e.WellFormed ∨ ∃ limit ts, (∀ t ∈ ts, ∃ text, t ∈ (ofText text).pending) ∧
      parseTokens limit ts = .ok e)
    (hdepth : e.height < depth) :
    evalWithin depth e = of e.eval ∧
      ((∃ v, evalWithin depth e = .ok v ∧ v.Valid) ∨
        ∃ err, evalWithin depth e = .error (.error err) ∧ err.IsArithmetic) := by
  have he : e.WellFormed := by
    rcases he with he | ⟨limit, ts, hts, hparse⟩
    · exact he
    · exact wellFormed_of_parseTokens hts hparse
  have heval : evalWithin depth e = of (e.evalWithin depth) := evalWithin_eq he depth
  refine ⟨heval.trans (by rw [Expr.evalWithin_eq_eval hdepth]), ?_⟩
  cases hrun : e.evalWithin depth with
  | ok v => exact .inl ⟨v, by rw [heval, hrun]; rfl, (he.evaluates depth).ok hrun⟩
  | error err =>
    have harithmetic : err.IsArithmetic := by
      rcases (he.evaluates depth).error hrun with h | ⟨-, h⟩
      · exact h
      · omega
    exact .inr ⟨err, by rw [heval, hrun, of_error, harithmetic.stop_eq], harithmetic⟩

/-- `1 / acos(2)` -/
theorem Trapping.evalWithin_quotient :
    (∃ v, evalWithin 3 (.binary "/" (.literal (.number (.int 1)))
        (.call "acos" [.literal (.number (.int 2))])) = .ok v ∧ v.Valid) ∨
      ∃ err, evalWithin 3 (.binary "/" (.literal (.number (.int 1)))
        (.call "acos" [.literal (.number (.int 2))])) = .error (.error err) ∧ err.IsArithmetic :=
  (evalWithin_ends (.inl (.binary .div (.literal (by decide))
    (.call .acos rfl fun a ha => List.mem_singleton.mp ha ▸ .literal (by decide))))
    (by simp [Expr.height])).2

theorem CalcError.stop_of_stage {err : CalcError} (h : err.stage?.isSome) :
    err.stop = .error err := by
  cases err <;> first | rfl | cases h

/-- **No trap is reached but one.** A calculation ends with a valid number, with an error of one of
its stages, or at an integer literal with too many digits, exactly if the text has one that is met. -/
theorem Trapping.calculate_traps_iff (limit : Nat) (text : String) :
    (∀ s ∈ Segment.cut 0 text.toList, token? s = of s.token?) ∧
    calculate limit text = of (Reckoner.calculate limit text) ∧
    ((∃ v, calculate limit text = .ok v ∧ v.Valid) ∨
      (∃ err, calculate limit text = .error (.error err) ∧ err.stage?.isSome) ∨
      calculate limit text = .error (.trap .value)) ∧
    ∀ t, calculate limit text = .error (.trap t) ↔ t = .value ∧ MeetsOverlong limit text := by
  have hcalculate := calculate_eq limit text
  refine ⟨fun s _ => token?_eq s, hcalculate, ?_⟩
  rw [hcalculate, meetsOverlong_iff]
  cases hrun : Reckoner.calculate limit text with
  | ok v =>
    refine ⟨.inl ⟨v, rfl, valid_of_calculate hrun⟩, fun t => ⟨nofun, ?_⟩⟩
    rintro ⟨-, n, h⟩
    cases h
  | error err =>
    rw [of_error]
    rcases stage_of_calculate hrun with hstage | ⟨n, rfl⟩
    · rw [CalcError.stop_of_stage hstage]
      refine ⟨.inr (.inl ⟨err, rfl, hstage⟩), fun t => ⟨nofun, ?_⟩⟩
      rintro ⟨-, n, h⟩
      cases h
      cases hstage
    · refine ⟨.inr (.inr rfl), fun t => ⟨fun h => ?_, ?_⟩⟩
      · cases h
        exact ⟨rfl, n, rfl⟩
      · rintro ⟨rfl, -⟩
        rfl

end Reckoner
