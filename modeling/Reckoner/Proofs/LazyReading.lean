import Reckoner.Proofs.Lexed
import Reckoner.Proofs.Parser.Interruption
import Reckoner.Run

/-!
# Reading tokens as they are made

A calculation makes tokens while it parses, a run makes them all before. On a text whose tokens can
all be made the two agree. On any other the run fails with the error of the lexer; the calculation
fails as well, with that error or with an error of parsing that it meets earlier. In the latter case
the tokens in front of the lexer's error are no beginning of an expression: the same error of
parsing arises whatever follows them.
-/

namespace Reckoner

open TokenStream (ofText ofTokens)

/-! ## The stages of a run -/

namespace Run

variable {α β : Type}

/-- The answer of a run that starts with the transcript. -/
def answer (r : Run α) (t : Transcript) : Except CalcError α :=
  match r t with
  | .ok a _ => .ok a
  | .error e _ => .error e

/-- The run answers `x`, whatever has been printed and noted before. -/
def Answers (r : Run α) (x : Except CalcError α) : Prop :=
  ∀ t, answer r t = x

theorem Answers.pure (a : α) : Answers (Pure.pure a) (.ok a) :=
  fun _ => rfl

theorem Answers.stage_bind {x : Except CalcError α} {f : α → Run β} {g : α → Except CalcError β}
    (h : ∀ a, x = .ok a → Answers (f a) (g a)) : Answers (stage x >>= f) (x >>= g) := by
  intro t
  cases x with
  | ok a => exact h a rfl t
  | error e => rfl

theorem Answers.stage_ok {x : Except CalcError α} {f : α → Run β} {y : Except CalcError β} {a : α}
    (hx : x = .ok a) (h : Answers (f a) y) : Answers (stage x >>= f) y := by
  rw [hx]
  exact fun t => h t

theorem Answers.print_bind {f : Unit → Run β} {x : Except CalcError β} (line : String)
    (h : Answers (f ()) x) : Answers (print line >>= f) x :=
  fun _ => h _

theorem Answers.note_bind {f : Unit → Run β} {x : Except CalcError β} (options : RunOptions)
    (n : RunNote) (h : Answers (f ()) x) : Answers (note options n >>= f) x := by
  intro t
  unfold note
  split
  · exact h _
  · exact h _

/-- What is printed or noted on the way to the next stage may be left out. -/
theorem Answers.detour {c : Prop} {_ : Decidable c} {r : Run β} {f : Unit → Run β}
    {x : Except CalcError β} (h : Answers (f ()) x) (hr : Answers (f ()) x → Answers r x) :
    Answers (if c then r else f ()) x := by
  by_cases hc : c
  · rw [if_pos hc]
    exact hr h
  · rw [if_neg hc]
    exact h

end Run

/-! ## A run in one expression -/

theorem TokenStream.eq_ofTokens {s : TokenStream} {ts : List Token} (h : s.toList = .ok ts) :
    s = ofTokens ts := by
  rcases s with ⟨us, _ | e⟩ <;> cases h
  rfl

/-- Without its prints and notes a run is its stages one after another; the last of them is putting
the value into words. -/
theorem Run.calculate_answers {options : RunOptions} {text : String}
    (hlimit : (ofText text).pending.length < options.limit) :
    Answers (calculate options text) (do
      let ts ← tokenize text
      let e ← parseTokens options.limit ts
      let v ← e.evalWithin options.limit
      let _ ← v.format options.precision
      pure v) := by
  unfold calculate
  refine .stage_bind fun ts hts => .note_bind _ _ ?_
  refine .detour ?_ fun h => .print_bind _ h
  refine .stage_bind fun e he => ?_
  extract_lets afterTree afterTrace
  -- The limit leaves room for the dump of any tree of this many tokens.
  have hdump : e.dumpWithin options.limit = .ok e.dump := by
    rw [TokenStream.eq_ofTokens hts] at hlimit
    exact if_pos (Nat.lt_trans (TokenStream.spells_of_parse he).height_lt hlimit)
  refine .detour ?_ fun h => .stage_ok hdump (.note_bind _ _ h)
  refine .detour ?_ fun h => .stage_ok hdump (.print_bind _ h)
  refine .stage_bind fun v _ => .note_bind _ _ ?_
  exact .stage_bind fun line _ => .print_bind _ (.pure v)

theorem Number.format_ok {precision : Option Int}
    (hprecision : ∀ digits ∈ precision, PrecisionInRange digits) (v : Number) :
    ∃ line, v.format precision = .ok line := by
  cases v with
  | int n => exact ⟨_, rfl⟩
  | float x =>
    cases precision with
    | none => exact ⟨_, rfl⟩
    | some digits => exact ⟨_, if_pos (hprecision digits rfl)⟩

/-! ## The two ways of reading -/

theorem calculate_of_tokenize {limit : Nat} {text : String} {ts : List Token}
    (h : tokenize text = .ok ts) :
    calculate limit text = parseTokens limit ts >>= fun e => e.evalWithin limit := by
  rw [calculate, parseText, TokenStream.eq_ofTokens h]
  rfl

theorem tokenize_of_isNone {text : String} (h : (ofText text).failure.isNone = true) :
    tokenize text = .ok (ofText text).pending := by
  rw [tokenize, TokenStream.toList, Option.isNone_iff_eq_none.mp h]

/-- Behind a failure of the lexer there is no value. -/
theorem calculate_of_failure {limit : Nat} {text : String} {e : CalcError}
    (hlimit : (ofText text).pending.length < limit) (hfailure : (ofText text).failure = some e) :
    ∃ err, calculate limit text = .error err ∧ err.stage? ≠ some .evaluation ∧
      (err = e ∨ err.stage? = some .parsing ∧ (∀ x, err ≠ .unexpectedEnd x) ∧
        ∀ rest, parseTokens limit ((ofText text).pending ++ rest) = .error err) := by
  have hstream : ofText text = ⟨(ofText text).pending, some e⟩ := by rw [← hfailure]
  have hcalculate {err : CalcError}
      (h : TokenStream.parse limit ⟨(ofText text).pending, some e⟩ = .error err) :
      calculate limit text = .error err := by
    rw [calculate, parseText, hstream, h]
    rfl
  rcases Parser.parse_of_failure e hlimit (TokenStream.namesFunctions_ofText text) with
    h | ⟨err, h, hstage, hend, hrest⟩
  · refine ⟨e, hcalculate h, ?_, .inl rfl⟩
    rcases TokenStream.stage_of_failure hfailure with hstage | ⟨n, rfl⟩
    · rw [hstage]
      exact nofun
    · exact nofun
  · refine ⟨err, hcalculate h, ?_, .inr ⟨hstage, hend, hrest⟩⟩
    rw [hstage]
    exact nofun

/-- **The lazy and the eager reading agree.** If all tokens of a text can be made, a run answers what
the calculation answers; only a precision that cannot be asked for comes on top of that. If the lexer
fails, the run fails with its error, and so does the calculation, unless the tokens before the error
begin no expression: then the error of parsing is one that they have whatever follows them. -/
theorem run_calculate_agrees {options : RunOptions} {text : String}
    (hlimit : (ofText text).pending.length < options.limit) (t : Transcript) :
    (∀ ts, tokenize text = .ok ts →
      Run.answer (Run.calculate options text) t = (do
        let v ← calculate options.limit text
        let _ ← v.format options.precision
        pure v) ∧
      ((∀ digits ∈ options.precision, Number.PrecisionInRange digits) →
        Run.answer (Run.calculate options text) t = calculate options.limit text)) ∧
    ∀ e, tokenize text = .error e →
      Run.answer (Run.calculate options text) t = .error e ∧
      ∃ err, calculate options.limit text = .error err ∧ err.stage? ≠ some .evaluation ∧
        (err = e ∨ err.stage? = some .parsing ∧ (∀ x, err ≠ .unexpectedEnd x) ∧
          ∀ rest, parseTokens options.limit ((ofText text).pending ++ rest) = .error err) := by
  have hrun := Run.calculate_answers hlimit t
  constructor
  · intro ts hts
    rw [hts] at hrun
    have heager : Run.answer (Run.calculate options text) t = (do
        let v ← calculate options.limit text
        let _ ← v.format options.precision
        pure v) := by
      rw [calculate_of_tokenize hts, bind_assoc]
      exact hrun
    refine ⟨heager, fun hprecision => heager.trans ?_⟩
    cases calculate options.limit text with
    | error err => rfl
    | ok v =>
      obtain ⟨line, hline⟩ := v.format_ok hprecision
      change (v.format options.precision >>= fun _ => pure v) = .ok v
      rw [hline]
      rfl
  · intro e he
    rw [he] at hrun
    exact ⟨hrun, calculate_of_failure hlimit (tokenize_eq_error_iff.mp he)⟩

/-- `1 + 2` is read to its end; `1 2 #` fails at the second number or at the mark behind it. -/
theorem run_calculate_agrees_on_samples :
    Run.answer (Run.calculate {} "1 + 2") {} = calculate nestingLimit "1 + 2" ∧
    ∃ e err, Run.answer (Run.calculate {} "1 2 #") {} = .error e ∧
      calculate nestingLimit "1 2 #" = .error err ∧ err.stage? ≠ some .evaluation := by
  have hsum := @run_calculate_agrees {} "1 + 2" (by decide +kernel) {}
  have hmark := @run_calculate_agrees {} "1 2 #" (by decide +kernel) {}
  have hwhole : (ofText "1 + 2").failure.isNone = true := by decide +kernel
  have hbroken : (ofText "1 2 #").failure.isSome = true := by decide +kernel
  obtain ⟨e, he⟩ := Option.isSome_iff_exists.mp hbroken
  obtain ⟨hrun, err, hcalculate, hstage, -⟩ := hmark.2 e (tokenize_eq_error_iff.mpr he)
  refine ⟨(hsum.1 _ (tokenize_of_isNone hwhole)).2 ?_, e, err, hrun, hcalculate, hstage⟩
  intro digits h
  cases h

end Reckoner
