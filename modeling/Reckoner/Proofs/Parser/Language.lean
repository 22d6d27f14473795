import Reckoner.Calculation
import Reckoner.Proofs.Parser.Completeness
import Reckoner.Proofs.Parser.Soundness

/-!
# The language of the parser

Soundness and completeness together: on a complete sequence of tokens the parser answers a tree
exactly when the tokens spell it, so no tokens spell two trees. When they spell none, the error is
one of parsing. More nested operands than tokens cannot be, so a limit above the number of tokens is
no limit.
-/

namespace Reckoner

open TokenStream (ofTokens)

namespace Parser

theorem Fault.stage_eq {d : Nat} {ts rest : List Token} {e : CalcError} (h : Fault d ts rest e)
    (hd : ts.length < d) (hnames : NamesFunctions ts) : e.stage? = some .parsing := by
  cases h with
  | ended | unexpected | arity => rfl
  | nesting h => exact absurd hd (Nat.not_lt_of_le h)
  | key ht hkind h =>
    have hsome := hnames _ ht hkind
    rw [h] at hsome
    cases hsome

theorem Fault.stage_isSome {d : Nat} {ts rest : List Token} {e : CalcError}
    (h : Fault d ts rest e) (hnames : NamesFunctions ts) : e.stage?.isSome := by
  cases h with
  | ended | unexpected | arity | nesting => rfl
  | key ht hkind h =>
    have hsome := hnames _ ht hkind
    rw [h] at hsome
    cases hsome

theorem whole_of_spells {d : Nat} {ts : List Token} {e : Expr} (h : Spells .expr ts e)
    (hd : ts.length ≤ d) : whole d (ofTokens ts) = .ok e (ofTokens []) := by
  obtain ⟨t, us, hts, -⟩ := h.head
  have he : expr d (ofTokens (ts ++ [])) = .ok e (ofTokens []) :=
    (h.accepts d hd).expr_eq (by simp)
  have hnext : (ofTokens ts).lookahead.isNone = false := by rw [hts]; rfl
  rw [List.append_nil] at he
  rw [whole, get_bind, hnext]
  exact bind_of_ok he

end Parser

theorem TokenStream.opened_ofTokens (ts : List Token) :
    (ofTokens ts).opened = .ok (ofTokens ts) := by
  cases ts <;> rfl

theorem parseTokens_of_ok {limit : Nat} {ts : List Token} {e : Expr} {s : TokenStream}
    (h : Parser.whole limit (ofTokens ts) = .ok e s) : parseTokens limit ts = .ok e :=
  Parser.run_of_ok (TokenStream.opened_ofTokens ts) h

theorem parseTokens_of_error {limit : Nat} {ts : List Token} {e : CalcError} {s : TokenStream}
    (h : Parser.whole limit (ofTokens ts) = .error e s) : parseTokens limit ts = .error e :=
  Parser.run_of_error (TokenStream.opened_ofTokens ts) h

theorem parseTokens_of_spells {limit : Nat} {ts : List Token} {e : Expr} (h : Spells .expr ts e)
    (hlimit : ts.length ≤ limit) : parseTokens limit ts = .ok e :=
  parseTokens_of_ok (Parser.whole_of_spells h hlimit)

namespace TokenStream

theorem opened_cases (s : TokenStream) :
    s.opened = .ok s ∨ ∃ e, s.opened = .error e ∧ s.failure = some e := by
  rcases s with ⟨_ | ⟨t, ts⟩, _ | e⟩
  · exact .inl rfl
  · exact .inr ⟨e, rfl, rfl⟩
  · exact .inl rfl
  · exact .inl rfl

/-- What is parsed as a tree spells it. -/
theorem spells_of_parse {limit : Nat} {s : TokenStream} {e : Expr} (h : s.parse limit = .ok e) :
    Spells .expr s.pending e := by
  rcases s.opened_cases with hs | ⟨err, hs, -⟩
  · rcases hrun : Parser.whole limit s with ⟨e', s'⟩ | ⟨err, s'⟩
    · cases (Parser.run_of_ok hs hrun).symm.trans h
      obtain ⟨us, -, -, rfl, he⟩ := (Parser.whole_parses limit s).ok hrun
      exact he
    · cases (Parser.run_of_error hs hrun).symm.trans h
  · cases (Parser.run_of_opened hs).symm.trans h

/-- Where parsing fails there is a fault in the tokens, or the error behind them has come up. -/
theorem fault_of_parse {limit : Nat} {s : TokenStream} {err : CalcError}
    (h : s.parse limit = .error err) :
    s.failure = some err ∨ ∃ rest, Parser.Fault limit s.pending rest err := by
  rcases s.opened_cases with hs | ⟨err', hs, hfailure⟩
  · rcases hrun : Parser.whole limit s with ⟨e, s'⟩ | ⟨err', s'⟩
    · cases (Parser.run_of_ok hs hrun).symm.trans h
    · cases (Parser.run_of_error hs hrun).symm.trans h
      exact ((Parser.whole_parses limit s).error hrun).imp_right fun ⟨_, _, _, hfault⟩ => ⟨_, hfault⟩
  · cases (Parser.run_of_opened hs).symm.trans h
    exact .inl hfailure

end TokenStream

/-- **The parser decides the grammar.** It answers a tree exactly if the tokens spell it, fails with
an error of parsing if they spell none, and they never spell two. -/
theorem parseTokens_decides_spells {limit : Nat} {ts : List Token} (hlimit : ts.length < limit)
    (hnames : NamesFunctions ts) :
    (∀ e, parseTokens limit ts = .ok e ↔ Spells .expr ts e) ∧
      ((¬∃ e, Spells .expr ts e) →
        ∃ err, parseTokens limit ts = .error err ∧ err.stage? = some .parsing) ∧
      ∀ e e', Spells .expr ts e → Spells .expr ts e' → e = e' := by
  have hiff : ∀ e, parseTokens limit ts = .ok e ↔ Spells .expr ts e := fun e =>
    ⟨TokenStream.spells_of_parse, fun h => parseTokens_of_spells h (Nat.le_of_lt hlimit)⟩
  refine ⟨hiff, fun hnone => ?_, fun e e' he he' => ?_⟩
  · cases hrun : parseTokens limit ts with
    | ok e => exact absurd ⟨e, (hiff e).mp hrun⟩ hnone
    | error err =>
      obtain ⟨rest, hfault⟩ := (TokenStream.fault_of_parse hrun).resolve_left nofun
      exact ⟨err, rfl, hfault.stage_eq hlimit hnames⟩
  · have hrun := (hiff e).mpr he
    exact Except.ok.inj (hrun.symm.trans ((hiff e').mpr he'))

/-- `-2 * pow(3, 4)` -/
theorem parseTokens_decides_spells_product :
    Spells .expr
      [⟨.operator, .text "-", 0⟩, ⟨.number, .number (.int 2), 1⟩, ⟨.operator, .text "*", 3⟩,
        ⟨.function, .text "pow", 5⟩, ⟨.lparen, .text "(", 8⟩, ⟨.number, .number (.int 3), 9⟩,
        ⟨.comma, .text ",", 10⟩, ⟨.number, .number (.int 4), 12⟩, ⟨.rparen, .text ")", 13⟩]
      (.binary "*" (.negate (.literal (.number (.int 2))))
        (.call "pow" [.literal (.number (.int 3)), .literal (.number (.int 4))])) :=
  ((@parseTokens_decides_spells 10 _ (by decide) (by decide)).1 _).mp rfl

end Reckoner
