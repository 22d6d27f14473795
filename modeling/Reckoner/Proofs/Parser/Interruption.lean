import Reckoner.Proofs.Parser.Language
import Reckoner.Proofs.Parser.Plan

/-!
# Streams that break off

What the parser answers on tokens behind which the lexer failed. If it takes the last of them, the
error of the lexer is the answer (`parse_eq_failure_iff`). Otherwise it has found an error of its own,
and no other tokens behind them could have prevented it (`parse_of_failure`).
-/

namespace Reckoner

open TokenStream (ofTokens)

namespace Parser

/-- On these tokens alone the parser leaves none. -/
def TakesAll (limit : Nat) (ts : List Token) : Prop :=
  ∃ r, whole limit (ofTokens ts) = ending r (ofTokens [])

theorem opened_of_ne_nil {ts : List Token} (h : ts ≠ []) (failure : Option CalcError) :
    (⟨ts, failure⟩ : TokenStream).opened = .ok ⟨ts, failure⟩ := by
  obtain ⟨t, us, rfl⟩ := List.exists_cons_of_ne_nil h
  rfl

/-- In front of a failure the parser either refuses one of the tokens, and then it does so whatever
follows them, or it comes upon the failure. -/
theorem refuses_or_takesAll (limit : Nat) {ts : List Token} (hts : ts ≠ []) :
    (∃ err v, v ≠ [] ∧ whole limit (ofTokens ts) = .error err (ofTokens v) ∧ Fault limit ts v err ∧
      (∀ e, TokenStream.parse limit ⟨ts, some e⟩ = .error err) ∧
      ∀ rest, parseTokens limit (ts ++ rest) = .error err) ∨
    TakesAll limit ts ∧ ∀ e, TokenStream.parse limit ⟨ts, some e⟩ = .error e := by
  rcases (whole_planned limit).settles_or_exhausts hts with
    ⟨r, v, hv, hsettles⟩ | ⟨hexhausts, hend⟩
  · have halone := hsettles [] none
    simp only [List.append_nil] at halone
    cases r with
    | ok tree =>
      -- A tree would have taken all the tokens.
      obtain ⟨us, hus, -, rfl, -⟩ := (whole_parses limit _).ok halone
      exact absurd (List.append_right_eq_self.mp hus.symm) hv
    | error err =>
      obtain ⟨-, -, -, hfault⟩ := ((whole_parses limit _).error halone).resolve_left nofun
      refine .inl ⟨err, v, hv, halone, hfault, fun e => ?_, fun rest => ?_⟩
      · have hbefore := hsettles [] (some e)
        simp only [List.append_nil] at hbefore
        exact run_of_error (opened_of_ne_nil hts (some e)) hbefore
      · exact parseTokens_of_error (hsettles rest none)
  · refine .inr ⟨?_, fun e => ?_⟩
    · obtain ⟨r, vs, hvs, hrun⟩ := hend []
      rw [List.append_nil, List.suffix_nil.mp hvs] at hrun
      exact ⟨r, hrun⟩
    obtain ⟨t, -, hsurfaces⟩ := hexhausts
    exact run_of_error (opened_of_ne_nil hts (some e)) (hsurfaces e)

/-- In front of a failure there is no tree. -/
theorem failure_of_parse {limit : Nat} {s : TokenStream} {x : Expr} (h : s.parse limit = .ok x) :
    s.failure = none := by
  obtain ⟨ts, failure⟩ := s
  cases failure with
  | none => rfl
  | some e =>
    by_cases hts : ts = []
    · subst hts
      cases h
    · rcases refuses_or_takesAll limit hts with ⟨err, v, -, -, -, hparse, -⟩ | ⟨-, hparse⟩
      · cases (hparse e).symm.trans h
      · cases (hparse e).symm.trans h

theorem parse_of_failure {limit : Nat} {ts : List Token} (e : CalcError)
    (hlimit : ts.length < limit) (hnames : NamesFunctions ts) :
    TokenStream.parse limit ⟨ts, some e⟩ = .error e ∨
      ∃ err, TokenStream.parse limit ⟨ts, some e⟩ = .error err ∧ err.stage? = some .parsing ∧
        (∀ x, err ≠ .unexpectedEnd x) ∧ ∀ rest, parseTokens limit (ts ++ rest) = .error err := by
  by_cases hts : ts = []
  · subst hts
    exact .inl rfl
  rcases refuses_or_takesAll limit hts with ⟨err, v, hv, -, hfault, hparse, hrest⟩ | ⟨-, hparse⟩
  · refine .inr ⟨err, hparse e, hfault.stage_eq hlimit hnames, ?_, hrest⟩
    rintro x rfl
    cases hfault with
    | ended h => exact hv h
  · exact .inl (hparse e)

theorem parse_eq_failure_iff {limit : Nat} {ts : List Token} {e : CalcError}
    (he : ∀ rest, ¬Fault limit ts rest e) :
    TokenStream.parse limit ⟨ts, some e⟩ = .error e ↔ TakesAll limit ts := by
  by_cases hts : ts = []
  · subst hts
    exact ⟨fun _ => ⟨.error (.unexpectedEnd operandName), rfl⟩, fun _ => rfl⟩
  rcases refuses_or_takesAll limit hts with ⟨err, v, hv, halone, hfault, hparse, -⟩ | ⟨hall, hparse⟩
  · constructor
    · intro h
      cases (hparse e).symm.trans h
      exact absurd hfault (he v)
    · rintro ⟨r, hr⟩
      obtain ⟨-, hnil⟩ := ending_inj (r := .error err) (halone.symm.trans hr)
      cases hnil
      exact absurd rfl hv
  · exact ⟨fun _ => hall, fun _ => hparse e⟩

end Parser

end Reckoner
