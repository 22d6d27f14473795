import Reckoner.Proofs.Parser.Steps

/-!
# The limit on nesting while parsing

A parser with a larger limit does the same, except where the smaller one is too small: there it goes
on (`Extends`). This relation goes through all that a parser is made of, so it is the recursion of
`unary` alone that needs an induction.
-/

namespace Reckoner

namespace Parser

variable {α β : Type}

/-- The second parser does what the first does, unless that one stops at the limit on nesting. -/
def Extends (p q : Parser α) : Prop :=
  ∀ s, (∃ s', p s = .error .nestedTooDeeply s') ∨ q s = p s

namespace Extends

theorem refl (p : Parser α) : Extends p p := fun _ => .inr rfl

/-- If the first parser stops at the limit so does the whole; else both go on alike. -/
theorem bind {p q : Parser α} {f g : α → Parser β} (h : Extends p q)
    (hf : ∀ a, Extends (f a) (g a)) : Extends (p >>= f) (q >>= g) := by
  intro s
  rcases h s with ⟨s', hs'⟩ | hpq
  · exact .inl ⟨s', bind_of_error hs'⟩
  · rcases hp : p s with ⟨a, s'⟩ | ⟨e, s'⟩
    · rw [bind_of_ok hp, bind_of_ok (hpq.trans hp)]
      exact hf a s'
    · rw [bind_of_error hp, bind_of_error (hpq.trans hp)]
      exact .inr rfl

/-- What the parser sees of the stream is the same for both. -/
theorem get_bind {f g : TokenStream → Parser α} (h : ∀ s, Extends (f s) (g s)) :
    Extends (MonadState.get >>= f) (MonadState.get >>= g) :=
  fun s => h s s

theorem trans {p q r : Parser α} (h : Extends p q) (h' : Extends q r) : Extends p r := by
  intro s
  rcases h s with hnested | hpq
  · exact .inl hnested
  · rcases h' s with ⟨s', hs'⟩ | hqr
    · exact .inl ⟨s', hpq.symm.trans hs'⟩
    · exact .inr (hqr.trans hpq)

section Chains

variable {symbols : List String} {operand operand' : Parser Expr} (h : Extends operand operand')

include h

theorem chainFrom (rounds : Nat) (left : Expr) :
    Extends (chainFrom symbols operand rounds left) (chainFrom symbols operand' rounds left) := by
  induction rounds generalizing left with
  | zero => exact refl _
  | succ rounds ih =>
    refine (refl _).bind fun o => ?_
    cases o with
    | none => exact refl _
    | some op => exact h.bind fun right => ih _

theorem chain : Extends (chain symbols operand) (Parser.chain symbols operand') :=
  h.bind fun first => .get_bind fun _ => h.chainFrom _ first

end Chains

section Calls

variable {expr expr' : Parser Expr} (h : Extends expr expr')

include h

theorem moreArgs (rounds : Nat) : Extends (moreArgs expr rounds) (Parser.moreArgs expr' rounds) := by
  induction rounds with
  | zero => exact refl _
  | succ rounds ih =>
    refine .get_bind fun s => ?_
    by_cases hat : isAt .comma [] s = true
    · rw [if_pos hat, if_pos hat]
      exact (refl _).bind fun _ => h.bind fun e => ih.bind fun es => refl _
    · rw [if_neg hat, if_neg hat]
      exact refl _

theorem args : Extends (args expr) (Parser.args expr') := by
  refine .get_bind fun s => ?_
  by_cases hat : isAt .rparen [] s = true
  · rw [if_pos hat, if_pos hat]
    exact refl _
  · rw [if_neg hat, if_neg hat]
    exact h.bind fun _ => .get_bind fun _ => (h.moreArgs _).bind fun _ => refl _

theorem callOf (function : Payload) : Extends (callOf expr function) (Parser.callOf expr' function) :=
  (refl _).bind fun _ => h.args.bind fun _ => refl _

theorem primaryOf : Extends (primaryOf expr) (Parser.primaryOf expr') := by
  refine .get_bind fun s => ?_
  cases s.lookahead with
  | none => exact refl _
  | some t =>
    cases hkind : t.kind with
    | lparen =>
      simp only [hkind]
      exact (refl _).bind fun _ => h.bind fun _ => refl _
    | function =>
      simp only [hkind]
      exact (refl _).bind fun _ => h.callOf t.value
    | _ =>
      simp only [hkind]
      exact refl _

end Calls

/-- The induction that carries the larger limit through the grammar: one level of signs, groups and
calls. -/
theorem unary_succ (d : Nat) : Extends (unary d) (unary (d + 1)) := by
  induction d with
  | zero => exact fun s => .inl ⟨s, rfl⟩
  | succ d ih =>
    refine (refl _).bind fun o => ?_
    cases o with
    | some _ => exact ih.bind fun e => refl _
    | none => exact ih.chain.chain.primaryOf

theorem unary_of_le {d d' : Nat} (h : d ≤ d') : Extends (unary d) (unary d') := by
  induction h with
  | refl => exact refl _
  | step _ ih => exact ih.trans (unary_succ _)

theorem expr_of_le {d d' : Nat} (h : d ≤ d') : Extends (expr d) (expr d') :=
  (unary_of_le h).chain.chain

/-- A larger limit changes nothing but where the smaller one has been reached. -/
theorem whole_of_le {d d' : Nat} (h : d ≤ d') : Extends (whole d) (whole d') := by
  refine .get_bind fun s => ?_
  cases s.lookahead with
  | none => exact refl _
  | some t => exact (expr_of_le h).bind fun e => refl _

end Extends

end Parser

end Reckoner
