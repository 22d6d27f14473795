import Reckoner.Proofs.Parser.Completeness
import Reckoner.Proofs.Parser.Depth
import Reckoner.Proofs.Parser.Plan
import Reckoner.Proofs.Parser.Record

/-!
# What follows makes no difference

A function of the parser that has answered a tree has taken some tokens and looked at the next one, if
there is one. In front of other tokens it takes the same ones and answers the same tree, unless it is a
chain and an operator of it comes next (`Local`).

Behind a closing parenthesis nothing is looked at (`closed_local`), so only chains look further than they
take; their operands are followed by an operator of the chain or by what follows the chain. Together with
what the parser calls, and with the limit on nesting that is never reached by fewer tokens, this says of
each function alone what it does wherever it is started (`Rule.run_ends_locally`).
-/

namespace Reckoner

open TokenStream (ofTokens)

/-- A function's name alone is not a call. -/
theorem Spells.ne_nil_of_function {us : List Token} {name : Token} {e : Expr}
    (h : Spells .primary (name :: us) e) (hname : name.kind = .function) : us ≠ [] := by
  rintro rfl
  generalize hts : [name] = ts at h
  cases h with
  | number ht =>
    cases hts
    cases hname.symm.trans ht
  | group | call => simp at hts

namespace Parser

variable {α β : Type} {d : Nat} {us vs ws : List Token}

theorem bind_eq_ok {p : Parser α} {f : α → Parser β} {b : β} {s s' : TokenStream}
    (h : (p >>= f) s = .ok b s') : ∃ a s₁, p s = .ok a s₁ ∧ f a s₁ = .ok b s' := by
  rcases hp : p s with ⟨a, s₁⟩ | ⟨e, s₁⟩
  · exact ⟨a, s₁, rfl, (bind_of_ok hp).symm.trans h⟩
  · cases (bind_of_error hp).symm.trans h

theorem expect_eq_ok {kind : TokenKind} {expected : String} {ts : List Token} {t : Token}
    {s : TokenStream} (h : expect kind expected (ofTokens ts) = .ok t s) :
    ∃ rest, ts = t :: rest ∧ t.kind = kind ∧ s = ofTokens rest := by
  obtain ⟨us, hts, hfailure, rfl, hkind⟩ := (expect_reads (d := 0) kind expected (ofTokens ts)).ok h
  obtain ⟨rest, failure⟩ := s
  cases hfailure
  exact ⟨rest, hts, hkind, rfl⟩

/-- On complete tokens a parser takes a prefix of them. -/
theorem Planned.taken {p : Parser α} (hp : Planned p) {ts : List Token} {a : α} {s : TokenStream}
    (h : p (ofTokens ts) = .ok a s) : ∃ us vs, ts = us ++ vs ∧ s = ofTokens vs := by
  obtain ⟨r, vs, ⟨us, hus⟩, hrun⟩ := hp.ends ts
  obtain ⟨-, hs⟩ := ending_inj (r := .ok a) (h.symm.trans hrun)
  exact ⟨us, vs, hus.symm, hs⟩

theorem Planned.isSuffix_left {p : Parser α} (hp : Planned p) {ts : List Token} {a : α}
    (h : p (ofTokens ts) = .ok a (ofTokens vs)) : vs <:+ ts :=
  hp.isSuffix (r := .ok a) h

/-- In front of whatever follows, the operators apart, the parser takes the same tokens and answers the
same tree. -/
def Local (operators : List String) (p : Parser Expr) : Prop :=
  ∀ ⦃us vs e⦄, p (ofTokens (us ++ vs)) = .ok e (ofTokens vs) →
    ∀ ws, ¬IsOperator operators ws.head? → p (ofTokens (us ++ ws)) = .ok e (ofTokens ws)

/-- The parser answers or fails without another look at the tokens. -/
def Blind (p : Parser α) : Prop := ∀ ⦃s s' a⦄, p s = .ok a s' → s' = s ∧ ∀ t, p t = .ok a t

theorem Blind.pure (a : α) : Blind (Pure.pure a : Parser α) := by
  intro s s' b h
  cases h
  exact ⟨rfl, fun _ => rfl⟩

theorem Blind.throw (e : CalcError) : Blind (MonadExcept.throw e : Parser α) := by
  intro s s' a h
  cases h

/-- Behind a closing parenthesis nothing is looked at. -/
theorem closed_local {p : Parser α} (hp : Planned p) {kind : TokenKind} {expected : String}
    {f : α → Parser Expr} (hf : ∀ a, Blind (f a)) :
    Local [] (p >>= fun a => expect kind expected >>= fun _ => f a) := by
  intro us vs e h ws _
  obtain ⟨a, s₁, ha, h⟩ := bind_eq_ok h
  obtain ⟨t, s₂, ht, h⟩ := bind_eq_ok h
  obtain ⟨xs, ys, hsplit, rfl⟩ := hp.taken ha
  obtain ⟨rest, rfl, hkind, rfl⟩ := expect_eq_ok ht
  obtain ⟨hrest, he⟩ := hf a h
  cases hrest
  obtain rfl : us = xs ++ [t] :=
    List.append_cancel_right (show us ++ vs = (xs ++ [t]) ++ vs by simp [hsplit])
  rw [hsplit] at ha
  have hstop := hp.stops_in_front (r := .ok a) ha ws none
  rw [List.append_assoc]
  refine (bind_of_ok hstop).trans ?_
  exact (bind_of_ok (expect_ofTokens hkind ws)).trans (he _)

theorem callOf_local {expr : Parser Expr} (hexpr : Planned expr) (function : Payload) :
    Local [] (callOf expr function) := by
  have hopen : Planned (expect .lparen "'('" >>= fun _ => args expr) :=
    (expect_planned _ _).bind fun _ => args_planned hexpr
  rw [callOf, ← bind_assoc]
  refine closed_local hopen fun args => ?_
  cases checkedCall function args with
  | ok e => exact .pure e
  | error e => exact .throw e

theorem eq_cons_of_append {t : Token} {xs : List Token} (h : us ++ vs = t :: (xs ++ vs)) :
    us = t :: xs :=
  List.append_cancel_right (show us ++ vs = (t :: xs) ++ vs from h)

theorem primary_local (d : Nat) : Local [] (primary d) := by
  intro us vs e h ws hws
  rcases hts : us ++ vs with _ | ⟨t, ts⟩
  · rw [hts] at h
    cases h
  rw [hts, primary_ofTokens] at h
  cases hkind : t.kind with
  | number =>
    simp only [hkind] at h
    cases h
    obtain rfl : us = [t] := eq_cons_of_append hts
    rw [List.cons_append, primary_ofTokens, hkind]
    rfl
  | lparen =>
    simp only [hkind] at h
    have hinner : Local [] (expr d >>= fun e => expect .rparen "')'" >>= fun _ => pure e) :=
      closed_local (expr_planned d) Blind.pure
    have hplanned : Planned (expr d >>= fun e => expect .rparen "')'" >>= fun _ => pure e) :=
      (expr_planned d).bind fun e => (expect_planned _ _).bind fun _ => .pure e
    obtain ⟨xs, rfl⟩ := hplanned.isSuffix_left h
    cases eq_cons_of_append hts
    rw [List.cons_append, primary_ofTokens, hkind]
    exact hinner h ws hws
  | function =>
    simp only [hkind] at h
    have hplanned := callOf_planned (expr_planned d) t.value
    obtain ⟨xs, rfl⟩ := hplanned.isSuffix_left h
    cases eq_cons_of_append hts
    rw [List.cons_append, primary_ofTokens, hkind]
    exact callOf_local (expr_planned d) t.value h ws hws
  | _ =>
    simp only [hkind] at h
    cases h

theorem spells_of_taken {ph : Phrase} {p : Parser Expr} {e : Expr} (hp : ReadsPhrase d ph p)
    (h : p (ofTokens (us ++ vs)) = .ok e (ofTokens vs)) : Spells ph us e := by
  obtain ⟨xs, hxs, -, hspells⟩ := (hp _).ok h
  rwa [List.append_cancel_right hxs]

theorem unary_local (d : Nat) : Local [] (unary d) := by
  induction d with
  | zero => exact nofun
  | succ d ih =>
    intro us vs e h ws hws
    by_cases hminus : IsOperator ["-"] (us ++ vs).head?
    · obtain ⟨op, hop, pos, hnext⟩ := hminus
      obtain ⟨ts, hts⟩ := List.head?_eq_some_iff.mp hnext
      rw [hts, unary, bind_of_ok (operator?_ofTokens hop pos ts)] at h
      obtain ⟨operand, s, hoperand, h⟩ := bind_eq_ok h
      cases h
      obtain ⟨xs, rfl⟩ := (unary_planned d).isSuffix_left hoperand
      cases eq_cons_of_append hts
      rw [List.cons_append, unary, bind_of_ok (operator?_ofTokens hop pos _)]
      exact bind_of_ok (ih hoperand ws hws)
    · rw [unary, bind_of_ok (operator?_of_not hminus)] at h
      have hspells : Spells .primary us e := spells_of_taken (primaryOf_reads (expr_reads d)) h
      have hother : ¬IsOperator ["-"] (us ++ ws).head? := not_isOperator hspells.primary_head
      rw [unary, bind_of_ok (operator?_of_not hother)]
      exact primary_local d h ws hws

/-! ## Chains -/

section Chains

variable {symbols operators : List String} {operand : Parser Expr} (hplanned : Planned operand)

include hplanned

/-- A loop has taken nothing, or it has read an operator and an operand and gone on. -/
theorem chainFrom_inv {m : Nat} {ts vs : List Token} {left e : Expr}
    (h : chainFrom symbols operand m left (ofTokens ts) = .ok e (ofTokens vs)) :
    left = e ∧ ts = vs ∨ ∃ k < m, ∃ op ∈ symbols, ∃ pos right xs ys,
      ts = ⟨.operator, .text op, pos⟩ :: (xs ++ (ys ++ vs)) ∧
      operand (ofTokens (xs ++ (ys ++ vs))) = .ok right (ofTokens (ys ++ vs)) ∧
      chainFrom symbols operand k (.binary op left right) (ofTokens (ys ++ vs)) =
        .ok e (ofTokens vs) := by
  cases m with
  | zero =>
    cases h
    exact .inl ⟨rfl, rfl⟩
  | succ k =>
    by_cases hop : IsOperator symbols ts.head?
    · obtain ⟨op, hmem, pos, hnext⟩ := hop
      obtain ⟨us, rfl⟩ := List.head?_eq_some_iff.mp hnext
      rw [chainFrom_of_isOperator rfl hmem, advance_bind_ofTokens] at h
      obtain ⟨right, s, hright, h⟩ := bind_eq_ok h
      obtain ⟨xs, zs, rfl, rfl⟩ := hplanned.taken hright
      obtain ⟨ys, rfl⟩ := (chainFrom_planned hplanned k _).isSuffix_left h
      exact .inr ⟨k, Nat.lt_succ_self k, op, hmem, pos, right, xs, ys, rfl, hright, h⟩
    · cases (chainFrom_of_not hop _).symm.trans h
      exact .inl ⟨rfl, rfl⟩

variable (hlocal : Local operators operand) (hdisjoint : ∀ op ∈ symbols, op ∉ operators)
  {ws : List Token} (hws : ¬IsOperator (symbols ++ operators) ws.head?)

include hdisjoint hws

/-- What a loop takes begins with an operator of its own, so it does not go on with an operand. -/
theorem chainFrom_not_isOperator {m : Nat} {left e : Expr}
    (h : chainFrom symbols operand m left (ofTokens (us ++ vs)) = .ok e (ofTokens vs)) :
    ¬IsOperator operators (us ++ ws).head? := by
  rintro ⟨op, hop, pos, hnext⟩
  rcases chainFrom_inv hplanned h with
    ⟨-, hts⟩ | ⟨-, -, op', hop', pos', -, xs, ys, hts, -⟩
  · rw [List.append_left_eq_self.mp hts] at hnext
    exact hws ⟨op, List.mem_append_right _ hop, pos, hnext⟩
  · rw [← List.append_assoc] at hts
    rw [eq_cons_of_append hts] at hnext
    cases hnext
    exact hdisjoint op hop' hop

include hlocal

theorem chainFrom_local (m n : Nat) {left e : Expr}
    (h : chainFrom symbols operand m left (ofTokens (us ++ vs)) = .ok e (ofTokens vs))
    (hn : (us ++ ws).length ≤ n) :
    chainFrom symbols operand n left (ofTokens (us ++ ws)) = .ok e (ofTokens ws) := by
  induction m using Nat.strongRecOn generalizing n us left with
  | ind m ih =>
    rcases chainFrom_inv hplanned h with
      ⟨rfl, hts⟩ | ⟨k, hk, op, hop, pos, right, xs, ys, hts, hright, hrest⟩
    · rw [List.append_left_eq_self.mp hts]
      refine chainFrom_of_not (fun ⟨op, hop, hnext⟩ => hws ?_) n
      exact ⟨op, List.mem_append_left _ hop, hnext⟩
    · rw [← List.append_assoc] at hts
      cases eq_cons_of_append hts
      simp only [List.cons_append, List.append_assoc, List.length_cons, List.length_append] at hn ⊢
      obtain ⟨n, rfl⟩ : ∃ n', n = n' + 1 := ⟨n - 1, by omega⟩
      have hnot := chainFrom_not_isOperator hplanned hdisjoint hws hrest
      rw [chainFrom_of_isOperator rfl hop, advance_bind_ofTokens]
      refine (bind_of_ok (hlocal hright _ hnot)).trans (ih k hk n hrest ?_)
      rw [List.length_append]
      omega

end Chains

theorem chain_local {symbols operators : List String} {operand : Parser Expr}
    (hplanned : Planned operand) (hlocal : Local operators operand)
    (hdisjoint : ∀ op ∈ symbols, op ∉ operators) :
    Local (symbols ++ operators) (chain symbols operand) := by
  intro us vs e h ws hws
  obtain ⟨first, s, hfirst, hloop⟩ := bind_eq_ok h
  obtain ⟨xs, zs, hts, rfl⟩ := hplanned.taken hfirst
  rw [get_bind] at hloop
  obtain ⟨ys, rfl⟩ := (chainFrom_planned hplanned _ _).isSuffix_left hloop
  obtain rfl : us = xs ++ ys :=
    List.append_cancel_right (show us ++ vs = (xs ++ ys) ++ vs by simp [hts])
  have hnot := chainFrom_not_isOperator hplanned hdisjoint hws hloop
  rw [hts] at hfirst
  rw [List.append_assoc]
  refine (bind_of_ok (hlocal hfirst _ hnot)).trans ?_
  exact chainFrom_local hplanned hlocal hdisjoint hws _ _ hloop (Nat.le_refl _)

theorem term_local (d : Nat) : Local ["*", "/"] (term d) :=
  chain_local (unary_planned d) (unary_local d) (by decide)

theorem expr_local (d : Nat) : Local ["+", "-", "*", "/"] (expr d) :=
  chain_local (chain_planned (unary_planned d)) (term_local d) (by decide)

/-! ## The functions of the parser -/

theorem ne_nestedTooDeeply_of_parses {p : Parser α} {ts us : List Token} {s : TokenStream}
    {R : List Token → α → Prop} {B : List Token → CalcError → Prop}
    (hp : Parses d us R B p (ofTokens ts)) (hd : us.length < d) :
    p (ofTokens ts) ≠ .error .nestedTooDeeply s := by
  intro herr
  rcases hp.error herr with hfailure | ⟨-, -, -, hfault⟩
  · cases hfailure
  · cases hfault with
    | nesting h => omega

namespace Rule

/-- The operators that would go on with what the function reads. -/
def operators : Rule → List String
  | expr => ["+", "-", "*", "/"]
  | term => ["*", "/"]
  | unary | primary | call _ => []

theorem run_planned (d : Nat) (r : Rule) : Planned (r.run d) := by
  cases r with
  | expr => exact expr_planned d
  | term => exact chain_planned (unary_planned d)
  | unary => exact unary_planned d
  | primary => exact primaryOf_planned (expr_planned d)
  | call function => exact callOf_planned (expr_planned d) function

theorem run_local (d : Nat) (r : Rule) : Local r.operators (r.run d) := by
  cases r with
  | expr => exact expr_local d
  | term => exact term_local d
  | unary => exact unary_local d
  | primary => exact primary_local d
  | call function => exact callOf_local (expr_planned d) function

theorem run_extends {d d' : Nat} (h : d ≤ d') (r : Rule) : Extends (r.run d) (r.run d') := by
  have hunary := Extends.unary_of_le h
  have hexpr := Extends.expr_of_le h
  cases r with
  | expr => exact hexpr
  | term => exact hunary.chain
  | unary => exact hunary
  | primary => exact hexpr.primaryOf
  | call function => exact hexpr.callOf function

theorem run_ne_nestedTooDeeply {ts : List Token} (hd : ts.length < d) (r : Rule)
    (s : TokenStream) : r.run d (ofTokens ts) ≠ .error .nestedTooDeeply s := by
  cases r with
  | expr => exact ne_nestedTooDeeply_of_parses (expr_reads d _) hd
  | term => exact ne_nestedTooDeeply_of_parses (termOf_reads (unary_reads d) _) hd
  | unary => exact ne_nestedTooDeeply_of_parses (unary_reads d _) hd
  | primary =>
    exact ne_nestedTooDeeply_of_parses (primaryOf_reads (expr_reads d) _) (Nat.lt_succ_of_lt hd)
  | call function =>
    have hname : Token.kind ⟨.function, function, 0⟩ = .function := rfl
    exact ne_nestedTooDeeply_of_parses (callOf_parses (expr_reads d) hname) (Nat.succ_lt_succ hd)

theorem takes_of_run {r : Rule} {s s' : TokenStream} {e : Expr} (h : r.run d s = .ok e s') :
    Takes 1 s.pending s'.pending := by
  cases r with
  | expr => exact takes_of_phrase (expr_reads d) h
  | term => exact takes_of_phrase (termOf_reads (unary_reads d)) h
  | unary => exact takes_of_phrase (unary_reads d) h
  | primary => exact takes_of_phrase (primaryOf_reads (expr_reads d)) h
  | call function =>
    have hname : Token.kind ⟨.function, function, 0⟩ = .function := rfl
    obtain ⟨us, hus, -, hspells⟩ := (callOf_parses (expr_reads d) hname).ok h
    exact ⟨us, List.length_pos_iff.mpr (hspells.ne_nil_of_function hname), hus⟩

/-- **Every function of the parser makes progress, comes to an end and is local.** Calls are made behind
a token that has been taken or on the next level of the grammar, which cannot go on forever, and an
iteration of a loop takes two tokens at least; so there is one outcome, which any limit on nesting above
the number of tokens leaves alone. On success some tokens have been taken, and they are taken with the
same tree wherever none of the operators that would go on follows. -/
theorem run_ends_locally (r : Rule) (ts : List Token) :
    WellFounded Site.Below ∧
    (∀ d, erase (r.recorded d ⟨ofTokens ts, []⟩) = r.run d (ofTokens ts) ∧
      ∀ event ∈ noted (r.recorded d ⟨ofTokens ts, []⟩), event.Orderly) ∧
    (∃ outcome vs, outcome ≠ .error .nestedTooDeeply ∧
      ∀ d, ts.length < d → r.run d (ofTokens ts) = ending outcome (ofTokens vs)) ∧
    ∀ d e s, r.run d (ofTokens ts) = .ok e s → ∃ us vs, us ≠ [] ∧ ts = us ++ vs ∧ s = ofTokens vs ∧
      ∀ ws, ¬IsOperator r.operators ws.head? →
        r.run d (ofTokens (us ++ ws)) = .ok e (ofTokens ws) := by
  refine ⟨Site.wellFounded_below, fun d => ?_, ?_, fun d e s h => ?_⟩
  · have htracks := r.tracks d ⟨ofTokens ts, []⟩
    exact ⟨htracks.same, htracks.orderly nofun⟩
  · obtain ⟨outcome, vs, -, hrun⟩ := (r.run_planned (ts.length + 1)).ends ts
    have hends := r.run_ne_nestedTooDeeply (Nat.lt_succ_self ts.length)
    refine ⟨outcome, vs, ?_, fun d hd => ?_⟩
    · rintro rfl
      exact hends _ hrun
    · rcases r.run_extends hd (ofTokens ts) with ⟨s, hs⟩ | hsame
      · exact absurd hs (hends s)
      · exact hsame.trans hrun
  · obtain ⟨us, vs, rfl, rfl⟩ := (r.run_planned d).taken h
    obtain ⟨xs, hxs, hts⟩ := takes_of_run h
    cases List.append_cancel_right hts
    exact ⟨us, vs, List.length_pos_iff.mp hxs, rfl, rfl, r.run_local d h⟩

/-- The term at the beginning of `2 * 3 + 4` is `2 * 3`, and so it is in front of a parenthesis. Five
tokens need no more than six levels. -/
theorem run_ends_locally_product :
    let product : List Token := [⟨.number, .number (.int 2), 0⟩, ⟨.operator, .text "*", 2⟩,
      ⟨.number, .number (.int 3), 4⟩]
    let rest : List Token := [⟨.operator, .text "+", 6⟩, ⟨.number, .number (.int 4), 8⟩]
    let closing : List Token := [⟨.rparen, .text ")", 5⟩]
    let tree := Expr.binary "*" (.literal (.number (.int 2))) (.literal (.number (.int 3)))
    term.run 1 (ofTokens (product ++ rest)) = .ok tree (ofTokens rest) ∧
      term.run 1 (ofTokens (product ++ closing)) = .ok tree (ofTokens closing) ∧
      term.run 6 (ofTokens (product ++ rest)) = term.run 7 (ofTokens (product ++ rest)) := by
  intro product rest closing tree
  obtain ⟨-, -, ⟨outcome, ws, -, hends⟩, htakes⟩ := run_ends_locally term (product ++ rest)
  have hrun : term.run 1 (ofTokens (product ++ rest)) = .ok tree (ofTokens rest) := rfl
  obtain ⟨us, vs, -, hts, hs, hlocal⟩ := htakes 1 tree (ofTokens rest) hrun
  obtain rfl : rest = vs := congrArg TokenStream.pending hs
  obtain rfl : product = us := List.append_cancel_right hts
  have hclosing : ¬IsOperator term.operators closing.head? := by
    rintro ⟨op, -, pos, h⟩
    cases h
  exact ⟨hrun, hlocal closing hclosing, (hends 6 (by decide)).trans (hends 7 (by decide)).symm⟩

end Rule

end Parser

end Reckoner
