import Reckoner.Parser

/-!
# Steps of the parser

A parser looks at the next token and decides. Each function of the parser that touches the stream
is opened here once: for every lookahead one equation says how it goes on.
-/

namespace Reckoner

open TokenStream (ofTokens)

/-- The token that comes next, if any, is an operator with one of the symbols. -/
def IsOperator (symbols : List String) (next : Option Token) : Prop :=
  ∃ op ∈ symbols, ∃ pos, next = some ⟨.operator, .text op, pos⟩

namespace Parser

variable {α β : Type} {s : TokenStream}

theorem bind_of_ok {p : Parser α} {f : α → Parser β} {a : α} {s' : TokenStream}
    (h : p s = .ok a s') : (p >>= f) s = f a s' := by
  simp only [Bind.bind, EStateM.bind, h]

theorem bind_of_error {p : Parser α} {f : α → Parser β} {e : CalcError} {s' : TokenStream}
    (h : p s = .error e s') : (p >>= f) s = .error e s' := by
  simp only [Bind.bind, EStateM.bind, h]

theorem get_bind (f : TokenStream → Parser β) : (get >>= f) s = f s s :=
  rfl

theorem map_advance (a : α) :
    (advance.map fun _ => a) s = (advance >>= fun _ => pure a) s := by
  simp only [EStateM.map, Bind.bind, EStateM.bind]
  rcases advance s with ⟨o, s'⟩ | ⟨e, s'⟩ <;> rfl

theorem expect_of_none {kind : TokenKind} {expected : String} (h : s.lookahead = none) :
    expect kind expected s = .error (.unexpectedEnd expected) s := by
  simp only [expect, h]

theorem expect_of_kind {kind : TokenKind} {expected : String} {t : Token}
    (h : s.lookahead = some t) (hkind : t.kind = kind) :
    expect kind expected s = (advance >>= fun _ => pure t) s := by
  simp only [expect, h, if_pos hkind]
  exact map_advance t

/-- A token of another kind stays where it is and is named in the error. -/
theorem expect_of_ne {kind : TokenKind} {expected : String} {t : Token}
    (h : s.lookahead = some t) (hkind : t.kind ≠ kind) :
    expect kind expected s = .error (.unexpectedToken t expected) s := by
  simp only [expect, h, if_neg hkind]

theorem operator?_of_isOperator {symbols : List String} {op : String} {pos : Nat}
    (h : s.lookahead = some ⟨.operator, .text op, pos⟩) (hop : op ∈ symbols) :
    operator? symbols s = (advance >>= fun _ => pure (some op)) s := by
  simp only [operator?, h, if_pos hop]
  exact map_advance (some op)

/-- In front of anything else the stream stays as it is. -/
theorem operator?_of_not {symbols : List String} (h : ¬IsOperator symbols s.lookahead) :
    operator? symbols s = .ok none s := by
  unfold operator?
  split
  · next op pos hnext => rw [if_neg fun hop => h ⟨op, hop, pos, hnext⟩]
  · rfl

theorem isAt_nil_iff {kind : TokenKind} :
    isAt kind [] s = true ↔ ∃ t ∈ s.lookahead, t.kind = kind := by
  unfold isAt
  cases s.lookahead <;> simp

/-! ## Loops -/

/-- A loop ends in front of a token that is no operator of its chain, however many rounds are left.
-/
theorem chainFrom_of_not {symbols : List String} {operand : Parser Expr} {e : Expr}
    (h : ¬IsOperator symbols s.lookahead) (rounds : Nat) :
    chainFrom symbols operand rounds e s = .ok e s := by
  cases rounds with
  | zero => rfl
  | succ rounds =>
    rw [chainFrom, bind_of_ok (operator?_of_not h)]
    rfl

theorem chainFrom_of_isOperator {symbols : List String} {op : String} {pos : Nat}
    (h : s.lookahead = some ⟨.operator, .text op, pos⟩) (hop : op ∈ symbols)
    (operand : Parser Expr) (rounds : Nat) (left : Expr) :
    chainFrom symbols operand (rounds + 1) left s = (advance >>= fun _ =>
      operand >>= fun right => chainFrom symbols operand rounds (.binary op left right)) s := by
  have hop? := operator?_of_isOperator h hop
  rcases hadv : advance s with ⟨o, s'⟩ | ⟨e, s'⟩
  · rw [chainFrom, bind_of_ok hadv, bind_of_ok (hop?.trans (bind_of_ok hadv))]
  · rw [chainFrom, bind_of_error hadv, bind_of_error (hop?.trans (bind_of_error hadv))]

theorem moreArgs_of_not {expr : Parser Expr} (h : ¬isAt .comma [] s = true) (rounds : Nat) :
    moreArgs expr rounds s = .ok [] s := by
  cases rounds with
  | zero => rfl
  | succ rounds =>
    rw [moreArgs, get_bind, if_neg h]
    rfl

theorem moreArgs_of_comma (h : isAt .comma [] s = true) (expr : Parser Expr) (rounds : Nat) :
    moreArgs expr (rounds + 1) s = (advance >>= fun _ =>
      expr >>= fun e => moreArgs expr rounds >>= fun es => pure (e :: es)) s := by
  rw [moreArgs, get_bind, if_pos h]

/-! ## Complete sequences of tokens -/

theorem advance_ofTokens (t : Token) (rest : List Token) :
    advance (ofTokens (t :: rest)) = .ok (some t) (ofTokens rest) := by
  cases rest <;> rfl

theorem advance_bind_ofTokens {α : Type} (t : Token) (rest : List Token)
    (f : Option Token → Parser α) :
    (advance >>= f) (ofTokens (t :: rest)) = f (some t) (ofTokens rest) :=
  bind_of_ok (advance_ofTokens t rest)

theorem expect_ofTokens {kind : TokenKind} {expected : String} {t : Token} (ht : t.kind = kind)
    (rest : List Token) : expect kind expected (ofTokens (t :: rest)) = .ok t (ofTokens rest) := by
  rw [expect_of_kind rfl ht, advance_bind_ofTokens]
  rfl

theorem operator?_ofTokens {symbols : List String} {op : String} (hop : op ∈ symbols) (pos : Nat)
    (rest : List Token) : operator? symbols (ofTokens (⟨.operator, .text op, pos⟩ :: rest)) =
      .ok (some op) (ofTokens rest) := by
  rw [operator?_of_isOperator rfl hop, advance_bind_ofTokens]
  rfl

/-! ## Runs from the first token -/

theorem run_of_opened {p : Parser α} {e : CalcError} (hs : s.opened = .error e) :
    p.run s = .error e := by
  rw [run, hs]
  rfl

theorem run_of_ok {p : Parser α} {a : α} {s' : TokenStream} (hs : s.opened = .ok s)
    (h : p s = .ok a s') : p.run s = .ok a := by
  simp only [run, hs, Bind.bind, Except.bind, h]

theorem run_of_error {p : Parser α} {e : CalcError} {s' : TokenStream} (hs : s.opened = .ok s)
    (h : p s = .error e s') : p.run s = .error e := by
  simp only [run, hs, Bind.bind, Except.bind, h]

end Parser

end Reckoner
