import Reckoner.Proofs.Parser.Grammar
import Reckoner.Proofs.Parser.Steps

/-!
# The parser reads whatever is in the grammar

A phrase is read back wherever it stands: from its tokens followed by any `rest` the parser takes
exactly the phrase, provided that the rest does not continue it. For a chain that proviso would be
false in the middle, where an operator of the chain follows, so a chain is described by where its
loop stands after the phrase (`Arrives`): the loop has as many rounds left as tokens can need. The
depth that suffices is the number of tokens of the phrase.
-/

namespace Reckoner

open TokenStream (ofTokens)

/-- A token of another kind is no operator of a chain. -/
theorem not_isOperator {symbols : List String} {next : Option Token}
    (h : ∀ t ∈ next, t.kind ≠ .operator) : ¬IsOperator symbols next := by
  rintro ⟨op, -, pos, rfl⟩
  exact h _ rfl rfl

/-- No phrase of the tightest sort begins with an operator. -/
theorem Spells.primary_head {ts rest : List Token} {e : Expr} (h : Spells .primary ts e) :
    ∀ t ∈ (ts ++ rest).head?, t.kind ≠ .operator := by
  cases h with
  | number ht => simp [ht]
  | group hopening _ _ => simp [hopening]
  | call hname _ _ _ _ _ => simp [hname]

namespace Parser

/-! ## Chains -/

section Chains

variable {symbols : List String} {operand : Parser Expr} {ts us rest : List Token} {l r e : Expr}

/-- One round of a loop: an operator of the chain and an operand behind it become part of the tree.
-/
theorem chainFrom_step {op : String} (hop : op ∈ symbols) (pos : Nat)
    (hr : operand (ofTokens (us ++ rest)) = .ok r (ofTokens rest)) (rounds : Nat) :
    chainFrom symbols operand (rounds + 1) l
        (ofTokens (⟨.operator, .text op, pos⟩ :: (us ++ rest))) =
      chainFrom symbols operand rounds (.binary op l r) (ofTokens rest) := by
  rw [chainFrom_of_isOperator rfl hop, advance_bind_ofTokens]
  exact bind_of_ok hr

/-- After the tokens `ts` the loop of the chain stands before the rest with the tree `e`, and has
rounds enough for the rest. -/
def Arrives (symbols : List String) (operand : Parser Expr) (ts : List Token) (e : Expr)
    (rest : List Token) : Prop :=
  ∃ rounds, rest.length ≤ rounds ∧
    chain symbols operand (ofTokens (ts ++ rest)) =
      chainFrom symbols operand rounds e (ofTokens rest)

/-- The first operand of a chain is read before the loop begins. -/
theorem Arrives.one (h : operand (ofTokens (ts ++ rest)) = .ok e (ofTokens rest)) :
    Arrives symbols operand ts e rest :=
  ⟨rest.length, Nat.le_refl _, bind_of_ok h⟩

/-- An operator with its operand costs the loop one round; as many are left as the rest has tokens.
-/
theorem Arrives.more {op : String} {pos : Nat} (hop : op ∈ symbols)
    (hl : Arrives symbols operand ts l (⟨.operator, .text op, pos⟩ :: (us ++ rest)))
    (hr : operand (ofTokens (us ++ rest)) = .ok r (ofTokens rest)) :
    Arrives symbols operand (ts ++ ⟨.operator, .text op, pos⟩ :: us) (.binary op l r) rest := by
  obtain ⟨rounds, hrounds, hrun⟩ := hl
  rw [List.length_cons, List.length_append] at hrounds
  obtain ⟨n, rfl⟩ : ∃ n, rounds = n + 1 := ⟨rounds - 1, by omega⟩
  refine ⟨n, by omega, ?_⟩
  rw [List.append_assoc, List.cons_append, hrun, chainFrom_step hop pos hr]

/-- A loop that stands in front of no operator of its own is done. -/
theorem Arrives.stop (h : Arrives symbols operand ts e rest)
    (hrest : ¬IsOperator symbols rest.head?) :
    chain symbols operand (ofTokens (ts ++ rest)) = .ok e (ofTokens rest) := by
  obtain ⟨rounds, -, hrun⟩ := h
  exact hrun.trans (chainFrom_of_not hrest rounds)

end Chains

/-! ## Phrases -/

/-- The parser takes the tokens of the phrase and makes its tree of them, in front of any rest that
does not continue the phrase. -/
def Accepts (d : Nat) (ts : List Token) (e : Expr) : Phrase → Prop
  | .expr => ∀ rest, ¬IsOperator ["*", "/"] rest.head? →
    Arrives ["+", "-"] (term d) ts e rest
  | .term => ∀ rest, Arrives ["*", "/"] (unary d) ts e rest
  | .unary => ∀ rest, unary d (ofTokens (ts ++ rest)) = .ok e (ofTokens rest)
  | .primary => ∀ rest, primary d (ofTokens (ts ++ rest)) = .ok e (ofTokens rest)

/-- Arguments in front of a closing parenthesis: the first one is read, and the loop reads the
others. -/
def AcceptsArgs (d : Nat) (ts : List Token) (es : List Expr) : Prop :=
  ∀ rest, (∃ t ∈ rest.head?, t.kind = .rparen) → ∃ e es' rest', es = e :: es' ∧
    rest'.length ≤ ts.length + rest.length ∧
    expr d (ofTokens (ts ++ rest)) = .ok e (ofTokens rest') ∧
    ∀ rounds, rest'.length ≤ rounds →
      moreArgs (expr d) rounds (ofTokens rest') = .ok es' (ofTokens rest)

variable {d : Nat} {ts us rest : List Token} {e : Expr} {es : List Expr}

/-- In front of a token that is no operator an expression is read completely. -/
theorem Accepts.expr_eq (h : Accepts d ts e .expr) (hrest : ∀ t ∈ rest.head?, t.kind ≠ .operator) :
    expr d (ofTokens (ts ++ rest)) = .ok e (ofTokens rest) :=
  (h rest (not_isOperator hrest)).stop (not_isOperator hrest)

theorem Accepts.term_eq (h : Accepts d ts e .term) (hrest : ¬IsOperator ["*", "/"] rest.head?) :
    term d (ofTokens (ts ++ rest)) = .ok e (ofTokens rest) :=
  (h rest).stop hrest

/-- Behind the summand in front of a sum's operator no factor follows. -/
theorem not_isOperator_sum {op : String} (hop : op ∈ ["+", "-"]) {pos : Nat} {rest : List Token} :
    ¬IsOperator ["*", "/"] (⟨.operator, .text op, pos⟩ :: rest : List Token).head? := by
  rintro ⟨op', hop', pos', h⟩
  cases h
  simp at hop hop'
  grind

theorem Accepts.sum {op : String} {pos : Nat} {l r : Expr} (hop : op ∈ ["+", "-"])
    (hl : Accepts d ts l .expr) (hr : Accepts d us r .term) :
    Accepts d (ts ++ ⟨.operator, .text op, pos⟩ :: us) (.binary op l r) .expr := by
  intro rest hrest
  exact (hl _ (not_isOperator_sum hop)).more hop (hr.term_eq hrest)

/-! ## Arguments -/

/-- Where a token of another kind comes next, none of this kind does. -/
theorem not_isAt {kind kind' : TokenKind} (h : ∃ t ∈ rest.head?, t.kind = kind')
    (hne : kind' ≠ kind) : ¬isAt kind [] (ofTokens rest) = true := by
  rw [isAt_nil_iff]
  rintro ⟨t, ht, hkind⟩
  obtain ⟨t', ht', hkind'⟩ := h
  cases Option.mem_unique ht ht'
  exact hne (hkind'.symm.trans hkind)

/-- One round of the loop over arguments. -/
theorem moreArgs_step {comma : Token} (hcomma : comma.kind = .comma) {rest' : List Token}
    {rounds : Nat} (he : expr d (ofTokens us) = .ok e (ofTokens rest'))
    (hes : moreArgs (expr d) rounds (ofTokens rest') = .ok es (ofTokens rest)) :
    moreArgs (expr d) (rounds + 1) (ofTokens (comma :: us)) = .ok (e :: es) (ofTokens rest) := by
  have hat : isAt .comma [] (ofTokens (comma :: us)) = true := isAt_nil_iff.mpr ⟨_, rfl, hcomma⟩
  rw [moreArgs_of_comma hat, advance_bind_ofTokens, bind_of_ok he, bind_of_ok hes]
  rfl

/-- Arguments in front of the closing parenthesis are read as they are spelled. -/
theorem AcceptsArgs.args_eq (h : AcceptsArgs d ts es)
    (hts : ∃ t us, ts = t :: us ∧ t.kind ≠ .rparen) (hrest : ∃ t ∈ rest.head?, t.kind = .rparen) :
    args (expr d) (ofTokens (ts ++ rest)) = .ok es (ofTokens rest) := by
  obtain ⟨e, es', rest', rfl, -, he, hes'⟩ := h rest hrest
  obtain ⟨t, us, rfl, ht⟩ := hts
  rw [args, get_bind, if_neg (not_isAt ⟨t, rfl, rfl⟩ ht), bind_of_ok he, get_bind]
  exact bind_of_ok (hes' _ (Nat.le_refl _))

theorem AcceptsArgs.last (h : Accepts d ts e .expr) : AcceptsArgs d ts [e] := by
  intro rest hrest
  refine ⟨e, [], rest, rfl, by omega, h.expr_eq ?_, fun rounds _ => ?_⟩
  · obtain ⟨t, ht, hkind⟩ := hrest
    intro t' ht'
    simp [Option.mem_unique ht' ht, hkind]
  · exact moreArgs_of_not (not_isAt hrest (by decide)) rounds

/-- A comma in front of the others leaves as many rounds as they need. -/
theorem AcceptsArgs.more {comma : Token} (h : Accepts d ts e .expr) (hcomma : comma.kind = .comma)
    (hs : AcceptsArgs d us es) : AcceptsArgs d (ts ++ comma :: us) (e :: es) := by
  intro rest hrest
  obtain ⟨e', es', rest', rfl, hlength, he', hes'⟩ := hs rest hrest
  refine ⟨e, e' :: es', comma :: (us ++ rest), rfl, ?_, ?_, ?_⟩
  · simp only [List.length_append, List.length_cons]
    omega
  · rw [List.append_assoc, List.cons_append]
    exact h.expr_eq (by simp [hcomma])
  · intro rounds hrounds
    rw [List.length_cons, List.length_append] at hrounds
    obtain ⟨n, rfl⟩ : ∃ n, rounds = n + 1 := ⟨rounds - 1, by omega⟩
    exact moreArgs_step hcomma he' (hes' n (by omega))

/-! ## Operands -/

/-- The kind of its first token decides how a primary goes on. -/
theorem primary_ofTokens (t : Token) (rest : List Token) :
    primary d (ofTokens (t :: rest)) = match t.kind with
      | .number => .ok (.literal t.value) (ofTokens rest)
      | .lparen => (expr d >>= fun e => expect .rparen "')'" >>= fun _ => pure e) (ofTokens rest)
      | .function => callOf (expr d) t.value (ofTokens rest)
      | _ => .error (.unexpectedToken t operandName) (ofTokens (t :: rest)) := by
  have hnext : (ofTokens (t :: rest)).lookahead = some t := rfl
  rw [primary, primaryOf, get_bind, hnext]
  cases hkind : t.kind <;> simp only [hkind] <;> first | rfl | exact advance_bind_ofTokens t rest _

theorem Accepts.number {t : Token} (ht : t.kind = .number) :
    Accepts d [t] (.literal t.value) .primary := by
  intro rest
  rw [List.singleton_append, primary_ofTokens, ht]

theorem Accepts.group {opening closing : Token} (hopening : opening.kind = .lparen)
    (h : Accepts d ts e .expr) (hclosing : closing.kind = .rparen) :
    Accepts d (opening :: (ts ++ [closing])) e .primary := by
  intro rest
  have he : expr d (ofTokens (ts ++ closing :: rest)) = .ok e (ofTokens (closing :: rest)) :=
    h.expr_eq (by simp [hclosing])
  rw [List.cons_append, List.append_assoc, primary_ofTokens, hopening]
  refine (bind_of_ok he).trans ?_
  exact bind_of_ok (expect_ofTokens hclosing rest)

theorem Accepts.call {f : MathFunction} {name opening closing : Token}
    (hname : name.kind = .function) (hf : name.value.function? = some f)
    (hopening : opening.kind = .lparen) (hts : ∃ t us, ts = t :: us ∧ t.kind ≠ .rparen)
    (h : AcceptsArgs d ts es) (hclosing : closing.kind = .rparen) (harity : es.length = f.arity) :
    Accepts d (name :: opening :: (ts ++ [closing])) (.call f.name es) .primary := by
  intro rest
  have hes : args (expr d) (ofTokens (ts ++ closing :: rest)) =
      .ok es (ofTokens (closing :: rest)) := h.args_eq hts ⟨closing, rfl, hclosing⟩
  have hcheck : checkedCall name.value es = .ok (.call f.name es) := by
    simp only [checkedCall, hf, if_pos harity]
  rw [List.cons_append, List.cons_append, List.append_assoc, primary_ofTokens, hname]
  refine (bind_of_ok (expect_ofTokens hopening _)).trans ?_
  refine (bind_of_ok hes).trans ?_
  refine (bind_of_ok (expect_ofTokens hclosing rest)).trans ?_
  rw [hcheck]
  rfl

/-- A minus sign takes one level of nesting. -/
theorem Accepts.negation (pos : Nat) (h : Accepts d ts e .unary) :
    Accepts (d + 1) (⟨.operator, .text "-", pos⟩ :: ts) (.negate e) .unary := by
  intro rest
  rw [List.cons_append, unary, bind_of_ok (operator?_ofTokens List.mem_cons_self pos _)]
  exact bind_of_ok (h rest)

theorem Accepts.ofPrimary (hts : ∀ rest, ∀ t ∈ (ts ++ rest).head?, t.kind ≠ .operator)
    (h : Accepts d ts e .primary) : Accepts (d + 1) ts e .unary := by
  intro rest
  have hnone : operator? ["-"] (ofTokens (ts ++ rest)) = .ok none (ofTokens (ts ++ rest)) :=
    operator?_of_not (not_isOperator (hts rest))
  rw [unary, bind_of_ok hnone]
  exact h rest

end Parser

/-! ## The induction over the grammar -/

/-- How many levels of nesting a phrase needs fewer than it has tokens. -/
def Phrase.slack : Phrase → Nat
  | .primary => 1
  | _ => 0

open Reckoner.Parser in
mutual

/-- A phrase is read wherever it stands, if the depth is that of its tokens. -/
theorem Spells.accepts {p : Phrase} {ts : List Token} {e : Expr} :
    Spells p ts e → ∀ d, ts.length ≤ d + p.slack → Accepts d ts e p
  | .ofTerm h => fun d hd rest hrest => .one ((h.accepts d hd).term_eq hrest)
  | .sum hop hl hr => by
    have ihl := hl.accepts
    have ihr := hr.accepts
    intro d hd
    rw [List.length_append, List.length_cons] at hd
    exact .sum hop (ihl d (by omega)) (ihr d (by simp only [Phrase.slack] at hd ⊢; omega))
  | .ofUnary h => fun d hd rest => .one (h.accepts d hd rest)
  | .product hop hl hr => by
    have ihl := hl.accepts
    have ihr := hr.accepts
    intro d hd rest
    rw [List.length_append, List.length_cons] at hd
    refine (ihl d (by omega) _).more hop (ihr d ?_ rest)
    simp only [Phrase.slack] at hd ⊢
    omega
  | .ofPrimary h => by
    have ih := h.accepts
    intro d hd
    have hpos := h.length_pos
    obtain ⟨n, rfl⟩ : ∃ n, d = n + 1 := ⟨d - 1, by simp only [Phrase.slack] at hd; omega⟩
    exact .ofPrimary (fun rest => h.primary_head) (ih n hd)
  | .negation h => by
    have ih := h.accepts
    intro d hd
    rw [List.length_cons] at hd
    obtain ⟨n, rfl⟩ : ∃ n, d = n + 1 := ⟨d - 1, by simp only [Phrase.slack] at hd; omega⟩
    exact .negation _ (ih n (by simp only [Phrase.slack] at hd ⊢; omega))
  | .number ht => fun d _ => .number ht
  | .group hopening h hclosing => by
    have ih := h.accepts
    intro d hd
    simp only [List.length_cons, List.length_append, List.length_nil, Phrase.slack] at hd
    exact .group hopening (ih d (by simp only [Phrase.slack]; omega)) hclosing
  | .call hname hf hopening h hclosing harity => by
    have ih := h.accepts
    intro d hd
    simp only [List.length_cons, List.length_append, List.length_nil, Phrase.slack] at hd
    exact .call hname hf hopening h.head (ih d (by omega)) hclosing harity

theorem SpellsArgs.accepts {ts : List Token} {es : List Expr} :
    SpellsArgs ts es → ∀ d, ts.length ≤ d → AcceptsArgs d ts es
  | .last h => fun d hd => .last (h.accepts d hd)
  | .more h hcomma hs => by
    have ih := h.accepts
    have ihs := hs.accepts
    intro d hd
    rw [List.length_append, List.length_cons] at hd
    exact .more (ih d (by simp only [Phrase.slack]; omega)) hcomma (ihs d (by omega))

end

end Reckoner
