import Reckoner.Proofs.Tree

/-!
# The grammar of expressions

    expr    := term (('+' | '-') term)*
    term    := unary (('*' | '/') unary)*
    unary   := '-' unary | primary
    primary := number | '(' expr ')' | function '(' expr (',' expr)* ')'

`Spells p ts e` says that the tokens `ts` are a phrase of the sort `p` and that `e` is their tree.
A chain grows to the right, its tree to the left: what stands in front of the last operator is a
chain again and becomes the left operand. Parentheses leave no node, a minus sign in front leaves
one, and a call has exactly as many arguments as its function takes. Of a parenthesis, a comma and a
number only the kind of the token counts, so the relation is about all tokens and not only about
those a text can have.
-/

namespace Reckoner

/-- The sorts of phrases, the loosest first. -/
inductive Phrase where
  | expr | term | unary | primary

mutual

/-- The tokens are a phrase of the sort, and this is its tree. -/
inductive Spells : Phrase → List Token → Expr → Prop
  | ofTerm {ts : List Token} {e : Expr} (h : Spells .term ts e) : Spells .expr ts e
  | sum {ts us : List Token} {l r : Expr} {op : String} {pos : Nat} (hop : op ∈ ["+", "-"])
      (hl : Spells .expr ts l) (hr : Spells .term us r) :
      Spells .expr (ts ++ ⟨.operator, .text op, pos⟩ :: us) (.binary op l r)
  | ofUnary {ts : List Token} {e : Expr} (h : Spells .unary ts e) : Spells .term ts e
  | product {ts us : List Token} {l r : Expr} {op : String} {pos : Nat} (hop : op ∈ ["*", "/"])
      (hl : Spells .term ts l) (hr : Spells .unary us r) :
      Spells .term (ts ++ ⟨.operator, .text op, pos⟩ :: us) (.binary op l r)
  | ofPrimary {ts : List Token} {e : Expr} (h : Spells .primary ts e) : Spells .unary ts e
  | negation {ts : List Token} {e : Expr} {pos : Nat} (h : Spells .unary ts e) :
      Spells .unary (⟨.operator, .text "-", pos⟩ :: ts) (.negate e)
  | number {t : Token} (ht : t.kind = .number) : Spells .primary [t] (.literal t.value)
  | group {ts : List Token} {e : Expr} {opening closing : Token}
      (hopening : opening.kind = .lparen) (h : Spells .expr ts e)
      (hclosing : closing.kind = .rparen) :
      Spells .primary (opening :: (ts ++ [closing])) e
  | call {ts : List Token} {es : List Expr} {f : MathFunction} {name opening closing : Token}
      (hname : name.kind = .function) (hf : name.value.function? = some f)
      (hopening : opening.kind = .lparen) (h : SpellsArgs ts es)
      (hclosing : closing.kind = .rparen) (harity : es.length = f.arity) :
      Spells .primary (name :: opening :: (ts ++ [closing])) (.call f.name es)

/-- The tokens are expressions with commas between them, and these are their trees. -/
inductive SpellsArgs : List Token → List Expr → Prop
  | last {ts : List Token} {e : Expr} (h : Spells .expr ts e) : SpellsArgs ts [e]
  | more {ts us : List Token} {e : Expr} {es : List Expr} {comma : Token}
      (h : Spells .expr ts e) (hcomma : comma.kind = .comma) (hs : SpellsArgs us es) :
      SpellsArgs (ts ++ comma :: us) (e :: es)

end

/-! ## The tokens of a phrase -/

/-- No phrase begins with a closing parenthesis; in particular none is empty. -/
theorem Spells.head {p : Phrase} {ts : List Token} {e : Expr} (h : Spells p ts e) :
    ∃ t us, ts = t :: us ∧ t.kind ≠ .rparen := by
  match h with
  | .ofTerm h | .ofUnary h | .ofPrimary h => exact h.head
  | .sum _ hl _ | .product _ hl _ =>
    obtain ⟨t, us, rfl, ht⟩ := hl.head
    exact ⟨t, _, rfl, ht⟩
  | .negation _ => exact ⟨_, _, rfl, by simp⟩
  | .number ht => exact ⟨_, _, rfl, by simp [ht]⟩
  | .group hopening _ _ => exact ⟨_, _, rfl, by simp [hopening]⟩
  | .call hname _ _ _ _ _ => exact ⟨_, _, rfl, by simp [hname]⟩

theorem SpellsArgs.head {ts : List Token} {es : List Expr} (h : SpellsArgs ts es) :
    ∃ t us, ts = t :: us ∧ t.kind ≠ .rparen := by
  cases h with
  | last h => exact h.head
  | more h _ _ =>
    obtain ⟨t, us, rfl, ht⟩ := h.head
    exact ⟨t, _, rfl, ht⟩

theorem Spells.length_pos {p : Phrase} {ts : List Token} {e : Expr} (h : Spells p ts e) :
    0 < ts.length := by
  obtain ⟨t, us, rfl, -⟩ := h.head
  exact Nat.succ_pos _

/-! ## The height of a tree

Every step from the root of a tree to a leaf goes along with a token that belongs to no smaller
phrase on the way. -/

mutual

theorem Spells.height_lt {p : Phrase} {ts : List Token} {e : Expr} :
    Spells p ts e → e.height < ts.length
  | .ofTerm h => h.height_lt
  | .ofUnary h => h.height_lt
  | .ofPrimary h => h.height_lt
  | .sum _ hl hr => by
    have hleft := hl.height_lt
    have hright := hr.height_lt
    simp only [Expr.height, List.length_append, List.length_cons]
    omega
  | .product _ hl hr => by
    have hleft := hl.height_lt
    have hright := hr.height_lt
    simp only [Expr.height, List.length_append, List.length_cons]
    omega
  | .negation h => by
    have := h.height_lt
    simp only [Expr.height, List.length_cons]
    omega
  | .number _ => by simp [Expr.height]
  | .group _ h _ => by
    have := h.height_lt
    simp only [List.length_cons, List.length_append, List.length_nil]
    omega
  | .call _ _ _ h _ _ => by
    refine Nat.lt_of_le_of_lt (Expr.height_call_le_iff.mpr h.height_lt) ?_
    simp only [List.length_cons, List.length_append, List.length_nil]
    omega

theorem SpellsArgs.height_lt {ts : List Token} {es : List Expr} :
    SpellsArgs ts es → ∀ e ∈ es, e.height < ts.length
  | .last h => by
    intro e he
    rw [List.mem_singleton.mp he]
    exact h.height_lt
  | .more h _ hs => by
    have hfirst := h.height_lt
    have hrest := hs.height_lt
    intro e he
    rw [List.length_append, List.length_cons]
    rcases List.mem_cons.mp he with rfl | he
    · omega
    · have := hrest e he
      omega

end

end Reckoner
