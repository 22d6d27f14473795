import Reckoner.Proofs.Outcome
import Reckoner.Proofs.Parser.Nesting

/-!
# The limit on nesting

A calculation has one limit for two depths: how deeply operands nest while they are read, and how deeply
evaluations nest while the tree is evaluated. The limit only cuts off. A calculation that is not cut off
has the same outcome at every larger limit (`calculate_limited`), and a limit above both depths cuts
nothing off. The two depths differ: a chain of operators is flat while it is read, and its tree is as
high as the chain is long (`NumberChain`).
-/

namespace Reckoner

open TokenStream (ofText ofTokens)

/-! ## Evaluations with more room -/

/-- The second calculation answers what the first does, unless that one is cut off. -/
def Persists {α : Type} (x y : Except CalcError α) : Prop := x = .error .nestedTooDeeply ∨ y = x

namespace Persists

variable {α β : Type}

theorem refl (x : Except CalcError α) : Persists x x := .inr rfl

theorem trans {x y z : Except CalcError α} (h : Persists x y) (h' : Persists y z) : Persists x z := by
  rcases h with h | rfl
  · exact .inl h
  · exact h'

theorem bind {x y : Except CalcError α} {f g : α → Except CalcError β} (h : Persists x y)
    (hf : ∀ a, Persists (f a) (g a)) : Persists (x >>= f) (y >>= g) := by
  rcases h with rfl | rfl
  · exact .inl rfl
  · cases y with
    | ok a => exact hf a
    | error e => exact .inr rfl

theorem mapM {f g : α → Except CalcError β} (h : ∀ a, Persists (f a) (g a)) (as : List α) :
    Persists (as.mapM f) (as.mapM g) := by
  induction as with
  | nil => exact refl _
  | cons a as ih =>
    rw [List.mapM_cons, List.mapM_cons]
    exact (h a).bind fun b => ih.bind fun bs => refl _

end Persists

namespace Expr

theorem evalWithin_persists_succ (e : Expr) (d : Nat) :
    Persists (e.evalWithin d) (e.evalWithin (d + 1)) := by
  induction d generalizing e with
  | zero => exact .inl rfl
  | succ d ih =>
    cases e with
    | literal v => exact .refl _
    | binary op l r => exact (ih l).bind fun x => (ih r).bind fun y => .refl _
    | call f args => exact (Persists.mapM ih args).bind fun xs => .refl _
    | negate e => exact (ih e).bind fun x => .refl _

theorem evalWithin_persists {d d' : Nat} (h : d ≤ d') (e : Expr) :
    Persists (e.evalWithin d) (e.evalWithin d') := by
  induction h with
  | refl => exact .refl _
  | step _ ih => exact ih.trans (e.evalWithin_persists_succ _)

end Expr

theorem calculate_persists {d d' : Nat} (h : d ≤ d') (text : String) :
    Persists (calculate d text) (calculate d' text) := by
  have hparse : Persists (parseText d text) (parseText d' text) := (ofText text).parse_of_le h
  exact hparse.bind fun e => e.evalWithin_persists h

/-! ## Enough room -/

theorem parseText_ne_nestedTooDeeply {limit : Nat} {text : String}
    (h : nesting (ofText text).pending < limit) : parseText limit text ≠ .error .nestedTooDeeply := by
  refine TokenStream.parse_ne_nestedTooDeeply h fun hfailure => ?_
  rcases TokenStream.stage_of_failure hfailure with hstage | ⟨n, hn⟩
  · cases hstage
  · cases hn

theorem calculate_ne_nestedTooDeeply {limit : Nat} {text : String}
    (h : nesting (ofText text).pending < limit)
    (hheight : ∀ e, parseText limit text = .ok e → e.height < limit) :
    calculate limit text ≠ .error .nestedTooDeeply := by
  intro herr
  rcases error_of_bind herr with herr | ⟨e, he, herr⟩
  · exact parseText_ne_nestedTooDeeply h herr
  · rcases ((wellFormed_of_parseText he).evaluates limit).error herr with hfails | ⟨-, hle⟩
    · exact hfails
    · have hlt := hheight e he
      omega

/-! ## Chains of operators -/

/-- The tokens are numbers with so many operators of one precedence between them, and this is their
tree. -/
inductive NumberChain (symbols : List String) : Nat → List Token → Expr → Prop
  | one {t : Token} (ht : t.kind = .number) : NumberChain symbols 0 [t] (.literal t.value)
  | more {n : Nat} {ts : List Token} {l : Expr} {op : String} {pos : Nat} {t : Token}
      (h : NumberChain symbols n ts l) (hop : op ∈ symbols) (ht : t.kind = .number) :
      NumberChain symbols (n + 1) (ts ++ [⟨.operator, .text op, pos⟩, t])
        (.binary op l (.literal t.value))

namespace NumberChain

variable {symbols : List String} {n : Nat} {ts : List Token} {e : Expr}

theorem spells_term (h : NumberChain ["*", "/"] n ts e) : Spells .term ts e := by
  induction h with
  | one ht => exact .ofUnary (.ofPrimary (.number ht))
  | more _ hop ht ih => exact .product hop ih (.ofPrimary (.number ht))

theorem spells (h : NumberChain symbols n ts e)
    (hsymbols : symbols = ["+", "-"] ∨ symbols = ["*", "/"]) : Spells .expr ts e := by
  rcases hsymbols with rfl | rfl
  · induction h with
    | one ht => exact .ofTerm (.ofUnary (.ofPrimary (.number ht)))
    | more _ hop ht ih => exact .sum hop ih (.ofUnary (.ofPrimary (.number ht)))
  · exact .ofTerm h.spells_term

theorem height_eq (h : NumberChain symbols n ts e) : e.height = n := by
  induction h with
  | one ht => rw [Expr.height]
  | more _ _ _ ih => simp only [Expr.height, ih, Nat.max_zero]

theorem nesting_eq (h : NumberChain symbols n ts e)
    (hsymbols : symbols = ["+", "-"] ∨ symbols = ["*", "/"]) : nesting ts = 0 := by
  have hone {t : Token} (ht : t.kind = .number) : nesting [t] = 0 := by
    rw [nesting, Standing.nesting, Standing.step_number ht]
    rfl
  induction h with
  | one ht => exact hone ht
  | more h _ ht ih =>
    rw [nesting, nesting_between (h.spells hsymbols).phrased (.inl rfl) {} rfl, ← nesting, ih]
    exact hone ht

/-- The leftmost number is the deepest node, and it is evaluated first. -/
theorem evalWithin_eq (h : NumberChain symbols n ts e) {d : Nat} (hd : d ≤ n) :
    e.evalWithin d = .error .nestedTooDeeply := by
  induction h generalizing d with
  | one ht =>
    rw [Nat.le_zero.mp hd]
    rfl
  | more _ _ _ ih =>
    cases d with
    | zero => rfl
    | succ d =>
      rw [Expr.evalWithin, ih (Nat.le_of_succ_le_succ hd)]
      rfl

/-- However long the chain, one level is enough to read it. -/
theorem parseTokens_eq (h : NumberChain symbols n ts e)
    (hsymbols : symbols = ["+", "-"] ∨ symbols = ["*", "/"]) : parseTokens 1 ts = .ok e := by
  have hlong : parseTokens (max 1 ts.length) ts = .ok e :=
    parseTokens_of_spells (h.spells hsymbols) (Nat.le_max_right _ _)
  rcases (ofTokens ts).parse_of_le (Nat.le_max_left 1 ts.length) with hdeep | hsame
  · refine absurd hdeep (TokenStream.parse_ne_nestedTooDeeply ?_ nofun)
    rw [TokenStream.ofTokens, h.nesting_eq hsymbols]
    exact Nat.one_pos
  · exact hsame.symm.trans hlong

end NumberChain

/-- **The limit on nesting only cuts off.** A calculation that is not cut off has the same outcome at
every larger limit. A limit above what is open at any place among the tokens and above the height of
the tree cuts nothing off. For the former the operands of a chain and the arguments of a call are
counted apart from each other, and a call adds one level; so a chain of numbers is read within one
level, but its tree is as high as it has operators, and evaluating it takes one level more. -/
theorem calculate_limited (text : String) :
    (∀ d d', d ≤ d' → calculate d text ≠ .error .nestedTooDeeply →
      calculate d' text = calculate d text) ∧
    (∀ d, nesting (ofText text).pending < d → (∀ e, parseText d text = .ok e → e.height < d) →
      calculate d text ≠ .error .nestedTooDeeply) ∧
    (∀ (first : List Token) (rest : List (Token × List Token)) (m : Nat), Phrased .expr first →
      (∀ x ∈ rest, (x.1.kind = .operator ∨ x.1.kind = .comma) ∧ Phrased .expr x.2) →
      (nesting (first ++ rest.flatMap fun x => x.1 :: x.2) ≤ m ↔
        nesting first ≤ m ∧ ∀ x ∈ rest, nesting x.2 ≤ m)) ∧
    (∀ (name opening closing : Token) (k : Nat) (args : List Token), Listed k args →
      name.kind = .function → opening.kind = .lparen → closing.kind = .rparen →
      nesting (name :: opening :: (args ++ [closing])) = nesting args + 1) ∧
    ∀ symbols n ts e, symbols = ["+", "-"] ∨ symbols = ["*", "/"] → NumberChain symbols n ts e →
      parseTokens 1 ts = .ok e ∧ e.height = n ∧
        ∀ d ≤ n, e.evalWithin d = .error .nestedTooDeeply := by
  refine ⟨?_, ?_, ?_, ?_, ?_⟩
  · intro d d' h hne
    exact (calculate_persists h text).resolve_left hne
  · intro d
    exact calculate_ne_nestedTooDeeply
  · intro first rest m hfirst hrest
    exact nesting_join_le_iff hfirst hrest
  · intro name opening closing k args hargs hname hopening hclosing
    exact nesting_call hargs hname hopening hclosing
  · intro symbols n ts e hsymbols hchain
    exact ⟨hchain.parseTokens_eq hsymbols, hchain.height_eq, fun d hd => hchain.evalWithin_eq hd⟩

/-- `--(1)` has three levels, two of them in its tree; `1-2` has none and a tree of height 1. -/
theorem calculate_limited_signs :
    calculate 5 "--(1)" ≠ .error .nestedTooDeeply ∧ calculate 9 "--(1)" = calculate 5 "--(1)" ∧
    (nesting [⟨.number, .number (.int 1), 0⟩, ⟨.operator, .text "-", 1⟩,
      ⟨.number, .number (.int 2), 2⟩] ≤ 0) ∧
    nesting [⟨.function, .text "sin", 0⟩, ⟨.lparen, .text "(", 3⟩, ⟨.number, .number (.int 1), 4⟩,
      ⟨.rparen, .text ")", 5⟩] = 1 ∧
    (Expr.binary "-" (.literal (.number (.int 1))) (.literal (.number (.int 2)))).evalWithin 1 =
      .error .nestedTooDeeply := by
  have hsame := calculate_limited "--(1)"
  have hnumber (n : Int) (pos : Nat) : Phrased .expr [⟨.number, .number (.int n), pos⟩] :=
    .ofTerm (.ofUnary (.ofPrimary (.number rfl)))
  have hpending : nesting (ofText "--(1)").pending < 5 := by decide +kernel
  have hlength : (ofText "--(1)").pending.length = 5 := by decide +kernel
  have htree : ∀ e, parseText 5 "--(1)" = .ok e → e.height < 5 := fun e he =>
    hlength ▸ (TokenStream.spells_of_parse he).height_lt
  have hbound := hsame.2.1 5 hpending htree
  have hminus := (hsame.2.2.1 [⟨.number, .number (.int 1), 0⟩]
    [(⟨.operator, .text "-", 1⟩, [⟨.number, .number (.int 2), 2⟩])] 0 (hnumber 1 0) fun x hx => by
      rw [List.mem_singleton.mp hx]
      exact ⟨.inl rfl, hnumber 2 2⟩).mpr ⟨Nat.le_refl 0, fun x hx => by
        rw [List.mem_singleton.mp hx]
        exact Nat.le_refl 0⟩
  have hcall := hsame.2.2.2.1 ⟨.function, .text "sin", 0⟩ ⟨.lparen, .text "(", 3⟩
    ⟨.rparen, .text ")", 5⟩ 1 [⟨.number, .number (.int 1), 4⟩] (.last (hnumber 1 4)) rfl rfl rfl
  have hone : NumberChain ["+", "-"] 0 [⟨.number, .number (.int 1), 0⟩]
      (.literal (.number (.int 1))) :=
    .one rfl
  have htwo : NumberChain ["+", "-"] 1 [⟨.number, .number (.int 1), 0⟩, ⟨.operator, .text "-", 1⟩,
      ⟨.number, .number (.int 2), 2⟩]
      (.binary "-" (.literal (.number (.int 1))) (.literal (.number (.int 2)))) :=
    hone.more (by decide) rfl
  have hchain := hsame.2.2.2.2 ["+", "-"] 1 _ _ (.inl rfl) htwo
  exact ⟨hbound, hsame.1 5 9 (by decide) hbound, hminus, hcall, hchain.2.2 1 (Nat.le_refl 1)⟩

end Reckoner
