import Mathlib
import Reckoner.Proofs.Parser.Depth
import Reckoner.Proofs.Parser.Language

/-!
# How deeply tokens nest

Between two tokens some parentheses are open, those of calls included, and some minus signs still
wait for their operand. `nesting` is the largest number of them at any place, counted from the tokens
alone (`Standing.step`), whether or not they are an expression. A phrase leaves nothing open behind
it (`Phrased.after_eq`), so the operands of a chain and the arguments of a call are counted apart from
each other (`nesting_join`).

A parser goes as deep as the tokens it has taken have left open, so it does not stop at a limit above
their nesting (`parse_ne_nestedTooDeeply`).
-/

namespace Reckoner

/-- Where a reader stands between two tokens. -/
structure Standing where
  /-- Signs in front of the operand that comes next. -/
  signs : Nat := 0
  /-- For each open parenthesis, the innermost first, the signs in front of it. -/
  outer : List Nat := []
  /-- An operand comes next. -/
  operand : Bool := true

namespace Standing

/-- What is open: signs and parentheses. -/
def depth (st : Standing) : Nat := st.signs + st.outer.sum + st.outer.length

/-- The standing behind an operand. -/
def closed (st : Standing) : Standing := ⟨0, st.outer, false⟩

/-- The standing behind the next token. -/
def step (st : Standing) (t : Token) : Standing :=
  match t.kind with
  | .operator =>
    if st.operand && t.value == .text "-" then { st with signs := st.signs + 1 }
    else ⟨0, st.outer, true⟩
  | .number => st.closed
  | .lparen => ⟨0, st.signs :: st.outer, true⟩
  | .rparen => ⟨0, st.outer.tail, false⟩
  | .comma => ⟨0, st.outer, true⟩
  | .function | .other _ => st

/-- The standing behind some tokens. -/
def after (st : Standing) (us : List Token) : Standing := us.foldl step st

/-- The most that is open at any place among the tokens. -/
def nesting (st : Standing) : List Token → Nat
  | [] => st.depth
  | t :: ts => max st.depth ((st.step t).nesting ts)

@[simp]
theorem after_nil (st : Standing) : st.after [] = st := rfl

@[simp]
theorem after_cons (st : Standing) (t : Token) (us : List Token) :
    st.after (t :: us) = (st.step t).after us := rfl

@[simp]
theorem after_append (st : Standing) (us vs : List Token) :
    st.after (us ++ vs) = (st.after us).after vs := List.foldl_append

theorem depth_le_nesting (st : Standing) (ts : List Token) : st.depth ≤ st.nesting ts := by
  cases ts with
  | nil => exact Nat.le_refl _
  | cons t ts => exact Nat.le_max_left _ _

/-- Nesting is a maximum, so that of a sequence is found in one of its parts. -/
theorem nesting_append (st : Standing) (us vs : List Token) :
    st.nesting (us ++ vs) = max (st.nesting us) ((st.after us).nesting vs) := by
  induction us generalizing st with
  | nil => exact (Nat.max_eq_right (st.depth_le_nesting vs)).symm
  | cons t us ih => rw [List.cons_append, nesting, nesting, ih, after_cons, Nat.max_assoc]

/-! ## Tokens one by one -/

section Step

variable {st : Standing} {t : Token}

theorem step_number (ht : t.kind = .number) : st.step t = st.closed := by
  simp only [step, ht]

theorem step_function (ht : t.kind = .function) : st.step t = st := by
  simp only [step, ht]

theorem nesting_function (ht : t.kind = .function) (ts : List Token) :
    st.nesting (t :: ts) = st.nesting ts := by
  rw [nesting, step_function ht, Nat.max_eq_right (st.depth_le_nesting ts)]

theorem step_lparen (ht : t.kind = .lparen) : st.step t = ⟨0, st.signs :: st.outer, true⟩ := by
  simp only [step, ht]

theorem step_rparen (ht : t.kind = .rparen) : st.step t = ⟨0, st.outer.tail, false⟩ := by
  simp only [step, ht]

theorem step_minus (hst : st.operand = true) (pos : Nat) :
    st.step ⟨.operator, .text "-", pos⟩ = ⟨st.signs + 1, st.outer, true⟩ := by
  obtain ⟨signs, outer, operand⟩ := st
  subst hst
  rfl

/-- Behind an operand an operator or a comma makes room for the next one. -/
theorem closed_step (ht : t.kind = .operator ∨ t.kind = .comma) :
    st.closed.step t = ⟨0, st.outer, true⟩ := by
  rcases ht with ht | ht
  · simp [step, closed, ht]
  · simp [step, closed, ht]

end Step

end Standing

/-! ## Phrases -/

mutual

/-- Behind a phrase nothing is open that was not open in front of it. -/
theorem Phrased.after_eq {p : Phrase} {ts : List Token} :
    Phrased p ts → ∀ st : Standing, st.operand = true → st.after ts = st.closed
  | .ofTerm h, st, hst | .ofUnary h, st, hst | .ofPrimary h, st, hst => h.after_eq st hst
  | .sum _ hl hr, st, hst | .product _ hl hr, st, hst => by
    rw [Standing.after_append, hl.after_eq st hst, Standing.after_cons,
      Standing.closed_step (.inl rfl), hr.after_eq _ rfl]
    rfl
  | .negation h, st, hst => by
    rw [Standing.after_cons, Standing.step_minus hst, h.after_eq _ rfl]
    rfl
  | .number ht, st, _ => by
    rw [Standing.after_cons, Standing.step_number ht, Standing.after_nil]
  | .group hopening h hclosing, st, _ => by
    rw [Standing.after_cons, Standing.step_lparen hopening, Standing.after_append,
      h.after_eq _ rfl, Standing.after_cons, Standing.step_rparen hclosing]
    rfl
  | .call hname hopening h hclosing, st, _ => by
    have houter := h.outer_after ⟨0, st.signs :: st.outer, true⟩ rfl
    rw [Standing.after_cons, Standing.step_function hname, Standing.after_cons,
      Standing.step_lparen hopening, Standing.after_append, Standing.after_cons,
      Standing.step_rparen hclosing, houter]
    rfl

theorem Listed.outer_after {n : Nat} {ts : List Token} :
    Listed n ts → ∀ st : Standing, st.operand = true → (st.after ts).outer = st.outer
  | .none, _, _ => rfl
  | .last h, st, hst => by
    rw [h.after_eq st hst]
    rfl
  | .more h hcomma hs, st, hst => by
    rw [Standing.after_append, h.after_eq st hst, Standing.after_cons,
      Standing.closed_step (.inr hcomma)]
    exact hs.outer_after _ rfl

end

/-- How deeply the tokens nest. -/
def nesting (ts : List Token) : Nat := Standing.nesting {} ts

/-- An operator or a comma between two phrases opens nothing. -/
theorem nesting_between {p : Phrase} {ts us : List Token} {t : Token} (h : Phrased p ts)
    (ht : t.kind = .operator ∨ t.kind = .comma) (st : Standing) (hst : st.operand = true) :
    st.nesting (ts ++ t :: us) = max (st.nesting ts) (Standing.nesting ⟨0, st.outer, true⟩ us) := by
  have hclosed : st.closed.depth ≤ st.nesting ts := by
    have hdepth := st.depth_le_nesting ts
    simp only [Standing.closed, Standing.depth] at hdepth ⊢
    omega
  rw [Standing.nesting_append, h.after_eq st hst, Standing.nesting, Standing.closed_step ht,
    ← Nat.max_assoc, Nat.max_eq_left hclosed]

/-- Parentheses add one level to what stands between them. -/
theorem nesting_enclosed {ts : List Token} {opening closing : Token}
    (hopening : opening.kind = .lparen) (hclosing : closing.kind = .rparen)
    (houter : ∀ st : Standing, st.operand = true → (st.after ts).outer = st.outer)
    (h : ∀ st : Standing, st.operand = true → st.signs = 0 →
      st.nesting ts = st.depth + nesting ts) (st : Standing) :
    st.nesting (opening :: (ts ++ [closing])) = st.depth + (nesting ts + 1) := by
  have hinner := h ⟨0, st.signs :: st.outer, true⟩ rfl rfl
  rw [Standing.nesting, Standing.step_lparen hopening, Standing.nesting_append, hinner,
    Standing.nesting, Standing.step_rparen hclosing, houter _ rfl]
  have hlast : (Standing.after ⟨0, st.signs :: st.outer, true⟩ ts).depth ≤
      Standing.nesting ⟨0, st.signs :: st.outer, true⟩ ts := by
    rw [← List.append_nil ts, Standing.nesting_append, List.append_nil]
    exact Nat.le_max_right _ _
  rw [hinner] at hlast
  simp only [Standing.nesting, Standing.depth, List.tail_cons, List.sum_cons,
    List.length_cons] at hlast ⊢
  omega

mutual

/-- What a phrase opens comes on top of what is open in front of it. -/
theorem Phrased.nesting_eq {p : Phrase} {ts : List Token} : Phrased p ts →
    ∀ st : Standing, st.operand = true → (st.signs = 0 ∨ p = .unary ∨ p = .primary) →
      st.nesting ts = st.depth + nesting ts
  | .ofTerm h, st, hst, hsigns | .ofUnary h, st, hst, hsigns =>
    h.nesting_eq st hst (hsigns.imp_right nofun)
  | .ofPrimary h, st, hst, hsigns => h.nesting_eq st hst (.inr (.inr rfl))
  | .sum _ hl hr, st, hst, hsigns | .product _ hl hr, st, hst, hsigns => by
    have hsigns : st.signs = 0 := hsigns.resolve_right nofun
    rw [nesting, nesting_between hl (.inl rfl) st hst, nesting_between hl (.inl rfl) {} rfl,
      hl.nesting_eq st hst (.inl hsigns), hr.nesting_eq ⟨0, st.outer, true⟩ rfl (.inl rfl),
      ← nesting, ← nesting]
    simp only [Standing.depth, hsigns]
    omega
  | .negation h, st, hst, _ => by
    rw [nesting, Standing.nesting, Standing.nesting, Standing.step_minus hst,
      Standing.step_minus rfl, h.nesting_eq _ rfl (.inr (.inl rfl)),
      h.nesting_eq _ rfl (.inr (.inl rfl))]
    simp only [Standing.depth, List.sum_nil, List.length_nil]
    omega
  | .number ht, st, _, _ => by
    simp only [nesting, Standing.nesting, Standing.step_number ht, Standing.closed, Standing.depth]
    simp
  | .group hopening h hclosing, st, _, _ => by
    have hnesting := nesting_enclosed hopening hclosing
      (fun st hst => by rw [h.after_eq st hst]; rfl) fun st hst hsigns =>
        h.nesting_eq st hst (.inl hsigns)
    rw [nesting, hnesting, hnesting]
    simp [Standing.depth]
  | .call hname hopening h hclosing, st, _, _ => by
    have hnesting := nesting_enclosed hopening hclosing h.outer_after h.nesting_eq
    rw [nesting, Standing.nesting_function hname, Standing.nesting_function hname, hnesting,
      hnesting]
    simp [Standing.depth]

theorem Listed.nesting_eq {n : Nat} {ts : List Token} : Listed n ts →
    ∀ st : Standing, st.operand = true → st.signs = 0 → st.nesting ts = st.depth + nesting ts
  | .none, st, _, _ => rfl
  | .last h, st, hst, hsigns => h.nesting_eq st hst (.inl hsigns)
  | .more h hcomma hs, st, hst, hsigns => by
    rw [nesting, nesting_between h (.inr hcomma) st hst, nesting_between h (.inr hcomma) {} rfl,
      h.nesting_eq st hst (.inl hsigns), hs.nesting_eq ⟨0, st.outer, true⟩ rfl rfl, ← nesting,
      ← nesting]
    simp only [Standing.depth, hsigns]
    omega

end

theorem nesting_call {n : Nat} {args : List Token} {name opening closing : Token}
    (h : Listed n args) (hname : name.kind = .function) (hopening : opening.kind = .lparen)
    (hclosing : closing.kind = .rparen) :
    nesting (name :: opening :: (args ++ [closing])) = nesting args + 1 := by
  rw [nesting, Standing.nesting_function hname,
    nesting_enclosed hopening hclosing h.outer_after h.nesting_eq]
  exact Nat.zero_add _

/-- Of phrases with operators or commas between them each is counted on its own. -/
theorem nesting_join_le_iff {m : Nat} {first : List Token} {rest : List (Token × List Token)}
    (hfirst : Phrased .expr first)
    (hrest : ∀ x ∈ rest, (x.1.kind = .operator ∨ x.1.kind = .comma) ∧ Phrased .expr x.2) :
    nesting (first ++ rest.flatMap fun x => x.1 :: x.2) ≤ m ↔
      nesting first ≤ m ∧ ∀ x ∈ rest, nesting x.2 ≤ m := by
  induction rest generalizing first with
  | nil => simp
  | cons x rest ih =>
    obtain ⟨hx, hphrase⟩ := hrest x List.mem_cons_self
    have hmore := ih hphrase fun y hy => hrest y (List.mem_cons_of_mem x hy)
    rw [List.flatMap_cons, List.cons_append, nesting, nesting_between hfirst hx {} rfl, Nat.max_le,
      List.forall_mem_cons]
    exact and_congr_right fun _ => hmore

/-! ## Parsers below the limit -/

namespace Parser

variable {α β : Type} {n : Nat} {st : Standing} {s : TokenStream}

/-- The tokens pending behind the standing nest no deeper than `n`, and the lexer does not break off
because of nesting. -/
structure Shallow (n : Nat) (st : Standing) (s : TokenStream) : Prop where
  nesting_le : st.nesting s.pending ≤ n
  failure : s.failure ≠ some .nestedTooDeeply

/-- From a standing with no deeper nesting ahead the parser does not come upon the limit. -/
def Avoids (n : Nat) (st : Standing) (p : Parser α) (s : TokenStream) : Prop :=
  Shallow n st s → ∀ s', p s ≠ .error .nestedTooDeeply s'

theorem Avoids.pure (a : α) : Avoids n st (Pure.pure a) s :=
  fun _ _ => nofun

theorem Avoids.throw {e : CalcError} (he : e ≠ .nestedTooDeeply) :
    Avoids n st (MonadExcept.throw e : Parser α) s := by
  intro _ s' h
  injection h with h
  exact he h

theorem Avoids.get_bind {f : TokenStream → Parser α} (h : Avoids n st (f s) s) :
    Avoids n st (MonadState.get >>= f) s :=
  h

/-- What has been taken when a parser goes on moves the standing. -/
theorem Avoids.bind {d : Nat} {ts : List Token} {R : List Token → α → Prop}
    {B : List Token → CalcError → Prop} {p : Parser α} {f : α → Parser β}
    (hp : Avoids n st p s) (hR : Parses d ts R B p s)
    (hf : ∀ us a s', R us a → Avoids n (st.after us) (f a) s') : Avoids n st (p >>= f) s := by
  intro hs s' herr
  rcases hrun : p s with ⟨a, s₁⟩ | ⟨e, s₁⟩
  · obtain ⟨us, hus, hfailure, ha⟩ := hR.ok hrun
    have hnesting := hs.nesting_le
    rw [hus, Standing.nesting_append] at hnesting
    have hs₁ : Shallow n (st.after us) s₁ :=
      ⟨Nat.le_trans (Nat.le_max_right _ _) hnesting, hfailure ▸ hs.failure⟩
    exact hf us a s₁ ha hs₁ s' ((bind_of_ok hrun).symm.trans herr)
  · cases (bind_of_error hrun).symm.trans herr
    exact hp hs _ hrun

/-- A parser with no errors of its own passes on only that of the lexer. -/
theorem Avoids.of_parses {d : Nat} {ts : List Token} {R : List Token → α → Prop} {p : Parser α}
    (h : Parses d ts R (fun _ _ => False) p s) : Avoids n st p s := by
  intro hs s' herr
  rcases h.error herr with hfailure | ⟨us, -, hfalse, -⟩
  · exact hs.failure hfailure
  · exact hfalse

theorem Avoids.advance_bind {f : Option Token → Parser α} {t : Token} (h : s.lookahead = some t)
    (hf : ∀ o s', Avoids n (st.step t) (f o) s') : Avoids n st (advance >>= f) s := by
  have hadvance : Parses 0 s.pending _ _ advance s := advance_parses h
  refine (Avoids.of_parses hadvance).bind hadvance fun us o s' hus => ?_
  rw [hus]
  exact hf o s'

theorem expect_avoids (kind : TokenKind) (expected : String) :
    Avoids n st (expect kind expected) s := by
  intro hs s' herr
  cases h : s.lookahead with
  | none => cases (expect_of_none h).symm.trans herr
  | some t =>
    by_cases hkind : t.kind = kind
    · rw [expect_of_kind h hkind] at herr
      exact Avoids.advance_bind h (fun _ _ => .pure t) hs s' herr
    · cases (expect_of_ne h hkind).symm.trans herr

theorem operator?_avoids (symbols : List String) : Avoids n st (operator? symbols) s :=
  .of_parses (operator?_reads (d := 0) symbols s)

/-! ## The parser, function by function -/

section Chains

variable {outer : List Nat} {d : Nat} {p : Phrase} {symbols : List String} {operand : Parser Expr}
  (hreads : ReadsPhrase d p operand)
  (hoperand : ∀ s, Avoids n ⟨0, outer, true⟩ operand s)

include hreads hoperand

/-- A loop stands behind an operand, where no signs are open. -/
theorem chainFrom_avoids (rounds : Nat) (left : Expr) (s : TokenStream) :
    Avoids n ⟨0, outer, false⟩ (chainFrom symbols operand rounds left) s := by
  induction rounds generalizing left s with
  | zero => exact .pure left
  | succ rounds ih =>
    refine (operator?_avoids symbols).bind (operator?_reads (d := d) symbols s) fun us o s₁ ho => ?_
    rcases ho with ⟨rfl, rfl⟩ | ⟨op, -, rfl, pos, rfl⟩
    · exact .pure left
    · refine (hoperand s₁).bind (hreads s₁) fun us right s₂ hr => ?_
      rw [hr.phrased.after_eq _ rfl]
      exact ih _ s₂

theorem chain_avoids (s : TokenStream) :
    Avoids n ⟨0, outer, true⟩ (chain symbols operand) s := by
  refine (hoperand s).bind (hreads s) fun us first s₁ hfirst => ?_
  rw [hfirst.phrased.after_eq _ rfl]
  exact .get_bind (chainFrom_avoids hreads hoperand _ first s₁)

end Chains

theorem exprOf_avoids {outer : List Nat} {d : Nat} {operand : Parser Expr} (hreads : ReadsPhrase d .unary operand)
    (hoperand : ∀ s, Avoids n ⟨0, outer, true⟩ operand s) (s : TokenStream) :
    Avoids n ⟨0, outer, true⟩ (exprOf operand) s :=
  chain_avoids (termOf_reads hreads) (fun s => chain_avoids hreads hoperand s) s

section Calls

variable {outer : List Nat} {d : Nat} {expr : Parser Expr} (hreads : ReadsPhrase d .expr expr)
  (hexpr : ∀ s, Avoids n ⟨0, outer, true⟩ expr s)

include hreads hexpr

theorem moreArgs_avoids (rounds : Nat) (s : TokenStream) :
    Avoids n ⟨0, outer, false⟩ (moreArgs expr rounds) s := by
  induction rounds generalizing s with
  | zero => exact .pure []
  | succ rounds ih =>
    refine .get_bind ?_
    by_cases h : isAt .comma [] s = true
    · rw [if_pos h]
      obtain ⟨comma, hnext, hkind⟩ := isAt_nil_iff.mp h
      refine .advance_bind hnext fun o s₁ => ?_
      have hstep : Standing.step ⟨0, outer, false⟩ comma = ⟨0, outer, true⟩ :=
        @Standing.closed_step ⟨0, outer, true⟩ comma (.inr hkind)
      rw [hstep]
      refine (hexpr s₁).bind (hreads s₁) fun us e s₂ he => ?_
      rw [he.phrased.after_eq _ rfl]
      exact (ih s₂).bind (moreArgs_reads hreads rounds s₂) fun vs es s₃ _ => .pure (e :: es)
    · rw [if_neg h]
      exact .pure []

theorem args_avoids (s : TokenStream) : Avoids n ⟨0, outer, true⟩ (args expr) s := by
  refine .get_bind ?_
  by_cases h : isAt .rparen [] s = true
  · rw [if_pos h]
    exact .pure []
  · rw [if_neg h]
    refine (hexpr s).bind (hreads s) fun us e s₁ he => ?_
    rw [he.phrased.after_eq _ rfl]
    refine .get_bind ?_
    exact (moreArgs_avoids hreads hexpr _ s₁).bind (moreArgs_reads hreads _ s₁)
      fun vs es s₂ _ => .pure (e :: es)

end Calls

theorem callOf_avoids {d : Nat} {expr : Parser Expr} (hreads : ReadsPhrase d .expr expr)
    (hexpr : ∀ s, Avoids n ⟨0, st.signs :: st.outer, true⟩ expr s) (function : Payload)
    (s : TokenStream) : Avoids n st (callOf expr function) s := by
  refine (expect_avoids .lparen _).bind (expect_reads (d := d) .lparen _ s) ?_
  rintro us opening s₁ ⟨rfl, hopening⟩
  rw [Standing.after_cons, Standing.after_nil, Standing.step_lparen hopening]
  refine (args_avoids hreads hexpr s₁).bind
    (args_reads hreads s₁) fun us es s₂ _ => ?_
  refine (expect_avoids .rparen _).bind (expect_reads (d := d) .rparen _ s₂) fun us t s₃ _ => ?_
  cases hcheck : checkedCall function es with
  | ok e => exact .pure e
  | error e =>
    refine .throw ?_
    rintro rfl
    unfold checkedCall at hcheck
    split at hcheck
    · cases hcheck
    · split at hcheck <;> cases hcheck

theorem primaryOf_avoids {d : Nat} {expr : Parser Expr} (hreads : ReadsPhrase d .expr expr)
    (hexpr : ∀ s, Avoids n ⟨0, st.signs :: st.outer, true⟩ expr s) (s : TokenStream) :
    Avoids n st (primaryOf expr) s := by
  refine .get_bind ?_
  cases h : s.lookahead with
  | none => exact .throw nofun
  | some t =>
    cases hkind : t.kind with
    | number =>
      simp only [hkind]
      exact .advance_bind h fun _ _ => .pure _
    | lparen =>
      simp only [hkind]
      refine .advance_bind h fun o s₁ => ?_
      rw [Standing.step_lparen hkind]
      refine (hexpr s₁).bind (hreads s₁) fun us e s₂ _ => ?_
      exact (expect_avoids .rparen _).bind (expect_reads (d := d) .rparen _ s₂) fun _ _ _ _ => .pure e
    | function =>
      simp only [hkind]
      refine .advance_bind h fun o s₁ => ?_
      rw [Standing.step_function hkind]
      exact callOf_avoids hreads hexpr t.value s₁
    | _ =>
      simp only [hkind]
      exact .throw nofun

/-- The induction on the limit: a sign and an opening parenthesis use up one level each, and both
stay open while the operand behind them is read. -/
theorem unary_avoids {d : Nat} (hst : st.operand = true) (hd : n < st.depth + d) (s : TokenStream) :
    Avoids n st (unary d) s := by
  induction d generalizing st s with
  | zero =>
    intro hs s' _
    have hdepth := Nat.le_trans (st.depth_le_nesting s.pending) hs.nesting_le
    omega
  | succ d ih =>
    refine (operator?_avoids ["-"]).bind (operator?_reads (d := d) ["-"] s) fun us o s₁ ho => ?_
    rcases ho with ⟨rfl, rfl⟩ | ⟨op, hop, rfl, pos, rfl⟩
    · rw [Standing.after_nil]
      refine primaryOf_avoids (expr_reads d) (fun s => ?_) s₁
      refine exprOf_avoids (unary_reads d) (fun s => ?_) s
      refine ih rfl ?_ s
      simp only [Standing.depth, List.sum_cons, List.length_cons] at hd ⊢
      omega
    · rw [List.mem_singleton.mp hop, Standing.after_cons, Standing.step_minus hst]
      have hsign : n < Standing.depth ⟨st.signs + 1, st.outer, true⟩ + d := by
        simp only [Standing.depth] at hd ⊢
        omega
      exact (ih rfl hsign s₁).bind (unary_reads d s₁) fun us e s₂ _ => .pure (Expr.negate e)

theorem whole_avoids {d : Nat} (hd : n < d) (s : TokenStream) : Avoids n {} (whole d) s := by
  have hunary : ∀ s, Avoids n {} (unary d) s := unary_avoids rfl (by simpa [Standing.depth] using hd)
  refine .get_bind ?_
  cases s.lookahead with
  | none => exact .throw nofun
  | some t =>
    refine (exprOf_avoids (unary_reads d) hunary s).bind (expr_reads d s) ?_
    intro us e s₁ _
    refine .get_bind ?_
    cases s₁.lookahead with
    | none => exact .pure e
    | some t => exact .throw nofun

end Parser

namespace TokenStream

variable {limit : Nat} {s : TokenStream}

/-- A limit above the nesting of the tokens is none. -/
theorem parse_ne_nestedTooDeeply (h : nesting s.pending < limit)
    (hfailure : s.failure ≠ some .nestedTooDeeply) :
    s.parse limit ≠ .error .nestedTooDeeply := by
  intro herr
  rcases s.opened_cases with hs | ⟨e, hs, he⟩
  · rcases hrun : Parser.whole limit s with ⟨e, s'⟩ | ⟨e, s'⟩
    · cases (Parser.run_of_ok hs hrun).symm.trans herr
    · cases (Parser.run_of_error hs hrun).symm.trans herr
      exact Parser.whole_avoids h s ⟨Nat.le_refl _, hfailure⟩ s' hrun
  · cases (Parser.run_of_opened hs).symm.trans herr
    exact hfailure he

/-- What is read within a limit is read within a larger one. -/
theorem parse_of_le {d d' : Nat} (h : d ≤ d') (s : TokenStream) :
    s.parse d = .error .nestedTooDeeply ∨ s.parse d' = s.parse d := by
  rcases s.opened_cases with hs | ⟨e, hs, -⟩
  · rcases Parser.Extends.whole_of_le h s with ⟨s', hs'⟩ | hsame
    · exact .inl (Parser.run_of_error hs hs')
    · refine .inr ?_
      unfold parse Parser.run
      rw [hs]
      simp only [Bind.bind, Except.bind, hsame]
  · exact .inr ((Parser.run_of_opened hs).trans (Parser.run_of_opened hs).symm)

end TokenStream

end Reckoner
