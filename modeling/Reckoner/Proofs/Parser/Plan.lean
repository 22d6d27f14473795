import Reckoner.Proofs.Parser.Steps

/-!
# Parsers as plans

Whatever a parser does, it decides by the next token alone and moves on by taking it. A `Plan` is
such a course of action as a tree, and `Planned p` says that `p` follows one. The loops of the parser
count their rounds by the tokens pending, which is more than the next token tells; the number of
rounds makes no difference as long as there are enough (`chainFrom_rounds`, `moreArgs_rounds`), so
there is a plan for all streams up to any length.

What holds of all plans holds of all parsers. The main statement here is about tokens after which
the stream may go on or break off (`Planned.settles_or_exhausts`): either the run ends before the
last of them is taken, and then it ends so whatever follows, or it takes the last one, and then an
error behind it surfaces.
-/

namespace Reckoner

open TokenStream (ofTokens)

/-- A course of action of a parser. -/
inductive Plan (α : Type) where
  | done (a : α)
  | fail (e : CalcError)
  /-- Goes on by the next token. -/
  | look (next : Option Token → Plan α)
  /-- Takes the next token. -/
  | take (next : Plan α)

namespace Plan

variable {α β : Type}

/-- The parser that follows the plan. -/
def run : Plan α → Parser α
  | done a => pure a
  | fail e => throw e
  | look next => fun s => (next s.lookahead).run s
  | take next => Parser.advance >>= fun _ => next.run

/-- One plan after another. -/
def bind : Plan α → (α → Plan β) → Plan β
  | done a, f => f a
  | fail e, _ => fail e
  | look next, f => look fun o => (next o).bind f
  | take next, f => take (next.bind f)

theorem run_bind (plan : Plan α) (f : α → Plan β) (s : TokenStream) :
    (plan.bind f).run s = (plan.run >>= fun a => (f a).run) s := by
  induction plan generalizing s with
  | done a => rfl
  | fail e => rfl
  | look next ih => exact ih s.lookahead s
  | take next ih =>
    rcases h : Parser.advance s with ⟨o, s'⟩ | ⟨e, s'⟩
    · have hrun : (take next).run s = next.run s' := Parser.bind_of_ok h
      refine (Parser.bind_of_ok h).trans ((ih s').trans ?_)
      rcases h' : next.run s' with ⟨a, s''⟩ | ⟨e, s''⟩
      · rw [Parser.bind_of_ok h', Parser.bind_of_ok (hrun.trans h')]
      · rw [Parser.bind_of_error h', Parser.bind_of_error (hrun.trans h')]
    · have hrun : (take next).run s = .error e s' := Parser.bind_of_error h
      rw [Parser.bind_of_error hrun]
      exact Parser.bind_of_error h

end Plan

namespace Parser

variable {α β : Type}

/-- The end of a run: an answer or an error, and the stream as it is then. -/
def ending (r : Except CalcError α) (s : TokenStream) : EStateM.Result CalcError TokenStream α :=
  match r with
  | .ok a => .ok a s
  | .error e => .error e s

theorem ending_inj {r r' : Except CalcError α} {s s' : TokenStream}
    (h : ending r s = ending r' s') : r = r' ∧ s = s' := by
  cases r <;> cases r' <;> cases h <;> exact ⟨rfl, rfl⟩

theorem advance_length_lt {o : Option Token} {s s' : TokenStream} {t : Token}
    (hnext : s.lookahead = some t) (h : advance s = .ok o s') :
    s'.pending.length < s.pending.length := by
  rcases s with ⟨_ | ⟨t, _ | ⟨u, rest⟩⟩, _ | e⟩ <;> cases h <;> cases hnext <;> simp

theorem advance_isSuffix (s : TokenStream) :
    ∃ r s', advance s = ending r s' ∧ s'.pending <:+ s.pending := by
  rcases s with ⟨_ | ⟨t, _ | ⟨u, rest⟩⟩, _ | e⟩
  · exact ⟨.ok none, _, rfl, List.suffix_refl _⟩
  · exact ⟨.ok none, _, rfl, List.suffix_refl _⟩
  · exact ⟨.ok (some t), _, rfl, List.suffix_cons t _⟩
  · exact ⟨.error e, ⟨[t], none⟩, rfl, List.suffix_refl _⟩
  · exact ⟨.ok (some t), _, rfl, List.suffix_cons t _⟩
  · exact ⟨.ok (some t), _, rfl, List.suffix_cons t _⟩

/-- What is left of the pending tokens are the last ones. -/
theorem plan_isSuffix (plan : Plan α) {r : Except CalcError α} {s s' : TokenStream}
    (h : plan.run s = ending r s') : s'.pending <:+ s.pending := by
  induction plan generalizing s with
  | done b =>
    cases r <;> cases h
    exact List.suffix_refl _
  | fail e =>
    cases r <;> cases h
    exact List.suffix_refl _
  | look next ih => exact ih s.lookahead h
  | take next ih =>
    obtain ⟨o | o, s₁, hadv, hsuffix⟩ := advance_isSuffix s
    · cases r <;> cases (bind_of_error hadv).symm.trans h
      exact hsuffix
    · have hnext : next.run s₁ = ending r s' := (bind_of_ok hadv).symm.trans h
      exact (ih hnext).trans hsuffix

/-- On streams up to any length the parser follows a plan. -/
def Planned (p : Parser α) : Prop :=
  ∀ n, ∃ plan : Plan α, ∀ s, s.pending.length ≤ n → p s = plan.run s

/-- No parser puts a token back. -/
theorem Planned.isSuffix {p : Parser α} (hp : Planned p) {r : Except CalcError α}
    {s s' : TokenStream} (h : p s = ending r s') : s'.pending <:+ s.pending := by
  obtain ⟨plan, hplan⟩ := hp s.pending.length
  exact plan_isSuffix plan ((hplan s (Nat.le_refl _)).symm.trans h)

theorem Planned.length_le {p : Parser α} (hp : Planned p) {a : α} {s s' : TokenStream}
    (h : p s = .ok a s') : s'.pending.length ≤ s.pending.length :=
  (hp.isSuffix (r := .ok a) h).length_le

theorem Planned.pure (a : α) : Planned (Pure.pure a) :=
  fun _ => ⟨.done a, fun _ _ => rfl⟩

theorem Planned.throw (e : CalcError) : Planned (MonadExcept.throw e : Parser α) :=
  fun _ => ⟨.fail e, fun _ _ => rfl⟩

theorem Planned.bind {p : Parser α} {f : α → Parser β} (hp : Planned p)
    (hf : ∀ a, Planned (f a)) : Planned (p >>= f) := by
  intro n
  obtain ⟨plan, hplan⟩ := hp n
  obtain ⟨next, hnext⟩ := Classical.skolem.mp fun a => hf a n
  refine ⟨plan.bind next, fun s hs => ?_⟩
  rw [Plan.run_bind]
  have hrun := hplan s hs
  rcases h : p s with ⟨a, s'⟩ | ⟨e, s'⟩
  · rw [bind_of_ok h, bind_of_ok (hrun.symm.trans h)]
    exact hnext a s' (Nat.le_trans (hp.length_le h) hs)
  · rw [bind_of_error h, bind_of_error (hrun.symm.trans h)]

/-- It is enough to have a parser for each next token. -/
theorem Planned.look {p : Parser α}
    (h : ∀ o, ∃ q : Parser α, Planned q ∧ ∀ s, s.lookahead = o → p s = q s) : Planned p := by
  intro n
  obtain ⟨q, hq⟩ := Classical.skolem.mp h
  obtain ⟨next, hnext⟩ := Classical.skolem.mp fun o => (hq o).1 n
  exact ⟨.look next, fun s hs => ((hq s.lookahead).2 s rfl).trans (hnext s.lookahead s hs)⟩

theorem Planned.advance_bind {f : Option Token → Parser α} (hf : ∀ o, Planned (f o)) :
    Planned (advance >>= f) := by
  refine Planned.bind (fun n => ⟨.look fun o => .take (.done o), fun s _ => ?_⟩) hf
  rcases s with ⟨_ | ⟨t, _ | ⟨u, rest⟩⟩, _ | e⟩ <;> rfl

/-- A loop that counts its rounds by the pending tokens follows a plan if more rounds than pending
tokens make no difference. -/
theorem Planned.counted {p : Parser α} {f : Nat → α → Parser β} (hp : Planned p)
    (hf : ∀ n a, Planned (f n a))
    (hrounds : ∀ {s n m a}, s.pending.length ≤ n → n ≤ m → f n a s = f m a s) :
    Planned (p >>= fun a => get >>= fun s => f s.pending.length a) := by
  intro n
  obtain ⟨plan, hplan⟩ := hp.bind (hf n) n
  refine ⟨plan, fun s hs => (hplan s hs).symm ▸ ?_⟩
  rcases h : p s with ⟨a, s'⟩ | ⟨e, s'⟩
  · have hlength := Nat.le_trans (hp.length_le h) hs
    rw [bind_of_ok h, bind_of_ok h, get_bind]
    exact hrounds (Nat.le_refl _) hlength
  · rw [bind_of_error h, bind_of_error h]

/-! ## The parser, function by function -/

theorem expect_planned (kind : TokenKind) (expected : String) :
    Planned (expect kind expected) := by
  refine Planned.look fun o => ?_
  cases o with
  | none => exact ⟨_, .throw (.unexpectedEnd expected), fun s h => expect_of_none h⟩
  | some t =>
    by_cases hkind : t.kind = kind
    · exact ⟨_, .advance_bind fun _ => .pure t, fun s h => expect_of_kind h hkind⟩
    · exact ⟨_, .throw (.unexpectedToken t expected), fun s h => expect_of_ne h hkind⟩

theorem operator?_planned (symbols : List String) : Planned (operator? symbols) := by
  refine Planned.look fun o => ?_
  by_cases h : IsOperator symbols o
  · obtain ⟨op, hop, pos, rfl⟩ := h
    exact ⟨_, .advance_bind fun _ => .pure (some op), fun s h => operator?_of_isOperator h hop⟩
  · exact ⟨_, .pure none, fun s hs => operator?_of_not (hs ▸ h)⟩

section Chains

variable {symbols : List String} {operand : Parser Expr} (hoperand : Planned operand)

include hoperand

theorem chainFrom_planned (rounds : Nat) (left : Expr) :
    Planned (chainFrom symbols operand rounds left) := by
  induction rounds generalizing left with
  | zero => exact .pure left
  | succ rounds ih =>
    refine (operator?_planned symbols).bind fun o => ?_
    cases o with
    | none => exact .pure left
    | some op => exact hoperand.bind fun right => ih _

/-- Rounds beyond the number of pending tokens are never begun. -/
theorem chainFrom_rounds {s : TokenStream} {n m : Nat} (hn : s.pending.length ≤ n) (hnm : n ≤ m)
    (left : Expr) :
    chainFrom symbols operand n left s = chainFrom symbols operand m left s := by
  induction n generalizing m left s with
  | zero =>
    have hend : s.lookahead = none := List.head?_eq_none_iff.mpr (by simpa using hn)
    have hnot : ¬IsOperator symbols s.lookahead := by
      rintro ⟨op, -, pos, h⟩
      cases hend.symm.trans h
    rw [chainFrom_of_not hnot, chainFrom_of_not hnot]
  | succ n ih =>
    obtain ⟨k, rfl⟩ : ∃ k, m = k + 1 := ⟨m - 1, by omega⟩
    by_cases h : IsOperator symbols s.lookahead
    · obtain ⟨op, hop, pos, hnext⟩ := h
      rw [chainFrom_of_isOperator hnext hop, chainFrom_of_isOperator hnext hop]
      rcases hadv : advance s with ⟨o, s₁⟩ | ⟨e, s₁⟩
      · rw [bind_of_ok hadv, bind_of_ok hadv]
        have hlt := advance_length_lt hnext hadv
        rcases hr : operand s₁ with ⟨right, s₂⟩ | ⟨e, s₂⟩
        · rw [bind_of_ok hr, bind_of_ok hr]
          have hle := hoperand.length_le hr
          exact ih (by omega) (by omega) _
        · rw [bind_of_error hr, bind_of_error hr]
      · rw [bind_of_error hadv, bind_of_error hadv]
    · rw [chainFrom_of_not h, chainFrom_of_not h]

theorem chain_planned : Planned (chain symbols operand) :=
  hoperand.counted (fun n first => chainFrom_planned hoperand n first)
    fun hn hnm => chainFrom_rounds hoperand hn hnm _

end Chains

section Calls

variable {expr : Parser Expr} (hexpr : Planned expr)

include hexpr

theorem moreArgs_planned (rounds : Nat) : Planned (moreArgs expr rounds) := by
  induction rounds with
  | zero => exact .pure []
  | succ rounds ih =>
    refine Planned.look fun o => ?_
    by_cases h : ∃ t ∈ o, t.kind = .comma
    · refine ⟨_, .advance_bind fun _ => hexpr.bind fun e => ih.bind fun es => .pure (e :: es),
        fun s hs => moreArgs_of_comma (isAt_nil_iff.mpr (hs ▸ h)) expr rounds⟩
    · exact ⟨_, .pure [], fun s hs => moreArgs_of_not (fun hat => h (hs ▸ isAt_nil_iff.mp hat)) _⟩

/-- Rounds beyond the number of pending tokens are never used. -/
theorem moreArgs_rounds {s : TokenStream} {n m : Nat} (hn : s.pending.length ≤ n) (hnm : n ≤ m) :
    moreArgs expr n s = moreArgs expr m s := by
  induction n generalizing m s with
  | zero =>
    have hend : s.lookahead = none := List.head?_eq_none_iff.mpr (by simpa using hn)
    have hnot : ¬isAt .comma [] s = true := by
      rw [isAt_nil_iff, hend]
      exact nofun
    rw [moreArgs_of_not hnot, moreArgs_of_not hnot]
  | succ n ih =>
    obtain ⟨k, rfl⟩ : ∃ k, m = k + 1 := ⟨m - 1, by omega⟩
    by_cases h : isAt .comma [] s = true
    · rw [moreArgs_of_comma h, moreArgs_of_comma h]
      obtain ⟨comma, hnext, -⟩ := isAt_nil_iff.mp h
      rcases hadv : advance s with ⟨o, s₁⟩ | ⟨e, s₁⟩
      · rw [bind_of_ok hadv, bind_of_ok hadv]
        have hlt := advance_length_lt hnext hadv
        rcases he : expr s₁ with ⟨e, s₂⟩ | ⟨err, s₂⟩
        · have hle := hexpr.length_le he
          have hes : moreArgs expr n s₂ = moreArgs expr k s₂ := ih (by omega) (by omega)
          rw [bind_of_ok he, bind_of_ok he]
          simp only [Bind.bind, EStateM.bind, hes]
        · rw [bind_of_error he, bind_of_error he]
      · rw [bind_of_error hadv, bind_of_error hadv]
    · rw [moreArgs_of_not h, moreArgs_of_not h]

/-- The rounds differ from stream to stream; as many as there are tokens do for all of them. -/
theorem args_planned : Planned (args expr) := by
  refine Planned.look fun o => ?_
  by_cases h : ∃ t ∈ o, t.kind = .rparen
  · refine ⟨_, .pure [], fun s hs => ?_⟩
    rw [args, get_bind, if_pos (isAt_nil_iff.mpr (hs ▸ h))]
  · refine ⟨_, hexpr.counted (f := fun n e => moreArgs expr n >>= fun es => Pure.pure (e :: es))
      (fun n e => (moreArgs_planned hexpr n).bind fun es => .pure (e :: es)) ?_, fun s hs => ?_⟩
    · intro s n m e hn hnm
      simp only [Bind.bind, EStateM.bind, moreArgs_rounds hexpr hn hnm]
    · rw [args, get_bind, if_neg fun hat => h (hs ▸ isAt_nil_iff.mp hat)]

theorem callOf_planned (function : Payload) : Planned (callOf expr function) := by
  refine (expect_planned .lparen _).bind fun _ => (args_planned hexpr).bind fun es => ?_
  refine (expect_planned .rparen _).bind fun _ => ?_
  cases checkedCall function es with
  | ok e => exact .pure e
  | error e => exact .throw e

theorem primaryOf_planned : Planned (primaryOf expr) := by
  refine Planned.look fun o => ?_
  cases o with
  | none => exact ⟨_, .throw (.unexpectedEnd operandName), fun s h => by rw [primaryOf, get_bind, h]⟩
  | some t =>
    refine ⟨_, ?_, fun s h => by rw [primaryOf, get_bind, h]⟩
    cases hkind : t.kind with
    | number =>
      simp only [hkind]
      exact .advance_bind fun _ => .pure _
    | lparen =>
      simp only [hkind]
      refine .advance_bind fun _ => hexpr.bind fun e => ?_
      exact (expect_planned .rparen _).bind fun _ => .pure e
    | function =>
      simp only [hkind]
      exact .advance_bind fun _ => callOf_planned hexpr t.value
    | _ =>
      simp only [hkind]
      exact .throw _

end Calls

theorem unary_planned (d : Nat) : Planned (unary d) := by
  induction d with
  | zero => exact .throw _
  | succ d ih =>
    refine (operator?_planned ["-"]).bind fun o => ?_
    cases o with
    | none => exact primaryOf_planned (chain_planned (chain_planned ih))
    | some _ => exact ih.bind fun e => .pure (Expr.negate e)

theorem expr_planned (d : Nat) : Planned (expr d) :=
  chain_planned (chain_planned (unary_planned d))

theorem whole_planned (d : Nat) : Planned (whole d) := by
  refine Planned.look fun o => ?_
  cases o with
  | none => exact ⟨_, .throw (.unexpectedEnd operandName), fun s h => by rw [whole, get_bind, h]; rfl⟩
  | some t =>
    refine ⟨_, (expr_planned d).bind fun e => ?_, fun s h => by rw [whole, get_bind, h]; rfl⟩
    refine Planned.look fun o => ?_
    cases o with
    | none => exact ⟨_, .pure e, fun s h => by rw [get_bind, h]⟩
    | some t => exact ⟨_, .throw (.unexpectedToken t _), fun s h => by rw [get_bind, h]⟩

/-! ## Streams that break off -/

/-- The run ends among the tokens `us`, in front of `v`, and whatever follows makes no difference. -/
def Settles (p : Parser α) (us : List Token) (r : Except CalcError α) (v : List Token) : Prop :=
  v ≠ [] ∧ ∀ rest failure, p ⟨us ++ rest, failure⟩ = ending r ⟨v ++ rest, failure⟩

/-- The run takes the last of the tokens `us`: an error behind them surfaces and leaves that token,
and if there is none, what is left are tokens from behind them. -/
def Exhausts (p : Parser α) (us : List Token) : Prop :=
  (∃ t ∈ us.getLast?, ∀ e, p ⟨us, some e⟩ = .error e (ofTokens [t])) ∧
    ∀ rest, ∃ r vs, vs <:+ rest ∧ p (ofTokens (us ++ rest)) = ending r (ofTokens vs)

theorem ended_of_plan (plan : Plan α) (ts : List Token) :
    ∃ r vs, vs <:+ ts ∧ plan.run (ofTokens ts) = ending r (ofTokens vs) := by
  induction plan generalizing ts with
  | done a => exact ⟨.ok a, ts, List.suffix_refl ts, rfl⟩
  | fail e => exact ⟨.error e, ts, List.suffix_refl ts, rfl⟩
  | look next ih => exact ih ts.head? ts
  | take next ih =>
    match ts with
    | [] => exact ih []
    | t :: ts =>
      obtain ⟨r, vs, hvs, hrun⟩ := ih ts
      exact ⟨r, vs, hvs.trans (List.suffix_cons t ts),
        (bind_of_ok (advance_ofTokens t ts)).trans hrun⟩

/-- In front of an unknown rest a plan ends without looking at it, or comes to the last token and
has to. -/
theorem settles_or_exhausts_of_plan (plan : Plan α) {us : List Token} (hus : us ≠ []) :
    (∃ r v, Settles plan.run us r v) ∨ Exhausts plan.run us := by
  induction plan generalizing us with
  | done a => exact .inl ⟨.ok a, us, hus, fun _ _ => rfl⟩
  | fail e => exact .inl ⟨.error e, us, hus, fun _ _ => rfl⟩
  | look next ih =>
    obtain ⟨t, us, rfl⟩ := List.exists_cons_of_ne_nil hus
    exact ih (some t) hus
  | take next ih =>
    match us, hus with
    | [t], _ =>
      refine .inr ⟨⟨t, rfl, fun e => rfl⟩, fun rest => ?_⟩
      obtain ⟨r, vs, hvs, hrun⟩ := ended_of_plan next rest
      exact ⟨r, vs, hvs, (bind_of_ok (advance_ofTokens t rest)).trans hrun⟩
    | t :: u :: us, _ =>
      rcases ih (List.cons_ne_nil u us) with hsettles | ⟨⟨last, hlast, hsurfaces⟩, hend⟩
      · exact .inl hsettles
      · exact .inr ⟨⟨last, by rwa [List.getLast?_cons_cons], hsurfaces⟩, hend⟩

/-- Either the run ends before the last token is taken, in the same way whatever follows, or it
takes the last token. -/
theorem Planned.settles_or_exhausts {p : Parser α} (hp : Planned p) {us : List Token}
    (hus : us ≠ []) : (∃ r v, Settles p us r v) ∨ Exhausts p us := by
  obtain ⟨plan, hplan⟩ := hp us.length
  have hrun : ∀ failure, p ⟨us, failure⟩ = plan.run ⟨us, failure⟩ :=
    fun failure => hplan ⟨us, failure⟩ (Nat.le_refl _)
  rcases settles_or_exhausts_of_plan plan hus with ⟨r, v, hv, hsettles⟩ | ⟨hexhausts, hend⟩
  · refine .inl ⟨r, v, hv, fun rest failure => ?_⟩
    have halone : p ⟨us, none⟩ = ending r ⟨v, none⟩ := by
      rw [hrun]
      simpa using hsettles [] none
    -- A plan for the longer stream is another plan, but it ends the run on `us` in the same way.
    obtain ⟨plan', hplan'⟩ := hp (us ++ rest).length
    have hrun' := hplan' ⟨us, none⟩ (by simp)
    rw [hplan' _ (Nat.le_refl _)]
    rcases settles_or_exhausts_of_plan plan' hus with ⟨r', v', -, hsettles'⟩ | ⟨-, hend'⟩
    · have halone' := hsettles' [] none
      rw [List.append_nil, List.append_nil, ← hrun', halone] at halone'
      obtain ⟨rfl, hv'⟩ := ending_inj halone'
      cases hv'
      exact hsettles' rest failure
    · obtain ⟨r', vs, hvs, halone'⟩ := hend' []
      rw [List.append_nil, ofTokens, ← hrun', halone, List.suffix_nil.mp hvs] at halone'
      obtain ⟨-, hv'⟩ := ending_inj halone'
      cases hv'
      exact absurd rfl hv
  · obtain ⟨t, ht, hsurfaces⟩ := hexhausts
    refine .inr ⟨⟨t, ht, fun e => (hrun (some e)).trans (hsurfaces e)⟩, fun rest => ?_⟩
    obtain ⟨plan', hplan'⟩ := hp (us ++ rest).length
    have hrun' := hplan' ⟨us, none⟩ (by simp)
    rw [hplan' _ (Nat.le_refl _)]
    rcases settles_or_exhausts_of_plan plan' hus with ⟨r', v', hv', hsettles'⟩ | ⟨-, hend'⟩
    · have halone' := hsettles' [] none
      obtain ⟨r, vs, hvs, halone⟩ := hend []
      rw [List.append_nil, List.append_nil, ← hrun', hrun] at halone'
      rw [List.append_nil, ofTokens, halone', List.suffix_nil.mp hvs] at halone
      obtain ⟨-, hv⟩ := ending_inj halone
      cases hv
      exact absurd rfl hv'
    · exact hend' rest

theorem Planned.ends {p : Parser α} (hp : Planned p) (ts : List Token) :
    ∃ r vs, vs <:+ ts ∧ p (ofTokens ts) = ending r (ofTokens vs) := by
  obtain ⟨plan, hplan⟩ := hp ts.length
  rw [hplan _ (Nat.le_refl _)]
  exact ended_of_plan plan ts

/-- A run that stops in front of a token stops there whatever follows the token. -/
theorem Planned.stops_in_front {p : Parser α} (hp : Planned p) {us vs : List Token} {t : Token}
    {r : Except CalcError α} (h : p (ofTokens (us ++ t :: vs)) = ending r (ofTokens (t :: vs)))
    (rest : List Token) (failure : Option CalcError) :
    p ⟨us ++ t :: rest, failure⟩ = ending r ⟨t :: rest, failure⟩ := by
  rw [List.append_cons] at h ⊢
  rcases hp.settles_or_exhausts (List.concat_ne_nil t us) with ⟨r', v, -, hsettles⟩ | ⟨-, hend⟩
  · obtain ⟨rfl, hv⟩ := ending_inj ((hsettles vs none).symm.trans h)
    have hv : v ++ vs = [t] ++ vs := congrArg TokenStream.pending hv
    rw [List.append_cancel_right hv] at hsettles
    exact hsettles rest failure
  · obtain ⟨r', ws, hws, hrun⟩ := hend vs
    obtain ⟨-, hvs⟩ := ending_inj (h.symm.trans hrun)
    have hvs : t :: vs = ws := congrArg TokenStream.pending hvs
    have hlength := hws.length_le
    rw [← hvs, List.length_cons] at hlength
    omega

end Parser

end Reckoner
