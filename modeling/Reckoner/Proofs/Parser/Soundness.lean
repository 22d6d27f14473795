import Reckoner.Proofs.Parser.Calls
import Reckoner.Proofs.Parser.Steps

/-!
# What a parser reads is in the grammar

`Parses d ts R B p s` describes one run of a parser from the stream `s`. If the run succeeds, it has
taken a prefix of the pending tokens that is related to its answer by `R`. If it fails, the error is
the one behind the last token of the stream, or a `Fault`: the error says something true of the
tokens `ts`, among which the run takes place, and of those that are left; those taken before it are a
beginning, which `B` says, and end with the call that an error about arguments blames. Runs compose
(`Parses.bind`), so there is one statement for each function of the parser, and the induction on the
depth is needed once, for operands (`unary_reads`).
-/

namespace Reckoner

namespace Parser

/-- What a parser's error says of the tokens around it and of those not taken yet. Only more nested
operands than `d` are too many. -/
inductive Fault (d : Nat) (ts rest : List Token) : CalcError → Prop
  | ended {x : String} (h : rest = []) : Fault d ts rest (.unexpectedEnd x)
  | unexpected {t : Token} {x : String} (h : rest.head? = some t) :
      Fault d ts rest (.unexpectedToken t x)
  | arity {f : MathFunction} {n : Nat} (h : n ≠ f.arity) :
      Fault d ts rest (.wrongArity f.name f.arity n)
  | nesting (h : d ≤ ts.length) : Fault d ts rest .nestedTooDeeply
  | key {t : Token} (ht : t ∈ ts) (hkind : t.kind = .function) (h : t.value.function? = none) :
      Fault d ts rest (.unknownKey t.value)

/-- An error that is true of the last tokens is true of more of them. -/
theorem Fault.widen {d : Nat} {ts us rest : List Token} {e : CalcError} (h : Fault d us rest e)
    (hsuffix : us <:+ ts) : Fault d ts rest e := by
  cases h with
  | ended h => exact .ended h
  | unexpected h => exact .unexpected h
  | arity h => exact .arity h
  | nesting h => exact .nesting (Nat.le_trans h hsuffix.length_le)
  | key ht hkind h => exact .key (hsuffix.subset ht) hkind h

/-- A token in front pays for one more level of nesting. -/
theorem Fault.succ {d : Nat} {t : Token} {ts rest : List Token} {e : CalcError}
    (h : Fault d ts rest e) : Fault (d + 1) (t :: ts) rest e := by
  cases h with
  | ended h => exact .ended h
  | unexpected h => exact .unexpected h
  | arity h => exact .arity h
  | nesting h => exact .nesting (Nat.succ_le_succ h)
  | key ht hkind h => exact .key (List.mem_cons_of_mem t ht) hkind h

/-- An error about the number of arguments arises right behind the call. -/
def Closes (us : List Token) (e : CalcError) : Prop :=
  ∀ g m n, e = .wrongArity g m n → ∃ f, g = MathFunction.name f ∧ EndsCall f n us

/-- Tokens in front of the call make no difference to where it ends. -/
theorem Closes.prepend {us : List Token} {e : CalcError} (h : Closes us e) (ts : List Token) :
    Closes (ts ++ us) e := by
  intro g m n he
  obtain ⟨f, hg, hcall⟩ := h g m n he
  exact ⟨f, hg, hcall.prepend ts⟩

/-- What a parser has taken when it fails: the beginning of a phrase of the sort. -/
structure Stops (p : Phrase) (us : List Token) (e : CalcError) : Prop where
  begins : Begins p us
  closes : Closes us e

/-- What begins a phrase of a tighter sort begins one of a looser sort. -/
theorem Stops.imp {p q : Phrase} (hq : ∀ {ts}, Phrased p ts → Phrased q ts) {us : List Token}
    {e : CalcError} (h : Stops p us e) : Stops q us e :=
  ⟨h.begins.imp hq, h.closes⟩

/-- A run that stops in the right operand has taken the beginning of the whole chain. -/
theorem Stops.operand {p q : Phrase} {ts us : List Token} {t : Token} {e : CalcError}
    (h : Stops p us e) (hq : ∀ vs, Phrased p vs → Phrased q (ts ++ t :: vs)) :
    Stops q (ts ++ t :: us) e := by
  have hbegins := h.begins.within (ts ++ [t]) [] .nil fun vs hvs => by simpa using hq vs hvs
  have hcloses := h.closes.prepend (ts ++ [t])
  rw [List.append_assoc, List.singleton_append] at hbegins hcloses
  exact ⟨hbegins, hcloses⟩

/-! ## Runs and their composition -/

section Runs

variable {α β : Type} {d : Nat} {ts : List Token} {s : TokenStream}
  {R S : List Token → α → Prop} {B C : List Token → CalcError → Prop} {p : Parser α}

/-- A run takes tokens related to its answer, or fails for a reason. -/
structure Parses (d : Nat) (ts : List Token) (R : List Token → α → Prop)
    (B : List Token → CalcError → Prop) (p : Parser α) (s : TokenStream) : Prop where
  ok : ∀ {a s'}, p s = .ok a s' →
    ∃ us, s.pending = us ++ s'.pending ∧ s'.failure = s.failure ∧ R us a
  error : ∀ {e s'}, p s = .error e s' → s.failure = some e ∨
    ∃ us, s.pending = us ++ s'.pending ∧ B us e ∧ Fault d ts s'.pending e

/-- The relations can be weakened. -/
theorem Parses.mono (h : Parses d ts R B p s) (hRS : ∀ us a, R us a → S us a)
    (hBC : ∀ us e, B us e → C us e) : Parses d ts S C p s := by
  refine ⟨fun hok => ?_, fun herr => (h.error herr).imp_right ?_⟩
  · obtain ⟨us, hus, hfailure, hR⟩ := h.ok hok
    exact ⟨us, hus, hfailure, hRS us _ hR⟩
  · rintro ⟨us, hus, hB, hfault⟩
    exact ⟨us, hus, hBC us _ hB, hfault⟩

/-- A run among the last of the tokens is a run among all of them. -/
theorem Parses.widen {us : List Token} (h : Parses d us R B p s) (hsuffix : us <:+ ts) :
    Parses d ts R B p s := by
  refine ⟨h.ok, fun herr => (h.error herr).imp_right ?_⟩
  rintro ⟨vs, hvs, hB, hfault⟩
  exact ⟨vs, hvs, hB, hfault.widen hsuffix⟩

/-- A token in front of a run admits one more level of nesting. -/
theorem Parses.succ {t : Token} (h : Parses d ts R B p s) : Parses (d + 1) (t :: ts) R B p s := by
  refine ⟨h.ok, fun herr => (h.error herr).imp_right ?_⟩
  rintro ⟨us, hus, hB, hfault⟩
  exact ⟨us, hus, hB, hfault.succ⟩

theorem Parses.of_ok {a : α} (hp : p s = .ok a s) (h : R [] a) : Parses d ts R B p s := by
  refine ⟨fun hok => ?_, fun herr => ?_⟩
  · rw [hp] at hok
    cases hok
    exact ⟨[], rfl, rfl, h⟩
  · rw [hp] at herr
    cases herr

theorem Parses.of_error {e : CalcError} (hp : p s = .error e s) (hB : B [] e)
    (h : Fault d ts s.pending e) : Parses d ts R B p s := by
  refine ⟨fun hok => ?_, fun herr => ?_⟩
  · rw [hp] at hok
    cases hok
  · rw [hp] at herr
    cases herr
    exact .inr ⟨[], rfl, hB, h⟩

/-- Runs compose: the second starts where the first has stopped, with the same error behind the
tokens. -/
theorem Parses.bind {T : List Token → β → Prop} {f : α → Parser β} (hp : Parses d ts R B p s)
    (hBC : ∀ us e, B us e → C us e)
    (hf : ∀ us a s', s.pending = us ++ s'.pending → R us a →
      Parses d ts (fun vs b => T (us ++ vs) b) (fun vs e => C (us ++ vs) e) (f a) s') :
    Parses d ts T C (p >>= f) s := by
  rcases hps : p s with ⟨a, s₁⟩ | ⟨e, s₁⟩
  · have hrun : (p >>= f) s = f a s₁ := by
      simp only [Bind.bind, EStateM.bind, hps]
    obtain ⟨us, hus, hfailure, hR⟩ := hp.ok hps
    have hfa := hf us a s₁ hus hR
    refine ⟨fun hok => ?_, fun herr => ?_⟩
    · obtain ⟨vs, hvs, hfailure', hT⟩ := hfa.ok (hrun.symm.trans hok)
      exact ⟨us ++ vs, by rw [hus, hvs, List.append_assoc], hfailure'.trans hfailure, hT⟩
    · rw [← hfailure]
      refine (hfa.error (hrun.symm.trans herr)).imp_right ?_
      rintro ⟨vs, hvs, hC, hfault⟩
      exact ⟨us ++ vs, by rw [hus, hvs, List.append_assoc], hC, hfault⟩
  · have hrun : (p >>= f) s = .error e s₁ := by
      simp only [Bind.bind, EStateM.bind, hps]
    refine ⟨fun hok => ?_, fun herr => ?_⟩
    · rw [hrun] at hok
      cases hok
    · rw [hrun] at herr
      cases herr
      refine (hp.error hps).imp_right ?_
      rintro ⟨us, hus, hB, hfault⟩
      exact ⟨us, hus, hBC us _ hB, hfault⟩

/-- A parser that does the same from this stream reads the same. -/
theorem Parses.congr {q : Parser α} (h : Parses d ts R B q s) (hpq : p s = q s) :
    Parses d ts R B p s :=
  ⟨fun hok => h.ok (hpq.symm.trans hok), fun herr => h.error (hpq.symm.trans herr)⟩

theorem Parses.get_bind {f : TokenStream → Parser α} (h : Parses d ts R B (f s) s) :
    Parses d ts R B (MonadState.get >>= f) s :=
  ⟨h.ok, h.error⟩

end Runs

/-- What the parser reads is related to its answer by `R`, wherever it starts, and what it has taken
when it fails to the error by `B`. -/
def Reads {α : Type} (d : Nat) (R : List Token → α → Prop) (B : List Token → CalcError → Prop)
    (p : Parser α) : Prop :=
  ∀ s, Parses d s.pending R B p s

theorem Reads.at {α : Type} {d : Nat} {R : List Token → α → Prop}
    {B : List Token → CalcError → Prop} {p : Parser α} (h : Reads d R B p) {ts us : List Token}
    {s : TokenStream} (hts : ts = us ++ s.pending) : Parses d ts R B p s :=
  (h s).widen ⟨us, hts.symm⟩

/-- What the parser reads is a phrase of the sort. -/
def ReadsPhrase (d : Nat) (p : Phrase) : Parser Expr → Prop := Reads d (Spells p) (Stops p)

/-! ## The parser, function by function -/

section Leaves

variable {d : Nat} {ts : List Token} {s : TokenStream}

/-- To take a token fails for no reason of its own. -/
theorem advance_parses {t : Token} (h : s.lookahead = some t) :
    Parses d ts (fun us _ => us = [t]) (fun _ _ => False) advance s := by
  rcases s with ⟨_ | ⟨u, _ | ⟨v, rest⟩⟩, failure⟩
  · cases h
  · cases h
    cases failure with
    | none =>
      refine ⟨fun hok => ?_, fun herr => ?_⟩
      · cases hok
        exact ⟨[t], rfl, rfl, rfl⟩
      · cases herr
    | some e =>
      refine ⟨fun hok => ?_, fun herr => ?_⟩
      · cases hok
      · cases herr
        exact .inl rfl
  · cases h
    refine ⟨fun hok => ?_, fun herr => ?_⟩
    · cases hok
      exact ⟨[t], rfl, rfl, rfl⟩
    · cases herr

theorem advance_bind_parses {α : Type} {R : List Token → α → Prop}
    {B : List Token → CalcError → Prop} {f : Option Token → Parser α} {t : Token}
    (h : s.lookahead = some t)
    (hf : ∀ o s', s.pending = t :: s'.pending →
      Parses d ts (fun us => R (t :: us)) (fun us => B (t :: us)) (f o) s') :
    Parses d ts R B (advance >>= f) s := by
  refine (advance_parses h).bind (fun _ _ => False.elim) fun us o s' hus hR => ?_
  subst hR
  exact hf o s' hus

/-- A token of the kind is taken, or nothing is. -/
theorem expect_reads (kind : TokenKind) (expected : String) :
    Reads d (fun us t => us = [t] ∧ t.kind = kind) (fun us e => us = [] ∧ Closes [] e)
      (expect kind expected) := by
  intro s
  cases h : s.lookahead with
  | none => exact .of_error (expect_of_none h) ⟨rfl, nofun⟩ (.ended (List.head?_eq_none_iff.mp h))
  | some t =>
    by_cases hkind : t.kind = kind
    · refine Parses.congr ?_ (expect_of_kind h hkind)
      exact advance_bind_parses h fun o s' _ => .of_ok rfl ⟨rfl, hkind⟩
    · exact .of_error (expect_of_ne h hkind) ⟨rfl, nofun⟩ (.unexpected h)

/-- An operator is taken if it is one of those looked for, and its absence is no error. -/
theorem operator?_reads (symbols : List String) :
    Reads d (fun us o => o = none ∧ us = [] ∨
        ∃ op ∈ symbols, o = some op ∧ ∃ pos, us = [⟨.operator, .text op, pos⟩])
      (fun _ _ => False) (operator? symbols) := by
  intro s
  by_cases h : IsOperator symbols s.lookahead
  · obtain ⟨op, hop, pos, hnext⟩ := h
    refine Parses.congr ?_ (operator?_of_isOperator hnext hop)
    exact advance_bind_parses hnext fun o s' _ => .of_ok rfl (.inr ⟨op, hop, rfl, pos, rfl⟩)
  · exact .of_ok (operator?_of_not h) (.inl ⟨rfl, rfl⟩)

end Leaves

/-! ## Chains -/

section Chains

variable {d : Nat} {symbols : List String} {operand : Parser Expr}
  {R T : List Token → Expr → Prop} {B C : List Token → CalcError → Prop}
  (hoperand : Reads d R B operand) (hone : ∀ {ts e}, R ts e → T ts e)
  (hstop : ∀ {us e}, B us e → C us e)
  (hmore : ∀ {ts us l r op pos}, op ∈ symbols → T ts l → R us r →
    T (ts ++ ⟨.operator, .text op, pos⟩ :: us) (.binary op l r))
  (hstopMore : ∀ {ts us l op pos e}, op ∈ symbols → T ts l → B us e →
    C (ts ++ ⟨.operator, .text op, pos⟩ :: us) e)

include hoperand hmore hstopMore in
/-- A loop adds operators and operands to what has been read before it. -/
theorem chainFrom_reads (rounds : Nat) {ts : List Token} {left : Expr} (hleft : T ts left) :
    Reads d (fun us e => T (ts ++ us) e) (fun us e => C (ts ++ us) e)
      (chainFrom symbols operand rounds left) := by
  induction rounds generalizing ts left with
  | zero => exact fun s => .of_ok rfl (by rwa [List.append_nil])
  | succ rounds ih =>
    intro s
    refine (operator?_reads symbols s).bind (fun _ _ => False.elim) fun us o s₁ hs ho => ?_
    rcases ho with ⟨rfl, rfl⟩ | ⟨op, hop, rfl, pos, rfl⟩
    · exact .of_ok rfl (by rwa [List.append_nil, List.append_nil])
    · refine (hoperand.at hs).bind (fun _ _ hB => hstopMore hop hleft hB) fun vs r s₂ hs₁ hr => ?_
      have hnext : T (ts ++ ⟨.operator, .text op, pos⟩ :: vs) (.binary op left r) :=
        hmore hop hleft hr
      refine ((ih hnext).at (by rw [hs, hs₁, ← List.append_assoc])).mono (fun ws e he => ?_)
        fun ws e he => ?_
      · simpa using he
      · simpa using he

include hoperand hone hstop hmore hstopMore in
/-- A chain is read as its operands are, joined by the operators. -/
theorem chain_reads : Reads d T C (chain symbols operand) := by
  intro s
  refine (hoperand s).bind (fun _ _ => hstop) fun us first s₁ hs hfirst => ?_
  refine Parses.get_bind ?_
  have hleft : T us first := hone hfirst
  have hfrom := chainFrom_reads (T := T) hoperand hmore hstopMore s₁.pending.length hleft
  exact hfrom.at hs

end Chains

theorem termOf_reads {d : Nat} {operand : Parser Expr} (h : ReadsPhrase d .unary operand) :
    ReadsPhrase d .term (termOf operand) :=
  chain_reads h .ofUnary (.imp .ofUnary) .product
    fun hop hl hr => hr.operand fun _ => .product hop hl.phrased

theorem exprOf_reads {d : Nat} {operand : Parser Expr} (h : ReadsPhrase d .unary operand) :
    ReadsPhrase d .expr (exprOf operand) :=
  chain_reads (termOf_reads h) .ofTerm (.imp .ofTerm) .sum
    fun hop hl hr => hr.operand fun _ => .sum hop hl.phrased

/-! ## Calls -/

section Calls

variable {d : Nat} {expr : Parser Expr} (hexpr : ReadsPhrase d .expr expr)

include hexpr

/-- The loop over arguments completes a list that begins with any expression. -/
theorem moreArgs_reads (rounds : Nat) :
    Reads d (fun us es => ∀ {ts e}, Spells .expr ts e → SpellsArgs (ts ++ us) (e :: es))
      (fun us err => ∀ {ts e}, Spells .expr ts e → BeginsList (ts ++ us) ∧ Closes (ts ++ us) err)
      (moreArgs expr rounds) := by
  have hnone : ∀ {ts e}, Spells .expr ts e → SpellsArgs (ts ++ []) [e] := by
    intro ts e he
    rw [List.append_nil]
    exact .last he
  induction rounds with
  | zero => exact fun s => .of_ok rfl hnone
  | succ rounds ih =>
    intro s
    refine Parses.get_bind ?_
    by_cases h : isAt .comma [] s = true
    · rw [if_pos h]
      obtain ⟨comma, hnext, hkind⟩ := isAt_nil_iff.mp h
      refine advance_bind_parses hnext fun o s₁ hs => ?_
      have hs : s.pending = [comma] ++ s₁.pending := hs
      refine (hexpr.at hs).bind (fun us err hus ts e hfirst => ?_) fun us e s₂ hs₁ he => ?_
      · have hcloses := hus.closes.prepend (ts ++ [comma])
        rw [List.append_assoc, List.singleton_append] at hcloses
        exact ⟨.more hfirst.phrased hkind (.first hus.begins), hcloses⟩
      have hs₂ : s.pending = comma :: us ++ s₂.pending := by rw [hs, hs₁]; rfl
      refine (ih.at hs₂).bind (fun vs err hvs ts e' hfirst => ?_) fun vs es s₃ _ hes => ?_
      · obtain ⟨hbegins, hcloses⟩ := hvs he
        have hcloses := hcloses.prepend (ts ++ [comma])
        rw [List.append_assoc, List.singleton_append] at hcloses
        exact ⟨.more hfirst.phrased hkind hbegins, hcloses⟩
      refine .of_ok rfl fun hfirst => ?_
      simpa using SpellsArgs.more hfirst hkind (hes he)
    · rw [if_neg h]
      exact .of_ok rfl hnone

/-- Between the parentheses stand no arguments or some, and both are read. -/
theorem args_reads :
    Reads d (fun us es => us = [] ∧ es = [] ∨ SpellsArgs us es)
      (fun us e => BeginsList us ∧ Closes us e) (args expr) := by
  intro s
  refine Parses.get_bind ?_
  by_cases h : isAt .rparen [] s = true
  · rw [if_pos h]
    exact .of_ok rfl (.inl ⟨rfl, rfl⟩)
  · rw [if_neg h]
    refine (hexpr s).bind (fun us e hus => ⟨.first hus.begins, hus.closes⟩) fun us e s₁ hs he => ?_
    refine Parses.get_bind ?_
    refine ((moreArgs_reads hexpr s₁.pending.length).at hs).bind (fun vs err hvs => hvs he)
      fun vs es s₂ _ hes => ?_
    exact .of_ok rfl (.inr (by simpa using hes he))

/-- What is left of a call makes a primary together with the name that has been taken, whether or
not the name is known; the number of arguments is checked behind the closing parenthesis. -/
theorem callOf_parses {s : TokenStream} {name : Token} (hname : name.kind = .function) :
    Parses (d + 1) (name :: s.pending) (fun us e => Spells .primary (name :: us) e)
      (fun us e => Stops .primary (name :: us) e) (callOf expr name.value) s := by
  have hts : name :: s.pending = [name] ++ s.pending := rfl
  refine ((expect_reads .lparen _).at hts).bind ?_ fun us opening s₁ hs ho => ?_
  · rintro us e ⟨rfl, hcloses⟩
    refine ⟨⟨[⟨.lparen, .text "(", 0⟩, ⟨.rparen, .text ")", 0⟩], by decide, ?_⟩,
      hcloses.prepend [name]⟩
    exact .call hname rfl .none rfl
  obtain ⟨rfl, hopening⟩ := ho
  have hs₁ : name :: s.pending = [name, opening] ++ s₁.pending := by rw [hs]; rfl
  have hargs := (args_reads hexpr s₁).succ (t := opening)
  refine (hargs.widen ⟨[name], by rw [hs₁]; rfl⟩).bind ?_ fun us es s₂ hs₂ hes => ?_
  · rintro us e ⟨⟨n, ws, hws, hlisted⟩, hcloses⟩
    exact ⟨.call hname hopening hlisted hws, hcloses.prepend [name, opening]⟩
  have hs₂ : name :: s.pending = [name, opening] ++ us ++ s₂.pending := by
    rw [hs₁, hs₂, List.append_assoc]
  have hlisted : Listed es.length us := by
    rcases hes with ⟨rfl, rfl⟩ | hes
    · exact .none
    · exact hes.listed
  refine ((expect_reads .rparen _).at hs₂).bind ?_ fun vs closing s₃ _ hc => ?_
  · rintro vs e ⟨rfl, hcloses⟩
    have hcloses := hcloses.prepend (name :: opening :: us)
    rw [List.append_nil] at hcloses ⊢
    refine ⟨Begins.call hname hopening (n := es.length) ?_ .nil, hcloses⟩
    rwa [List.append_nil]
  obtain ⟨rfl, hclosing⟩ := hc
  have hbegins : Begins .primary (name :: opening :: (us ++ [closing])) := by
    refine ⟨[], .nil, ?_⟩
    rw [List.append_nil]
    exact .call hname hopening hlisted hclosing
  cases hf : name.value.function? with
  | none =>
    have hcheck : checkedCall name.value es = .error (.unknownKey name.value) := by
      simp only [checkedCall, hf]
    rw [hcheck]
    exact .of_error rfl ⟨hbegins, nofun⟩ (.key List.mem_cons_self hname hf)
  | some f =>
    by_cases harity : es.length = f.arity
    · have hcheck : checkedCall name.value es = .ok (.call f.name es) := by
        simp only [checkedCall, hf, if_pos harity]
      rw [hcheck]
      have hargs : SpellsArgs us es := by
        refine hes.resolve_left fun h => ?_
        rw [h.2] at harity
        cases f <;> simp [MathFunction.arity] at harity
      exact .of_ok rfl (by simpa using Spells.call hname hf hopening hargs hclosing harity)
    · have hcheck : checkedCall name.value es = .error (.wrongArity f.name f.arity es.length) := by
        simp only [checkedCall, hf, if_neg harity]
      have hcloses : Closes (name :: opening :: (us ++ [closing]))
          (.wrongArity f.name f.arity es.length) := by
        intro g m n he
        cases he
        exact ⟨f, rfl, .intro [] hname hf hopening hlisted hclosing⟩
      rw [hcheck]
      exact .of_error rfl ⟨hbegins, hcloses⟩ (.arity harity)

end Calls

/-! ## Operands -/

/-- The first token decides which kind of primary is read. -/
theorem primaryOf_reads {d : Nat} {expr : Parser Expr} (hexpr : ReadsPhrase d .expr expr) :
    ReadsPhrase (d + 1) .primary (primaryOf expr) := by
  intro s
  refine Parses.get_bind ?_
  cases h : s.lookahead with
  | none => exact .of_error rfl ⟨.nil _, nofun⟩ (.ended (List.head?_eq_none_iff.mp h))
  | some t =>
    cases hkind : t.kind with
    | number =>
      simp only [hkind]
      exact advance_bind_parses h fun o s₁ _ => .of_ok rfl (.number hkind)
    | lparen =>
      simp only [hkind]
      refine advance_bind_parses h fun o s₁ hs => ?_
      rw [hs]
      refine Parses.succ ((hexpr s₁).bind (fun us e hus => ?_) fun us e s₂ hs₁ he => ?_)
      · exact ⟨hus.begins.group hkind, hus.closes.prepend [t]⟩
      refine ((expect_reads .rparen _).at hs₁).bind ?_ fun vs closing s₃ _ hc => ?_
      · rintro vs err ⟨rfl, hcloses⟩
        rw [List.append_nil]
        refine ⟨.group hkind ⟨[], .nil, ?_⟩, ?_⟩
        · rw [List.append_nil]
          exact he.phrased
        · simpa using hcloses.prepend (t :: us)
      obtain ⟨rfl, hclosing⟩ := hc
      exact .of_ok rfl (by simpa using Spells.group hkind he hclosing)
    | function =>
      simp only [hkind]
      refine advance_bind_parses h fun o s₁ hs => ?_
      rw [hs]
      exact callOf_parses hexpr hkind
    | _ =>
      simp only [hkind]
      exact .of_error rfl ⟨.nil _, nofun⟩ (.unexpected h)

/-- The induction on the depth: the operands of the next level are the only ones that nest. -/
theorem unary_reads (d : Nat) : ReadsPhrase d .unary (unary d) := by
  induction d with
  | zero => exact fun s => .of_error rfl ⟨.nil _, nofun⟩ (.nesting (Nat.zero_le _))
  | succ d ih =>
    intro s
    refine (operator?_reads ["-"] s).bind (fun _ _ => False.elim) fun us o s₁ hs ho => ?_
    rcases ho with ⟨rfl, rfl⟩ | ⟨op, hop, rfl, pos, rfl⟩
    · rw [hs]
      exact (primaryOf_reads (exprOf_reads ih) s₁).mono (fun us e he => .ofPrimary he)
        fun us e he => he.imp .ofPrimary
    · rw [List.mem_singleton.mp hop, hs]
      refine Parses.succ ((ih s₁).bind (fun us e hus => ?_) fun us e s₂ _ he => ?_)
      · exact ⟨hus.begins.negation pos, hus.closes.prepend [_]⟩
      exact .of_ok rfl (by simpa using Spells.negation he)

theorem expr_reads (d : Nat) : ReadsPhrase d .expr (expr d) :=
  exprOf_reads (unary_reads d)

/-- A run of the whole parser that succeeds has taken all tokens. -/
theorem whole_parses (d : Nat) (s : TokenStream) :
    Parses d s.pending (fun us e => us = s.pending ∧ Spells .expr us e) (Stops .expr) (whole d)
      s := by
  refine Parses.get_bind ?_
  cases h : s.lookahead with
  | none => exact .of_error rfl ⟨.nil _, nofun⟩ (.ended (List.head?_eq_none_iff.mp h))
  | some t =>
    refine (expr_reads d s).bind (fun _ _ => id) fun us e s₁ hs he => ?_
    refine Parses.get_bind ?_
    cases h₁ : s₁.lookahead with
    | none =>
      have hend : s₁.pending = [] := List.head?_eq_none_iff.mp h₁
      rw [hend, List.append_nil] at hs
      exact .of_ok rfl (by simpa [hs] using he)
    | some t₁ =>
      refine .of_error rfl ⟨⟨[], .nil, ?_⟩, nofun⟩ (.unexpected h₁)
      simpa using he.phrased

end Parser

end Reckoner
