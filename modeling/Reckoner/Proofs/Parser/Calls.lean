import Mathlib
import Reckoner.Proofs.Parser.Grammar

/-!
# Calls with any number of arguments

The grammar of expressions once more, but with calls that have any number of arguments, none
included. It says how far the tokens themselves go before anyone counts arguments: tokens that can
still become a sentence of it are `Viable`. The calls that are closed in them are those that the
tokens up to some place end with (`EndsCall`), so that calls are in the order of their closing
parentheses, and the one to blame for a wrong number of arguments is the first (`FirstMisfit`).

A call that ends in a later part of a phrase begins there as well. This is a matter of counting
parentheses: phrases are `Balanced`, so nothing that begins in front of a phrase is closed within it
(`EndsCall.of_append`).
-/

namespace Reckoner

mutual

/-- The tokens are a phrase of the sort, whatever the number of arguments of its calls. -/
inductive Phrased : Phrase → List Token → Prop
  | ofTerm {ts : List Token} (h : Phrased .term ts) : Phrased .expr ts
  | sum {ts us : List Token} {op : String} {pos : Nat} (hop : op ∈ ["+", "-"])
      (hl : Phrased .expr ts) (hr : Phrased .term us) :
      Phrased .expr (ts ++ ⟨.operator, .text op, pos⟩ :: us)
  | ofUnary {ts : List Token} (h : Phrased .unary ts) : Phrased .term ts
  | product {ts us : List Token} {op : String} {pos : Nat} (hop : op ∈ ["*", "/"])
      (hl : Phrased .term ts) (hr : Phrased .unary us) :
      Phrased .term (ts ++ ⟨.operator, .text op, pos⟩ :: us)
  | ofPrimary {ts : List Token} (h : Phrased .primary ts) : Phrased .unary ts
  | negation {ts : List Token} {pos : Nat} (h : Phrased .unary ts) :
      Phrased .unary (⟨.operator, .text "-", pos⟩ :: ts)
  | number {t : Token} (ht : t.kind = .number) : Phrased .primary [t]
  | group {ts : List Token} {opening closing : Token} (hopening : opening.kind = .lparen)
      (h : Phrased .expr ts) (hclosing : closing.kind = .rparen) :
      Phrased .primary (opening :: (ts ++ [closing]))
  | call {n : Nat} {ts : List Token} {name opening closing : Token}
      (hname : name.kind = .function) (hopening : opening.kind = .lparen) (h : Listed n ts)
      (hclosing : closing.kind = .rparen) : Phrased .primary (name :: opening :: (ts ++ [closing]))

/-- The tokens are so many expressions with commas between them. -/
inductive Listed : Nat → List Token → Prop
  | none : Listed 0 []
  | last {ts : List Token} (h : Phrased .expr ts) : Listed 1 ts
  | more {n : Nat} {ts us : List Token} {comma : Token} (h : Phrased .expr ts)
      (hcomma : comma.kind = .comma) (hs : Listed (n + 1) us) :
      Listed (n + 2) (ts ++ comma :: us)

end

/-- The function tokens among them name functions. -/
def NamesFunctions (ts : List Token) : Prop :=
  ∀ t ∈ ts, t.kind = .function → t.value.function?.isSome

instance (ts : List Token) : Decidable (NamesFunctions ts) :=
  inferInstanceAs (Decidable (∀ t ∈ ts, t.kind = .function → t.value.function?.isSome))

/-- The tokens are the beginning of a phrase of the sort. -/
def Begins (p : Phrase) (us : List Token) : Prop := ∃ ws, NamesFunctions ws ∧ Phrased p (us ++ ws)

/-- The tokens are the beginning of a sentence. -/
def Viable (us : List Token) : Prop := Begins .expr us

/-- The tokens end with a call of the function with so many arguments. -/
inductive EndsCall (f : MathFunction) (n : Nat) : List Token → Prop
  | intro (before : List Token) {args : List Token} {name opening closing : Token}
      (hname : name.kind = .function) (hf : name.value.function? = some f)
      (hopening : opening.kind = .lparen) (hargs : Listed n args)
      (hclosing : closing.kind = .rparen) :
      EndsCall f n (before ++ name :: opening :: (args ++ [closing]))

/-- Every call that is closed in the tokens has as many arguments as its function takes. -/
def RightArities (us : List Token) : Prop :=
  ∀ vs, vs <+: us → ∀ f n, EndsCall f n vs → n = f.arity

/-- The tokens end with a call with a wrong number of arguments, the first of them. -/
structure FirstMisfit (f : MathFunction) (n : Nat) (us : List Token) : Prop where
  ends : EndsCall f n us
  misfit : n ≠ f.arity
  before : ∀ vs, vs <+: us → vs ≠ us → ∀ g m, EndsCall g m vs → m = g.arity

/-! ## Beginnings -/

theorem NamesFunctions.nil : NamesFunctions [] := nofun

theorem NamesFunctions.mono {ts us : List Token} (h : NamesFunctions us) (hsub : ts ⊆ us) :
    NamesFunctions ts :=
  fun t ht => h t (hsub ht)

theorem NamesFunctions.append {ts us : List Token} (hts : NamesFunctions ts)
    (hus : NamesFunctions us) : NamesFunctions (ts ++ us) := by
  intro t ht
  rcases List.mem_append.mp ht with ht | ht
  · exact hts t ht
  · exact hus t ht

theorem Viable.of_isPrefix {us vs : List Token} (h : Viable vs) (hnames : NamesFunctions vs)
    (hpre : us <+: vs) : Viable us := by
  obtain ⟨xs, rfl⟩ := hpre
  obtain ⟨ws, hws, hphrased⟩ := h
  refine ⟨xs ++ ws, (hnames.mono (List.subset_append_right _ _)).append hws, ?_⟩
  rwa [← List.append_assoc]

/-- A beginning of a part is a beginning of the whole, with all that stands in front of the part. -/
theorem Begins.within {p q : Phrase} {us : List Token} (h : Begins p us) (vs zs : List Token)
    (hzs : NamesFunctions zs) (hq : ∀ ts, Phrased p ts → Phrased q (vs ++ (ts ++ zs))) :
    Begins q (vs ++ us) := by
  obtain ⟨ws, hws, hphrased⟩ := h
  exact ⟨ws ++ zs, hws.append hzs, by simpa using hq _ hphrased⟩

theorem Begins.imp {p q : Phrase} (hq : ∀ {ts}, Phrased p ts → Phrased q ts) {us : List Token}
    (h : Begins p us) : Begins q us :=
  h.within [] [] .nil fun ts hts => by simpa using hq hts

theorem Begins.nil (p : Phrase) : Begins p [] := by
  have hprimary : Begins .primary [] := ⟨[⟨.number, .text "0", 0⟩], by decide, .number rfl⟩
  have hunary : Begins .unary [] := hprimary.imp .ofPrimary
  have hterm : Begins .term [] := hunary.imp .ofUnary
  cases p with
  | expr => exact hterm.imp .ofTerm
  | term => exact hterm
  | unary => exact hunary
  | primary => exact hprimary

theorem Begins.negation {us : List Token} (pos : Nat) (h : Begins .unary us) :
    Begins .unary (⟨.operator, .text "-", pos⟩ :: us) :=
  h.within [_] [] .nil fun ts hts => by simpa using Phrased.negation hts

theorem Begins.group {us : List Token} {opening : Token} (hopening : opening.kind = .lparen)
    (h : Begins .expr us) : Begins .primary (opening :: us) :=
  h.within [_] [⟨.rparen, .text ")", 0⟩] (by decide) fun _ hts => .group hopening hts rfl

/-- The tokens are the beginning of a list of one argument or more. -/
def BeginsList (us : List Token) : Prop := ∃ n ws, NamesFunctions ws ∧ Listed (n + 1) (us ++ ws)

theorem BeginsList.first {us : List Token} (h : Begins .expr us) : BeginsList us := by
  obtain ⟨ws, hws, hphrased⟩ := h
  exact ⟨0, ws, hws, .last hphrased⟩

theorem BeginsList.more {ts us : List Token} {comma : Token} (h : Phrased .expr ts)
    (hcomma : comma.kind = .comma) (hs : BeginsList us) : BeginsList (ts ++ comma :: us) := by
  obtain ⟨n, ws, hws, hlisted⟩ := hs
  exact ⟨n + 1, ws, hws, by simpa using Listed.more h hcomma hlisted⟩

theorem Begins.call {name opening : Token} (hname : name.kind = .function)
    (hopening : opening.kind = .lparen) {n : Nat} {us ws : List Token} (h : Listed n (us ++ ws))
    (hws : NamesFunctions ws) : Begins .primary (name :: opening :: us) := by
  refine ⟨ws ++ [⟨.rparen, .text ")", 0⟩], hws.append (by decide), ?_⟩
  have hclosing : Token.kind ⟨.rparen, .text ")", 0⟩ = .rparen := rfl
  simpa using Phrased.call hname hopening h hclosing

mutual

/-- With the right numbers of arguments it is the same grammar. -/
theorem Spells.phrased {p : Phrase} {ts : List Token} {e : Expr} : Spells p ts e → Phrased p ts
  | .ofTerm h => .ofTerm h.phrased
  | .sum hop hl hr => .sum hop hl.phrased hr.phrased
  | .ofUnary h => .ofUnary h.phrased
  | .product hop hl hr => .product hop hl.phrased hr.phrased
  | .ofPrimary h => .ofPrimary h.phrased
  | .negation h => .negation h.phrased
  | .number ht => .number ht
  | .group hopening h hclosing => .group hopening h.phrased hclosing
  | .call hname _ hopening h hclosing _ => .call hname hopening h.listed hclosing

theorem SpellsArgs.listed {ts : List Token} {es : List Expr} :
    SpellsArgs ts es → Listed es.length ts
  | .last h => .last h.phrased
  | .more h hcomma hs => by
    have hrest := hs.listed
    cases hs with
    | last => exact .more h.phrased hcomma hrest
    | more => exact .more h.phrased hcomma hrest

end

/-- No phrase begins with a closing parenthesis; in particular none is empty. -/
theorem Phrased.head {p : Phrase} {ts : List Token} (h : Phrased p ts) :
    ∃ t us, ts = t :: us ∧ t.kind ≠ .rparen := by
  match h with
  | .ofTerm h | .ofUnary h | .ofPrimary h => exact h.head
  | .sum _ hl _ | .product _ hl _ =>
    obtain ⟨t, us, rfl, ht⟩ := hl.head
    exact ⟨t, _, rfl, ht⟩
  | .negation _ => exact ⟨_, _, rfl, by simp⟩
  | .number ht => exact ⟨_, _, rfl, by simp [ht]⟩
  | .group hopening _ _ => exact ⟨_, _, rfl, by simp [hopening]⟩
  | .call hname _ _ _ => exact ⟨_, _, rfl, by simp [hname]⟩

theorem Listed.head {n : Nat} {ts : List Token} (h : Listed (n + 1) ts) :
    ∃ t us, ts = t :: us ∧ t.kind ≠ .rparen := by
  cases h with
  | last h => exact h.head
  | more h _ _ =>
    obtain ⟨t, us, rfl, ht⟩ := h.head
    exact ⟨t, _, rfl, ht⟩

/-! ## Parentheses -/

/-- What a token adds to the number of open parentheses. -/
def TokenKind.weight : TokenKind → Int
  | .lparen => 1
  | .rparen => -1
  | _ => 0

/-- How many more parentheses are opened than closed. -/
def excess (ts : List Token) : Int := (ts.map fun t => t.kind.weight).sum

@[simp]
theorem excess_nil : excess [] = 0 := rfl

@[simp]
theorem excess_cons (t : Token) (ts : List Token) :
    excess (t :: ts) = t.kind.weight + excess ts := by
  simp [excess]

@[simp]
theorem excess_append (ts us : List Token) : excess (ts ++ us) = excess ts + excess us := by
  simp [excess]

/-- No parenthesis is closed that is not open, and none is left open. -/
structure Balanced (ts : List Token) : Prop where
  nonneg : ∀ us, us <+: ts → 0 ≤ excess us
  settled : excess ts = 0

/-- A beginning of a concatenation ends in the first part, or in the second with all of the first in
front. -/
theorem prefix_append_iff {α : Type} {us ts ts' : List α} :
    us <+: ts ++ ts' ↔ us <+: ts ∨ ∃ vs, us = ts ++ vs ∧ vs <+: ts' := by
  constructor
  · rintro ⟨ws, hws⟩
    rcases List.append_eq_append_iff.mp hws with ⟨xs, rfl, -⟩ | ⟨xs, rfl, rfl⟩
    · exact .inl (List.prefix_append us xs)
    · exact .inr ⟨xs, rfl, List.prefix_append xs ws⟩
  · rintro (h | ⟨vs, rfl, h⟩)
    · exact h.trans (List.prefix_append ts ts')
    · exact (List.prefix_append_right_inj ts).mpr h

namespace Balanced

theorem nil : Balanced [] := by
  refine ⟨fun us h => ?_, rfl⟩
  rw [List.prefix_nil.mp h]
  exact Int.le_refl _

theorem append {ts us : List Token} (h : Balanced ts) (h' : Balanced us) : Balanced (ts ++ us) := by
  refine ⟨fun vs hvs => ?_, by simp [h.settled, h'.settled]⟩
  rcases prefix_append_iff.mp hvs with hvs | ⟨ws, rfl, hws⟩
  · exact h.nonneg vs hvs
  · simpa [h.settled] using h'.nonneg ws hws

theorem cons {t : Token} {ts : List Token} (ht : t.kind.weight = 0) (h : Balanced ts) :
    Balanced (t :: ts) := by
  refine ⟨fun us hus => ?_, by simp [ht, h.settled]⟩
  rcases List.prefix_cons_iff.mp hus with rfl | ⟨vs, rfl, hvs⟩
  · exact Int.le_refl _
  · simpa [ht] using h.nonneg vs hvs

theorem enclosed {opening closing : Token} {ts : List Token} (hopening : opening.kind = .lparen)
    (h : Balanced ts) (hclosing : closing.kind = .rparen) :
    Balanced (opening :: (ts ++ [closing])) := by
  have hopen : opening.kind.weight = 1 := by rw [hopening]; rfl
  have hclose : closing.kind.weight = -1 := by rw [hclosing]; rfl
  refine ⟨fun us hus => ?_, by simp [hopen, hclose, h.settled]⟩
  rcases List.prefix_cons_iff.mp hus with rfl | ⟨vs, rfl, hvs⟩
  · exact Int.le_refl _
  rw [excess_cons, hopen]
  rcases List.prefix_concat_iff.mp hvs with rfl | hvs
  · simp [hclose, h.settled]
  · have := h.nonneg vs hvs
    omega

end Balanced

mutual

theorem Phrased.balanced {p : Phrase} {ts : List Token} : Phrased p ts → Balanced ts
  | .ofTerm h | .ofUnary h | .ofPrimary h => h.balanced
  | .sum _ hl hr | .product _ hl hr => hl.balanced.append (hr.balanced.cons rfl)
  | .negation h => h.balanced.cons rfl
  | .number ht => Balanced.nil.cons (by rw [ht]; rfl)
  | .group hopening h hclosing => h.balanced.enclosed hopening hclosing
  | .call hname hopening h hclosing =>
    (h.balanced.enclosed hopening hclosing).cons (by rw [hname]; rfl)

theorem Listed.balanced {n : Nat} {ts : List Token} : Listed n ts → Balanced ts
  | .none => .nil
  | .last h => h.balanced
  | .more h hcomma hs => h.balanced.append (hs.balanced.cons (by rw [hcomma]; rfl))

end

/-- In balanced tokens no parenthesis stays open behind a function's name. -/
theorem Balanced.no_open_call {before args : List Token} {name opening : Token}
    (h : Balanced (before ++ name :: opening :: args)) (hname : name.kind = .function)
    (hopening : opening.kind = .lparen) (hargs : Balanced args) : False := by
  have hbefore := h.nonneg before (List.prefix_append _ _)
  have htotal := h.settled
  have hname : name.kind.weight = 0 := by rw [hname]; rfl
  have hopen : opening.kind.weight = 1 := by rw [hopening]; rfl
  simp only [excess_append, excess_cons, hargs.settled, hname, hopen] at htotal
  omega

/-! ## Calls that are closed -/

theorem EndsCall.last {f : MathFunction} {n : Nat} (us : List Token) {t : Token}
    (h : EndsCall f n (us ++ [t])) : t.kind = .rparen := by
  generalize hts : us ++ [t] = ts at h
  obtain ⟨before, hname, hf, hopening, hargs, hclosing⟩ := h
  next args name opening closing =>
  have hsplit : us ++ [t] = (before ++ name :: opening :: args) ++ [closing] := by simp [hts]
  obtain ⟨-, hlast⟩ := List.append_inj' hsplit rfl
  cases hlast
  exact hclosing

theorem EndsCall.ne_nil {f : MathFunction} {n : Nat} {us : List Token} (h : EndsCall f n us) :
    us ≠ [] := by
  cases h
  simp

theorem EndsCall.prepend {f : MathFunction} {n : Nat} {us : List Token} (h : EndsCall f n us)
    (ts : List Token) : EndsCall f n (ts ++ us) := by
  obtain ⟨before, hname, hf, hopening, hargs, hclosing⟩ := h
  rw [← List.append_assoc]
  exact .intro _ hname hf hopening hargs hclosing

/-- A call that ends within a phrase does not begin in front of it, unless the function's name stands
there alone. -/
theorem EndsCall.of_append {f : MathFunction} {n : Nat} {ts us : List Token} {t : Token}
    (h : EndsCall f n (ts ++ t :: us)) (ht : t.kind ≠ .function) (hus : us ≠ [])
    (hnonneg : ∀ vs, vs <+: us → 0 ≤ excess vs) : EndsCall f n us := by
  generalize hall : ts ++ t :: us = all at h
  obtain ⟨before, hname, hf, hopening, hargs, hclosing⟩ := h
  next args name opening closing =>
  have hall : (ts ++ [t]) ++ us = before ++ name :: opening :: (args ++ [closing]) := by
    simpa using hall
  rcases List.append_eq_append_iff.mp hall with ⟨xs, rfl, rfl⟩ | ⟨xs, hxs, hcall⟩
  · exact .intro xs hname hf hopening hargs hclosing
  -- The call begins in front of `us`: its name stands there, and perhaps some of its arguments.
  match xs, hcall with
  | [], hcall =>
    rw [← List.nil_append us, ← hcall]
    exact .intro [] hname hf hopening hargs hclosing
  | [x], hcall =>
    cases (List.cons.inj hcall).1
    obtain ⟨-, hlast⟩ := List.append_inj' hxs rfl
    cases hlast
    exact absurd hname ht
  | x :: y :: xs, hcall =>
    obtain ⟨vs, v, rfl⟩ : ∃ vs v, us = vs ++ [v] :=
      ⟨us.dropLast, us.getLast hus, (List.dropLast_concat_getLast hus).symm⟩
    have hsplit : args ++ [closing] = (xs ++ vs) ++ [v] := by
      simpa using (List.cons.inj (List.cons.inj hcall).2).2
    obtain ⟨rfl, hlast⟩ := List.append_inj' hsplit rfl
    cases hlast
    have hbefore := hargs.balanced.nonneg xs (List.prefix_append xs vs)
    have htotal := hargs.balanced.settled
    have hafter := hnonneg _ (List.prefix_refl _)
    have hclose : closing.kind.weight = -1 := by rw [hclosing]; rfl
    simp only [excess_append, excess_cons, excess_nil, hclose] at htotal hafter
    omega

/-- In front of a closing parenthesis a call cannot have begun within balanced tokens. -/
theorem Balanced.no_call_across {before args ts : List Token} {name opening closing closing' : Token}
    (h : Balanced ts) (hname : name.kind = .function) (hopening : opening.kind = .lparen)
    (hargs : Balanced args)
    (hts : ts ++ [closing] = before ++ name :: opening :: (args ++ [closing'])) : False := by
  have hsplit : ts ++ [closing] = (before ++ name :: opening :: args) ++ [closing'] := by
    simpa using hts
  obtain ⟨rfl, -⟩ := List.append_inj' hsplit rfl
  exact h.no_open_call hname hopening hargs

theorem EndsCall.not_group {f : MathFunction} {n : Nat} {ts : List Token} {opening closing : Token}
    (hopening : opening.kind = .lparen) (hts : Balanced ts) :
    ¬EndsCall f n (opening :: (ts ++ [closing])) := by
  intro h
  generalize hall : opening :: (ts ++ [closing]) = all at h
  obtain ⟨before, hname, hf, hopening', hargs, hclosing⟩ := h
  next args name opening' closing' =>
  match before, hall with
  | [], hall =>
    cases (List.cons.inj hall).1
    cases hname.symm.trans hopening
  | b :: before, hall =>
    exact hts.no_call_across hname hopening' hargs.balanced (List.cons.inj hall).2

/-- The call that the tokens of a call end with is this one. -/
theorem EndsCall.of_call {f g : MathFunction} {m : Nat} {ts : List Token}
    {name opening closing : Token} (h : EndsCall g m (name :: opening :: (ts ++ [closing])))
    (hf : name.value.function? = some f) (hopening : opening.kind = .lparen) (hts : Balanced ts) :
    g = f ∧ Listed m ts := by
  generalize hall : name :: opening :: (ts ++ [closing]) = all at h
  obtain ⟨before, hname, hg, hopening', hargs, hclosing⟩ := h
  next args name' opening' closing' =>
  match before, hall with
  | [], hall =>
    obtain ⟨rfl, hrest⟩ := List.cons.inj hall
    obtain ⟨rfl, -⟩ := List.append_inj' (List.cons.inj hrest).2 rfl
    exact ⟨Option.some.inj (hg.symm.trans hf), hargs⟩
  | [b], hall =>
    cases (List.cons.inj (List.cons.inj hall).2).1
    cases hname.symm.trans hopening
  | b :: b' :: before, hall =>
    have hall := (List.cons.inj (List.cons.inj hall).2).2
    exact (hts.no_call_across hname hopening' hargs.balanced hall).elim

/-! ## Right and wrong numbers of arguments -/

theorem RightArities.of_isPrefix {us vs : List Token} (h : RightArities vs) (hpre : us <+: vs) :
    RightArities us :=
  fun ws hws => h ws (hws.trans hpre)

theorem RightArities.of_append {us : List Token} (ts : List Token) (h : RightArities (ts ++ us)) :
    RightArities us :=
  fun vs hvs f n hcall => h (ts ++ vs) ((List.prefix_append_right_inj ts).mpr hvs) f n
    (hcall.prepend ts)

namespace FirstMisfit

variable {f : MathFunction} {n : Nat} {ts us : List Token} {t : Token}

theorem right (h : FirstMisfit f n (us ++ t :: ts)) : RightArities us := by
  intro vs hvs g m hcall
  refine h.before vs (hvs.trans (List.prefix_append us _)) ?_ g m hcall
  rintro rfl
  have := hvs.length_le
  simp only [List.length_append, List.length_cons] at this
  omega

theorem not_right (h : FirstMisfit f n us) : ¬RightArities us :=
  fun hright => h.misfit (hright us (List.prefix_refl us) f n h.ends)

theorem ne_nil (h : FirstMisfit f n us) : us ≠ [] := h.ends.ne_nil

theorem of_append (h : FirstMisfit f n (ts ++ us)) (hends : EndsCall f n us) :
    FirstMisfit f n us := by
  refine ⟨hends, h.misfit, fun vs hvs hne g m hcall => ?_⟩
  refine h.before (ts ++ vs) ((List.prefix_append_right_inj ts).mpr hvs) ?_ g m (hcall.prepend ts)
  exact fun heq => hne (List.append_cancel_left heq)

/-- A misfit that ends behind a token ends in what follows the token. -/
theorem behind (h : FirstMisfit f n (ts ++ t :: us)) (ht : t.kind ≠ .function)
    (ht' : t.kind ≠ .rparen) (hnonneg : ∀ vs, vs <+: us → 0 ≤ excess vs) :
    FirstMisfit f n us := by
  have hus : us ≠ [] := by
    rintro rfl
    exact ht' (h.ends.last ts)
  have hall : FirstMisfit f n ((ts ++ [t]) ++ us) := by simpa using h
  exact hall.of_append (h.ends.of_append ht hus hnonneg)

/-- On either side of an operator or comma. -/
theorem split (ts : List Token) {ts' : List Token} (h : FirstMisfit f n us)
    (hpre : us <+: ts ++ t :: ts') (ht : t.kind ≠ .function) (ht' : t.kind ≠ .rparen)
    (hts' : Balanced ts') :
    us <+: ts ∨ ∃ vs, us = ts ++ t :: vs ∧ vs <+: ts' ∧ FirstMisfit f n vs := by
  rcases prefix_append_iff.mp hpre with hpre | ⟨ws, rfl, hws⟩
  · exact .inl hpre
  rcases List.prefix_cons_iff.mp hws with rfl | ⟨vs, rfl, hvs⟩
  · rw [List.append_nil]
    exact .inl (List.prefix_refl ts)
  · exact .inr ⟨vs, rfl, hvs, h.behind ht ht' fun xs hxs => hts'.nonneg xs (hxs.trans hvs)⟩

/-- Behind an opening parenthesis: at the closing one, or before. -/
theorem inside (ts : List Token) {ts' : List Token} {opening closing : Token}
    (h : FirstMisfit f n (ts ++ opening :: us)) (hopening : opening.kind = .lparen)
    (hpre : us <+: ts' ++ [closing]) (hts' : Balanced ts') :
    us = ts' ++ [closing] ∨ us <+: ts' ∧ FirstMisfit f n us := by
  rcases List.prefix_concat_iff.mp hpre with rfl | hpre
  · exact .inl rfl
  · refine .inr ⟨hpre, h.behind ?_ ?_ fun xs hxs => hts'.nonneg xs (hxs.trans hpre)⟩
    · simp [hopening]
    · simp [hopening]

end FirstMisfit

/-- Where a call has a wrong number of arguments, one is the first. -/
theorem EndsCall.exists_first {f : MathFunction} {n : Nat} {us : List Token} (h : EndsCall f n us)
    (hn : n ≠ f.arity) : ∃ vs, vs <+: us ∧ ∃ g m, FirstMisfit g m vs := by
  by_cases hbefore : ∀ vs, vs <+: us → vs ≠ us → ∀ g m, EndsCall g m vs → m = g.arity
  · exact ⟨us, List.prefix_refl us, f, n, h, hn, hbefore⟩
  · simp only [Classical.not_forall] at hbefore
    obtain ⟨vs, hvs, hne, g, m, hcall, hm⟩ := hbefore
    have hlt : vs.length < us.length :=
      Nat.lt_of_le_of_ne hvs.length_le fun heq => hne (hvs.eq_of_length heq)
    obtain ⟨ws, hws, hfirst⟩ := hcall.exists_first hm
    exact ⟨ws, hws.trans hvs, hfirst⟩
termination_by us.length

/-- If there is a call with a wrong number of arguments there is one that ends first. -/
theorem exists_firstMisfit {us : List Token} (h : ¬RightArities us) :
    ∃ vs, vs <+: us ∧ ∃ f n, FirstMisfit f n vs := by
  unfold RightArities at h
  simp only [Classical.not_forall] at h
  obtain ⟨vs, hvs, f, n, hcall, hn⟩ := h
  obtain ⟨ws, hws, hfirst⟩ := hcall.exists_first hn
  exact ⟨ws, hws.trans hvs, hfirst⟩

mutual

/-- A phrase whose calls have the right numbers of arguments has a tree. -/
theorem Phrased.spells {p : Phrase} {ts : List Token} :
    Phrased p ts → NamesFunctions ts → RightArities ts → ∃ e, Spells p ts e
  | .ofTerm h => fun hnames hright => (h.spells hnames hright).imp fun _ => .ofTerm
  | .ofUnary h => fun hnames hright => (h.spells hnames hright).imp fun _ => .ofUnary
  | .ofPrimary h => fun hnames hright => (h.spells hnames hright).imp fun _ => .ofPrimary
  | .sum hop hl hr => fun hnames hright => by
    obtain ⟨l, hl⟩ := hl.spells (hnames.mono (by simp)) (hright.of_isPrefix (List.prefix_append _ _))
    obtain ⟨r, hr⟩ := hr.spells (hnames.mono (by simp))
      (RightArities.of_append [_] (hright.of_append _))
    exact ⟨_, .sum hop hl hr⟩
  | .product hop hl hr => fun hnames hright => by
    obtain ⟨l, hl⟩ := hl.spells (hnames.mono (by simp)) (hright.of_isPrefix (List.prefix_append _ _))
    obtain ⟨r, hr⟩ := hr.spells (hnames.mono (by simp))
      (RightArities.of_append [_] (hright.of_append _))
    exact ⟨_, .product hop hl hr⟩
  | .negation h => fun hnames hright => by
    obtain ⟨e, he⟩ := h.spells (hnames.mono (by simp)) (RightArities.of_append [_] hright)
    exact ⟨_, .negation he⟩
  | .number ht => fun _ _ => ⟨_, .number ht⟩
  | .group hopening h hclosing => fun hnames hright => by
    have hinner := RightArities.of_append [_] hright
    obtain ⟨e, he⟩ := h.spells (hnames.mono (by simp)) (hinner.of_isPrefix (List.prefix_append _ _))
    exact ⟨e, .group hopening he hclosing⟩
  | .call hname hopening h hclosing => fun hnames hright => by
    obtain ⟨f, hf⟩ := Option.isSome_iff_exists.mp (hnames _ List.mem_cons_self hname)
    have harity := hright _ (List.prefix_refl _) _ _
      (.intro [] hname hf hopening h hclosing)
    have hinner := (RightArities.of_append [_, _] hright).of_isPrefix (List.prefix_append _ _)
    rcases h.spellsArgs (hnames.mono fun t ht => by simp [ht]) hinner with ⟨-, rfl⟩ | ⟨es, hes, hn⟩
    · cases f <;> cases harity
    · exact ⟨_, .call hname hf hopening hes hclosing (hn.trans harity)⟩

theorem Listed.spellsArgs {n : Nat} {ts : List Token} : Listed n ts → NamesFunctions ts →
    RightArities ts → ts = [] ∧ n = 0 ∨ ∃ es, SpellsArgs ts es ∧ es.length = n
  | .none => fun _ _ => .inl ⟨rfl, rfl⟩
  | .last h => fun hnames hright => by
    obtain ⟨e, he⟩ := h.spells hnames hright
    exact .inr ⟨[e], .last he, rfl⟩
  | .more h hcomma hs => fun hnames hright => by
    obtain ⟨e, he⟩ := h.spells (hnames.mono (by simp)) (hright.of_isPrefix (List.prefix_append _ _))
    rcases hs.spellsArgs (hnames.mono (by simp))
      (RightArities.of_append [_] (hright.of_append _)) with ⟨-, hn⟩ | ⟨es, hes, hn⟩
    · cases hn
    · exact .inr ⟨e :: es, .more he hcomma hes, congrArg Nat.succ hn⟩

end

end Reckoner
