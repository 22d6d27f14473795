import Reckoner.Proofs.Parser.Completeness
import Reckoner.Proofs.Parser.Calls
import Reckoner.Proofs.Parser.Plan

/-!
# Where the parser counts arguments

A call with a wrong number of arguments is refused at its closing parenthesis, wherever it stands in
a phrase and whatever follows. So the first of several is the one that the parser blames, and it
does so before it finds anything wrong with the tokens behind (`Phrased.refused`). Everything in
front of that call has the right numbers of arguments and is read as part of a phrase.
-/

namespace Reckoner

open TokenStream (ofTokens)

namespace Parser

/-- The parser for phrases of a sort. -/
def ofPhrase (d : Nat) : Phrase → Parser Expr
  | .expr => expr d
  | .term => term d
  | .unary => unary d
  | .primary => primary d

/-- The parser takes the tokens and refuses to go on, whatever follows them. -/
def Refuses {α : Type} (p : Parser α) (us : List Token) (err : CalcError) : Prop :=
  ∀ rest, p (ofTokens (us ++ rest)) = .error err (ofTokens rest)

/-- A first argument and the others behind it, in so many rounds. -/
def argsIn (expr : Parser Expr) (rounds : Nat) : Parser (List Expr) :=
  expr >>= fun e => moreArgs expr rounds >>= fun es => pure (e :: es)

/-- In front of an argument the rounds can be counted as generously as one likes. -/
theorem args_eq_argsIn {expr : Parser Expr} (hexpr : Planned expr) {s : TokenStream}
    (h : ¬isAt .rparen [] s = true) {n : Nat} (hn : s.pending.length ≤ n) :
    args expr s = argsIn expr n s := by
  rw [args, get_bind, if_neg h, argsIn]
  rcases hrun : expr s with ⟨e, s₁⟩ | ⟨err, s₁⟩
  · have hrounds : moreArgs expr s₁.pending.length s₁ = moreArgs expr n s₁ :=
      moreArgs_rounds hexpr (Nat.le_refl _) (Nat.le_trans (hexpr.length_le hrun) hn)
    rw [bind_of_ok hrun, bind_of_ok hrun, get_bind]
    simp only [Bind.bind, EStateM.bind, hrounds]
  · rw [bind_of_error hrun, bind_of_error hrun]

section Refuses

variable {α β : Type} {d : Nat} {ts us : List Token} {err : CalcError}

theorem Refuses.bind {p : Parser α} (h : Refuses p us err) (f : α → Parser β) :
    Refuses (p >>= f) us err :=
  fun rest => bind_of_error (h rest)

/-- What is refused as a right operand is refused behind the left one. -/
theorem Refuses.operator {symbols : List String} {operand : Parser Expr} {l : Expr} {op : String}
    {pos : Nat} (hop : op ∈ symbols)
    (hl : ∀ rest, Arrives symbols operand ts l (⟨.operator, .text op, pos⟩ :: rest))
    (hr : Refuses operand us err) :
    Refuses (chain symbols operand) (ts ++ ⟨.operator, .text op, pos⟩ :: us) err := by
  intro rest
  obtain ⟨rounds, hrounds, hrun⟩ := hl (us ++ rest)
  obtain ⟨n, rfl⟩ : ∃ n, rounds = n + 1 := by
    simp only [List.length_cons] at hrounds
    exact ⟨rounds - 1, by omega⟩
  rw [List.append_assoc, List.cons_append, hrun, chainFrom_of_isOperator rfl hop,
    advance_bind_ofTokens]
  exact bind_of_error (hr rest)

theorem Refuses.group {opening : Token} (hopening : opening.kind = .lparen)
    (h : Refuses (expr d) us err) : Refuses (primary d) (opening :: us) err := by
  intro rest
  rw [List.cons_append, primary_ofTokens, hopening]
  exact bind_of_error (h rest)

/-- What is refused among the arguments is refused in the call. -/
theorem Refuses.call {name opening : Token} (hname : name.kind = .function)
    (hopening : opening.kind = .lparen) (h : Refuses (args (expr d)) us err) :
    Refuses (primary d) (name :: opening :: us) err := by
  intro rest
  rw [List.cons_append, List.cons_append, primary_ofTokens, hname]
  refine (bind_of_ok (expect_ofTokens hopening _)).trans ?_
  exact bind_of_error (h rest)

theorem Refuses.negation (pos : Nat) (h : Refuses (unary d) us err) :
    Refuses (unary (d + 1)) (⟨.operator, .text "-", pos⟩ :: us) err := by
  intro rest
  rw [List.cons_append, unary, bind_of_ok (operator?_ofTokens List.mem_cons_self pos _)]
  exact bind_of_error (h rest)

/-- A primary is refused as an operand if no minus sign can stand in its place. -/
theorem Refuses.ofPrimary (hus : ∀ rest, ∀ t ∈ (us ++ rest).head?, t.kind ≠ .operator)
    (h : Refuses (primary d) us err) : Refuses (unary (d + 1)) us err := by
  intro rest
  have hnone : operator? ["-"] (ofTokens (us ++ rest)) = .ok none (ofTokens (us ++ rest)) :=
    operator?_of_not (not_isOperator (hus rest))
  rw [unary, bind_of_ok hnone]
  exact h rest

end Refuses

end Parser

open Reckoner.Parser

/-- The call that is closed at the end is refused once its arguments have been counted. -/
theorem Parser.Refuses.misfit {d n : Nat} {f : MathFunction} {ts : List Token}
    {name opening closing : Token} (hname : name.kind = .function)
    (hf : name.value.function? = some f) (hopening : opening.kind = .lparen) (h : Listed n ts)
    (hclosing : closing.kind = .rparen) (hnames : NamesFunctions ts) (hright : RightArities ts)
    (hd : ts.length ≤ d) (hn : n ≠ f.arity) :
    Refuses (primary d) (name :: opening :: (ts ++ [closing])) (.wrongArity f.name f.arity n) := by
  intro rest
  have hargs : ∃ es, es.length = n ∧
      args (expr d) (ofTokens (ts ++ closing :: rest)) = .ok es (ofTokens (closing :: rest)) := by
    rcases h.spellsArgs hnames hright with ⟨rfl, rfl⟩ | ⟨es, hes, hlength⟩
    · have hat : isAt .rparen [] (ofTokens (closing :: rest)) = true :=
        isAt_nil_iff.mpr ⟨closing, rfl, hclosing⟩
      refine ⟨[], rfl, ?_⟩
      rw [List.nil_append, args, get_bind, if_pos hat]
      rfl
    · exact ⟨es, hlength, (hes.accepts d hd).args_eq hes.head ⟨closing, rfl, hclosing⟩⟩
  obtain ⟨es, hlength, hes⟩ := hargs
  have hcheck : checkedCall name.value es = .error (.wrongArity f.name f.arity n) := by
    rw [← hlength] at hn ⊢
    simp only [checkedCall, hf, if_neg hn]
  rw [List.cons_append, List.cons_append, List.append_assoc, primary_ofTokens, hname]
  refine (bind_of_ok (expect_ofTokens hopening _)).trans ?_
  refine (bind_of_ok hes).trans ?_
  refine (bind_of_ok (expect_ofTokens hclosing rest)).trans ?_
  rw [hcheck]
  rfl

theorem Phrased.primary_head {ts : List Token} (h : Phrased .primary ts) :
    ∀ t ∈ ts.head?, t.kind ≠ .operator := by
  cases h with
  | number ht => simp [ht]
  | group hopening _ _ => simp [hopening]
  | call hname _ _ _ => simp [hname]

/-- The beginning of a list of arguments does not begin with a closing parenthesis. -/
theorem Listed.not_isAt_rparen {k : Nat} {ts us rest : List Token} (h : Listed k ts)
    (hpre : us <+: ts) (hus : us ≠ []) : ¬isAt .rparen [] (ofTokens (us ++ rest)) = true := by
  obtain ⟨t, us, rfl⟩ := List.exists_cons_of_ne_nil hus
  rw [isAt_nil_iff]
  rintro ⟨u, hu, hkind⟩
  cases hu
  have hfirst := h.balanced.nonneg [t] (List.IsPrefix.trans ⟨us, rfl⟩ hpre)
  simp [hkind, TokenKind.weight] at hfirst

mutual

/-- The first call of a phrase with a wrong number of arguments is refused at its closing
parenthesis, whatever follows: everything in front of it has been read. -/
theorem Phrased.refused {p : Phrase} {ts : List Token} : Phrased p ts →
    ∀ d us f n, us <+: ts → FirstMisfit f n us → NamesFunctions us → us.length ≤ d + p.slack →
      Refuses (ofPhrase d p) us (.wrongArity f.name f.arity n)
  | .ofTerm h => fun d us f n hpre hfirst hnames hd =>
    (h.refused d us f n hpre hfirst hnames hd).bind _
  | .ofUnary h => fun d us f n hpre hfirst hnames hd =>
    (h.refused d us f n hpre hfirst hnames hd).bind _
  | .sum hop hl hr => by
    have ihl := hl.refused
    have ihr := hr.refused
    intro d us f n hpre hfirst hnames hd
    -- If the misfit is not in the left operand, that one is read in full: its calls are right.
    rcases hfirst.split _ hpre nofun nofun hr.balanced with hpre | ⟨vs, rfl, hvs, hmisfit⟩
    · exact ihl d us f n hpre hfirst hnames hd
    obtain ⟨l, hl⟩ := hl.spells (hnames.mono (by simp)) hfirst.right
    rw [List.length_append, List.length_cons] at hd
    refine .operator hop (fun rest => hl.accepts d ?_ _ ?_)
      (ihr d vs f n hvs hmisfit (hnames.mono fun t ht => by simp [ht]) ?_)
    · omega
    · exact not_isOperator_sum hop
    · simp only [Phrase.slack] at hd ⊢
      omega
  | .product hop hl hr => by
    have ihl := hl.refused
    have ihr := hr.refused
    intro d us f n hpre hfirst hnames hd
    rcases hfirst.split _ hpre nofun nofun hr.balanced with hpre | ⟨vs, rfl, hvs, hmisfit⟩
    · exact ihl d us f n hpre hfirst hnames hd
    obtain ⟨l, hl⟩ := hl.spells (hnames.mono (by simp)) hfirst.right
    rw [List.length_append, List.length_cons] at hd
    refine .operator hop (fun rest => hl.accepts d ?_ _)
      (ihr d vs f n hvs hmisfit (hnames.mono fun t ht => by simp [ht]) ?_)
    · omega
    · simp only [Phrase.slack] at hd ⊢
      omega
  | .ofPrimary h => by
    have ih := h.refused
    intro d us f n hpre hfirst hnames hd
    have hpos := List.length_pos_iff.mpr hfirst.ne_nil
    obtain ⟨k, rfl⟩ : ∃ k, d = k + 1 := ⟨d - 1, by simp only [Phrase.slack] at hd; omega⟩
    refine .ofPrimary (fun rest t ht => ?_) (ih k us f n hpre hfirst hnames hd)
    obtain ⟨u, us, rfl⟩ := List.exists_cons_of_ne_nil hfirst.ne_nil
    obtain ⟨ws, rfl⟩ := hpre
    exact h.primary_head t ht
  | .negation h => by
    have ih := h.refused
    intro d us f n hpre hfirst hnames hd
    obtain ⟨vs, rfl, hvs, hmisfit⟩ :=
      (hfirst.split [] hpre nofun nofun h.balanced).resolve_left fun hnil =>
        hfirst.ne_nil (List.prefix_nil.mp hnil)
    rw [List.nil_append, List.length_cons] at hd
    obtain ⟨k, rfl⟩ : ∃ k, d = k + 1 := ⟨d - 1, by simp only [Phrase.slack] at hd; omega⟩
    refine .negation _ (ih k vs f n hvs hmisfit (hnames.mono (by simp)) ?_)
    simp only [Phrase.slack] at hd ⊢
    omega
  | .number ht => by
    intro d us f n hpre hfirst
    rcases List.prefix_cons_iff.mp hpre with rfl | ⟨vs, rfl, hvs⟩
    · exact absurd rfl hfirst.ne_nil
    · rw [List.prefix_nil.mp hvs] at hfirst
      cases ht.symm.trans (hfirst.ends.last [])
  | .group hopening h hclosing => by
    have ih := h.refused
    intro d us f n hpre hfirst hnames hd
    rcases List.prefix_cons_iff.mp hpre with rfl | ⟨vs, rfl, hvs⟩
    · exact absurd rfl hfirst.ne_nil
    rcases hfirst.inside [] hopening hvs h.balanced with rfl | ⟨hvs, hmisfit⟩
    · exact absurd hfirst.ends (EndsCall.not_group hopening h.balanced)
    refine .group hopening (ih d vs f n hvs hmisfit (hnames.mono (by simp)) ?_)
    simp only [List.length_cons, Phrase.slack] at hd ⊢
    omega
  | @Phrased.call _ args name opening closing hname hopening h hclosing => by
    have ih := h.refused
    intro d us f n hpre hfirst hnames hd
    rcases List.prefix_cons_iff.mp hpre with rfl | ⟨vs, rfl, hvs⟩
    · exact absurd rfl hfirst.ne_nil
    rcases List.prefix_cons_iff.mp hvs with rfl | ⟨ws, rfl, hws⟩
    · cases hname.symm.trans (hfirst.ends.last [])
    obtain ⟨g, hg⟩ := Option.isSome_iff_exists.mp (hnames _ List.mem_cons_self hname)
    simp only [List.length_cons, Phrase.slack] at hd
    -- The misfit is this call, or it is closed among the arguments.
    rcases hfirst.inside [_] hopening hws h.balanced with rfl | ⟨hws, hmisfit⟩
    · obtain ⟨rfl, hlisted⟩ := hfirst.ends.of_call hg hopening h.balanced
      have hsplit : name :: opening :: (args ++ [closing]) =
          (name :: opening :: args) ++ closing :: [] := by simp
      have hright : RightArities (name :: opening :: args) := (hsplit ▸ hfirst).right
      rw [List.length_append] at hd
      exact .misfit hname hg hopening hlisted hclosing (hnames.mono fun t ht => by simp [ht])
        (hright.of_append [_, _]) (by omega) hfirst.misfit
    · refine .call hname hopening fun rest => ?_
      rw [args_eq_argsIn (expr_planned d) (h.not_isAt_rparen hws hmisfit.ne_nil) (Nat.le_refl _)]
      exact ih d ws f n hws hmisfit (hnames.mono fun t ht => by simp [ht]) (by omega) rest _
        (Nat.le_refl _)

/-- So it is in a list of arguments, where the arguments in front of that call have been read. -/
theorem Listed.refused {k : Nat} {ts : List Token} : Listed k ts →
    ∀ d us f n, us <+: ts → FirstMisfit f n us → NamesFunctions us → us.length ≤ d →
      ∀ rest rounds, (us ++ rest).length ≤ rounds →
        argsIn (expr d) rounds (ofTokens (us ++ rest)) =
          .error (.wrongArity f.name f.arity n) (ofTokens rest)
  | .none => by
    intro d us f n hpre hfirst
    exact absurd (List.prefix_nil.mp hpre) hfirst.ne_nil
  | .last h => by
    have ih := h.refused
    intro d us f n hpre hfirst hnames hd rest rounds _
    exact bind_of_error (ih d us f n hpre hfirst hnames hd rest)
  | .more h hcomma hs => by
    have ih := h.refused
    have ihs := hs.refused
    intro d us f n hpre hfirst hnames hd rest rounds hrounds
    rcases hfirst.split _ hpre (by simp [hcomma]) (by simp [hcomma]) hs.balanced with
      hpre | ⟨vs, rfl, hvs, hmisfit⟩
    · exact bind_of_error (ih d us f n hpre hfirst hnames hd rest)
    obtain ⟨e, he⟩ := h.spells (hnames.mono (by simp)) hfirst.right
    simp only [List.length_append, List.length_cons] at hd hrounds
    obtain ⟨m, rfl⟩ : ∃ m, rounds = m + 1 := ⟨rounds - 1, by omega⟩
    have hrest := ihs d vs f n hvs hmisfit (hnames.mono fun t ht => by simp [ht]) (by omega) rest m
      (by rw [List.length_append]; omega)
    have hat : isAt .comma [] (ofTokens (_ :: (vs ++ rest))) = true :=
      isAt_nil_iff.mpr ⟨_, rfl, hcomma⟩
    rw [List.append_assoc, List.cons_append, argsIn,
      bind_of_ok ((he.accepts d (by simp only [Phrase.slack]; omega)).expr_eq (by simp [hcomma]))]
    refine bind_of_error ?_
    rw [moreArgs_of_comma hat, advance_bind_ofTokens]
    exact hrest

end

end Reckoner
