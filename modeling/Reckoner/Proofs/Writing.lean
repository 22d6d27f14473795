import Reckoner.Proofs.Evaluation
import Reckoner.Proofs.Lexemes
import Reckoner.Proofs.Parser.Language
import Reckoner.Proofs.Spelling

/-!
# Writing a tree and reading it back

`Writes` says with which lexemes a tree can be written. Parentheses have to stand around an operand
that binds less tightly than its place asks for, and may stand around any other. What is written so
is a phrase of the grammar with this tree (`Writes.spells`), and no two lexemes of it run together
(`Writes.isChain`), so any text of it is read back as the tree.
-/

namespace Reckoner

open TokenStream (ofText)

namespace Expr

def IsSum (e : Expr) : Prop := ∃ op ∈ ["+", "-"], ∃ l r, e = .binary op l r

def IsProduct (e : Expr) : Prop := ∃ op ∈ ["*", "/"], ∃ l r, e = .binary op l r

end Expr

mutual

/-- The lexemes are a way to write the tree, `enclosed` in parentheses or not. -/
inductive Writes : (enclosed : Bool) → Expr → List Lexeme → Prop
  | literal {chars : List Char} {v : Number} (h : Number.ofLiteral chars = .ok v) :
      Writes false (.literal (.number v)) [.number chars v h]
  | sum {op : Operator} {b b' : Bool} {l r : Expr} {xs ys : List Lexeme}
      (hop : op.symbol ∈ ["+", "-"]) (hl : Writes b l xs) (hr : Writes b' r ys)
      (hright : r.IsSum → b' = true) :
      Writes false (.binary op.symbol l r) (xs ++ .operator op :: ys)
  | product {op : Operator} {b b' : Bool} {l r : Expr} {xs ys : List Lexeme}
      (hop : op.symbol ∈ ["*", "/"]) (hl : Writes b l xs) (hr : Writes b' r ys)
      (hleft : l.IsSum → b = true) (hright : r.IsSum ∨ r.IsProduct → b' = true) :
      Writes false (.binary op.symbol l r) (xs ++ .operator op :: ys)
  | negation {b : Bool} {e : Expr} {xs : List Lexeme} (h : Writes b e xs)
      (hoperand : e.IsSum ∨ e.IsProduct → b = true) :
      Writes false (.negate e) (.operator .sub :: xs)
  | call (f : MathFunction) {es : List Expr} {xs : List Lexeme} (h : WritesArgs es xs)
      (harity : es.length = f.arity) :
      Writes false (.call f.name es) (.function f :: .lparen :: (xs ++ [.rparen]))
  | group {b : Bool} {e : Expr} {xs : List Lexeme} (h : Writes b e xs) :
      Writes true e (.lparen :: (xs ++ [.rparen]))

/-- The lexemes are a way to write the trees with commas between them. -/
inductive WritesArgs : List Expr → List Lexeme → Prop
  | last {b : Bool} {e : Expr} {xs : List Lexeme} (h : Writes b e xs) : WritesArgs [e] xs
  | more {b : Bool} {e : Expr} {es : List Expr} {xs ys : List Lexeme} (h : Writes b e xs)
      (hs : WritesArgs es ys) : WritesArgs (e :: es) (xs ++ .comma :: ys)

end

/-! ## No two lexemes run together -/

theorem isChain_cons {ys : List Lexeme} {x : Lexeme} (hx : x.cls = .single)
    (hys : ys.IsChain Lexeme.Apart) : (x :: ys).IsChain Lexeme.Apart :=
  hys.cons fun _ _ => .inl hx

theorem isChain_insert {xs ys : List Lexeme} {x : Lexeme} (hx : x.cls = .single)
    (hxs : xs.IsChain Lexeme.Apart) (hys : ys.IsChain Lexeme.Apart) :
    (xs ++ x :: ys).IsChain Lexeme.Apart := by
  refine hxs.append (isChain_cons hx hys) fun y _ z hz => ?_
  cases hz
  exact .inr hx

theorem isChain_enclose {xs : List Lexeme} (hxs : xs.IsChain Lexeme.Apart) :
    (Lexeme.lparen :: (xs ++ [.rparen])).IsChain Lexeme.Apart :=
  isChain_cons rfl (isChain_insert rfl hxs .nil)

mutual

/-- No two lexemes of a text run into each other, so no blank is needed. -/
theorem Writes.isChain {b : Bool} {e : Expr} {xs : List Lexeme} :
    Writes b e xs → xs.IsChain Lexeme.Apart
  | .literal _ => .singleton _
  | .sum _ hl hr _ | .product _ hl hr _ _ => isChain_insert rfl hl.isChain hr.isChain
  | .negation h _ => isChain_cons rfl h.isChain
  | .call f h _ => (isChain_enclose h.isChain).cons fun y hy => by
    cases hy
    exact .inr rfl
  | .group h => isChain_enclose h.isChain

theorem WritesArgs.isChain {es : List Expr} {xs : List Lexeme} :
    WritesArgs es xs → xs.IsChain Lexeme.Apart
  | .last h => h.isChain
  | .more h hs => isChain_insert rfl h.isChain hs.isChain

end

/-! ## What is written is a phrase -/

/-- But for their places the tokens are those of the lexemes. -/
def TokensOf (xs : List Lexeme) (ts : List Token) : Prop :=
  ts.map Token.unplaced = xs.map (Lexeme.token 0)

theorem Lexeme.eq_token {x : Lexeme} {t : Token} (h : t.unplaced = x.token 0) :
    t = x.token t.pos := by
  obtain ⟨kind, value, pos⟩ := t
  cases x <;> cases h <;> rfl

theorem TokensOf.nil_iff {ts : List Token} : TokensOf [] ts ↔ ts = [] :=
  List.map_eq_nil_iff

theorem TokensOf.cons {ys : List Lexeme} {x : Lexeme} {ts : List Token}
    (h : TokensOf (x :: ys) ts) : ∃ pos vs, ts = x.token pos :: vs ∧ TokensOf ys vs := by
  obtain ⟨t, vs, rfl, ht, hvs⟩ := List.map_eq_cons_iff.mp h
  exact ⟨t.pos, vs, by rw [← Lexeme.eq_token ht], hvs⟩

theorem TokensOf.split {xs ys : List Lexeme} {x : Lexeme} {ts : List Token}
    (h : TokensOf (xs ++ x :: ys) ts) :
    ∃ us pos vs, ts = us ++ x.token pos :: vs ∧ TokensOf xs us ∧ TokensOf ys vs := by
  rw [TokensOf, List.map_append] at h
  obtain ⟨us, rest, rfl, hus, hrest⟩ := List.map_eq_append_iff.mp h
  obtain ⟨pos, vs, rfl, hvs⟩ := TokensOf.cons hrest
  exact ⟨us, pos, vs, rfl, hus, hvs⟩

theorem TokensOf.enclosed {xs : List Lexeme} {ts : List Token}
    (h : TokensOf (.lparen :: (xs ++ [.rparen])) ts) :
    ∃ pos us pos', ts = Lexeme.lparen.token pos :: (us ++ [Lexeme.rparen.token pos']) ∧
      TokensOf xs us := by
  obtain ⟨pos, rest, rfl, hrest⟩ := h.cons
  obtain ⟨us, pos', vs, rfl, hus, hvs⟩ := hrest.split
  rw [TokensOf.nil_iff.mp hvs]
  exact ⟨pos, us, pos', rfl, hus⟩

/-- The tokens are a phrase with this tree, of a loose sort only if the tree asks for it. -/
def PhraseOf (enclosed : Bool) (e : Expr) (ts : List Token) : Prop :=
  ∃ p, Spells p ts e ∧ (p = .expr → e.IsSum ∧ enclosed = false) ∧
    (p = .term → e.IsProduct ∧ enclosed = false)

namespace PhraseOf

variable {b : Bool} {e : Expr} {ts : List Token}

/-- A sum or a product stands as an operand of a sign only within parentheses. -/
theorem unary (h : PhraseOf b e ts) (hsum : e.IsSum ∨ e.IsProduct → b = true) :
    Spells .unary ts e := by
  obtain ⟨p, hp, hexpr, hterm⟩ := h
  cases p with
  | expr =>
    obtain ⟨he, rfl⟩ := hexpr rfl
    cases hsum (.inl he)
  | term =>
    obtain ⟨he, rfl⟩ := hterm rfl
    cases hsum (.inr he)
  | unary => exact hp
  | primary => exact .ofPrimary hp

theorem term (h : PhraseOf b e ts) (hsum : e.IsSum → b = true) : Spells .term ts e := by
  obtain ⟨p, hp, hexpr, -⟩ := h
  cases p with
  | expr =>
    obtain ⟨he, rfl⟩ := hexpr rfl
    cases hsum he
  | term => exact hp
  | unary => exact .ofUnary hp
  | primary => exact .ofUnary (.ofPrimary hp)

theorem expr (h : PhraseOf b e ts) : Spells .expr ts e := by
  obtain ⟨p, hp, -, -⟩ := h
  cases p with
  | expr => exact hp
  | term => exact .ofTerm hp
  | unary => exact .ofTerm (.ofUnary hp)
  | primary => exact .ofTerm (.ofUnary (.ofPrimary hp))

theorem of_unary (h : Spells .unary ts e) : PhraseOf b e ts := ⟨.unary, h, nofun, nofun⟩

theorem of_primary (h : Spells .primary ts e) : PhraseOf b e ts := ⟨.primary, h, nofun, nofun⟩

end PhraseOf

mutual

theorem Writes.phraseOf {b : Bool} {e : Expr} {xs : List Lexeme} :
    Writes b e xs → ∀ ts, TokensOf xs ts → PhraseOf b e ts
  | .literal h => by
    intro ts hts
    obtain ⟨pos, vs, rfl, hvs⟩ := hts.cons
    rw [TokensOf.nil_iff.mp hvs]
    exact .of_primary (.number (t := Lexeme.token pos (.number _ _ h)) rfl)
  | .sum hop hl hr hright => by
    have ihl := hl.phraseOf
    have ihr := hr.phraseOf
    intro ts hts
    obtain ⟨us, pos, vs, rfl, hus, hvs⟩ := hts.split
    refine ⟨.expr, .sum hop (ihl us hus).expr ((ihr vs hvs).term hright), fun _ => ?_, nofun⟩
    exact ⟨⟨_, hop, _, _, rfl⟩, rfl⟩
  | .product hop hl hr hleft hright => by
    have ihl := hl.phraseOf
    have ihr := hr.phraseOf
    intro ts hts
    obtain ⟨us, pos, vs, rfl, hus, hvs⟩ := hts.split
    refine ⟨.term, .product hop ((ihl us hus).term hleft) ((ihr vs hvs).unary hright), nofun,
      fun _ => ?_⟩
    exact ⟨⟨_, hop, _, _, rfl⟩, rfl⟩
  | .negation h hoperand => by
    have ih := h.phraseOf
    intro ts hts
    obtain ⟨pos, vs, rfl, hvs⟩ := hts.cons
    exact .of_unary (.negation ((ih vs hvs).unary hoperand))
  | .call f h harity => by
    have ih := h.phraseOf
    intro ts hts
    obtain ⟨pos, vs, rfl, hvs⟩ := hts.cons
    obtain ⟨pos', ws, pos'', rfl, hws⟩ := hvs.enclosed
    refine .of_primary (.call rfl ?_ rfl (ih ws hws) rfl harity)
    exact MathFunction.ofName?_name f
  | .group h => by
    have ih := h.phraseOf
    intro ts hts
    obtain ⟨pos, us, pos', rfl, hus⟩ := hts.enclosed
    exact .of_primary (.group rfl (ih us hus).expr rfl)

theorem WritesArgs.phraseOf {es : List Expr} {xs : List Lexeme} :
    WritesArgs es xs → ∀ ts, TokensOf xs ts → SpellsArgs ts es
  | .last h => fun ts hts => .last (h.phraseOf ts hts).expr
  | .more h hs => by
    have ih := h.phraseOf
    have ihs := hs.phraseOf
    intro ts hts
    obtain ⟨us, pos, vs, rfl, hus, hvs⟩ := hts.split
    exact .more (ih us hus).expr rfl (ihs vs hvs)

end

/-! ## Trees that can be written -/

/-- The literals are numbers without a sign, the operators are known, and so are the functions,
which have as many arguments as they take. -/
inductive Expr.Writable : Expr → Prop
  | literal {v : Number} (hvalid : v.Valid) (hunsigned : v.Unsigned) :
      Writable (.literal (.number v))
  | binary (op : Operator) {l r : Expr} (hl : Writable l) (hr : Writable r) :
      Writable (.binary op.symbol l r)
  | call (f : MathFunction) {args : List Expr} (harity : args.length = f.arity)
      (hargs : ∀ a ∈ args, Writable a) : Writable (.call f.name args)
  | negate {e : Expr} (h : Writable e) : Writable (.negate e)

theorem WritesArgs.exists_of_forall {es : List Expr} (hne : es ≠ [])
    (h : ∀ e ∈ es, ∃ xs, Writes true e xs) : ∃ xs, WritesArgs es xs := by
  induction es with
  | nil => exact absurd rfl hne
  | cons e es ih =>
    obtain ⟨xs, hxs⟩ := h e List.mem_cons_self
    by_cases hes : es = []
    · subst hes
      exact ⟨xs, .last hxs⟩
    · obtain ⟨ys, hys⟩ := ih hes fun e' he' => h e' (List.mem_cons_of_mem e he')
      exact ⟨_, .more hxs hys⟩

/-- With parentheses around everything every condition on them is met. -/
theorem Expr.Writable.exists_writes {e : Expr} (h : e.Writable) : ∃ xs, Writes true e xs := by
  induction h with
  | literal hvalid hunsigned =>
    obtain ⟨chars, hchars⟩ := Number.exists_spelling hvalid hunsigned
    exact ⟨_, .group (.literal hchars)⟩
  | binary op _ _ ihl ihr =>
    obtain ⟨xs, hxs⟩ := ihl
    obtain ⟨ys, hys⟩ := ihr
    by_cases hop : op.symbol ∈ ["+", "-"]
    · exact ⟨_, .group (.sum hop hxs hys fun _ => rfl)⟩
    · have hop : op.symbol ∈ ["*", "/"] := by
        cases op <;> simp_all [Operator.symbol]
      exact ⟨_, .group (.product hop hxs hys (fun _ => rfl) fun _ => rfl)⟩
  | call f harity _ ih =>
    obtain ⟨xs, hxs⟩ := WritesArgs.exists_of_forall
      (List.ne_nil_of_length_pos (by rw [harity]; cases f <;> decide)) ih
    exact ⟨_, .group (.call f hxs harity)⟩
  | negate _ ih =>
    obtain ⟨xs, hxs⟩ := ih
    exact ⟨_, .group (.negation hxs fun _ => rfl)⟩

/-! ## Reading back -/

theorem tokenize_of_spacing {b : Bool} {e : Expr} {xs : List Lexeme} {text : String}
    (h : Writes b e xs) (htext : Spacing xs text.toList) :
    ∃ ts, ofText text = ⟨ts, none⟩ ∧ TokensOf xs ts :=
  htext.ofSegments_cut h.isChain 0

/-- **Every well-formed tree can be written, and every text of it is read back as the tree.** -/
theorem written_is_read_back :
    (∀ e : Expr, e.Writable →
      ∃ b xs, ∃ text : String, Writes b e xs ∧ Spacing xs text.toList) ∧
    ∀ {b : Bool} {e : Expr} {xs : List Lexeme} {text : String} {limit : Nat}, Writes b e xs →
      Spacing xs text.toList → xs.length ≤ limit →
        (∃ ts, tokenize text = .ok ts ∧ parseTokens limit ts = .ok e) ∧
          calculate limit text = e.eval := by
  constructor
  · intro e he
    obtain ⟨xs, hxs⟩ := he.exists_writes
    refine ⟨true, xs, String.ofList (xs.flatMap Lexeme.chars), hxs, ?_⟩
    rw [String.toList_ofList]
    exact .flatMap_chars xs
  · intro b e xs text limit hxs htext hlimit
    obtain ⟨ts, hstream, hts⟩ := tokenize_of_spacing hxs htext
    have hlength : ts.length = xs.length := by
      have := congrArg List.length hts
      rwa [List.length_map, List.length_map] at this
    have hspells : Spells .expr ts e := (hxs.phraseOf ts hts).expr
    have hparse : parseTokens limit ts = .ok e := parseTokens_of_spells hspells (hlength ▸ hlimit)
    have hheight : e.height < limit := by
      have := hspells.height_lt
      omega
    refine ⟨⟨ts, by rw [tokenize, hstream]; rfl, hparse⟩, ?_⟩
    have htree : parseText limit text = .ok e := by
      rw [parseText, hstream]
      exact hparse
    rw [calculate, htree]
    exact Expr.evalWithin_eq_eval hheight

/-- `-(1+ 2)*3` -/
theorem written_is_read_back_product :
    calculate 8 "-(1+ 2)*3" = (Expr.binary "*"
      (.negate (.binary "+" (.literal (.number (.int 1))) (.literal (.number (.int 2)))))
      (.literal (.number (.int 3)))).eval := by
  have hone : Number.ofLiteral ['1'] = .ok (.int 1) := rfl
  have htwo : Number.ofLiteral ['2'] = .ok (.int 2) := rfl
  have hthree : Number.ofLiteral ['3'] = .ok (.int 3) := rfl
  have hsum := @Writes.sum .add _ _ _ _ _ _ (by decide) (.literal hone) (.literal htwo) (by
    rintro ⟨_, _, _, _, h⟩
    cases h)
  have hproduct := @Writes.product .mul _ _ _ _ _ _ (by decide)
    (.negation (.group hsum) fun _ => rfl) (.literal hthree) (by
      rintro ⟨_, _, _, _, h⟩
      cases h) (by
      rintro (⟨_, _, _, _, h⟩ | ⟨_, _, _, _, h⟩) <;> cases h)
  have htext : Spacing [.operator .sub, .lparen, .number ['1'] _ hone, .operator .add,
      .number ['2'] _ htwo, .rparen, .operator .mul, .number ['3'] _ hthree] "-(1+ 2)*3".toList :=
    .tight <| .tight <| .tight <| .tight <| @Spacing.next [' '] _ _ _ (List.all_eq_true.mp rfl) <| .tight <|
      .tight <| .tight <| .last nofun
  exact (written_is_read_back.2 hproduct htext (Nat.le_refl 8)).2

end Reckoner
