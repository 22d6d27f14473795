import Reckoner.Proofs.Doubles
import Reckoner.Proofs.Evaluation

/-!
# Equal data

Numbers, tokens and trees are compared by `==`, which takes the two zeros among the doubles for one and
does not look at where a token stood. So equal data need not be the same; what they share is read off
here, constructor by constructor. Calculations on equal data are to end alike: with related answers, or
with errors of one cause (`Alike`).
-/

namespace Reckoner

theorem forall₂_of_mem {α : Type} {P Q : α → Prop} {R S : α → α → Prop} {as bs : List α}
    (h : List.Forall₂ R as bs) (has : ∀ a ∈ as, P a) (hbs : ∀ b ∈ bs, Q b)
    (himp : ∀ {a b}, R a b → P a → Q b → S a b) : List.Forall₂ S as bs := by
  induction h with
  | nil => exact .nil
  | cons hab _ ih =>
    rw [List.forall_mem_cons] at has hbs
    exact .cons (himp hab has.1 hbs.1) (ih has.2 hbs.2)

/-! ## Values -/

/-- Equal numbers are the same integer, or doubles that compare equal. -/
theorem Number.beq_cases {v w : Number} (h : (v == w) = true) :
    (∃ n, v = .int n ∧ w = .int n) ∨ ∃ x y, v = .float x ∧ w = .float y ∧ (x == y) = true := by
  rcases v with m | x <;> rcases w with n | y
  · cases (beq_iff_eq (α := Int)).mp h
    exact .inl ⟨m, rfl, rfl⟩
  · cases h
  · cases h
  · exact .inr ⟨x, y, rfl, rfl, h⟩

/-- Equal values of tokens are equal numbers or the same text. -/
theorem Payload.beq_cases {p q : Payload} (h : (p == q) = true) :
    (∃ v w, p = .number v ∧ q = .number w ∧ (v == w) = true) ∨ ∃ s, p = .text s ∧ q = .text s := by
  rcases p with v | s <;> rcases q with w | t
  · exact .inl ⟨v, w, rfl, rfl, h⟩
  · cases h
  · cases h
  · cases (beq_iff_eq (α := String)).mp h
    exact .inr ⟨s, rfl, rfl⟩

/-- Positions are not compared. -/
theorem Token.beq_iff {t u : Token} :
    (t == u) = true ↔ t.kind = u.kind ∧ (t.value == u.value) = true := by
  change (t.kind == u.kind && t.value == u.value) = true ↔ _
  rw [Bool.and_eq_true, beq_iff_eq]

/-! ## Trees -/

namespace Expr

/-- Lists of trees are compared member by member. -/
theorem sameList_iff {es es' : List Expr} :
    sameList es es' = true ↔ List.Forall₂ (fun e e' => (e == e') = true) es es' := by
  induction es generalizing es' with
  | nil =>
    cases es' with
    | nil => exact iff_of_true rfl .nil
    | cons e' es' => exact iff_of_false nofun nofun
  | cons e es ih =>
    cases es' with
    | nil => exact iff_of_false nofun nofun
    | cons e' es' =>
      rw [List.forall₂_cons, ← ih, sameList, Bool.and_eq_true]
      rfl

theorem beq_binary (op : String) {l l' r r' : Expr} (hl : (l == l') = true) (hr : (r == r') = true) :
    (binary op l r == binary op l' r') = true := by
  change (op == op && same l l' && same r r') = true
  rw [Bool.and_eq_true, Bool.and_eq_true]
  exact ⟨⟨beq_self_eq_true op, hl⟩, hr⟩

theorem beq_call (f : String) {args args' : List Expr}
    (h : List.Forall₂ (fun e e' => (e == e') = true) args args') :
    (call f args == call f args') = true := by
  change (f == f && sameList args args') = true
  rw [Bool.and_eq_true]
  exact ⟨beq_self_eq_true f, sameList_iff.mpr h⟩

/-- The second of two equal trees, by the root of the first. -/
def EqualTo : Expr → Expr → Prop
  | literal p, e' => ∃ q, e' = literal q ∧ (p == q) = true
  | binary op l r, e' => ∃ l' r', e' = binary op l' r' ∧ (l == l') = true ∧ (r == r') = true
  | call f args, e' => ∃ args', e' = call f args' ∧
      List.Forall₂ (fun e e' => (e == e') = true) args args'
  | negate e, e' => ∃ f, e' = negate f ∧ (e == f) = true

/-- Equal trees have the same root, and equal trees below it. -/
theorem equalTo_of_beq {e e' : Expr} (h : (e == e') = true) : e.EqualTo e' := by
  rcases e with p | ⟨op, l, r⟩ | ⟨f, args⟩ | e <;>
    rcases e' with q | ⟨op', l', r'⟩ | ⟨f', args'⟩ | e' <;> try cases h
  · exact ⟨q, rfl, h⟩
  · have h : (op == op' && same l l' && same r r') = true := h
    rw [Bool.and_eq_true, Bool.and_eq_true, beq_iff_eq] at h
    obtain ⟨⟨rfl, hl⟩, hr⟩ := h
    exact ⟨l', r', rfl, hl, hr⟩
  · have h : (f == f' && sameList args args') = true := h
    rw [Bool.and_eq_true, beq_iff_eq] at h
    obtain ⟨rfl, hargs⟩ := h
    exact ⟨args', rfl, sameList_iff.mp hargs⟩
  · exact ⟨e', rfl, h⟩

/-- All numbers in the tree are valid. -/
inductive ValidLiterals : Expr → Prop
  | number {v : Number} (h : v.Valid) : ValidLiterals (literal (.number v))
  | text (s : String) : ValidLiterals (literal (.text s))
  | binary (op : String) {l r : Expr} (hl : ValidLiterals l) (hr : ValidLiterals r) :
      ValidLiterals (binary op l r)
  | call (f : String) {args : List Expr} (h : ∀ a ∈ args, ValidLiterals a) :
      ValidLiterals (call f args)
  | negate {e : Expr} (h : ValidLiterals e) : ValidLiterals (negate e)

end Expr

/-! ## Results -/

/-- The same error, but for data that are equal: a token, an argument or a key. -/
inductive CalcError.SameCause : CalcError → CalcError → Prop
  | refl (e : CalcError) : SameCause e e
  | unexpectedToken {t u : Token} (h : (t == u) = true) (expected : String) :
      SameCause (.unexpectedToken t expected) (.unexpectedToken u expected)
  | domain (function : String) {v w : Number} (h : (v == w) = true) :
      SameCause (.domain function v) (.domain function w)
  | unknownKey {p q : Payload} (h : (p == q) = true) : SameCause (.unknownKey p) (.unknownKey q)

/-- Two calculations end alike: with related answers, or with errors of one cause. -/
inductive Alike {α β : Type} (R : α → β → Prop) : Except CalcError α → Except CalcError β → Prop
  | ok {a : α} {b : β} (h : R a b) : Alike R (.ok a) (.ok b)
  | error {e e' : CalcError} (h : e.SameCause e') : Alike R (.error e) (.error e')

namespace Alike

variable {α β γ δ : Type} {R : α → β → Prop} {Q : γ → δ → Prop}

/-- Calculations that go on alike from related answers end alike. -/
theorem bind {x : Except CalcError α} {y : Except CalcError β} {f : α → Except CalcError γ}
    {g : β → Except CalcError δ} (h : Alike R x y) (hf : ∀ {a b}, R a b → Alike Q (f a) (g b)) :
    Alike Q (x >>= f) (y >>= g) := by
  cases h with
  | ok h => exact hf h
  | error h => exact .error h

theorem of_ok {x : Except CalcError α} {y : Except CalcError β} {a : α} (h : Alike R x y)
    (hx : x = .ok a) : ∃ b, y = .ok b ∧ R a b := by
  cases h with
  | ok h =>
    cases hx
    exact ⟨_, rfl, h⟩
  | error => cases hx

theorem of_error {x : Except CalcError α} {y : Except CalcError β} {e : CalcError}
    (h : Alike R x y) (hx : x = .error e) : ∃ e', y = .error e' ∧ e.SameCause e' := by
  cases h with
  | ok => cases hx
  | error h =>
    cases hx
    exact ⟨_, rfl, h⟩

/-- A check that decides alike on both sides. -/
theorem ite {p q : Prop} [Decidable p] [Decidable q] {x x' : Except CalcError α}
    {y y' : Except CalcError β} (hpq : p ↔ q) (hpos : p → Alike R x y) (hneg : ¬p → Alike R x' y') :
    Alike R (if p then x else x') (if q then y else y') := by
  by_cases hp : p
  · rw [if_pos hp, if_pos (hpq.mp hp)]
    exact hpos hp
  · rw [if_neg hp, if_neg fun hq => hp (hpq.mpr hq)]
    exact hneg hp

/-- So do calculations for each member of two lists, in order. -/
theorem mapM {f : γ → Except CalcError α} {g : δ → Except CalcError β} {cs : List γ} {ds : List δ}
    (h : List.Forall₂ (fun c d => Alike R (f c) (g d)) cs ds) :
    Alike (List.Forall₂ R) (cs.mapM f) (ds.mapM g) := by
  induction h with
  | nil => exact .ok .nil
  | cons hc _ ih =>
    rw [List.mapM_cons, List.mapM_cons]
    exact hc.bind fun ha => ih.bind fun has => .ok (.cons ha has)

end Alike

end Reckoner
