import Reckoner.Proofs.Domains
import Reckoner.Proofs.Elementary
import Reckoner.Proofs.Equality
import Reckoner.Proofs.Parser.Lockstep

/-!
# The two zeros

Two doubles are zero, and they are equal. Only a quotient by zero and a negative power of zero would
show which of them it was, and both are refused before they are computed. So equality is a congruence
(`equality_is_congruence`): equal tokens make equal trees and equal trees have equal values, up to what
the errors quote.

Doubles are `Same` if they differ at most in the sign of a zero. Arithmetic and the root keep that, by
cases of the parts of a double; of the functions that come from outside it is a law of their library.
-/

namespace Reckoner

/-! ## Doubles that are the same but for the sign of a zero -/

namespace Binary64

open Float.Model (Format UnpackedFloat)
open Float.Model.UnpackedFloat

/-- The same parts of a double, or two zeros. -/
inductive SameParts : UnpackedFloat → UnpackedFloat → Prop
  | refl (a : UnpackedFloat) : SameParts a a
  | zero (s s' : Sign) : SameParts (.zero s) (.zero s')

namespace SameParts

variable {a a' b b' : UnpackedFloat}

theorem of_compare (h : a.compare b = some .eq) : SameParts a b := by
  -- Of two finite doubles the exponents are compared first.
  have hfields {e e' : Int} {m m' : Nat}
      (h : (compare e e').then (compare m m') = .eq) : e = e' ∧ m = m' := by
    rw [Ordering.then_eq_eq] at h
    exact ⟨compare_eq_iff_eq.mp h.1, compare_eq_iff_eq.mp h.2⟩
  rcases a with (_ | _) | _ | s | ⟨(_ | _), m, e, hm⟩ <;>
    rcases b with (_ | _) | _ | s' | ⟨(_ | _), m', e', hm'⟩ <;>
    first
    | exact .refl _
    | exact .zero _ _
    | cases h
    | skip
  · have h : ((compare e e').then (compare m m')).swap = .eq := Option.some.inj h
    obtain ⟨rfl, rfl⟩ := hfields (Ordering.swap_eq_eq.mp h)
    exact .refl _
  · obtain ⟨rfl, rfl⟩ := hfields (Option.some.inj h)
    exact .refl _

theorem trans {c : UnpackedFloat} (h : SameParts a b) (h' : SameParts b c) : SameParts a c := by
  cases h with
  | refl a => exact h'
  | zero s s' =>
    cases h' with
    | refl b => exact .zero s s'
    | zero _ t => exact .zero s t

/-- An operation that ignores the sign of a zero on either side. -/
theorem congr₂ {op : UnpackedFloat → UnpackedFloat → UnpackedFloat}
    (hleft : ∀ s s' b, SameParts (op (.zero s) b) (op (.zero s') b))
    (hright : ∀ a s s', SameParts (op a (.zero s)) (op a (.zero s')))
    (ha : SameParts a a') (hb : SameParts b b') : SameParts (op a b) (op a' b') := by
  have hfirst : SameParts (op a b) (op a' b) := by
    cases ha with
    | refl a => exact .refl _
    | zero s s' => exact hleft s s' b
  have hsecond : SameParts (op a' b) (op a' b') := by
    cases hb with
    | refl b => exact .refl _
    | zero s s' => exact hright a' s s'
  exact hfirst.trans hsecond

section Operations

variable (ha : SameParts a a') (hb : SameParts b b') (f : Format)

include ha hb

theorem add : SameParts (a.add f b) (a'.add f b') := by
  refine congr₂ (fun s s' b => ?_) (fun a s s' => ?_) ha hb
  · cases b with
    | zero t => cases t <;> cases s <;> cases s' <;> exact .zero _ _
    | _ => exact .refl _
  · cases a with
    | zero t => cases t <;> cases s <;> cases s' <;> exact .zero _ _
    | _ => exact .refl _

theorem sub : SameParts (a.sub f b) (a'.sub f b') := by
  refine congr₂ (fun s s' b => ?_) (fun a s s' => ?_) ha hb
  · cases b with
    | zero t => cases t <;> cases s <;> cases s' <;> exact .zero _ _
    | _ => exact .refl _
  · cases a with
    | zero t => cases t <;> cases s <;> cases s' <;> exact .zero _ _
    | _ => exact .refl _

theorem mul : SameParts (a.mul f b) (a'.mul f b') := by
  refine congr₂ (fun s s' b => ?_) (fun a s s' => ?_) ha hb
  · cases b with
    | zero | finite => exact .zero _ _
    | _ => exact .refl _
  · cases a with
    | zero | finite => exact .zero _ _
    | _ => exact .refl _

omit hb in
/-- Only the sign of a divisor that is zero matters. -/
theorem div (hne : ∀ s, b ≠ .zero s) (hb : SameParts b b') : SameParts (a.div f b) (a'.div f b') := by
  cases hb with
  | zero s => exact absurd rfl (hne s)
  | refl b =>
    cases ha with
    | refl a => exact .refl _
    | zero s s' =>
      cases b with
      | zero t => exact absurd rfl (hne t)
      | notANumber => exact .refl _
      | _ => exact .zero _ _

omit hb in
theorem sqrt : SameParts (a.sqrt f) (a'.sqrt f) := by
  cases ha with
  | refl a => exact .refl _
  | zero s s' => exact .zero s s'

omit hb in
theorem neg : SameParts a.neg a'.neg := by
  cases ha with
  | refl a => exact .refl _
  | zero s s' => exact .zero _ _

omit hb in
theorem pack : SameParts (Float.Model.pack a).unpack (Float.Model.pack a').unpack := by
  have hzero (s : Sign) : (Float.Model.pack (.zero s)).unpack = .zero s := by cases s <;> rfl
  cases ha with
  | refl a => exact .refl _
  | zero s s' =>
    rw [hzero, hzero]
    exact .zero s s'

end Operations

end SameParts

/-- The same double but for the sign of a zero. -/
def Same (x y : Float) : Prop := SameParts x.toModel.unpack y.toModel.unpack

namespace Same

variable {x x' y y' : Float}

theorem refl (x : Float) : Same x x := SameParts.refl _

theorem of_beq (h : (x == y) = true) : Same x y :=
  .of_compare (beq_iff_eq.mp h)

theorem isFinite (h : Same x y) : x.isFinite = y.isFinite := by
  change x.toModel.unpack.isFinite = y.toModel.unpack.isFinite
  unfold Same at h
  generalize x.toModel.unpack = a, y.toModel.unpack = b at h
  cases h <;> rfl

theorem toRat (h : Same x y) : toRat x = toRat y := by
  unfold Same at h
  unfold Binary64.toRat
  generalize x.toModel.unpack = a, y.toModel.unpack = b at h
  cases h <;> rfl

theorem beq (h : Same x y) (hx : x.isFinite = true) : (x == y) = true :=
  (beq_iff hx (h.isFinite ▸ hx)).mpr h.toRat

theorem add (hx : Same x x') (hy : Same y y') : Same (x + y) (x' + y') :=
  (SameParts.add hx hy Format.binary64).pack

theorem sub (hx : Same x x') (hy : Same y y') : Same (x - y) (x' - y') :=
  (SameParts.sub hx hy Format.binary64).pack

theorem mul (hx : Same x x') (hy : Same y y') : Same (x * y) (x' * y') :=
  (SameParts.mul hx hy Format.binary64).pack

theorem div (hx : Same x x') (hy : Same y y') (hne : Binary64.toRat y ≠ 0) : Same (x / y) (x' / y') := by
  refine (SameParts.div hx Format.binary64 (fun s hs => hne ?_) hy).pack
  unfold Binary64.toRat
  rw [hs]

theorem sqrt (hx : Same x x') : Same x.sqrt x'.sqrt := (SameParts.sqrt hx Format.binary64).pack

theorem neg (hx : Same x x') : Same (-x) (-x') := (SameParts.neg hx).pack

end Same

end Binary64

open Binary64 (Same)

/-! ## Equal numbers -/

namespace Number

/-- Valid numbers that are equal. -/
structure Equal (v w : Number) : Prop where
  left : v.Valid
  right : w.Valid
  beq : (v == w) = true

theorem Equal.refl {v : Number} (h : v.Valid) : Equal v v := ⟨h, h, beq_self h⟩

namespace Equal

variable {v w v' w' : Number}

/-- Equal numbers are one integer, or doubles of which a zero may differ in its sign. -/
theorem cases (h : Equal v w) :
    (∃ n, v = int n ∧ w = int n) ∨ ∃ x y, v = float x ∧ w = float y ∧ Same x y := by
  rcases beq_cases h.beq with ⟨n, rfl, rfl⟩ | ⟨x, y, rfl, rfl, hxy⟩
  · exact .inl ⟨n, rfl, rfl⟩
  · exact .inr ⟨x, y, rfl, rfl, .of_beq hxy⟩

theorem toFloat (h : Equal v w) : Same v.toFloat w.toFloat := by
  rcases h.cases with ⟨n, rfl, rfl⟩ | ⟨x, y, rfl, rfl, hxy⟩
  · exact .refl _
  · exact hxy

theorem isInt (h : Equal v w) : v.isInt = w.isInt := by
  rcases h.cases with ⟨n, rfl, rfl⟩ | ⟨x, y, rfl, rfl, -⟩ <;> rfl

end Equal

theorem alike_self {x : Except CalcError Number} {E : CalcError → Prop} (h : Evaluates Valid E x) :
    Alike Equal x x := by
  cases x with
  | ok v => exact .ok (.refl (h.ok rfl))
  | error e => exact .error (.refl e)

theorem checkedFloat_alike {x y : Float} (h : Same x y) (operation : String) :
    Alike Equal (checkedFloat operation x) (checkedFloat operation y) := by
  refine .ite (by rw [h.isFinite]) (fun hx => ?_) fun _ => .error (.refl _)
  exact .ok ⟨hx, h.isFinite.symm.trans hx, h.beq hx⟩

theorem apply_eq_onFloats {op : Operator} {v w : Number} (h : ¬(v.isInt = true ∧ w.isInt = true)) :
    apply op v w = op.onFloats v.toFloat w.toFloat >>= checkedFloat op.symbol := by
  rcases v with m | x <;> rcases w with n | y <;> first
    | exact absurd ⟨rfl, rfl⟩ h
    | cases op <;> rfl

end Number

/-- Only a quotient by zero would show the sign, and that is refused for either zero. -/
theorem Operator.onFloats_alike (op : Operator) {x x' y y' : Float} (hy : y.isFinite = true)
    (hxx' : Same x x') (hyy' : Same y y') :
    Alike Same (op.onFloats x y) (op.onFloats x' y') := by
  cases op with
  | add => exact .ok (hxx'.add hyy')
  | sub => exact .ok (hxx'.sub hyy')
  | mul => exact .ok (hxx'.mul hyy')
  | div =>
    have hzero : (y == Binary64.zero) = true ↔ (y' == Binary64.zero) = true := by
      rw [Binary64.beq_zero_iff hy, Binary64.beq_zero_iff (hyy'.isFinite ▸ hy), hyy'.toRat]
    refine Alike.ite hzero (fun _ => .error (.refl _)) fun hdivisor => ?_
    exact .ok (hxx'.div hyy' fun h => hdivisor ((Binary64.beq_zero_iff hy).mpr h))

namespace Number

variable {v w v' w' : Number}

theorem apply_alike (op : Operator) (h : Equal v w) (h' : Equal v' w') :
    Alike Equal (apply op v v') (apply op w w') := by
  by_cases hints : v.isInt = true ∧ v'.isInt = true
  · rcases h.cases with ⟨m, rfl, rfl⟩ | ⟨x, y, rfl, rfl, -⟩
    · rcases h'.cases with ⟨n, rfl, rfl⟩ | ⟨x, y, rfl, rfl, -⟩
      · exact alike_self (apply_evaluates op _ _)
      · exact nomatch hints.2
    · exact nomatch hints.1
  · rw [apply_eq_onFloats hints, apply_eq_onFloats (h.isInt ▸ h'.isInt ▸ hints)]
    exact (op.onFloats_alike (isFinite_toFloat h'.left) h.toFloat h'.toFloat).bind
      fun hz => checkedFloat_alike hz _

theorem applySymbol_alike (symbol : String) (h : Equal v w) (h' : Equal v' w') :
    Alike Equal (applySymbol symbol v v') (applySymbol symbol w w') := by
  unfold applySymbol
  cases Operator.ofSymbol? symbol with
  | none => exact .error (.refl _)
  | some op => exact apply_alike op h h'

theorem negate_alike (h : Equal v w) : Alike Equal v.negate w.negate := by
  rcases h.cases with ⟨n, rfl, rfl⟩ | ⟨x, y, rfl, rfl, hxy⟩
  · exact alike_self (negate_evaluates _)
  · exact checkedFloat_alike hxy.neg _

end Number

/-! ## Functions of a library -/

namespace Elementary

/-- The functions take equal doubles to equal values, and so do powers, unless zero is to have a negative
exponent. -/
structure RespectsEqual (lib : Elementary) : Prop where
  function : ∀ f (x y : Float), x.isFinite = true → y.isFinite = true → (x == y) = true →
    Same (lib.function f x) (lib.function f y)
  power : ∀ x x' y y' : Float, x.isFinite = true → x'.isFinite = true → y.isFinite = true →
    y'.isFinite = true → (x == x') = true → (y == y') = true →
    ¬((x == Binary64.zero) = true ∧ y < Binary64.zero) → Same (lib.power x y) (lib.power x' y')

variable {lib : Elementary} (hlib : lib.RespectsEqual) {v w v' w' : Number}

theorem inDomain_iff (f : MathFunction) {x y : Float} (h : Same x y) (hx : x.isFinite = true) :
    f.inDomain x = true ↔ f.inDomain y = true := by
  have hy := h.isFinite.symm.trans hx
  by_cases hsqrt : f = .sqrt
  · rw [hsqrt, MathFunction.inDomain_sqrt_iff hx, MathFunction.inDomain_sqrt_iff hy, h.toRat]
  · by_cases hunit : f = .asin ∨ f = .acos
    · rw [MathFunction.inDomain_unit_iff hx hunit, MathFunction.inDomain_unit_iff hy hunit, h.toRat]
    · have hall (z : Float) : f.inDomain z = true := by cases f <;> simp_all [MathFunction.inDomain]
      rw [hall, hall]

include hlib

theorem onFloat_same (f : MathFunction) (h : Number.Equal v w) :
    Same (lib.onFloat f v.toFloat) (lib.onFloat f w.toFloat) := by
  have hx := Number.isFinite_toFloat h.left
  by_cases hsqrt : f = .sqrt
  · subst hsqrt
    exact h.toFloat.sqrt
  · have hother (x : Float) : lib.onFloat f x = lib.function f x := by
      cases f <;> first | rfl | exact absurd rfl hsqrt
    rw [hother, hother]
    exact hlib.function f _ _ hx (Number.isFinite_toFloat h.right) (h.toFloat.beq hx)

/-- A negative power of zero, which would show the sign, is refused for either zero. -/
theorem floatPow_alike (h : Number.Equal v w) (h' : Number.Equal v' w') :
    Alike Number.Equal (lib.floatPow v v.toFloat v'.toFloat) (lib.floatPow w w.toFloat w'.toFloat) := by
  have hx := Number.isFinite_toFloat h.left
  have hx' := Number.isFinite_toFloat h.right
  have hy := Number.isFinite_toFloat h'.left
  have hy' := Number.isFinite_toFloat h'.right
  refine .ite ?_ (fun _ => .error (.domain "pow" h.beq)) fun hzero => ?_
  · rw [Binary64.beq_zero_iff hx, Binary64.beq_zero_iff hx', Binary64.lt_zero_iff hy,
      Binary64.lt_zero_iff hy', h.toFloat.toRat, h'.toFloat.toRat]
  · refine .ite ?_ (fun _ => .error (.domain "pow" h.beq)) fun _ => ?_
    · rw [Binary64.lt_zero_iff hx, Binary64.lt_zero_iff hx', ← Bool.not_eq_true, ← Bool.not_eq_true,
        Binary64.isIntegral_iff hy, Binary64.isIntegral_iff hy', h.toFloat.toRat, h'.toFloat.toRat]
    · exact Number.checkedFloat_alike (hlib.power _ _ _ _ hx hx' hy hy' (h.toFloat.beq hx)
        (h'.toFloat.beq hy) hzero) _

theorem pow_alike (h : Number.Equal v w) (h' : Number.Equal v' w') :
    Alike Number.Equal (lib.pow v v') (lib.pow w w') := by
  have hfloats := floatPow_alike hlib h h'
  rcases h.cases with ⟨m, rfl, rfl⟩ | ⟨x, y, rfl, rfl, -⟩
  · rcases h'.cases with ⟨n, rfl, rfl⟩ | ⟨x, y, rfl, rfl, -⟩
    · cases n with
      | ofNat e =>
        exact Number.alike_self (Number.pow_evaluates (.int m) (.int e))
      | negSucc e => exact hfloats
    · exact hfloats
  · exact hfloats

omit hlib in
theorem apply_of_arity_ne {f : MathFunction} {vs : List Number} (h : vs.length ≠ f.arity) :
    lib.apply f vs = .error (.wrongArity f.name f.arity vs.length) := by
  rcases vs with _ | ⟨x, _ | ⟨y, _ | ⟨z, vs⟩⟩⟩ <;> cases f <;> first
    | rfl
    | exact absurd rfl h

theorem apply_one_alike {f : MathFunction} (hf : f ≠ .pow) (h : Number.Equal v w) :
    Alike Number.Equal (lib.apply f [v]) (lib.apply f [w]) := by
  have happly (v : Number) : lib.apply f [v] =
      if f.inDomain v.toFloat then Number.checkedFloat f.name (lib.onFloat f v.toFloat)
      else .error (.domain f.name v) := by
    cases f <;> first | rfl | exact absurd rfl hf
  rw [happly, happly]
  refine .ite (inDomain_iff f h.toFloat (Number.isFinite_toFloat h.left)) (fun _ => ?_)
    fun _ => .error (.domain f.name h.beq)
  exact Number.checkedFloat_alike (onFloat_same hlib f h) _

theorem apply_alike (f : MathFunction) {vs ws : List Number} (h : List.Forall₂ Number.Equal vs ws) :
    Alike Number.Equal (lib.apply f vs) (lib.apply f ws) := by
  have hlength := h.length_eq
  by_cases harity : vs.length = f.arity
  · by_cases hpow : f = .pow
    · subst hpow
      obtain ⟨v, v', rfl⟩ := exists_pair harity
      obtain ⟨w, w', rfl⟩ := exists_pair (hlength.symm.trans harity)
      rw [List.forall₂_cons, List.forall₂_cons] at h
      exact pow_alike hlib h.1 h.2.1
    · have hone : f.arity = 1 := by cases f <;> first | rfl | exact absurd rfl hpow
      obtain ⟨v, rfl⟩ := List.length_eq_one_iff.mp (harity.trans hone)
      obtain ⟨w, rfl⟩ := List.length_eq_one_iff.mp (hlength.symm.trans (harity.trans hone))
      rw [List.forall₂_cons] at h
      exact apply_one_alike hlib hpow h.1
  · rw [apply_of_arity_ne harity, apply_of_arity_ne (hlength ▸ harity), hlength]
    exact .error (.refl _)

theorem applyNamed_alike (name : String) {vs ws : List Number}
    (h : List.Forall₂ Number.Equal vs ws) :
    Alike Number.Equal (lib.applyNamed name vs) (lib.applyNamed name ws) := by
  unfold applyNamed
  cases MathFunction.ofName? name with
  | none => exact .error (.refl _)
  | some f => exact apply_alike hlib f h

/-! ## Equal trees -/

/-- **Equal trees evaluate alike.** -/
theorem evalWithin_alike (depth : Nat) {e e' : Expr} (h : (e == e') = true)
    (hvalid : e.ValidLiterals) (hvalid' : e'.ValidLiterals) :
    Alike Number.Equal (lib.evalWithin depth e) (lib.evalWithin depth e') := by
  induction depth generalizing e e' with
  | zero => exact .error (.refl _)
  | succ depth ih =>
    have hequal := Expr.equalTo_of_beq h
    cases hvalid with
    | @number v hv =>
      obtain ⟨q, rfl, hpq⟩ := hequal
      rcases Payload.beq_cases hpq with ⟨_, w, hv', rfl, hvw⟩ | ⟨s, hs, -⟩
      · cases hv'
        cases hvalid' with
        | number hw => exact .ok ⟨hv, hw, hvw⟩
      · cases hs
    | text s =>
      obtain ⟨q, rfl, hpq⟩ := hequal
      rcases Payload.beq_cases hpq with ⟨v, w, hv, -, -⟩ | ⟨s', hs, rfl⟩
      · cases hv
      · cases hs
        exact .error (.refl _)
    | binary op hl hr =>
      obtain ⟨l', r', rfl, hll', hrr'⟩ := hequal
      cases hvalid' with
      | binary _ hl' hr' =>
        refine (ih hll' hl hl').bind fun hx => (ih hrr' hr hr').bind fun hy => ?_
        exact Number.applySymbol_alike op hx hy
    | call f hargs =>
      obtain ⟨args', rfl, hequal⟩ := hequal
      cases hvalid' with
      | call _ hargs' =>
        have hevals := forall₂_of_mem hequal hargs hargs' fun hab ha hb => ih hab ha hb
        exact (Alike.mapM hevals).bind fun hxs => applyNamed_alike hlib f hxs
    | negate he =>
      obtain ⟨f, rfl, hef⟩ := hequal
      cases hvalid' with
      | negate hf => exact (ih hef he hf).bind fun hx => Number.negate_alike hx

omit hlib in
theorem sample_respectsEqual : sample.RespectsEqual := by
  refine ⟨fun f x y _ _ hxy => ?_, fun x x' y y' hx hx' hy hy' hxx' hyy' _ => ?_⟩
  · cases f with
    | cos | acos => exact .refl _
    | _ => exact .of_beq hxy
  · have hmagnitude : Binary64.magnitude x = Binary64.magnitude x' := by
      refine Binary64.value_strictMono.injective ?_
      rw [← Binary64.abs_toRat hx, ← Binary64.abs_toRat hx', (Same.of_beq hxx').toRat]
    change Same (if Odd ⌊Binary64.toRat y⌋ then x else _) (if Odd ⌊Binary64.toRat y'⌋ then x' else _)
    rw [(Same.of_beq hyy').toRat, hmagnitude]
    split
    · exact .of_beq hxx'
    · exact .refl _

end Elementary

/-- **Equality is a congruence.** Equal tokens are parsed to equal trees, or fail for one cause at one
index, and equal trees have equal values, or fail for one cause, if the functions take equal doubles to
equal values. -/
theorem equality_is_congruence {lib : Elementary} (hlib : lib.RespectsEqual) :
    (∀ ts us : List Token, List.Forall₂ (fun t u => (t == u) = true) ts us → ∀ limit,
      (∃ x y, parseTokens limit ts = .ok x ∧ parseTokens limit us = .ok y ∧ (x == y) = true) ∨
        ∃ e e' s s', parseTokens limit ts = .error e ∧ parseTokens limit us = .error e' ∧
          e.SameCause e' ∧ Parser.whole limit (.ofTokens ts) = .error e s ∧
          Parser.whole limit (.ofTokens us) = .error e' s' ∧
          s.pending.length = s'.pending.length) ∧
    (∀ e e' : Expr, (e == e') = true → e.ValidLiterals → e'.ValidLiterals → ∀ depth,
      Alike Number.Equal (lib.evalWithin depth e) (lib.evalWithin depth e')) ∧
    Elementary.standard.evalWithin = Expr.evalWithin :=
  ⟨fun _ _ h => parseTokens_lockstep h,
    fun _ _ h hvalid hvalid' depth => Elementary.evalWithin_alike hlib depth h hvalid hvalid',
    funext Elementary.evalWithin_standard⟩

/-- -1 to negative zero, and a quotient with negative zero, from those with zero. -/
theorem equality_is_congruence_negative_zero :
    (∃ v, Elementary.sample.evalWithin 2 (.call "pow" [.literal (.number (.float (-Binary64.one))),
      .literal (.number (.float (Binary64.ofWord true 0)))]) = .ok v ∧
      (Number.float Binary64.one == v) = true) ∧
    Elementary.sample.evalWithin 2 (.binary "/" (.literal (.number (.int 1)))
      (.literal (.number (.float (Binary64.ofWord true 0))))) = .error .divisionByZero := by
  obtain ⟨-, heval, -⟩ := equality_is_congruence Elementary.sample_respectsEqual
  have hone : (Expr.literal (.number (.int 1))).ValidLiterals := .number (by decide)
  have hbase : (Expr.literal (.number (.float (-Binary64.one)))).ValidLiterals :=
    .number Binary64.isFinite_neg_one
  have hzero (negative : Bool) :
      (Expr.literal (.number (.float (Binary64.ofWord negative 0)))).ValidLiterals :=
    .number (Binary64.isFinite_ofWord (by decide))
  have hargs (negative : Bool) : ∀ a ∈ [Expr.literal (.number (.float (-Binary64.one))),
      .literal (.number (.float (Binary64.ofWord negative 0)))], a.ValidLiterals := by
    simp [hbase, hzero]
  constructor
  · obtain ⟨v, hv, hequal⟩ := (heval _ _ (by decide +kernel) (.call "pow" (hargs false))
      (.call "pow" (hargs true)) 2).of_ok rfl
    exact ⟨v, hv, hequal.beq⟩
  · obtain ⟨e, he, hcause⟩ := (heval _ _ (by decide +kernel) (.binary "/" hone (hzero false))
      (.binary "/" hone (hzero true)) 2).of_error rfl
    cases hcause
    exact he

end Reckoner
