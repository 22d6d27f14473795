import Reckoner.Arithmetic

/-!
# Results of arithmetic

`Evaluates P E x` is what every part of an evaluation has in common: the answer has the property `P`
and an error the property `E`. It goes along with the recursion of the evaluator, so there is one
lemma for each operation. Numbers that come out of arithmetic are valid and its errors are three, as
long as a function gets as many arguments as it takes.
-/

namespace Reckoner

/-! ## Calculations that can fail -/

theorem ok_of_bind {α β : Type} {x : Except CalcError α} {f : α → Except CalcError β} {b : β}
    (h : (x >>= f) = .ok b) : ∃ a, x = .ok a ∧ f a = .ok b := by
  cases x with
  | ok a => exact ⟨a, rfl, h⟩
  | error e => cases h

theorem error_of_bind {α β : Type} {x : Except CalcError α} {f : α → Except CalcError β}
    {e : CalcError} (h : (x >>= f) = .error e) :
    x = .error e ∨ ∃ a, x = .ok a ∧ f a = .error e := by
  cases x with
  | ok a => exact .inr ⟨a, rfl, h⟩
  | error e' =>
    cases h
    exact .inl rfl

/-- The errors of arithmetic. -/
def CalcError.IsArithmetic : CalcError → Prop
  | divisionByZero | domain .. | overflow _ => True
  | _ => False

theorem CalcError.IsArithmetic.stage_eq {err : CalcError} (h : err.IsArithmetic) :
    err.stage? = some .evaluation := by
  cases err <;> first | rfl | cases h

/-- An answer has the one property, an error the other. -/
structure Evaluates {α : Type} (P : α → Prop) (E : CalcError → Prop) (x : Except CalcError α) :
    Prop where
  ok : ∀ {a}, x = .ok a → P a
  error : ∀ {e}, x = .error e → E e

section Evaluates

variable {α β : Type} {P : α → Prop} {Q : β → Prop} {E F : CalcError → Prop}

theorem Evaluates.of_ok {a : α} (h : P a) : Evaluates P E (.ok a) := by
  refine ⟨fun hok => ?_, fun herr => ?_⟩
  · cases hok
    exact h
  · cases herr

theorem Evaluates.of_error {e : CalcError} (h : E e) : Evaluates P E (.error e) := by
  refine ⟨fun hok => ?_, fun herr => ?_⟩
  · cases hok
  · cases herr
    exact h

theorem Evaluates.mono {x : Except CalcError α} (h : Evaluates P E x) (hEF : ∀ e, E e → F e) :
    Evaluates P F x :=
  ⟨h.ok, fun herr => hEF _ (h.error herr)⟩

/-- The second part may rely on what the first one has answered. -/
theorem Evaluates.bind {x : Except CalcError α} {f : α → Except CalcError β}
    (hx : Evaluates P E x) (hf : ∀ a, P a → Evaluates Q E (f a)) : Evaluates Q E (x >>= f) := by
  refine ⟨fun hok => ?_, fun herr => ?_⟩
  · obtain ⟨a, ha, hok⟩ := ok_of_bind hok
    exact (hf a (hx.ok ha)).ok hok
  · rcases error_of_bind herr with herr | ⟨a, ha, herr⟩
    · exact hx.error herr
    · exact (hf a (hx.ok ha)).error herr

theorem Evaluates.mapM {f : α → Except CalcError β} {as : List α}
    (h : ∀ a ∈ as, Evaluates Q E (f a)) :
    Evaluates (fun bs => bs.length = as.length ∧ ∀ b ∈ bs, Q b) E (as.mapM f) := by
  induction as with
  | nil => exact .of_ok ⟨rfl, fun b hb => absurd hb List.not_mem_nil⟩
  | cons a as ih =>
    rw [List.mapM_cons]
    refine (h a List.mem_cons_self).bind fun b hb => ?_
    refine (ih fun a' ha' => h a' (List.mem_cons_of_mem a ha')).bind fun bs hbs => ?_
    refine .of_ok ⟨congrArg Nat.succ hbs.1, fun c hc => ?_⟩
    rcases List.mem_cons.mp hc with rfl | hc
    · exact hb
    · exact hbs.2 c hc

end Evaluates

theorem exists_pair {α : Type} : {as : List α} → as.length = 2 → ∃ a b, as = [a, b]
  | [a, b], _ => ⟨a, b, rfl⟩

/-! ## Names -/

theorem Number.applySymbol_symbol (op : Operator) (x y : Number) :
    applySymbol op.symbol x y = apply op x y := by
  rw [applySymbol, Operator.ofSymbol?_symbol]

theorem Number.applyNamed_name (f : MathFunction) (xs : List Number) :
    applyNamed f.name xs = f.apply xs := by
  rw [applyNamed, MathFunction.ofName?_name]

/-! ## Operations -/

namespace Number

section Checks

variable {operation : String} {n : Int} {x : Float} {v : Number} {e : CalcError}

theorem checkedInt_ok (h : checkedInt operation n = .ok v) : v = .int n := by
  unfold checkedInt at h
  split at h <;> cases h
  rfl

theorem checkedInt_error (h : checkedInt operation n = .error e) : e = .overflow operation := by
  unfold checkedInt at h
  split at h <;> cases h
  rfl

theorem checkedFloat_ok (h : checkedFloat operation x = .ok v) : v = .float x := by
  unfold checkedFloat at h
  split at h <;> cases h
  rfl

theorem checkedFloat_error (h : checkedFloat operation x = .error e) : e = .overflow operation := by
  unfold checkedFloat at h
  split at h <;> cases h
  rfl

end Checks

theorem checkedInt_evaluates (operation : String) (n : Int) :
    Evaluates Valid CalcError.IsArithmetic (checkedInt operation n) := by
  unfold checkedInt
  split
  · next h => exact .of_ok h
  · exact .of_error trivial

theorem checkedFloat_evaluates (operation : String) (x : Float) :
    Evaluates Valid CalcError.IsArithmetic (checkedFloat operation x) := by
  unfold checkedFloat
  split
  · next h => exact .of_ok h
  · exact .of_error trivial

end Number

theorem Operator.onFloats_evaluates (op : Operator) (x y : Float) :
    Evaluates (fun _ => True) CalcError.IsArithmetic (op.onFloats x y) := by
  unfold onFloats
  split
  · exact .of_ok trivial
  · exact .of_ok trivial
  · exact .of_ok trivial
  · split
    · exact .of_error trivial
    · exact .of_ok trivial

namespace Number

/-- An operator answers a number in range, or fails with an error of arithmetic. -/
theorem apply_evaluates (op : Operator) (x y : Number) :
    Evaluates Valid CalcError.IsArithmetic (apply op x y) := by
  unfold apply
  split
  · exact checkedInt_evaluates _ _
  · exact (op.onFloats_evaluates _ _).bind fun z _ => checkedFloat_evaluates _ z

theorem negate_evaluates (x : Number) : Evaluates Valid CalcError.IsArithmetic x.negate := by
  cases x with
  | int n => exact checkedInt_evaluates _ _
  | float x => exact checkedFloat_evaluates _ _

theorem pow_evaluates (x y : Number) : Evaluates Valid CalcError.IsArithmetic (pow x y) := by
  unfold pow
  split
  · rw [intPow_eq_ite]
    split
    · exact checkedInt_evaluates _ _
    · split
      · exact .of_error trivial
      · exact checkedInt_evaluates _ _
  · unfold floatPow
    split
    · exact .of_error trivial
    · split
      · exact .of_error trivial
      · exact checkedFloat_evaluates _ _

end Number

theorem MathFunction.apply_evaluates {f : MathFunction} {xs : List Number}
    (harity : xs.length = f.arity) : Evaluates Number.Valid CalcError.IsArithmetic (f.apply xs) := by
  unfold apply
  split
  · exact Number.pow_evaluates _ _
  · next hne =>
    obtain ⟨x, y, rfl⟩ := exists_pair harity
    exact (hne x y rfl).elim
  · dsimp only
    split
    · exact Number.checkedFloat_evaluates _ _
    · exact .of_error trivial
  · next hpow hone _ =>
    cases f with
    | pow => exact (hpow rfl).elim
    | _ =>
      obtain ⟨x, rfl⟩ := List.length_eq_one_iff.mp harity
      exact (hone x rfl).elim

end Reckoner
