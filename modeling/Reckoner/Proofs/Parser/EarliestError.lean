import Reckoner.Proofs.Parser.Depth
import Reckoner.Proofs.Parser.Language
import Reckoner.Proofs.Parser.Misfits

/-!
# The place of a parse error

Where the parser stops, it has taken the beginning of a sentence in which all calls closed so far
are right. That the token in front of it cannot follow is seen from the parser itself: it stops
there whatever follows the token, but if the token could follow, there would be a sentence to go on
with, and of a sentence the parser blames nothing but a call.

A larger limit on nesting changes nothing about a run that does not end at the limit, so the sentence
may be as long as it needs to be.
-/

namespace Reckoner

open TokenStream (ofTokens)

namespace Parser

variable {limit n : Nat} {ts us vs : List Token} {t : Token} {f : MathFunction} {err : CalcError}

theorem whole_refuses_misfit (h : FirstMisfit f n us) (hviable : Viable us)
    (hnames : NamesFunctions us) (hlimit : us.length ≤ limit) :
    Refuses (whole limit) us (.wrongArity f.name f.arity n) := by
  intro rest
  obtain ⟨ws, -, hphrased⟩ := hviable
  have hexpr := hphrased.refused limit us f n (List.prefix_append us ws) h hnames hlimit rest
  obtain ⟨t, us, rfl⟩ := List.exists_cons_of_ne_nil h.ne_nil
  rw [whole, get_bind]
  exact bind_of_error hexpr

/-- Of a sentence nothing can be blamed but the number of arguments of a call. -/
theorem whole_of_phrased (h : Phrased .expr ts) (hnames : NamesFunctions ts)
    (hlimit : ts.length ≤ limit) :
    (∃ e, whole limit (ofTokens ts) = .ok e (ofTokens [])) ∨
      ∃ g m n s, whole limit (ofTokens ts) = .error (.wrongArity g m n) s := by
  by_cases hright : RightArities ts
  · obtain ⟨e, he⟩ := h.spells hnames hright
    exact .inl ⟨e, whole_of_spells he hlimit⟩
  · obtain ⟨us, hpre, f, n, hmisfit⟩ := exists_firstMisfit hright
    obtain ⟨ws, rfl⟩ := hpre
    have hviable : Viable us := ⟨ws, hnames.mono (by simp), h⟩
    rw [List.length_append] at hlimit
    exact .inr ⟨_, _, _, _,
      whole_refuses_misfit hmisfit hviable (hnames.mono (by simp)) (by omega) ws⟩

theorem exists_stop {s : TokenStream} (h : whole limit (ofTokens ts) = .error err s) :
    ∃ us rest, ts = us ++ rest ∧ s = ofTokens rest ∧ Stops .expr us err ∧
      Fault limit ts rest err := by
  obtain ⟨r, rest, -, hrun⟩ := (whole_planned limit).ends ts
  obtain ⟨-, rfl⟩ := ending_inj (r := .error err) (h.symm.trans hrun)
  obtain ⟨us, hus, hstops, hfault⟩ := ((whole_parses limit _).error h).resolve_left nofun
  exact ⟨us, rest, hus, rfl, hstops, hfault⟩

/-- Unless the parser blames the call it has just closed, no call so far is wrong. -/
theorem right_of_stop (h : whole limit (ofTokens (us ++ vs)) = .error err (ofTokens vs))
    (hviable : Viable us) (hnames : NamesFunctions us) (hlimit : us.length ≤ limit) :
    RightArities us ∨ ∃ f n, FirstMisfit f n us ∧ err = .wrongArity f.name f.arity n := by
  refine Classical.or_iff_not_imp_left.mpr fun hright => ?_
  obtain ⟨ws, ⟨xs, rfl⟩, f, n, hmisfit⟩ := exists_firstMisfit hright
  have hws : Viable ws := hviable.of_isPrefix hnames (List.prefix_append ws xs)
  rw [List.length_append] at hlimit
  have hrun := whole_refuses_misfit hmisfit hws (hnames.mono (by simp))
    (Nat.le_trans (Nat.le_add_right _ _) hlimit) (xs ++ vs)
  rw [← List.append_assoc] at hrun
  injection h.symm.trans hrun with herr hrest
  have hxs : vs = xs ++ vs := congrArg TokenStream.pending hrest
  rw [List.self_eq_append_left.mp hxs, List.append_nil]
  exact ⟨f, n, hmisfit, herr⟩

theorem not_viable_of_stop {x : String}
    (h : whole limit (ofTokens (us ++ t :: vs)) =
      .error (.unexpectedToken t x) (ofTokens (t :: vs)))
    (hnames : NamesFunctions (us ++ [t])) : ¬Viable (us ++ [t]) := by
  rintro ⟨ws, hws, hphrased⟩
  have hstop := (whole_planned limit).stops_in_front (r := .error _) h ws none
  have hnames' := hnames.append hws
  rw [List.append_assoc, List.singleton_append] at hphrased hnames'
  -- The sentence may be longer than the limit allows for: the run is made again at a larger one.
  have hle := Nat.le_max_right limit (us ++ t :: ws).length
  have hdeep : whole (max limit (us ++ t :: ws).length) (ofTokens (us ++ t :: ws)) =
      ending (.error (.unexpectedToken t x)) (ofTokens (t :: ws)) := by
    rcases Extends.whole_of_le (Nat.le_max_left limit _) (ofTokens (us ++ t :: ws)) with
      ⟨s, hs⟩ | hsame
    · cases hs.symm.trans hstop
    · exact hsame.trans hstop
  rcases whole_of_phrased hphrased hnames' hle with ⟨e, he⟩ | ⟨g, m, n, s, hs⟩
  · cases he.symm.trans hdeep
  · cases hs.symm.trans hdeep

end Parser

open Reckoner.Parser

/-- What the parser blames in the tokens: the first that cannot follow those in front of it, the end
if more must follow, or the first call with a wrong number of arguments. -/
inductive Blames (ts : List Token) : CalcError → Prop
  | token {us vs : List Token} {t : Token} {x : String} (hts : ts = us ++ t :: vs)
      (viable : Viable us) (stuck : ¬Viable (us ++ [t])) (right : RightArities us) :
      Blames ts (.unexpectedToken t x)
  | ending {x : String} (viable : Viable ts) (unfinished : ¬Phrased .expr ts)
      (right : RightArities ts) :
      Blames ts (.unexpectedEnd x)
  | call {f : MathFunction} {n : Nat} {us : List Token} (hus : us <+: ts)
      (misfit : FirstMisfit f n us) (viable : Viable us) :
      Blames ts (.wrongArity f.name f.arity n)

variable {limit : Nat} {ts us vs : List Token} {t : Token}

theorem blames_of_parseTokens {err : CalcError} (h : parseTokens limit ts = .error err)
    (hlimit : ts.length < limit) (hnames : NamesFunctions ts) : Blames ts err := by
  rcases hrun : whole limit (ofTokens ts) with ⟨e, s⟩ | ⟨err', s⟩
  · cases (parseTokens_of_ok hrun).symm.trans h
  cases (parseTokens_of_error hrun).symm.trans h
  obtain ⟨us, rest, rfl, rfl, ⟨hviable, hcloses⟩, hfault⟩ := exists_stop hrun
  have hus : NamesFunctions us := hnames.mono (by simp)
  have hlength := hlimit
  rw [List.length_append] at hlength
  rcases right_of_stop hrun hviable hus (by omega) with hright | ⟨f, n, hmisfit, rfl⟩
  · cases hfault with
    | ended hrest =>
      subst hrest
      rw [List.append_nil] at hrun hnames hlimit ⊢
      refine .ending hviable (fun hphrased => ?_) hright
      rcases whole_of_phrased hphrased hnames (Nat.le_of_lt hlimit) with ⟨e, he⟩ | ⟨g, m, n, s, hs⟩
      · cases he.symm.trans hrun
      · cases hs.symm.trans hrun
    | unexpected hrest =>
      obtain ⟨vs, rfl⟩ := List.head?_eq_some_iff.mp hrest
      exact .token rfl hviable (not_viable_of_stop hrun (hnames.mono (by simp))) hright
    | arity hn =>
      obtain ⟨g, hname, hcall⟩ := hcloses _ _ _ rfl
      have hg := congrArg MathFunction.ofName? hname
      rw [MathFunction.ofName?_name, MathFunction.ofName?_name] at hg
      cases hg
      exact absurd (hright us (List.prefix_refl us) _ _ hcall) hn
    | nesting hd => exact absurd hlimit (Nat.not_lt_of_le hd)
    | key ht hkind hnone =>
      have hsome := hnames _ ht hkind
      rw [hnone] at hsome
      cases hsome
  · exact .call (List.prefix_append us rest) hmisfit hviable

/-- In front of a token that cannot follow ends all that is viable. -/
theorem isPrefix_of_stuck (hnames : NamesFunctions (us ++ t :: vs)) (stuck : ¬Viable (us ++ [t]))
    {ws : List Token} (hws : ws <+: us ++ t :: vs) (viable : Viable ws) : ws <+: us := by
  rw [List.append_cons] at hnames hws
  rcases List.prefix_or_prefix_of_prefix hws (List.prefix_append _ vs) with hpre | hpre
  · refine (List.prefix_concat_iff.mp hpre).resolve_left ?_
    rintro rfl
    exact stuck viable
  · exact absurd (viable.of_isPrefix (hnames.mono hws.subset) hpre) stuck

/-- **Parse errors are reported at the earliest possible token.** -/
theorem parseTokens_blames_earliest (hlimit : ts.length < limit) (hnames : NamesFunctions ts) :
    (∀ t, (∃ x, parseTokens limit ts = .error (.unexpectedToken t x)) ↔
      ∃ us vs, ts = us ++ t :: vs ∧ Viable us ∧ ¬Viable (us ++ [t]) ∧ RightArities us) ∧
    ((∃ x, parseTokens limit ts = .error (.unexpectedEnd x)) ↔
      Viable ts ∧ ¬Phrased .expr ts ∧ RightArities ts) ∧
    ∀ name m n, parseTokens limit ts = .error (.wrongArity name m n) ↔
      ∃ f us, us <+: ts ∧ FirstMisfit f n us ∧ Viable us ∧ name = f.name ∧ m = f.arity := by
  have hviable {us} (hus : us <+: ts) (h : ¬Viable us) : ¬Viable ts :=
    fun hts => h (hts.of_isPrefix hnames hus)
  refine ⟨fun t => ⟨?_, ?_⟩, ⟨?_, ?_⟩, fun name m n => ⟨fun h => ?_, ?_⟩⟩
  · rintro ⟨x, hx⟩
    cases blames_of_parseTokens hx hlimit hnames with
    | token hts viable stuck right => exact ⟨_, _, hts, viable, stuck, right⟩
  · rintro ⟨us, vs, rfl, viable, stuck, right⟩
    cases hrun : parseTokens limit (us ++ t :: vs) with
    | ok e =>
      have hts : Phrased .expr (us ++ t :: vs) := (TokenStream.spells_of_parse hrun).phrased
      exact absurd ⟨[], .nil, by simpa using hts⟩ (hviable ⟨vs, by simp⟩ stuck)
    | error err =>
      cases blames_of_parseTokens hrun hlimit hnames with
      | @token us' vs' t' x hts viable' stuck' right' =>
        -- Each of the two beginnings is viable, so it ends in front of the other's stuck token.
        have hle := isPrefix_of_stuck hnames stuck ⟨_, hts.symm⟩ viable'
        have hge := isPrefix_of_stuck (hts ▸ hnames) stuck' ⟨_, hts⟩ viable
        have hus : us = us' := hge.eq_of_length (Nat.le_antisymm hge.length_le hle.length_le)
        rw [hus, List.append_cancel_left_eq] at hts
        cases hts
        exact ⟨x, rfl⟩
      | ending hts _ _ => exact absurd hts (hviable ⟨vs, by simp⟩ stuck)
      | call hus misfit hviable =>
        have hpre := isPrefix_of_stuck hnames stuck hus hviable
        exact absurd (right.of_isPrefix hpre) misfit.not_right
  · rintro ⟨x, hx⟩
    cases blames_of_parseTokens hx hlimit hnames with
    | ending viable hopen right => exact ⟨viable, hopen, right⟩
  · rintro ⟨viable, hopen, right⟩
    cases hrun : parseTokens limit ts with
    | ok e => exact absurd (TokenStream.spells_of_parse hrun).phrased hopen
    | error err =>
      cases blames_of_parseTokens hrun hlimit hnames with
      | token hts _ stuck _ =>
        exact absurd viable (hviable ⟨_, by rw [hts, List.append_assoc]; rfl⟩ stuck)
      | ending _ _ _ => exact ⟨_, rfl⟩
      | call hus misfit _ => exact absurd (right.of_isPrefix hus) misfit.not_right
  · cases blames_of_parseTokens h hlimit hnames with
    | call hus misfit viable => exact ⟨_, _, hus, misfit, viable, rfl, rfl⟩
  · rintro ⟨f, us, ⟨ws, rfl⟩, misfit, viable, rfl, rfl⟩
    have hlength := hlimit
    rw [List.length_append] at hlength
    exact parseTokens_of_error
      (whole_refuses_misfit misfit viable (hnames.mono (by simp)) (by omega) ws)

/-- `(1, 2)`: the comma cannot follow, and what is in front of it can be completed. -/
theorem parseTokens_blames_comma :
    ∃ us vs, [⟨.lparen, .text "(", 0⟩, ⟨.number, .number (.int 1), 1⟩, ⟨.comma, .text ",", 2⟩,
        ⟨.number, .number (.int 2), 4⟩, ⟨.rparen, .text ")", 5⟩] =
          us ++ (⟨.comma, .text ",", 2⟩ : Token) :: vs ∧
      Viable us ∧ ¬Viable (us ++ [⟨.comma, .text ",", 2⟩]) ∧ RightArities us :=
  ((@parseTokens_blames_earliest 6 _ (by decide) (by decide)).1 _).mp ⟨_, rfl⟩

end Reckoner
