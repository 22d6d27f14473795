import Reckoner.Proofs.LazyReading
import Reckoner.Proofs.Outcome
import Reckoner.Proofs.Parser.Nesting

/-!
# The phases of a run

How far a run gets depends on its text alone: on whether the text has tokens, whether they spell a tree,
and whether the tree has a value (`Course.Of`). The options of a run decide what it shows of the phases
that it has completed (`Course.Prints`), and nothing else: whatever they are, the run answers what its
course answers, and has then printed the listings of the completed phases in their order, and behind them
the value if there is one (`run_follows_course`).
-/

namespace Reckoner

open TokenStream (ofText ofTokens)

/-- How far a run gets. -/
inductive Course where
  | untokenized (e : CalcError)
  | unparsed (ts : List Token) (e : CalcError)
  | unevaluated (ts : List Token) (tree : Expr) (e : CalcError)
  | evaluated (ts : List Token) (tree : Expr) (v : Number)

namespace Course

/-- The course of a text. An error behind the tokens is one of the phase that fails. -/
inductive Of (text : String) : Course → Prop
  | untokenized {e : CalcError} (hts : tokenize text = .error e) : Of text (.untokenized e)
  | unparsed {ts : List Token} {e : CalcError} (hts : tokenize text = .ok ts)
      (hnone : ¬∃ tree, Spells .expr ts tree)
      (hparse : ∀ limit, ts.length < limit → parseTokens limit ts = .error e)
      (hstage : e.stage? = some .parsing) : Of text (.unparsed ts e)
  | unevaluated {ts : List Token} {tree : Expr} {e : CalcError} (hts : tokenize text = .ok ts)
      (htree : Spells .expr ts tree) (heval : tree.eval = .error e)
      (hstage : e.stage? = some .evaluation) : Of text (.unevaluated ts tree e)
  | evaluated {ts : List Token} {tree : Expr} {v : Number} (hts : tokenize text = .ok ts)
      (htree : Spells .expr ts tree) (heval : tree.eval = .ok v) : Of text (.evaluated ts tree v)

/-- What a run on the course answers. -/
def answer : Course → Except CalcError Number
  | untokenized e | unparsed _ e | unevaluated _ _ e => .error e
  | evaluated _ _ v => .ok v

/-- A listing, if it is wanted. -/
def shown (wanted : Bool) (listing : String) : String := if wanted then listing else ""

/-- What a run on the course prints. -/
inductive Prints (options : RunOptions) : Course → String → Prop
  | untokenized (e : CalcError) : Prints options (.untokenized e) ""
  | unparsed (ts : List Token) (e : CalcError) :
      Prints options (.unparsed ts e) (shown options.showTokens (Token.listing ts))
  | unevaluated (ts : List Token) (tree : Expr) (e : CalcError) :
      Prints options (.unevaluated ts tree e)
        (shown options.showTokens (Token.listing ts) ++ shown options.showTree tree.dump)
  | evaluated (ts : List Token) (tree : Expr) {v : Number} {line : String}
      (hline : v.format options.precision = .ok line) :
      Prints options (.evaluated ts tree v) (shown options.showTokens (Token.listing ts) ++
        (shown options.showTree tree.dump ++ (line ++ "\n")))

end Course

/-! ## One course for each text -/

theorem parseTokens_of_none {text : String} {ts : List Token} (hts : tokenize text = .ok ts)
    (hnone : ¬∃ tree, Spells .expr ts tree) :
    ∃ e, (∀ limit, ts.length < limit → parseTokens limit ts = .error e) ∧
      e.stage? = some .parsing := by
  cases hrun : parseTokens (ts.length + 1) ts with
  | ok tree => exact absurd ⟨tree, TokenStream.spells_of_parse hrun⟩ hnone
  | error e =>
    have hnames : NamesFunctions ts := by
      have hall := TokenStream.namesFunctions_ofText text
      rwa [TokenStream.eq_ofTokens hts] at hall
    obtain ⟨rest, hfault⟩ := (TokenStream.fault_of_parse hrun).resolve_left nofun
    have hstage := hfault.stage_eq (Nat.lt_succ_self _) hnames
    refine ⟨e, fun limit hlimit => ?_, hstage⟩
    rcases (ofTokens ts).parse_of_le hlimit with hdeep | hsame
    · cases hrun.symm.trans hdeep
      cases hstage
    · exact hsame.trans hrun

theorem Spells.stage_of_eval {text : String} {ts : List Token} {tree : Expr} {e : CalcError}
    (htree : Spells .expr ts tree) (hts : tokenize text = .ok ts) (heval : tree.eval = .error e) :
    e.stage? = some .evaluation := by
  have hlexed : ∀ t ∈ ts, t.Lexed := by
    intro t ht
    have hall : t ∈ (ofText text).pending := by rwa [TokenStream.eq_ofTokens hts]
    exact TokenStream.lexed_ofSegments hall
  exact (((htree.wellFormed hlexed).evaluates _).error heval).stage_eq

theorem Course.exists_of (text : String) : ∃ c : Course, c.Of text := by
  cases hts : tokenize text with
  | error e => exact ⟨_, .untokenized hts⟩
  | ok ts =>
    by_cases htree : ∃ tree, Spells .expr ts tree
    · obtain ⟨tree, htree⟩ := htree
      cases heval : tree.eval with
      | error e => exact ⟨_, .unevaluated hts htree heval (htree.stage_of_eval hts heval)⟩
      | ok v => exact ⟨_, .evaluated hts htree heval⟩
    · obtain ⟨e, hparse, hstage⟩ := parseTokens_of_none hts htree
      exact ⟨_, .unparsed hts htree hparse hstage⟩

theorem Spells.unique {ts : List Token} {tree tree' : Expr} (h : Spells .expr ts tree)
    (h' : Spells .expr ts tree') : tree = tree' :=
  Except.ok.inj ((parseTokens_of_spells h (Nat.le_refl _)).symm.trans
    (parseTokens_of_spells h' (Nat.le_refl _)))

/-- The conditions of the courses exclude each other. -/
theorem Course.Of.unique {text : String} {c c' : Course} (h : c.Of text) (h' : c'.Of text) :
    c = c' := by
  cases h with
  | untokenized hts =>
    cases h' with
    | untokenized hts' | unparsed hts' | unevaluated hts' | evaluated hts' =>
      cases hts.symm.trans hts' <;> rfl
  | unparsed hts hnone hparse =>
    cases h' with
    | untokenized hts' => cases hts.symm.trans hts'
    | unparsed hts' _ hparse' =>
      cases hts.symm.trans hts'
      cases (hparse _ (Nat.lt_succ_self _)).symm.trans (hparse' _ (Nat.lt_succ_self _))
      rfl
    | unevaluated hts' htree | evaluated hts' htree =>
      cases hts.symm.trans hts'
      exact absurd ⟨_, htree⟩ hnone
  | unevaluated hts htree heval | evaluated hts htree heval =>
    cases h' with
    | untokenized hts' => cases hts.symm.trans hts'
    | unparsed hts' hnone =>
      cases hts.symm.trans hts'
      exact absurd ⟨_, htree⟩ hnone
    | unevaluated hts' htree' heval' | evaluated hts' htree' heval' =>
      cases hts.symm.trans hts'
      cases htree.unique htree'
      cases heval.symm.trans heval' <;> rfl

/-! ## What a run answers and prints -/

namespace Run

variable {α β : Type}

/-- The transcript with which a run ends. -/
def transcript (r : Run α) (t : Transcript) : Transcript :=
  match r t with
  | .ok _ t' | .error _ t' => t'

/-- The run answers `x` and prints `out`, whatever has been printed and noted before. -/
def Ends (r : Run α) (x : Except CalcError α) (out : String) : Prop :=
  ∀ t, answer r t = x ∧ (transcript r t).output = t.output ++ out

namespace Ends

variable {x : Except CalcError β} {out : String}

theorem pure (a : α) : Ends (Pure.pure a) (.ok a) "" :=
  fun t => ⟨rfl, (String.append_empty (s := t.output)).symm⟩

theorem stage_ok {y : Except CalcError α} {f : α → Run β} {a : α} (hy : y = .ok a)
    (h : Ends (f a) x out) : Ends (stage y >>= f) x out := by
  rw [hy]
  exact fun t => h t

theorem stage_error {y : Except CalcError α} {f : α → Run β} {e : CalcError} (hy : y = .error e) :
    Ends (stage y >>= f) (.error e) "" := by
  rw [hy]
  exact fun t => ⟨rfl, (String.append_empty (s := t.output)).symm⟩

theorem print_bind {f : Unit → Run β} (line : String) (h : Ends (f ()) x out) :
    Ends (print line >>= f) x (line ++ out) := by
  intro t
  rw [← String.append_assoc]
  exact h { t with output := t.output ++ line }

theorem note_bind {f : Unit → Run β} (options : RunOptions) (n : RunNote)
    (h : Ends (f ()) x out) : Ends (note options n >>= f) x out := by
  intro t
  unfold note
  split
  · exact h _
  · exact h t

/-- A detour on the way to the next stage that prints nothing. -/
theorem detour {c : Prop} {_ : Decidable c} {r : Run β} {f : Unit → Run β}
    (h : Ends (f ()) x out) (hr : Ends (f ()) x out → Ends r x out) :
    Ends (if c then r else f ()) x out := by
  split
  · exact hr h
  · exact h

/-- A listing on the way to the next stage. -/
theorem shown {wanted : Bool} {r : Run β} {f : Unit → Run β} {listing : String}
    (h : Ends (f ()) x out) (hr : Ends (f ()) x out → Ends r x (listing ++ out)) :
    Ends (if wanted = true then r else f ()) x (Course.shown wanted listing ++ out) := by
  cases wanted with
  | true => exact hr h
  | false => simpa [Course.shown] using h

end Ends

variable {options : RunOptions} {text : String} {ts : List Token} {tree : Expr}

/-- A run whose tokens spell no tree ends with the listing of the tokens. -/
theorem calculate_ends_of_error {e : CalcError} (hts : tokenize text = .ok ts)
    (hparse : parseTokens options.limit ts = .error e) :
    Ends (calculate options text) (.error e)
      (Course.shown options.showTokens (Token.listing ts)) := by
  rw [← String.append_empty (s := Course.shown _ _)]
  unfold calculate
  refine .stage_ok hts (.note_bind _ _ ?_)
  refine .shown ?_ fun h => .print_bind _ h
  exact .stage_error hparse

/-- A run whose tokens spell a tree gets to the evaluation, the listings behind it. -/
theorem calculate_ends_of_spells {x : Except CalcError Number} {out : String}
    (hts : tokenize text = .ok ts) (htree : Spells .expr ts tree)
    (hroom : ts.length < options.limit)
    (h : Ends (do
      let value ← stage tree.eval
      note options (.finished text value)
      let line ← stage (value.format options.precision)
      print (line ++ "\n")
      Pure.pure value) x out) :
    Ends (calculate options text) x (Course.shown options.showTokens (Token.listing ts) ++
      (Course.shown options.showTree tree.dump ++ out)) := by
  have hheight : tree.height < options.limit := Nat.lt_trans htree.height_lt hroom
  have hdump : tree.dumpWithin options.limit = .ok tree.dump := if_pos hheight
  unfold calculate
  refine .stage_ok hts (.note_bind _ _ ?_)
  refine .shown ?_ fun h => .print_bind _ h
  refine .stage_ok (parseTokens_of_spells htree (Nat.le_of_lt hroom)) ?_
  extract_lets afterTree afterTrace
  refine .detour ?_ fun h => .stage_ok hdump (.note_bind _ _ h)
  refine .shown ?_ fun h => .stage_ok hdump (.print_bind _ h)
  simpa only [afterTree, Expr.evalWithin_eq_eval hheight] using h

end Run

/-- On its course the run answers and prints what the course does. -/
theorem Course.Of.calculate_ends {options : RunOptions} {text : String} {c : Course}
    (hc : c.Of text) (hlimit : (ofText text).pending.length < options.limit)
    (hprecision : ∀ digits ∈ options.precision, Number.PrecisionInRange digits) :
    ∃ out, c.Prints options out ∧ Run.Ends (Run.calculate options text) c.answer out := by
  cases hc with
  | untokenized hts => exact ⟨_, .untokenized _, .stage_error hts⟩
  | unparsed hts _ hparse =>
    rw [TokenStream.eq_ofTokens hts] at hlimit
    exact ⟨_, .unparsed _ _, Run.calculate_ends_of_error hts (hparse _ hlimit)⟩
  | unevaluated hts htree heval =>
    rw [TokenStream.eq_ofTokens hts] at hlimit
    have hrun := Run.calculate_ends_of_spells hts htree hlimit (.stage_error heval)
    rw [String.append_empty] at hrun
    exact ⟨_, .unevaluated _ _ _, hrun⟩
  | @evaluated ts tree v hts htree heval =>
    rw [TokenStream.eq_ofTokens hts] at hlimit
    obtain ⟨line, hline⟩ := v.format_ok hprecision
    refine ⟨_, .evaluated _ _ hline, ?_⟩
    refine Run.calculate_ends_of_spells hts htree hlimit (.stage_ok heval (.note_bind _ _ ?_))
    rw [← String.append_empty (s := line ++ "\n")]
    exact .stage_ok hline (.print_bind _ (.pure v))

/-- **A run goes the course of its text.** Every text has one course: its tokens cannot be made, or
they spell no tree, or the tree has no value, or all three succeed. Whatever the options, a run that
has room for the tokens answers what that course answers, and prints the wanted listings of the phases
that it completes, then the value if there is one, and nothing else. -/
theorem run_follows_course (text : String) :
    ∃ c : Course, (∀ c', c'.Of text ↔ c' = c) ∧
      ∀ (options : RunOptions) (t : Transcript), (ofText text).pending.length < options.limit →
        (∀ digits ∈ options.precision, Number.PrecisionInRange digits) →
        Run.answer (Run.calculate options text) t = c.answer ∧
        ∃ out, c.Prints options out ∧
          (Run.transcript (Run.calculate options text) t).output = t.output ++ out := by
  obtain ⟨c, hc⟩ := Course.exists_of text
  refine ⟨c, fun c' => ⟨fun hc' => hc'.unique hc, fun h => h ▸ hc⟩, ?_⟩
  intro options t hlimit hprecision
  obtain ⟨out, hout, hends⟩ := hc.calculate_ends hlimit hprecision
  exact ⟨(hends t).1, out, hout, (hends t).2⟩

/-- The quotient `1 / 0` has the same answer in silence and with all listings and three digits. -/
theorem run_follows_course_quotient :
    ∃ c : Course, c.Of "1 / 0" ∧ ∀ t, Run.answer (Run.calculate {} "1 / 0") t = c.answer ∧
      Run.answer (Run.calculate { showTokens := true, showTree := true, precision := some 3 }
        "1 / 0") t = c.answer := by
  obtain ⟨c, hc, hrun⟩ := run_follows_course "1 / 0"
  have hroom : (ofText "1 / 0").pending.length < nestingLimit := by decide +kernel
  refine ⟨c, (hc c).mpr rfl, fun t => ⟨(hrun {} t hroom nofun).1, (hrun _ t hroom ?_).1⟩⟩
  intro digits hdigits
  cases hdigits
  decide

end Reckoner
