import Reckoner.CommandLine.Command
import Reckoner.Proofs.RunPhases
import Reckoner.Proofs.Separated

/-!
# The lines of a session

A session answers each line by a run of its own. What it prints and what it reports is therefore put
together line by line (`Session.printed`, `Session.reported`), and no line has a part in what another one
gets, whether it fails or is passed over (`session_lines_independent`). All of it stands behind what the
terminal held before, and the session comes to its end unless a run fails with an error that no stage
reports.
-/

namespace Reckoner

open TokenStream (ofText ofSegments)

/-! ## Blank lines -/

theorem Text.trim_eq_nil_iff {cs : List Char} :
    Text.trim cs = [] ↔ ∀ c ∈ cs, Text.isBlank c = true := by
  constructor
  · intro h
    rw [trim, trimRight, List.reverse_eq_nil_iff, List.dropWhile_eq_nil_iff] at h
    simp only [List.mem_reverse] at h
    rw [← List.takeWhile_append_dropWhile (p := isBlank) (l := cs)]
    intro c hc
    rcases List.mem_append.mp hc with hc | hc
    · exact List.all_eq_true.mp List.all_takeWhile c hc
    · exact h c hc
  · intro h
    rw [trim, trimLeft, List.dropWhile_eq_nil_iff.mpr h]
    rfl

theorem Segment.token?_ne_none {s : Segment} (h : s.cls ≠ .blank) : s.token? ≠ .ok none := by
  obtain ⟨cls, chars, pos⟩ := s
  cases cls with
  | blank => exact absurd rfl h
  | numeral => cases hv : Number.ofLiteral chars <;> simp [token?, hv, Except.map]
  | word => cases hf : MathFunction.ofName? (String.ofList chars) <;> simp [token?, hf]
  | single => cases hc : punctuation? (chars.headD ' ') <;> simp only [token?, hc] <;> simp

theorem CharClass.isBlank_of_blank {c : Char} (h : CharClass.of c = .blank) :
    Text.isBlank c = true := by
  unfold CharClass.of at h
  grind

/-- Nothing but blanks makes neither a token nor an error. -/
theorem TokenStream.isBlank_of_ofSegments {pos : Nat} {cs : List Char}
    (h : ofSegments (Segment.cut pos cs) = ⟨[], none⟩) : ∀ c ∈ cs, Text.isBlank c = true := by
  fun_induction Segment.cut pos cs with
  | case1 => simp
  | case2 pos c cs cls run ih =>
    unfold ofSegments at h
    split at h
    · cases h
    · rename_i hnone
      have hblank : cls = .blank := by
        by_contra hcls
        exact Segment.token?_ne_none hcls hnone
      have hrun : ∀ d ∈ cs.takeWhile cls.extends?, Text.isBlank d = true := by
        rw [hblank]
        exact List.all_eq_true.mp List.all_takeWhile
      rw [← List.takeWhile_append_dropWhile (p := cls.extends?) (l := cs)]
      simp only [List.forall_mem_cons, List.forall_mem_append]
      exact ⟨CharClass.isBlank_of_blank hblank, hrun, ih h⟩
    · cases h

/-- A text has no tokens exactly if it is blank. -/
theorem tokenize_eq_nil_iff {text : String} :
    tokenize text = .ok [] ↔ ∀ c ∈ text.toList, Text.isBlank c = true := by
  rw [tokenize_eq_ok_iff]
  constructor
  · intro h
    exact TokenStream.isBlank_of_ofSegments h
  · intro h
    exact TokenStream.ofSegments_cut_gap h 0

/-! ## Runs that note nothing -/

namespace Run

variable {α β : Type}

/-- The run notes nothing for the log. -/
def Unnoted (r : Run α) : Prop := ∀ t, (transcript r t).notes = t.notes

theorem Unnoted.bind {r : Run α} {f : α → Run β} (h : Unnoted r) (hf : ∀ a, Unnoted (f a)) :
    Unnoted (r >>= f) := by
  intro t
  have hr := h t
  rw [transcript] at hr ⊢
  simp only [Bind.bind, EStateM.bind]
  cases hrun : r t with
  | ok a u =>
    rw [hrun] at hr
    exact (hf a u).trans hr
  | error e u =>
    rw [hrun] at hr
    exact hr

theorem Unnoted.stage (x : Except CalcError α) : Unnoted (stage x) := by
  intro t
  cases x <;> rfl

theorem Unnoted.print (line : String) : Unnoted (print line) :=
  fun _ => rfl

theorem Unnoted.note {options : RunOptions} (h : options.trace = false) (n : RunNote) :
    Unnoted (note options n) := by
  intro t
  simp [Run.note, h]
  rfl

theorem Unnoted.detour {c : Prop} {_ : Decidable c} {r : Run β} {f : Unit → Run β}
    (h : Unnoted (f ())) (hr : Unnoted (f ()) → Unnoted r) : Unnoted (if c then r else f ()) := by
  split
  · exact hr h
  · exact h

theorem Unnoted.calculate {options : RunOptions} (h : options.trace = false) (text : String) :
    Unnoted (calculate options text) := by
  unfold Run.calculate
  refine .bind (.stage _) fun ts => .bind (.note h _) fun _ => ?_
  extract_lets afterTokens
  refine .detour ?_ fun hrest => .bind (.print _) fun _ => hrest
  refine .bind (.stage _) fun tree => ?_
  extract_lets afterTree afterTrace
  refine .detour ?_ fun hrest => .bind (.stage _) fun _ => .bind (.note h _) fun _ => hrest
  refine .detour ?_ fun hrest => .bind (.stage _) fun _ => .bind (.print _) fun _ => hrest
  refine .bind (.stage _) fun v => .bind (.note h _) fun _ => .bind (.stage _) fun line => ?_
  exact .bind (.print _) fun _ _ => rfl

end Run

/-! ## What each line gets -/

namespace Session

variable {options : RunOptions} {lines : List String}

/-- The line is passed over: nothing is left of it without the blanks at its ends. -/
def Skipped (line : String) : Prop := Text.trim line.toList = []

instance (line : String) : Decidable (Skipped line) := inferInstanceAs (Decidable (_ = _))

/-- What a run on the line alone prints. -/
def printed (options : RunOptions) (line : String) : String :=
  if Skipped line then "" else (Run.transcript (Run.calculate options line) {}).output

/-- What a run on the line alone notes for the log. -/
def noted (options : RunOptions) (line : String) : List RunNote :=
  if Skipped line then [] else (Run.transcript (Run.calculate options line) {}).notes

/-- The report of the error with which a run on the line alone fails. -/
def reported (options : RunOptions) (line : String) : String :=
  if Skipped line then ""
  else match Run.answer (Run.calculate options line) {} with
    | .ok _ => ""
    | .error e =>
      match e.stage? with
      | some stage => stage.name ++ " error: " ++ e.message ++ "\n"
      | none => ""

/-- No line fails with an error that no stage reports. -/
def Staged (options : RunOptions) (lines : List String) : Prop :=
  ∀ line ∈ lines, ∀ e t, Run.calculate options line {} = .error e t → e.stage?.isSome = true

theorem skipped_iff {line : String} : Skipped line ↔ line.toList.all Text.isBlank = true := by
  rw [Skipped, Text.trim_eq_nil_iff, List.all_eq_true]

/-- A line is answered by a run on it alone. -/
theorem ofLine_eq (options : RunOptions) (line : String) :
    (Answer.ofLine options line).output = printed options line ∧
      (Answer.ofLine options line).notes = noted options line ∧
      (Answer.ofLine options line).report = reported options line := by
  unfold Answer.ofLine printed noted reported
  by_cases h : Skipped line
  · rw [if_pos (skipped_iff.mp h), if_pos h, if_pos h, if_pos h]
    exact ⟨rfl, rfl, rfl⟩
  · rw [if_neg (mt skipped_iff.mpr h), if_neg h, if_neg h, if_neg h]
    unfold Answer.ofText Run.transcript Run.answer
    cases Run.calculate options line {} with
    | ok v t => exact ⟨rfl, rfl, rfl⟩
    | error e t =>
      refine ⟨rfl, rfl, ?_⟩
      simp only [Answer.report, CalcError.report?, Option.bind_some]
      cases e.stage? <;> rfl

theorem Staged.fatal?_eq (h : Staged options lines) {line : String} (hline : line ∈ lines) :
    (Answer.ofLine options line).fatal? = none := by
  unfold Answer.ofLine Answer.ofText
  split
  · rfl
  · cases hrun : Run.calculate options line {} with
    | ok v t => rfl
    | error e t => simp [Answer.fatal?, Option.isSome_iff_ne_none.mp (h line hline e t hrun)]

theorem Staged.mono {fewer : List String} (h : Staged options lines) (hsub : fewer ⊆ lines) :
    Staged options fewer :=
  fun line hline => h line (hsub hline)

/-- The session gets to its end and answers every line. -/
theorem Staged.answers_eq (h : Staged options lines) :
    answers options lines = lines.map (Answer.ofLine options) := by
  induction lines with
  | nil => rfl
  | cons line rest ih =>
    have hrest := ih (h.mono (List.subset_cons_self line rest))
    simp [answers, h.fatal?_eq List.mem_cons_self, hrest]

theorem Staged.answers_append {before after : List String} (h : Staged options (before ++ after)) :
    answers options (before ++ after) = answers options before ++ answers options after := by
  have hbefore := h.mono (List.subset_append_left before after)
  have hafter := h.mono (List.subset_append_right before after)
  rw [h.answers_eq, hbefore.answers_eq, hafter.answers_eq, List.map_append]

end Session

/-! ## What a session writes -/

/-- What texts written to streams leave in one of them. -/
def Log.textIn (stream : Nat) (written : List (Nat × String)) : String :=
  String.join ((written.filter (·.1 == stream)).map (·.2))

theorem Log.textIn_append (stream : Nat) (written more : List (Nat × String)) :
    textIn stream (written ++ more) = textIn stream written ++ textIn stream more := by
  simp [textIn]

theorem Log.textIn_flatMap {α : Type} (stream : Nat) (f : α → List (Nat × String)) (as : List α) :
    textIn stream (as.flatMap f) = String.join (as.map fun a => textIn stream (f a)) := by
  induction as with
  | nil => rfl
  | cons a as ih => simp [textIn_append, ih]

namespace CommandLine

namespace Terminal

/-- The terminal when more has been printed and written. -/
def extend (t : Terminal) (out : String) (written : List (Nat × String)) : Terminal :=
  { output := t.output ++ out, log := { t.log with written := t.log.written ++ written } }

/-- What the log of the terminal writes of the notes of a run. -/
def logged (t : Terminal) (elapsed : String) (ns : List RunNote) : List (Nat × String) :=
  ns.flatMap fun n => t.log.linesOf ⟨"exprcalc.apps.calc", Log.debug, n.message elapsed⟩

@[simp] theorem extend_nil (t : Terminal) : t.extend "" [] = t := by
  simp [extend]

@[simp] theorem extend_extend (t : Terminal) (out more : String) (ws ws' : List (Nat × String)) :
    (t.extend out ws).extend more ws' = t.extend (out ++ more) (ws ++ ws') := by
  simp [extend, String.append_assoc]

@[simp] theorem logged_extend (t : Terminal) (out : String) (ws : List (Nat × String))
    (elapsed : String) (ns : List RunNote) :
    (t.extend out ws).logged elapsed ns = t.logged elapsed ns := rfl

theorem errors_extend (t : Terminal) (out : String) (ws : List (Nat × String)) :
    (t.extend out ws).errors = t.errors ++ Log.textIn errorStream ws :=
  Log.textIn_append errorStream t.log.written ws

theorem note_eq (t : Terminal) (elapsed : String) (n : RunNote) :
    t.note elapsed n = t.extend "" (t.logged elapsed [n]) := by
  simp [note, extend, logged, Log.State.log]

theorem foldl_note (t : Terminal) (elapsed : String) (ns : List RunNote) :
    ns.foldl (fun t n => t.note elapsed n) t = t.extend "" (t.logged elapsed ns) := by
  induction ns generalizing t with
  | nil => simp [logged]
  | cons n ns ih =>
    rw [List.foldl_cons, ih, note_eq, logged_extend, extend_extend]
    simp [logged]

end Terminal

/-- What an answer leaves in the streams of the log: its notes, then the report. -/
def written (t : Terminal) (elapsed : String) (a : Answer) : List (Nat × String) :=
  t.logged elapsed a.notes ++ [(errorStream, a.report)]

@[simp] theorem written_extend (t : Terminal) (out : String) (ws : List (Nat × String))
    (elapsed : String) : written (t.extend out ws) elapsed = written t elapsed := rfl

theorem bind_ok {α β : Type} {p : Program α} {f : α → Program β} {a : α} {t u : Terminal}
    (h : p t = .ok a u) : (p >>= f) t = f a u := by
  simp only [Bind.bind, EStateM.bind, h]

theorem modify_eq (f : Terminal → Terminal) (t : Terminal) :
    (modify f : Program Unit) t = .ok () (f t) := rfl

theorem ask_eq (t : Terminal) : ask t = .ok () (t.extend prompt []) := by
  rw [ask, modify_eq]
  simp [Terminal.print, Terminal.extend]

theorem showAnswer_eq {a : Answer} (h : a.fatal? = none) (elapsed : String) (t : Terminal) :
    showAnswer elapsed a t = .ok () (t.extend a.output (written t elapsed a)) := by
  unfold showAnswer
  rw [bind_ok (modify_eq _ t), bind_ok (modify_eq _ _), h, Terminal.foldl_note]
  simp [Terminal.print, Terminal.report, Terminal.extend, Log.State.write, written]
  rfl

/-- **One line**: its answer goes behind what has been written, and then the next line is asked for. -/
theorem reply_eq {a : Answer} (h : a.fatal? = none) (elapsed : String) (t : Terminal) :
    reply elapsed a t = .ok () (t.extend (a.output ++ prompt) (written t elapsed a)) := by
  rw [reply, bind_ok (showAnswer_eq h elapsed t), ask_eq, Terminal.extend_extend, List.append_nil]

/-- **Any number of lines**: the answers follow each other, a prompt behind each. -/
theorem forM_reply_eq {as : List Answer} (h : ∀ a ∈ as, a.fatal? = none) (elapsed : String)
    (t : Terminal) : as.forM (reply elapsed) t =
      .ok () (t.extend (String.join (as.map fun a => a.output ++ prompt))
        (as.flatMap (written t elapsed))) := by
  induction as generalizing t with
  | nil =>
    simp
    rfl
  | cons a as ih =>
    rw [List.forall_mem_cons] at h
    change (reply elapsed a >>= fun _ => as.forM (reply elapsed)) t = _
    rw [bind_ok (reply_eq h.1 elapsed t), ih h.2]
    simp

theorem converse_eq {options : RunOptions} {lines : List String} (h : Session.Staged options lines)
    (elapsed : String) (t : Terminal) : converse elapsed options lines t =
      .ok () (t.extend
        (prompt ++ String.join (lines.map fun line => Session.printed options line ++ prompt))
        (lines.flatMap fun line => written t elapsed (Answer.ofLine options line))) := by
  have hfatal : ∀ a ∈ lines.map (Answer.ofLine options), a.fatal? = none := by
    intro a ha
    obtain ⟨line, hline, rfl⟩ := List.mem_map.mp ha
    exact h.fatal?_eq hline
  rw [converse, bind_ok (ask_eq t), h.answers_eq, forM_reply_eq hfatal]
  simp [List.flatMap_map, Session.ofLine_eq, Function.comp_def]

theorem textIn_written (t : Terminal) (elapsed : String) (options : RunOptions) (line : String) :
    Log.textIn errorStream (written t elapsed (Answer.ofLine options line)) =
      Log.textIn errorStream (t.logged elapsed (Session.noted options line)) ++
        Session.reported options line := by
  rw [written, Log.textIn_append, (Session.ofLine_eq options line).2.1,
    (Session.ofLine_eq options line).2.2]
  simp [Log.textIn]

end CommandLine

theorem Session.noted_of_trace {options : RunOptions} (h : options.trace = false) (line : String) :
    noted options line = [] := by
  unfold noted
  split
  · rfl
  · exact Run.Unnoted.calculate h line {}

open CommandLine in
/-- **The lines of a session are independent.** If no line fails with an error that no stage reports, the
session answers all lines and ends. Between the prompts stands what a run on each line alone prints, in
the error stream the one report of each line that fails, behind what the log writes of the run if that is
wanted. The answers to lines are therefore the same whatever lines stand before, between or behind them;
and the lines that are passed over are those without tokens. -/
theorem session_lines_independent {options : RunOptions} {lines : List String}
    (h : Session.Staged options lines) (elapsed : String) (t : Terminal) :
    (∃ t', converse elapsed options lines t = .ok () t' ∧
      t'.output = t.output ++
        (prompt ++ String.join (lines.map fun line => Session.printed options line ++ prompt)) ∧
      t'.errors = t.errors ++ String.join (lines.map fun line =>
        Log.textIn errorStream (t.logged elapsed (Session.noted options line)) ++
          Session.reported options line) ∧
      (options.trace = false →
        t'.errors = t.errors ++ String.join (lines.map (Session.reported options)))) ∧
    (∀ before inserted after, lines = before ++ inserted ++ after →
      Session.answers options lines = Session.answers options before ++
        Session.answers options inserted ++ Session.answers options after ∧
      Session.answers options (before ++ after) =
        Session.answers options before ++ Session.answers options after) ∧
    (∀ before after, lines = before ++ after →
      Session.output (Session.answers options lines) =
        Session.output (Session.answers options before) ++
          Session.output (Session.answers options after) ∧
      Session.reports (Session.answers options lines) =
        Session.reports (Session.answers options before) ++
          Session.reports (Session.answers options after)) ∧
    ∀ line, Session.Skipped line ↔ tokenize line = .ok [] := by
  refine ⟨⟨_, converse_eq h elapsed t, rfl, ?_, fun htrace => ?_⟩, ?_, ?_, ?_⟩
  · rw [Terminal.errors_extend, Log.textIn_flatMap]
    simp only [textIn_written]
  · have hquiet (line : String) :
        Log.textIn errorStream (t.logged elapsed (Session.noted options line)) = "" := by
      rw [Session.noted_of_trace htrace]
      rfl
    rw [Terminal.errors_extend, Log.textIn_flatMap]
    simp only [textIn_written, hquiet, String.empty_append]
  · rintro before inserted after rfl
    have hfront := h.mono (List.subset_append_left (before ++ inserted) after)
    have hothers : Session.Staged options (before ++ after) := h.mono (by grind)
    rw [h.answers_append, hfront.answers_append]
    exact ⟨rfl, hothers.answers_append⟩
  · rintro before after rfl
    rw [h.answers_append]
    simp [Session.output, Session.reports]
  · intro line
    rw [Session.Skipped, Text.trim_eq_nil_iff, tokenize_eq_nil_iff]

open CommandLine in
/-- A quotient by zero, a blank line and a sum. -/
theorem session_lines_independent_quotient :
    ∃ t, converse "0s" {} ["1 / 0", " ", "1 + 2"] {} = .ok () t ∧
      t.output = "> > > 3\n> " ∧ t.errors = "Evaluation error: division by zero\n" := by
  have hstaged : Session.Staged {} ["1 / 0", " ", "1 + 2"] := by
    have hall : ∀ line ∈ ["1 / 0", " ", "1 + 2"],
        (Answer.ofText {} line).error.all (·.stage?.isSome) = true := by decide +kernel
    intro line hline e t hrun
    have hone := hall line hline
    rwa [Answer.ofText, hrun] at hone
  obtain ⟨⟨t, hconverse, houtput, -, herrors⟩, -⟩ := session_lines_independent hstaged "0s" {}
  refine ⟨t, hconverse, ?_, ?_⟩
  · rw [houtput]
    decide +kernel
  · rw [herrors rfl]
    decide +kernel

end Reckoner
