import Reckoner.Proofs.Lexed
import Reckoner.Proofs.Parser.Record

/-!
# Parser objects under any calls of their methods

The methods of a parser object can be called in any order, and again after any of them has failed. Each
call is looked at with its notes (`Method.recorded`), which hold what `advance` has answered inside it;
so all answers of `advance` in a session are known (`answers`), and the tokens that they hand out are
the first of the text, in order (`Keeps`).

The error of the lexer is never one of the parser's own, so the call that fails with it is the one in
which the attempt to take the last token was made; behind it the object is the same as one that has
read a complete sequence of the same tokens up to the last (`SurfacesIn`).
-/

namespace Reckoner

open TokenStream (ofTokens ofText)

namespace Parser

/-- The methods of a parser object, with their arguments. -/
inductive Method where
  | advance
  | expect (kind : TokenKind) (expected : String)
  | isAt (kind : TokenKind) (values : List String)
  | whole | expr | term | unary | primary
  | call (function : Payload)

/-- What a method answers. -/
inductive Reply where
  | token (t : Option Token)
  | flag (b : Bool)
  | tree (e : Expr)

namespace Method

/-- The parser behind a method. -/
def run (depth : Nat) : Method → Parser Reply
  | advance => do return .token (← Parser.advance)
  | expect kind expected => do return .token (← Parser.expect kind expected)
  | isAt kind values => do return .flag (Parser.isAt kind values (← get))
  | whole => do return .tree (← Parser.whole depth)
  | expr => do return .tree (← Parser.expr depth)
  | term => do return .tree (← Parser.term depth)
  | unary => do return .tree (← Parser.unary depth)
  | primary => do return .tree (← Parser.primary depth)
  | call function => do return .tree (← Parser.call depth function)

/-- The parser behind a method, with notes. -/
def recorded (depth : Nat) : Method → Recorder Reply
  | advance => do return .token (← Recorder.advance)
  | expect kind expected => do return .token (← Recorder.expect kind expected)
  | isAt kind values => do return .flag (Parser.isAt kind values (← Recorder.stream))
  | whole => do return .tree (← Recorder.whole (Rule.expr.recorded depth))
  | expr => do return .tree (← Rule.expr.recorded depth)
  | term => do return .tree (← Rule.term.recorded depth)
  | unary => do return .tree (← Rule.unary.recorded depth)
  | primary => do return .tree (← Rule.primary.recorded depth)
  | call function => do return .tree (← (Rule.call function).recorded depth)

/-- A call of the method: its outcome, and the object afterwards. -/
def perform (depth : Nat) (m : Method) (s : TokenStream) : Except CalcError Reply × TokenStream :=
  match m.run depth s with
  | .ok reply s' => (.ok reply, s')
  | .error e s' => (.error e, s')

/-- What `advance` answers in the course of a call of the method. -/
def answers (depth : Nat) (m : Method) (s : TokenStream) : Outcomes :=
  outcomesIn (noted (m.recorded depth ⟨s, []⟩))

end Method

/-- Calls of methods one after another, whatever their outcomes. -/
def perform (depth : Nat) : List Method → TokenStream → List (Except CalcError Reply) × TokenStream
  | [], s => ([], s)
  | m :: ms, s =>
    ((m.perform depth s).1 :: (perform depth ms (m.perform depth s).2).1,
      (perform depth ms (m.perform depth s).2).2)

/-- What `advance` answers in the course of calls of methods, inside them and from outside. -/
def answers (depth : Nat) : List Method → TokenStream → Outcomes
  | [], _ => []
  | m :: ms, s => m.answers depth s ++ answers depth ms (m.perform depth s).2

/-! ## Methods with notes -/

/-- The notes of a method are of the same run and complete. -/
theorem Method.tracks (depth : Nat) (m : Method) (t : Record) :
    Tracks (m.recorded depth) (m.run depth) t := by
  cases m with
  | advance => exact (Tracks.advance t).bind fun _ _ _ => .pure _
  | expect kind expected => exact (expect_tracks kind expected t).bind fun _ _ _ => .pure _
  | isAt kind values => exact .get_bind (.pure _)
  | whole => exact (whole_tracks depth t).bind fun _ _ _ => .pure _
  | expr => exact (Rule.expr.tracks depth t).bind fun _ _ _ => .pure _
  | term => exact (Rule.term.tracks depth t).bind fun _ _ _ => .pure _
  | unary => exact (Rule.unary.tracks depth t).bind fun _ _ _ => .pure _
  | primary => exact (Rule.primary.tracks depth t).bind fun _ _ _ => .pure _
  | call function => exact ((Rule.call function).tracks depth t).bind fun _ _ _ => .pure _

/-- A call moves the object by the calls of `advance` that its notes hold. -/
theorem Method.perform_advances (depth : Nat) (m : Method) (s : TokenStream) :
    Advances s (m.answers depth s) (m.perform depth s).2 := by
  have htracks := m.tracks depth ⟨s, []⟩
  obtain ⟨xs, hxs, hadvances⟩ := htracks.advances
  have hleft : left (m.recorded depth ⟨s, []⟩) = (m.perform depth s).2 := by
    unfold Method.perform
    rw [← htracks.same]
    cases m.recorded depth ⟨s, []⟩ <;> rfl
  rw [hleft] at hadvances
  rwa [Method.answers, hxs]

/-- So do calls one after another, whatever their outcomes. -/
theorem perform_advances (depth : Nat) (ms : List Method) (s : TokenStream) :
    Advances s (answers depth ms s) (perform depth ms s).2 := by
  induction ms generalizing s with
  | nil => exact .nil s
  | cons m ms ih => exact (m.perform_advances depth s).trans (ih _)

theorem perform_append (depth : Nat) (ms ms' : List Method) (s : TokenStream) :
    perform depth (ms ++ ms') s =
      ((perform depth ms s).1 ++ (perform depth ms' (perform depth ms s).2).1,
        (perform depth ms' (perform depth ms s).2).2) := by
  induction ms generalizing s with
  | nil => rfl
  | cons m ms ih => rw [List.cons_append, perform, ih]; rfl

theorem answers_append (depth : Nat) (ms ms' : List Method) (s : TokenStream) :
    answers depth (ms ++ ms') s =
      answers depth ms s ++ answers depth ms' (perform depth ms s).2 := by
  induction ms generalizing s with
  | nil => rfl
  | cons m ms ih => rw [List.cons_append, answers, ih, ← List.append_assoc]; rfl

/-- A call of `advance` from outside is answered by what is noted of it. -/
theorem advance_answers (depth : Nat) (s : TokenStream) :
    ∃ x, Method.advance.answers depth s = [x] ∧
      (Method.advance.perform depth s).1 = x.map .token := by
  obtain ⟨outcome, s', h, -⟩ := advance_isSuffix s
  refine ⟨outcome, ?_, ?_⟩
  · have hrun : noted (Method.advance.recorded depth ⟨s, []⟩) = [.advance outcome] := by
      simp only [Method.recorded, Bind.bind, EStateM.bind, Recorder.advance, h]
      cases outcome <;> rfl
    rw [Method.answers, hrun]
    rfl
  · simp only [Method.perform, Method.run, Bind.bind, EStateM.bind, h]
    cases outcome <;> rfl

/-! ## Methods as plans -/

theorem Method.run_eq (depth : Nat) (m : Method) (s : TokenStream) :
    m.run depth s = ending (m.perform depth s).1 (m.perform depth s).2 := by
  unfold Method.perform
  rcases m.run depth s with ⟨a, s'⟩ | ⟨e, s'⟩ <;> rfl

theorem Method.perform_eq {depth : Nat} {m : Method} {s s' : TokenStream}
    {x : Except CalcError Reply} (h : m.run depth s = ending x s') :
    m.perform depth s = (x, s') := by
  obtain ⟨hx, hs⟩ := ending_inj ((m.run_eq depth s).symm.trans h)
  exact Prod.ext hx hs

theorem perform_cons {depth : Nat} {m : Method} {s s' : TokenStream} {x : Except CalcError Reply}
    (h : m.perform depth s = (x, s')) (ms : List Method) :
    perform depth (m :: ms) s = (x :: (perform depth ms s').1, (perform depth ms s').2) := by
  rw [perform, h]

theorem Method.run_planned (depth : Nat) (m : Method) : Planned (m.run depth) := by
  cases m with
  | advance => exact .advance_bind fun _ => .pure _
  | expect kind expected => exact (expect_planned kind expected).bind fun _ => .pure _
  | isAt kind values =>
    refine .look fun o => ⟨_, .pure (.flag (Parser.isAt kind values ⟨o.toList, none⟩)), ?_⟩
    rintro s rfl
    have hat : Parser.isAt kind values s = Parser.isAt kind values ⟨s.lookahead.toList, none⟩ := by
      rcases s with ⟨_ | ⟨t, ts⟩, failure⟩ <;> rfl
    rw [run, get_bind, hat]
  | whole => exact (whole_planned depth).bind fun _ => .pure _
  | expr => exact (expr_planned depth).bind fun _ => .pure _
  | term => exact (chain_planned (unary_planned depth)).bind fun _ => .pure _
  | unary => exact (unary_planned depth).bind fun _ => .pure _
  | primary => exact (primaryOf_planned (expr_planned depth)).bind fun _ => .pure _
  | call function => exact (callOf_planned (expr_planned depth) function).bind fun _ => .pure _

/-! ## Errors of the lexer and of the parser -/

/-- The error is one of the parser's own, not one behind the tokens. -/
def Own (e : CalcError) : Prop := ∃ d ts rest, Fault d ts rest e

/-- The lexer fails with such an error only. -/
def OfLexer (e : CalcError) : Prop := e.stage? = some .lexing ∨ ∃ n, e = .digitLimit n

theorem OfLexer.not_own {e : CalcError} (h : OfLexer e) : ¬Own e := by
  rintro ⟨d, ts, rest, hfault⟩
  rcases h with h | ⟨n, rfl⟩
  · cases hfault <;> cases h
  · cases hfault

theorem own_of_parses {α : Type} {d : Nat} {ts : List Token} {R : List Token → α → Prop}
    {B : List Token → CalcError → Prop} {p : Parser α} {s s' : TokenStream}
    (hp : Parses d ts R B p s) {f : α → Reply} {e : CalcError}
    (h : (p >>= fun a => pure (f a)) s = .error e s') : s.failure = some e ∨ Own e := by
  rcases hs : p s with ⟨a, s₁⟩ | ⟨e₁, s₁⟩
  · cases (bind_of_ok hs).symm.trans h
  · cases (bind_of_error hs).symm.trans h
    exact (hp.error hs).imp_right fun ⟨_, _, _, hfault⟩ => ⟨_, _, _, hfault⟩

theorem Method.own_of_error {depth : Nat} {m : Method} {s s' : TokenStream} {e : CalcError}
    (h : m.run depth s = .error e s') : s.failure = some e ∨ Own e := by
  cases m with
  | advance =>
    rcases hnext : s.lookahead with _ | t
    · rcases s with ⟨_ | ⟨t, ts⟩, failure⟩
      · cases h
      · cases hnext
    · exact own_of_parses (@advance_parses 0 [] s t hnext) h
  | expect kind expected => exact own_of_parses (expect_reads (d := 0) kind expected s) h
  | isAt kind values => cases h
  | whole => exact own_of_parses (whole_parses depth s) h
  | expr => exact own_of_parses (expr_reads depth s) h
  | term => exact own_of_parses (termOf_reads (unary_reads depth) s) h
  | unary => exact own_of_parses (unary_reads depth s) h
  | primary => exact own_of_parses (primaryOf_reads (expr_reads depth) s) h
  | call function =>
    -- Which token has named the function makes no difference.
    have hname : Token.kind ⟨.function, function, 0⟩ = .function := rfl
    exact own_of_parses (callOf_parses (expr_reads depth) hname) h

section Failure

variable {e : CalcError} (he : OfLexer e)

include he

theorem Method.perform_of_complete (depth : Nat) (m : Method) (ts : List Token) :
    ∃ x vs, m.perform depth (ofTokens ts) = (x, ofTokens vs) ∧ x ≠ .error e := by
  obtain ⟨x, vs, -, hrun⟩ := (m.run_planned depth).ends ts
  refine ⟨x, vs, perform_eq hrun, ?_⟩
  rintro rfl
  exact he.not_own ((own_of_error hrun).resolve_left nofun)

/-- In front of the error a method does without it, or comes upon it and leaves the last token. -/
theorem Method.perform_of_failure (depth : Nat) (m : Method) {us : List Token} (hus : us ≠ []) :
    (∃ x vs, vs ≠ [] ∧ vs <:+ us ∧ m.perform depth ⟨us, some e⟩ = (x, ⟨vs, some e⟩) ∧
      x ≠ .error e) ∨
    ∃ t ∈ us.getLast?, m.perform depth ⟨us, some e⟩ = (.error e, ofTokens [t]) := by
  have hplanned := m.run_planned depth
  rcases hplanned.settles_or_exhausts hus with ⟨x, vs, hvs, hsettles⟩ | ⟨⟨t, ht, hsurfaces⟩, -⟩
  · have hrun := hsettles [] (some e)
    have hcomplete := hsettles [] none
    rw [List.append_nil, List.append_nil] at hrun hcomplete
    refine .inl ⟨x, vs, hvs, hplanned.isSuffix hrun, perform_eq hrun, ?_⟩
    rintro rfl
    exact he.not_own ((own_of_error hcomplete).resolve_left nofun)
  · exact .inr ⟨t, ht, perform_eq (x := .error e) (hsurfaces e)⟩

theorem perform_of_complete (depth : Nat) (ms : List Method) (ts : List Token) :
    ∀ x ∈ (perform depth ms (ofTokens ts)).1, x ≠ .error e := by
  induction ms generalizing ts with
  | nil => exact nofun
  | cons m ms ih =>
    obtain ⟨y, vs, hperform, hy⟩ := m.perform_of_complete he depth ts
    rw [perform_cons hperform]
    intro x hx
    rcases List.mem_cons.mp hx with rfl | hx
    · exact hy
    · exact ih vs x hx

/-- The error surfaces in one of the calls at most. -/
theorem perform_of_failure (depth : Nat) (ms : List Method) {us : List Token} (hus : us ≠ []) :
    (∀ x ∈ (perform depth ms ⟨us, some e⟩).1, x ≠ .error e) ∧
      (perform depth ms ⟨us, some e⟩).2.failure = some e ∨
    ∃ before m after, ∃ t ∈ us.getLast?, ms = before ++ m :: after ∧
      (∀ x ∈ (perform depth before ⟨us, some e⟩).1, x ≠ .error e) ∧
      m.perform depth (perform depth before ⟨us, some e⟩).2 = (.error e, ofTokens [t]) := by
  induction ms generalizing us with
  | nil => exact .inl ⟨nofun, rfl⟩
  | cons m ms ih =>
    rcases m.perform_of_failure he depth hus with ⟨y, vs, hvs, hsuffix, hm, hy⟩ | ⟨t, ht, hm⟩
    · rw [perform_cons hm]
      rcases ih hvs with ⟨hrest, hfailure⟩ | ⟨before, m', after, t, ht, rfl, hbefore, hm'⟩
      · refine .inl ⟨fun x hx => ?_, hfailure⟩
        rcases List.mem_cons.mp hx with rfl | hx
        · exact hy
        · exact hrest x hx
      · refine .inr ⟨m :: before, m', after, t, ?_, rfl, ?_⟩
        · obtain ⟨ws, rfl⟩ := hsuffix
          rw [List.getLast?_append, ht]
          rfl
        · rw [perform_cons hm]
          refine ⟨fun x hx => ?_, hm'⟩
          rcases List.mem_cons.mp hx with rfl | hx
          · exact hy
          · exact hbefore x hx
    · exact .inr ⟨[], m, ms, t, ht, rfl, nofun, hm⟩

end Failure

/-! ## The last token -/

theorem perform_replicate_advance (depth : Nat) (us vs : List Token) :
    (perform depth (List.replicate us.length .advance) (ofTokens (us ++ vs))).2 = ofTokens vs := by
  induction us with
  | nil => rfl
  | cons t us ih =>
    have hstep : Method.perform depth .advance (ofTokens (t :: (us ++ vs))) =
        (.ok (.token (some t)), ofTokens (us ++ vs)) :=
      Method.perform_eq (advance_bind_ofTokens t (us ++ vs) _)
    rw [List.length_cons, List.replicate_succ, List.cons_append, perform_cons hstep]
    exact ih

/-- A parser object on a complete sequence of tokens that stands at the last of them. -/
def atLast (depth : Nat) (ts : List Token) : TokenStream :=
  (perform depth (List.replicate (ts.length - 1) .advance) (ofTokens ts)).2

theorem atLast_eq {ts : List Token} {t : Token} (ht : t ∈ ts.getLast?) (depth : Nat) :
    atLast depth ts = ofTokens [t] := by
  obtain ⟨us, rfl⟩ := List.getLast?_eq_some_iff.mp ht
  rw [atLast, List.length_append, List.length_singleton, Nat.add_sub_cancel]
  exact perform_replicate_advance depth us [t]

/-! ## Tokens that are expected -/

/-- A token that is not there or of another kind is not taken. -/
theorem expect_keeps (depth : Nat) {kind : TokenKind} {s : TokenStream}
    (hat : ¬isAt kind [] s = true) (expected : String) :
    (∃ err, (Method.expect kind expected).perform depth s = (.error err, s)) ∧
      (Method.expect kind expected).answers depth s = [] := by
  obtain ⟨err, herr, hnotes⟩ : ∃ err, expect kind expected s = .error err s ∧
      Recorder.expect kind expected ⟨s, []⟩ = .error err ⟨s, []⟩ := by
    rw [Recorder.expect, Recorder.stream_bind]
    cases hnext : s.lookahead with
    | none => exact ⟨_, expect_of_none hnext, rfl⟩
    | some t =>
      have hkind : t.kind ≠ kind := fun hkind => hat (isAt_nil_iff.mpr ⟨t, hnext, hkind⟩)
      exact ⟨_, expect_of_ne hnext hkind, congrFun (if_neg hkind) _⟩
  refine ⟨⟨err, Method.perform_eq (x := .error err) (bind_of_error herr)⟩, ?_⟩
  have hrun : (Method.expect kind expected).recorded depth ⟨s, []⟩ = .error err ⟨s, []⟩ := by
    simp only [Method.recorded, Bind.bind, EStateM.bind, hnotes]
  rw [Method.answers, hrun]
  rfl

/-- A token that is expected and comes is the one that `advance` hands out. -/
theorem expect_answers (depth : Nat) {kind : TokenKind} {expected : String} {s : TokenStream}
    {o : Option Token}
    (h : ((Method.expect kind expected).perform depth s).1 = .ok (.token o)) :
    (Method.expect kind expected).answers depth s = [.ok o] := by
  by_cases hat : isAt kind [] s = true
  · obtain ⟨t, hmem, hkind⟩ := isAt_nil_iff.mp hat
    have hnext : s.lookahead = some t := hmem
    have hready : Ready s := fun _ _ hpending => by
      rw [TokenStream.lookahead, hpending] at hnext
      cases hnext
    obtain ⟨x, s', hadvance, -⟩ := advance_isSuffix s
    rw [Method.perform, Method.run] at h
    obtain ⟨-, ⟨rfl, -, -⟩ | ⟨e, _, rfl, -, -⟩⟩ := advance_cases hready hadvance
    · rw [bind_of_ok ((expect_of_kind hnext hkind).trans (bind_of_ok hadvance))] at h
      cases h
      rw [hnext] at hadvance
      have hrun : noted ((Method.expect kind expected).recorded depth ⟨s, []⟩) =
          [.advance (.ok (some t))] := by
        simp only [Method.recorded, Recorder.expect, Bind.bind, EStateM.bind, Recorder.stream, hnext,
          if_pos hkind, Recorder.advance, hadvance]
        rfl
      rw [Method.answers, hrun]
      rfl
    · rw [bind_of_error ((expect_of_kind hnext hkind).trans (bind_of_error hadvance))] at h
      cases h
  · obtain ⟨⟨err, herr⟩, -⟩ := expect_keeps depth hat expected
    rw [herr] at h
    cases h

/-! ## Sessions -/

/-- The error `e` behind the tokens surfaces in the call of `m`, between the calls `before` and
`after`. -/
structure SurfacesIn (depth : Nat) (start : TokenStream) (e : CalcError) (before : List Method)
    (m : Method) (after : List Method) : Prop where
  notBefore : ∀ x ∈ (perform depth before start).1, x ≠ .error e
  /-- The call fails with the error and leaves the last token as the lookahead. -/
  fails : m.perform depth (perform depth before start).2 = (.error e, atLast depth start.pending)
  stays : (atLast depth start.pending).lookahead = start.pending.getLast?
  /-- So far `advance` has handed out all tokens but the last without a failure, and then it has failed
  with the error. -/
  attempt : ∃ log, answers depth (before ++ [m]) start = log ++ [.error e] ∧ NoError log ∧
    handed log = start.pending.dropLast
  /-- From then on the object is one that stands at the last of the same tokens without an error behind
  them: it gives the same answers and takes the same tokens. -/
  behind : perform depth (before ++ m :: after) start =
    ((perform depth before start).1 ++ .error e :: (perform depth after (atLast depth start.pending)).1,
      (perform depth after (atLast depth start.pending)).2)
  takenBehind : answers depth (before ++ m :: after) start =
    answers depth (before ++ [m]) start ++ answers depth after (atLast depth start.pending)
  notAgain : (∀ x ∈ (perform depth after (atLast depth start.pending)).1, x ≠ .error e) ∧
    NoError (answers depth after (atLast depth start.pending))

/-- A call that leaves the last token has made the attempt to take it. -/
theorem SurfacesIn.of_fails {depth : Nat} {start : TokenStream} {e : CalcError} (he : OfLexer e)
    (hstart : Ready start) (hfailure : start.failure = some e) {before : List Method} {m : Method}
    {t : Token} (ht : t ∈ start.pending.getLast?)
    (hbefore : ∀ x ∈ (perform depth before start).1, x ≠ .error e)
    (hm : m.perform depth (perform depth before start).2 = (.error e, ofTokens [t]))
    (after : List Method) : SurfacesIn depth start e before m after := by
  have hlast := atLast_eq ht depth
  have hadvances := perform_advances depth (before ++ [m]) start
  rw [perform_append, perform_cons hm] at hadvances
  rcases hadvances.failedOnce hstart hfailure with ⟨-, hlater⟩ | hfailed
  · cases hlater
  obtain ⟨log, hlog, hok, hpending⟩ := hfailed.at_end
  refine ⟨hbefore, ?_, ?_, ⟨log, hlog, hok, ?_⟩, ?_, ?_, ?_, ?_⟩
  · rw [hlast, hm]
  · rw [hlast]
    exact ht.symm
  · rw [hpending, List.dropLast_concat]
  · rw [perform_append, perform_cons hm, hlast]
  · rw [List.append_cons, answers_append, perform_append, perform_cons hm, hlast]
    rfl
  · rw [hlast]
    exact perform_of_complete he depth after [t]
  · rw [hlast]
    exact ((perform_advances depth after (ofTokens [t])).noError rfl).1

/-- **A parser object never loses, repeats or reorders a token**, whatever methods are called on it
and whatever their outcomes. The notes of a method are of the run itself, and `advance` and `expect`
answer what is noted of them. What `advance` answers in the course of the calls is what it answers on
a lookahead in front of a lexer at work. An error of the lexer surfaces in one call at most, and from
then on the object is one on the complete sequence of the tokens in front of the error. -/
theorem sessions_keep_tokens {text : String} {c : Cursor} (hopen : Cursor.ofText text = .ok c)
    (depth : Nat) (ms : List Method) :
    let start := ofText text
    let s := (perform depth ms start).2
    let log := answers depth ms start
    (∀ m u, erase (Method.recorded depth m ⟨u, []⟩) = m.run depth u) ∧
    (∀ u, ∃ x, Method.advance.answers depth u = [x] ∧
      (Method.advance.perform depth u).1 = x.map .token) ∧
    (∀ kind expected u o, ((Method.expect kind expected).perform depth u).1 = .ok (.token o) →
      (Method.expect kind expected).answers depth u = [.ok o]) ∧
    c.stream = start ∧ (∃ c' : Cursor, c.advances log.length = (log, c') ∧ c'.stream = s ∧
      c'.lookahead = s.lookahead) ∧
    Keeps start.pending log s ∧
    (∀ kind values, ((Method.isAt kind values).perform depth s).2 = s ∧
      (Method.isAt kind values).answers depth s = []) ∧
    (∀ kind expected, ¬isAt kind [] s = true →
      (∃ err, (Method.expect kind expected).perform depth s = (.error err, s)) ∧
        (Method.expect kind expected).answers depth s = []) ∧
    (start.failure = none → NoError log) ∧
    ∀ e, start.failure = some e →
      (∀ x ∈ (perform depth ms start).1, x ≠ .error e) ∧ NoError log ∧ s.failure = some e ∨
      ∃ before m after, ms = before ++ m :: after ∧ SurfacesIn depth start e before m after := by
  intro start s log
  obtain ⟨hc, hstream⟩ : c.Sound ∧ ofText text = c.stream := by
    rcases Cursor.ofText_eq text with ⟨c', hc', hsound, -, hstream⟩ | ⟨e, he, -⟩
    · cases hc'.symm.trans hopen
      exact ⟨hsound, hstream⟩
    · cases he.symm.trans hopen
  have hstart : Ready start := fun e he => by
    rw [show start = c.stream from hstream] at he ⊢
    exact Cursor.pending_ne_nil he
  have hadvances : Advances start log s := perform_advances depth ms start
  have hcursor : Advances c.stream log s := hstream ▸ hadvances
  refine ⟨fun m u => (m.tracks depth ⟨u, []⟩).same, advance_answers depth,
    fun _ _ _ _ => expect_answers depth, hstream.symm, ?_, hadvances.keeps hstart,
    fun kind values => ⟨rfl, rfl⟩, fun kind expected hat => ?_,
    fun hnone => (hadvances.noError hnone).1, fun e hfailure => ?_⟩
  · obtain ⟨c', hc', hs⟩ := Cursor.advances_eq hc hcursor
    exact ⟨c', hc', hs, by rw [← hs, c'.stream_lookahead]⟩
  · exact expect_keeps depth hat expected
  · have he : OfLexer e := TokenStream.stage_of_failure hfailure
    have hsome : start = ⟨start.pending, some e⟩ := by rw [← hfailure]
    have hsession := perform_of_failure he depth ms (hstart e hfailure)
    rw [← hsome] at hsession
    rcases hsession with ⟨hreplies, hlater⟩ | ⟨before, m, after, t, ht, hms, hbefore, hm⟩
    · rcases hadvances.failedOnce hstart hfailure with ⟨hok, -⟩ | hfailed
      · exact .inl ⟨hreplies, hok, hlater⟩
      · cases hfailed.failure.symm.trans hlater
    · exact .inr ⟨before, m, after, hms, .of_fails he hstart hfailure ht hbefore hm after⟩

/-- On `2-3?` the first token is taken from outside. The parser is run and takes the minus sign; the
attempt to take the last token fails, so that token is there for the next call, and then none is left. -/
theorem sessions_keep_tokens_before_mark :
    let two : Token := ⟨.number, .number (.int 2), 0⟩
    let minus : Token := ⟨.operator, .text "-", 1⟩
    let three : Token := ⟨.number, .number (.int 3), 2⟩
    let mark : CalcError := .unexpectedChar '?' 3
    let start : TokenStream := ⟨[two, minus, three], some mark⟩
    let ms : List Method := [.advance, .whole, .advance, .whole]
    (∃ c, Cursor.ofText "2-3?" = .ok c ∧ c.stream = start) ∧
    perform 2 ms start = ([.ok (.token (some two)), .error mark, .ok (.token (some three)),
      .error (.unexpectedEnd operandName)], ofTokens []) ∧
    answers 2 ms start = [.ok (some two), .ok (some minus), .error mark, .ok (some three)] ∧
    Keeps [two, minus, three] (answers 2 ms start) (ofTokens []) ∧
    SurfacesIn 2 start mark [.advance] .whole [.advance, .whole] := by
  intro two minus three mark start ms
  have htext : ofText "2-3?" = start := by cbv
  have hopen : Cursor.ofText "2-3?" = .ok ⟨some two, Segment.cut 1 ['-', '3', '?']⟩ := by cbv
  have hrun : perform 2 ms start = ([.ok (.token (some two)), .error mark,
      .ok (.token (some three)), .error (.unexpectedEnd operandName)], ofTokens []) := by cbv
  have hanswers : answers 2 ms start =
      [.ok (some two), .ok (some minus), .error mark, .ok (some three)] := by cbv
  obtain ⟨-, -, -, hstream, -, hkeeps, -, -, -, herror⟩ := sessions_keep_tokens hopen 2 ms
  rw [htext] at hstream hkeeps herror
  rw [hrun] at hkeeps
  refine ⟨⟨_, hopen, hstream⟩, hrun, hanswers, hkeeps, ?_⟩
  rcases herror mark rfl with ⟨hnone, -⟩ | ⟨before, m, after, hms, hsurfaces⟩
  · rw [hrun] at hnone
    exact absurd rfl (hnone (.error mark) (by simp))
  -- The call that fails is the second one, since no call before it has failed with the error.
  · rcases before with _ | ⟨m₁, _ | ⟨m₂, before⟩⟩
    · obtain ⟨rfl, rfl⟩ := List.cons.inj hms
      cases congrArg Prod.fst hsurfaces.fails
    · obtain ⟨rfl, hrest⟩ := List.cons.inj hms
      obtain ⟨rfl, rfl⟩ := List.cons.inj hrest
      exact hsurfaces
    · obtain ⟨rfl, hrest⟩ := List.cons.inj hms
      obtain ⟨rfl, -⟩ := List.cons.inj hrest
      exact absurd rfl (hsurfaces.notBefore (.error mark) (.tail _ (.head _)))

end Parser

end Reckoner
