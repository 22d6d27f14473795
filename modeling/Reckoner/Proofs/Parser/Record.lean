import Reckoner.Proofs.Parser.Cursor
import Reckoner.Proofs.Parser.Soundness

/-!
# What the parser calls

The functions of the parser call each other, and three loops go on as long as an operator or a comma
comes next. They move on by calls of `advance`, wherever these stand. None of this is seen in an answer.
Here the parser is written once more so that it notes every call, with the tokens that are pending where
it is made, every iteration that a loop completes, and what every call of `advance` answers.

What it answers itself is the same (`Tracks.same`), and its notes are `Orderly`: a call is made behind a
token that its caller has taken, or it is one of the next level of the grammar; an iteration takes two
tokens at least; and no loop ends for want of rounds while an operator or a comma still comes next. The
calls of `advance` that it notes are all there are: they lead from the stream at its start to the one at
its end (`Tracks.advances`).

Calls that follow each other in this way come to an end (`Site.wellFounded_below`).
-/

namespace Reckoner

open TokenStream (ofTokens)

namespace Parser

variable {α β : Type}

/-- The functions of the parser that answer a tree. -/
inductive Rule where
  | expr | term | unary | primary
  /-- What is left of a call behind the function's name. -/
  | call (function : Payload)

namespace Rule

/-- The function itself. -/
def run (depth : Nat) : Rule → Parser Expr
  | expr => Parser.expr depth
  | term => Parser.term depth
  | unary => Parser.unary depth
  | primary => Parser.primary depth
  | call function => Parser.call depth function

/-- The next level of the grammar. -/
def next? : Rule → Option Rule
  | expr => some term
  | term => some unary
  | unary => some primary
  | primary | call _ => none

/-- How many levels of the grammar follow. -/
def levels : Rule → Nat
  | expr => 3
  | term => 2
  | unary => 1
  | primary | call _ => 0

/-- There are fewer levels left on the next one. -/
theorem levels_of_next? {r r' : Rule} (h : r.next? = some r') : r'.levels < r.levels := by
  cases r <;> cases h <;> decide

end Rule

/-- From the tokens `ts` on, `n` tokens at least are taken, and `us` are left. -/
def Takes (n : Nat) (ts us : List Token) : Prop := ∃ vs, n ≤ vs.length ∧ ts = vs ++ us

namespace Takes

variable {m n : Nat} {ts us vs : List Token}

/-- Tokens taken one after another are taken together. -/
theorem trans (h : Takes m ts us) (h' : Takes n us vs) : Takes (m + n) ts vs := by
  obtain ⟨xs, hxs, rfl⟩ := h
  obtain ⟨ys, hys, rfl⟩ := h'
  exact ⟨xs ++ ys, by rw [List.length_append]; omega, (List.append_assoc _ _ _).symm⟩

theorem mono (h : Takes n ts us) (hm : m ≤ n) : Takes m ts us := by
  obtain ⟨xs, hxs, rfl⟩ := h
  exact ⟨xs, Nat.le_trans hm hxs, rfl⟩

/-- What has been taken is gone. -/
theorem length_le (h : Takes n ts us) : n + us.length ≤ ts.length := by
  obtain ⟨xs, hxs, rfl⟩ := h
  rw [List.length_append]
  omega

end Takes

/-- A function of the parser where it is called: these tokens are pending there. -/
structure Site where
  rule : Rule
  pending : List Token

/-- The call is made behind a token that the caller has taken, or where the caller itself was called
and one level further on. -/
def Site.Below (callee caller : Site) : Prop :=
  Takes 1 caller.pending callee.pending ∨
    callee.pending = caller.pending ∧ caller.rule.next? = some callee.rule

/-- There are finitely many calls one below the other. -/
theorem Site.wellFounded_below : WellFounded Site.Below := by
  refine Subrelation.wf (fun {callee caller} h => ?_)
    (InvImage.wf (fun site : Site => (site.pending.length, site.rule.levels))
      (Prod.lex Nat.lt_wfRel Nat.lt_wfRel).wf)
  change Prod.Lex _ _ (callee.pending.length, _) (caller.pending.length, _)
  rcases h with h | ⟨hpending, hnext⟩
  · have hlength := h.length_le
    refine .left _ _ ?_
    change callee.pending.length < caller.pending.length
    omega
  · rw [hpending]
    exact .right _ (Rule.levels_of_next? hnext)

/-- What is noted of a run. -/
inductive Event where
  | call (caller callee : Site)
  /-- A loop has completed an iteration, between these pending tokens. -/
  | iteration (before after : List Token)
  /-- A loop has no rounds left, though what comes next would make it go on. -/
  | cutOff
  /-- `advance` has been called and has answered this. -/
  | advance (outcome : Except CalcError (Option Token))

/-- What a run has to keep to. What `advance` answers is not its own. -/
def Event.Orderly : Event → Prop
  | call caller callee => callee.Below caller
  | iteration before after => Takes 2 before after
  | cutOff => False
  | advance _ => True

theorem Event.orderly_concat {events : List Event} {event : Event}
    (h : ∀ event ∈ events, event.Orderly) (hevent : event.Orderly) :
    ∀ event' ∈ events ++ [event], event'.Orderly := by
  intro event' hmem
  rcases List.mem_append.mp hmem with hmem | hmem
  · exact h event' hmem
  · rw [List.mem_singleton.mp hmem]
    exact hevent

/-- What `advance` has answered, if the event is a call of it. -/
def Event.outcome? : Event → Option (Except CalcError (Option Token))
  | advance outcome => some outcome
  | call .. | iteration .. | cutOff => none

/-- The answers of `advance` among the notes, in order. -/
def outcomesIn (events : List Event) : Outcomes := events.filterMap Event.outcome?

theorem outcomesIn_append (events events' : List Event) :
    outcomesIn (events ++ events') = outcomesIn events ++ outcomesIn events' :=
  List.filterMap_append

/-- The stream that a parser reads, and what has been noted so far. -/
structure Record where
  stream : TokenStream
  events : List Event

/-- A parser that takes notes. -/
abbrev Recorder := EStateM CalcError Record

namespace Recorder

/-- The stream as it is. -/
def stream : Recorder TokenStream := fun t => .ok t.stream t

theorem stream_bind (f : TokenStream → Recorder β) (t : Record) :
    (stream >>= f) t = f t.stream t :=
  rfl

/-- Takes the next token, if there is one, and notes what the call has answered. -/
def advance : Recorder (Option Token) := fun t =>
  match Parser.advance t.stream with
  | .ok o s => .ok o ⟨s, t.events ++ [.advance (.ok o)]⟩
  | .error e s => .error e ⟨s, t.events ++ [.advance (.error e)]⟩

/-- Adds to the notes. -/
def note (event : Event) : Recorder Unit := fun t =>
  .ok () { t with events := t.events ++ [event] }

/-- The tokens still to come. -/
def pending : Recorder (List Token) := fun t => .ok t.stream.pending t

/-- The body of a function, which knows where it has been called. -/
def entered (rule : Rule) (body : Site → Recorder Expr) : Recorder Expr := do
  body ⟨rule, ← pending⟩

/-- A call, noted before it is made. -/
def calling (caller : Site) (rule : Rule) (function : Recorder Expr) : Recorder Expr := do
  note (.call caller ⟨rule, ← pending⟩)
  function

/-- Notes that a loop is cut off, if it would go on. -/
def outOfRounds (goesOn : TokenStream → Bool) : Recorder Unit := fun t =>
  if goesOn t.stream then note .cutOff t else .ok () t

/-! ## The parser with notes

Function by function what the parser does, with `calling` wherever one function of a rule calls another.
-/

def expect (kind : TokenKind) (expected : String) : Recorder Token := do
  match (← stream).lookahead with
  | none => throw (.unexpectedEnd expected)
  | some t =>
    if t.kind = kind then
      let _ ← advance
      pure t
    else throw (.unexpectedToken t expected)

def operator? (symbols : List String) : Recorder (Option String) := do
  match (← stream).lookahead with
  | some ⟨.operator, .text symbol, _⟩ =>
    if symbol ∈ symbols then
      let _ ← advance
      pure (some symbol)
    else pure none
  | _ => pure none

def chainFrom (symbols : List String) (operand : Recorder Expr) :
    (rounds : Nat) → Expr → Recorder Expr
  | 0, left => do
    outOfRounds (isAt .operator symbols)
    pure left
  | rounds + 1, left => do
    let before ← pending
    match ← operator? symbols with
    | none => pure left
    | some op =>
      let right ← operand
      note (.iteration before (← pending))
      chainFrom symbols operand rounds (.binary op left right)

def chain (symbols : List String) (operand : Recorder Expr) : Recorder Expr := do
  let first ← operand
  let s ← stream
  chainFrom symbols operand s.pending.length first

def term (unary : Recorder Expr) : Recorder Expr :=
  entered .term fun here => chain ["*", "/"] (calling here .unary unary)

def expr (unary : Recorder Expr) : Recorder Expr :=
  entered .expr fun here => chain ["+", "-"] (calling here .term (term unary))

def moreArgs (expr : Recorder Expr) : (rounds : Nat) → Recorder (List Expr)
  | 0 => do
    outOfRounds (isAt .comma [])
    pure []
  | rounds + 1 => do
    if isAt .comma [] (← stream) then
      let before ← pending
      let _ ← advance
      let arg ← expr
      note (.iteration before (← pending))
      let rest ← moreArgs expr rounds
      pure (arg :: rest)
    else pure []

def args (expr : Recorder Expr) : Recorder (List Expr) := do
  if isAt .rparen [] (← stream) then pure []
  else
    let first ← expr
    let s ← stream
    let rest ← moreArgs expr s.pending.length
    pure (first :: rest)

def call (expr : Recorder Expr) (function : Payload) : Recorder Expr :=
  entered (.call function) fun here => do
    let _ ← expect .lparen "'('"
    let args ← args (calling here .expr expr)
    let _ ← expect .rparen "',' or ')'"
    match checkedCall function args with
    | .ok e => pure e
    | .error e => throw e

def primary (expr : Recorder Expr) : Recorder Expr :=
  entered .primary fun here => do
    match (← stream).lookahead with
    | none => throw (.unexpectedEnd operandName)
    | some t =>
      match t.kind with
      | .number =>
        let _ ← advance
        pure (.literal t.value)
      | .lparen =>
        let _ ← advance
        let e ← calling here .expr expr
        let _ ← expect .rparen "')'"
        pure e
      | .function =>
        let _ ← advance
        calling here (.call t.value) (call expr t.value)
      | _ => throw (.unexpectedToken t operandName)

def unary : (depth : Nat) → Recorder Expr
  | 0 => throw .nestedTooDeeply
  | depth + 1 =>
    entered .unary fun here => do
      match ← operator? ["-"] with
      | some _ =>
        let e ← calling here .unary (unary depth)
        pure (.negate e)
      | none => calling here .primary (primary (expr (unary depth)))

def whole (expr : Recorder Expr) : Recorder Expr := do
  if (← stream).lookahead.isNone then throw (.unexpectedEnd operandName)
  let e ← expr
  match (← stream).lookahead with
  | none => pure e
  | some t => throw (.unexpectedToken t "end of input")

end Recorder

/-- The function of a rule with notes. -/
def Rule.recorded (depth : Nat) : Rule → Recorder Expr
  | expr => Recorder.expr (Recorder.unary depth)
  | term => Recorder.term (Recorder.unary depth)
  | unary => Recorder.unary depth
  | primary => Recorder.primary (Recorder.expr (Recorder.unary depth))
  | call function => Recorder.call (Recorder.expr (Recorder.unary depth)) function

/-- The end of a run without the notes. -/
def erase : EStateM.Result CalcError Record α → EStateM.Result CalcError TokenStream α
  | .ok a t => .ok a t.stream
  | .error e t => .error e t.stream

/-- The stream at the end of a run. -/
def left : EStateM.Result CalcError Record α → TokenStream
  | .ok _ t | .error _ t => t.stream

/-- The notes at the end of a run. -/
def noted : EStateM.Result CalcError Record α → List Event
  | .ok _ t | .error _ t => t.events

/-- The recorder does what the parser does, and notes nothing that is out of order and every call of
`advance`. -/
structure Tracks (q : Recorder α) (p : Parser α) (t : Record) : Prop where
  same : erase (q t) = p t.stream
  orderly : (∀ event ∈ t.events, event.Orderly) → ∀ event ∈ noted (q t), event.Orderly
  advances : ∃ xs, outcomesIn (noted (q t)) = outcomesIn t.events ++ xs ∧
    Advances t.stream xs (left (q t))

namespace Tracks

variable {q : Recorder α} {p : Parser α} {t : Record}

/-- Where nothing is noted, no call of `advance` is missed. -/
theorem of_same (hsame : erase (q t) = p t.stream) (hnoted : noted (q t) = t.events)
    (hleft : left (q t) = t.stream) : Tracks q p t := by
  refine ⟨hsame, fun ht => by rwa [hnoted], [], ?_, ?_⟩
  · rw [hnoted, List.append_nil]
  · rw [hleft]
    exact .nil _

theorem pure (a : α) : Tracks (Pure.pure a) (Pure.pure a) t := .of_same rfl rfl rfl

theorem throw (e : CalcError) : Tracks (MonadExcept.throw e) (MonadExcept.throw e : Parser α) t :=
  .of_same rfl rfl rfl

/-- Another parser that does the same from this stream. -/
theorem congr {p' : Parser α} (h : Tracks q p' t) (hp : p t.stream = p' t.stream) : Tracks q p t :=
  ⟨h.same.trans hp.symm, h.orderly, h.advances⟩

/-- The one place where the recorder takes a token. -/
theorem advance (t : Record) : Tracks Recorder.advance Parser.advance t := by
  obtain ⟨outcome, s, h, -⟩ := advance_isSuffix t.stream
  obtain ⟨hsame, hnoted, hleft⟩ : erase (Recorder.advance t) = ending outcome s ∧
      noted (Recorder.advance t) = t.events ++ [.advance outcome] ∧
      left (Recorder.advance t) = s := by
    unfold Recorder.advance
    rw [h]
    cases outcome <;> exact ⟨rfl, rfl, rfl⟩
  refine ⟨hsame.trans h.symm, fun ht => ?_, [outcome], ?_, ?_⟩
  · rw [hnoted]
    exact Event.orderly_concat ht trivial
  · rw [hnoted]
    exact outcomesIn_append _ _
  · rw [hleft]
    exact .cons h (.nil s)

/-- What is noted of the one run is followed by what is noted of the other. -/
theorem bind {f : α → Recorder β} {g : α → Parser β} (h : Tracks q p t)
    (hf : ∀ a t', p t.stream = .ok a t'.stream → Tracks (f a) (g a) t') :
    Tracks (q >>= f) (p >>= g) t := by
  obtain ⟨hsame, horderly, xs, hxs, hadvances⟩ := h
  rcases hq : q t with ⟨a, t'⟩ | ⟨e, t'⟩
  · rw [hq] at hsame horderly hxs hadvances
    have hrun : (q >>= f) t = f a t' := by simp only [Bind.bind, EStateM.bind, hq]
    have hp : p t.stream = .ok a t'.stream := hsame.symm
    have hfa := hf a t' hp
    obtain ⟨ys, hys, hrest⟩ := hfa.advances
    refine ⟨?_, fun ht => ?_, xs ++ ys, ?_, ?_⟩
    · rw [hrun, bind_of_ok hp, hfa.same]
    · rw [hrun]
      exact hfa.orderly (horderly ht)
    · rw [hrun, hys, ← List.append_assoc, ← hxs]
      rfl
    · rw [hrun]
      exact hadvances.trans hrest
  · rw [hq] at hsame horderly hxs hadvances
    have hrun : (q >>= f) t = .error e t' := by simp only [Bind.bind, EStateM.bind, hq]
    have hp : p t.stream = .error e t'.stream := hsame.symm
    refine ⟨?_, fun ht => ?_, xs, ?_, ?_⟩
    · rw [hrun, bind_of_error hp]
      rfl
    · rw [hrun]
      exact horderly ht
    · rw [hrun, ← hxs]
      rfl
    · rw [hrun]
      exact hadvances

/-- To look at the stream is no event. -/
theorem stream_bind {f : TokenStream → Recorder α} (h : Tracks (f t.stream) p t) :
    Tracks (Recorder.stream >>= f) p t :=
  ⟨h.same, h.orderly, h.advances⟩

theorem get_bind {f : TokenStream → Recorder α} {g : TokenStream → Parser α}
    (h : Tracks (f t.stream) (g t.stream) t) : Tracks (Recorder.stream >>= f) (get >>= g) t :=
  stream_bind ⟨h.same, h.orderly, h.advances⟩

/-! ### Notes, which a parser does not take -/

theorem pending_bind {f : List Token → Recorder α} (h : Tracks (f t.stream.pending) p t) :
    Tracks (Recorder.pending >>= f) p t :=
  ⟨h.same, h.orderly, h.advances⟩

/-- A note that is in order may be taken anywhere. -/
theorem note_bind {event : Event} {f : Unit → Recorder α} (hevent : event.Orderly)
    (hother : event.outcome? = none)
    (h : ∀ t' : Record, t'.stream = t.stream → Tracks (f ()) p t') :
    Tracks (Recorder.note event >>= f) p t := by
  have hf := h { t with events := t.events ++ [event] } rfl
  obtain ⟨xs, hxs, hadvances⟩ := hf.advances
  refine ⟨hf.same, fun ht => hf.orderly (Event.orderly_concat ht hevent), xs, hxs.trans ?_, hadvances⟩
  have hnone : outcomesIn [event] = [] := List.filterMap_cons_none hother
  rw [outcomesIn_append, hnone, List.append_nil]

/-- A loop that would not go on is not cut off. -/
theorem outOfRounds_bind {goesOn : TokenStream → Bool} {f : Unit → Recorder α}
    (hstops : goesOn t.stream = false) (h : Tracks (f ()) p t) :
    Tracks (Recorder.outOfRounds goesOn >>= f) p t := by
  have hrun : (Recorder.outOfRounds goesOn >>= f) t = f () t := by
    simp only [Bind.bind, EStateM.bind, Recorder.outOfRounds, hstops]
    rfl
  refine ⟨by rw [hrun, h.same], ?_, ?_⟩
  · rw [hrun]
    exact h.orderly
  · rw [hrun]
    exact h.advances

/-- A call is noted where it is made, and has to be below its caller. -/
theorem calling {q : Recorder Expr} {p : Parser Expr} {caller : Site} {rule : Rule}
    (hbelow : Site.Below ⟨rule, t.stream.pending⟩ caller)
    (h : ∀ t' : Record, t'.stream = t.stream → Tracks q p t') :
    Tracks (Recorder.calling caller rule q) p t :=
  pending_bind (note_bind hbelow rfl h)

end Tracks

/-! ## Tokens that are looked for -/

/-- One token is noted, or none if it is not the one expected. -/
theorem expect_tracks (kind : TokenKind) (expected : String) (t : Record) :
    Tracks (Recorder.expect kind expected) (expect kind expected) t := by
  refine .stream_bind ?_
  cases hnext : t.stream.lookahead with
  | none => exact (Tracks.throw _).congr (expect_of_none hnext)
  | some u =>
    by_cases hkind : u.kind = kind
    · simp only [if_pos hkind]
      exact ((Tracks.advance t).bind fun _ _ _ => .pure u).congr (expect_of_kind hnext hkind)
    · simp only [if_neg hkind]
      exact (Tracks.throw _).congr (expect_of_ne hnext hkind)

/-- One token is noted if it is one of the operators. -/
theorem operator?_tracks (symbols : List String) (t : Record) :
    Tracks (Recorder.operator? symbols) (operator? symbols) t := by
  refine .stream_bind ?_
  by_cases h : IsOperator symbols t.stream.lookahead
  · obtain ⟨op, hop, pos, hnext⟩ := h
    simp only [hnext, if_pos hop]
    have htaken := (Tracks.advance t).bind fun _ _ _ => .pure (some op)
    exact htaken.congr (operator?_of_isOperator hnext hop)
  · refine Tracks.congr ?_ (operator?_of_not h)
    split
    · next op pos hnext =>
      rw [if_neg fun hop => h ⟨op, hop, pos, hnext⟩]
      exact .pure none
    · exact .pure none

/-! ## What has been taken -/

section Taken

variable {d : Nat} {s s' : TokenStream}

/-- A phrase has tokens. -/
theorem takes_of_phrase {ph : Phrase} {p : Parser Expr} (hp : ReadsPhrase d ph p) {e : Expr}
    (h : p s = .ok e s') : Takes 1 s.pending s'.pending := by
  obtain ⟨us, hus, -, hspells⟩ := (hp s).ok h
  exact ⟨us, hspells.length_pos, hus⟩

theorem takes_of_advance {t : Token} (hnext : s.lookahead = some t) {o : Option Token}
    (h : advance s = .ok o s') : Takes 1 s.pending s'.pending := by
  obtain ⟨us, hus, -, rfl⟩ := (@advance_parses 0 [] s t hnext).ok h
  exact ⟨[t], Nat.le_refl _, hus⟩

theorem takes_of_expect {kind : TokenKind} {expected : String} {t : Token}
    (h : expect kind expected s = .ok t s') : Takes 1 s.pending s'.pending := by
  obtain ⟨us, hus, -, rfl, -⟩ := (expect_reads (d := 0) kind expected s).ok h
  exact ⟨[t], Nat.le_refl _, hus⟩

/-- Either no operator has come next and nothing is taken, or one has been taken. -/
theorem operator?_cases {symbols : List String} {o : Option String}
    (h : operator? symbols s = .ok o s') :
    o = none ∧ s'.pending = s.pending ∨ (∃ op, o = some op) ∧ Takes 1 s.pending s'.pending := by
  obtain ⟨us, hus, -, ⟨ho, rfl⟩ | ⟨op, -, ho, pos, rfl⟩⟩ :=
    (operator?_reads (d := 0) symbols s).ok h
  · exact .inl ⟨ho, hus.symm⟩
  · exact .inr ⟨⟨op, ho⟩, _, Nat.le_refl _, hus⟩

theorem isAt_of_nil {kind : TokenKind} {values : List String} (h : s.pending = []) :
    isAt kind values s = false := by
  rw [isAt, show s.lookahead = none from List.head?_eq_none_iff.mpr h]

end Taken

/-! ## Loops -/

section Chains

variable {d : Nat} {ph : Phrase} {symbols : List String} {ts : List Token} {q : Recorder Expr}
  {p : Parser Expr} (hp : ReadsPhrase d ph p)
  (hq : ∀ t : Record, Takes 1 ts t.stream.pending → Tracks q p t)

include hp hq in
/-- With as many rounds as pending tokens the loop is never cut off, since an iteration takes two.
-/
theorem chainFrom_tracks (rounds : Nat) (left : Expr) (t : Record)
    (hrounds : t.stream.pending.length ≤ rounds) (ht : Takes 0 ts t.stream.pending) :
    Tracks (Recorder.chainFrom symbols q rounds left) (chainFrom symbols p rounds left) t := by
  induction rounds generalizing left t with
  | zero =>
    have hend : t.stream.pending = [] := List.length_eq_zero_iff.mp (by omega)
    exact .outOfRounds_bind (isAt_of_nil hend) (.pure left)
  | succ rounds ih =>
    refine .pending_bind ((operator?_tracks symbols t).bind fun o t₁ ho => ?_)
    rcases operator?_cases ho with ⟨rfl, -⟩ | ⟨⟨op, rfl⟩, h₁⟩
    · exact .pure left
    · refine (hq t₁ (ht.trans h₁)).bind fun right t₂ hright => .pending_bind ?_
      have h₂ : Takes 2 t.stream.pending t₂.stream.pending := h₁.trans (takes_of_phrase hp hright)
      refine .note_bind h₂ rfl fun t₃ h₃ => ?_
      rw [← h₃] at h₂
      have hlength := h₂.length_le
      exact ih _ t₃ (by omega) (ht.trans (h₂.mono (Nat.zero_le _)))

include hp hq in
theorem chain_tracks {t : Record} (ht : t.stream.pending = ts) (hfirst : Tracks q p t) :
    Tracks (Recorder.chain symbols q) (chain symbols p) t := by
  refine hfirst.bind fun first t₁ h₁ => .get_bind ?_
  have h₁ : Takes 1 t.stream.pending t₁.stream.pending := takes_of_phrase hp h₁
  rw [ht] at h₁
  exact chainFrom_tracks hp hq _ first t₁ (Nat.le_refl _) (h₁.mono (Nat.zero_le _))

end Chains

theorem term_tracks {d : Nat} {q : Recorder Expr} {p : Parser Expr}
    (hp : ReadsPhrase d .unary p) (hq : ∀ t, Tracks q p t) (t : Record) :
    Tracks (Recorder.term q) (termOf p) t := by
  refine .pending_bind (chain_tracks hp (fun t' h => ?_) rfl ?_)
  · exact .calling (.inl h) fun t'' _ => hq t''
  · exact .calling (.inr ⟨rfl, rfl⟩) fun t' _ => hq t'

theorem expr_tracks {d : Nat} {q : Recorder Expr} {p : Parser Expr}
    (hp : ReadsPhrase d .unary p) (hq : ∀ t, Tracks q p t) (t : Record) :
    Tracks (Recorder.expr q) (exprOf p) t := by
  have hterm := term_tracks hp hq
  refine .pending_bind (chain_tracks (termOf_reads hp) (fun t' h => ?_) rfl ?_)
  · exact .calling (.inl h) fun t'' _ => hterm t''
  · exact .calling (.inr ⟨rfl, rfl⟩) fun t' _ => hterm t'

section Calls

variable {d : Nat} {ts : List Token} {q : Recorder Expr} {p : Parser Expr}
  (hp : ReadsPhrase d .expr p)

include hp

/-- So it is with the loop over arguments: each takes a comma and an expression. -/
theorem moreArgs_tracks (hq : ∀ t : Record, Takes 1 ts t.stream.pending → Tracks q p t)
    (rounds : Nat) (t : Record) (hrounds : t.stream.pending.length ≤ rounds)
    (ht : Takes 0 ts t.stream.pending) :
    Tracks (Recorder.moreArgs q rounds) (moreArgs p rounds) t := by
  induction rounds generalizing t with
  | zero =>
    have hend : t.stream.pending = [] := List.length_eq_zero_iff.mp (by omega)
    exact .outOfRounds_bind (isAt_of_nil hend) (.pure [])
  | succ rounds ih =>
    refine .get_bind ?_
    by_cases hat : isAt .comma [] t.stream = true
    · rw [if_pos hat, if_pos hat]
      obtain ⟨comma, hnext, -⟩ := isAt_nil_iff.mp hat
      refine .pending_bind ((Tracks.advance t).bind fun _ t₁ h₁ => ?_)
      have h₁ := takes_of_advance hnext h₁
      refine (hq t₁ (ht.trans h₁)).bind fun arg t₂ harg => .pending_bind ?_
      have h₂ : Takes 2 t.stream.pending t₂.stream.pending := h₁.trans (takes_of_phrase hp harg)
      refine .note_bind h₂ rfl fun t₃ h₃ => ?_
      rw [← h₃] at h₂
      have hlength := h₂.length_le
      have hrest := ih t₃ (by omega) (ht.trans (h₂.mono (Nat.zero_le _)))
      exact hrest.bind fun rest _ _ => .pure (arg :: rest)
    · rw [if_neg hat, if_neg hat]
      exact .pure []

theorem args_tracks (hq : ∀ t : Record, Takes 1 ts t.stream.pending → Tracks q p t) (t : Record)
    (ht : Takes 1 ts t.stream.pending) : Tracks (Recorder.args q) (args p) t := by
  refine .get_bind ?_
  by_cases hat : isAt .rparen [] t.stream = true
  · rw [if_pos hat, if_pos hat]
    exact .pure []
  · rw [if_neg hat, if_neg hat]
    refine (hq t ht).bind fun first t₁ h₁ => .get_bind ?_
    have h₁ := ht.trans (takes_of_phrase hp h₁)
    have hrest := moreArgs_tracks hp hq _ t₁ (Nat.le_refl _) (h₁.mono (Nat.zero_le _))
    exact hrest.bind fun rest _ _ => .pure (first :: rest)

/-- Arguments are read behind the opening parenthesis, so the calls for them are below this one. -/
theorem call_tracks (hq : ∀ t, Tracks q p t) (function : Payload) (t : Record) :
    Tracks (Recorder.call q function) (callOf p function) t := by
  refine .pending_bind ((expect_tracks _ _ t).bind fun _ t₁ h₁ => ?_)
  have hargs := args_tracks hp (q := Recorder.calling ⟨.call function, t.stream.pending⟩ .expr q)
    (fun t' h => .calling (.inl h) fun t'' _ => hq t'') t₁ (takes_of_expect h₁)
  refine hargs.bind fun args t₂ _ => (expect_tracks _ _ t₂).bind fun _ t₃ _ => ?_
  cases checkedCall function args with
  | ok e => exact .pure e
  | error e => exact .throw e

/-- Behind a parenthesis or a name the grammar begins anew, on fewer tokens. -/
theorem primary_tracks (hq : ∀ t, Tracks q p t) (t : Record) :
    Tracks (Recorder.primary q) (primaryOf p) t := by
  refine .pending_bind (.get_bind ?_)
  cases hnext : t.stream.lookahead with
  | none => exact .throw _
  | some u =>
    cases hkind : u.kind with
    | number =>
      simp only [hkind]
      exact (Tracks.advance t).bind fun _ _ _ => .pure _
    | lparen =>
      simp only [hkind]
      refine (Tracks.advance t).bind fun _ t₁ h₁ => ?_
      have hinner := takes_of_advance hnext h₁
      refine (Tracks.calling (.inl hinner) fun t₂ _ => hq t₂).bind fun e t₂ _ => ?_
      exact (expect_tracks _ _ t₂).bind fun _ _ _ => .pure e
    | function =>
      simp only [hkind]
      refine (Tracks.advance t).bind fun _ t₁ h₁ => ?_
      exact .calling (.inl (takes_of_advance hnext h₁)) fun t₂ _ => call_tracks hp hq u.value t₂
    | _ =>
      simp only [hkind]
      exact .throw _

end Calls

/-- The induction on the depth, as in `unary_reads`. -/
theorem unary_tracks (d : Nat) (t : Record) : Tracks (Recorder.unary d) (unary d) t := by
  induction d generalizing t with
  | zero => exact .throw _
  | succ d ih =>
    refine .pending_bind ((operator?_tracks _ t).bind fun o t₁ ho => ?_)
    rcases operator?_cases ho with ⟨rfl, hsame⟩ | ⟨⟨op, rfl⟩, htaken⟩
    · refine .calling (.inr ⟨hsame, rfl⟩) fun t₂ _ => ?_
      exact primary_tracks (exprOf_reads (unary_reads d)) (expr_tracks (unary_reads d) ih) t₂
    · refine (Tracks.calling (.inl htaken) fun t₂ _ => ih t₂).bind fun e _ _ => ?_
      exact .pure (Expr.negate e)

theorem whole_tracks (d : Nat) (t : Record) :
    Tracks (Recorder.whole (Recorder.expr (Recorder.unary d))) (whole d) t := by
  refine .get_bind ?_
  have hexpr := expr_tracks (unary_reads d) (unary_tracks d) t
  cases hnext : t.stream.lookahead with
  | none => exact .throw _
  | some u =>
    refine hexpr.bind fun e t₁ _ => .get_bind ?_
    cases t₁.stream.lookahead with
    | none => exact .pure e
    | some u => exact .throw _

/-- With notes a function does what it does without, and its notes are in order. -/
theorem Rule.tracks (d : Nat) (r : Rule) (t : Record) : Tracks (r.recorded d) (r.run d) t := by
  have hexpr := expr_tracks (unary_reads d) (unary_tracks d)
  cases r with
  | expr => exact hexpr t
  | term => exact term_tracks (unary_reads d) (unary_tracks d) t
  | unary => exact unary_tracks d t
  | primary => exact primary_tracks (expr_reads d) hexpr t
  | call function => exact call_tracks (expr_reads d) hexpr function t

/-- The notes on the term `2 * -3`. -/
example :
    let two : Token := ⟨.number, .number (.int 2), 0⟩
    let times : Token := ⟨.operator, .text "*", 2⟩
    let minus : Token := ⟨.operator, .text "-", 4⟩
    let three : Token := ⟨.number, .number (.int 3), 5⟩
    let ts := [two, times, minus, three]
    noted (Rule.term.recorded 2 ⟨ofTokens ts, []⟩) =
      [.call ⟨.term, ts⟩ ⟨.unary, ts⟩, .call ⟨.unary, ts⟩ ⟨.primary, ts⟩, .advance (.ok two),
        .advance (.ok times), .call ⟨.term, ts⟩ ⟨.unary, [minus, three]⟩, .advance (.ok minus),
        .call ⟨.unary, [minus, three]⟩ ⟨.unary, [three]⟩,
        .call ⟨.unary, [three]⟩ ⟨.primary, [three]⟩, .advance (.ok three),
        .iteration [times, minus, three] []] := by
  cbv

end Parser

end Reckoner
