import Reckoner.Proofs.Parser.Plan

/-!
# Calls of `advance`

The parser moves a stream by calls of `advance` only. What any number of them answer is said here of
the answers alone (`Advances`): the tokens they hand out are the first of the stream, in order, and the
rest is still to come (`Advances.inOrder`); an error behind the tokens surfaces once, in the call that
is to take the last of them (`Advances.failedOnce`).

A stream holds all tokens still to come. What a parser object holds is less: the lookahead and a lexer
that makes one token at a time. Taking a token fetches its successor first; if that fails, the lookahead
stays as it is and the lexer is finished. This is a `Cursor`, and its calls answer what those on its
stream answer (`Cursor.advances_eq`).
-/

namespace Reckoner

open TokenStream (ofTokens ofSegments ofText)

namespace Parser

/-- What calls of `advance` answer, in order. -/
abbrev Outcomes := List (Except CalcError (Option Token))

/-- The tokens among the answers. -/
def handed (outcomes : Outcomes) : List Token :=
  outcomes.filterMap fun
    | .ok o => o
    | .error _ => none

/-- No call has failed. -/
def NoError (outcomes : Outcomes) : Prop := ∀ x ∈ outcomes, ∃ o, x = .ok o

theorem NoError.cons {o : Option Token} {xs : Outcomes} (h : NoError xs) : NoError (.ok o :: xs) := by
  intro x hx
  rcases List.mem_cons.mp hx with rfl | hx
  · exact ⟨o, rfl⟩
  · exact h x hx

/-- Calls of `advance`, one after another and whatever they answer, lead from a stream to another. -/
inductive Advances : TokenStream → Outcomes → TokenStream → Prop
  | nil (s : TokenStream) : Advances s [] s
  | cons {s s₁ s' : TokenStream} {x : Except CalcError (Option Token)} {xs : Outcomes}
      (hfirst : advance s = ending x s₁) (hrest : Advances s₁ xs s') : Advances s (x :: xs) s'

/-- An error waits behind tokens only. So it is in every stream that a reader has started on. -/
def Ready (s : TokenStream) : Prop := ∀ e, s.failure = some e → s.pending ≠ []

/-- What one call does: it answers the lookahead and leaves the rest of the stream, or there is an error
behind the last token, which stays. -/
theorem advance_cases {s s' : TokenStream} {x : Except CalcError (Option Token)} (hs : Ready s)
    (h : advance s = ending x s') : Ready s' ∧
    (x = .ok s.lookahead ∧ s'.failure = s.failure ∧
        s.pending = s.lookahead.toList ++ s'.pending ∨
      ∃ e t, x = .error e ∧ s = ⟨[t], some e⟩ ∧ s' = ofTokens [t]) := by
  obtain ⟨pending, failure⟩ := s
  match pending, failure with
  | [], some e => exact absurd rfl (hs e rfl)
  | [], none =>
    obtain ⟨rfl, rfl⟩ := ending_inj (r := .ok none) h
    exact ⟨nofun, .inl ⟨rfl, rfl, rfl⟩⟩
  | [t], none =>
    obtain ⟨rfl, rfl⟩ := ending_inj (r := .ok (some t)) h
    exact ⟨nofun, .inl ⟨rfl, rfl, rfl⟩⟩
  | [t], some e =>
    obtain ⟨rfl, rfl⟩ := ending_inj (r := .error e) h
    exact ⟨nofun, .inr ⟨e, t, rfl, rfl, rfl⟩⟩
  | t :: u :: rest, failure =>
    obtain ⟨rfl, rfl⟩ := ending_inj (r := .ok (some t)) h
    exact ⟨fun _ _ => List.cons_ne_nil u rest, .inl ⟨rfl, rfl, rfl⟩⟩

namespace Advances

variable {s s₁ s' : TokenStream} {xs ys : Outcomes}

theorem trans (h : Advances s xs s₁) (h' : Advances s₁ ys s') : Advances s (xs ++ ys) s' := by
  induction h with
  | nil s => exact h'
  | cons hfirst hrest ih => exact .cons hfirst (ih h')

/-- Nothing is lost, repeated or out of order. -/
theorem inOrder (h : Advances s xs s') (hs : Ready s) : handed xs ++ s'.pending = s.pending := by
  induction h with
  | nil s => rfl
  | @cons s s₁ s' x xs hfirst hrest ih =>
    obtain ⟨hs₁, ⟨rfl, -, hpending⟩ | ⟨e, t, rfl, rfl, rfl⟩⟩ := advance_cases hs hfirst
    · rw [hpending, ← ih hs₁]
      cases s.lookahead <;> rfl
    · exact ih hs₁

/-- In front of no error no call fails. -/
theorem noError (h : Advances s xs s') (hfailure : s.failure = none) :
    NoError xs ∧ s'.failure = none := by
  induction h with
  | nil s => exact ⟨nofun, hfailure⟩
  | @cons s s₁ s' x xs hfirst hrest ih =>
    have hs : Ready s := fun e he => by rw [hfailure] at he; cases he
    obtain ⟨-, ⟨rfl, hsame, -⟩ | ⟨e, t, -, rfl, -⟩⟩ := advance_cases hs hfirst
    · obtain ⟨hok, hend⟩ := ih (hsame.trans hfailure)
      exact ⟨hok.cons, hend⟩
    · cases hfailure

end Advances

/-- What has been handed out are the first of the tokens `ts`, in order; the lookahead is the next one,
and there is none exactly when all have been handed out. -/
structure Keeps (ts : List Token) (outcomes : Outcomes) (s : TokenStream) : Prop where
  inOrder : handed outcomes ++ s.pending = ts
  next : s.lookahead = ts[(handed outcomes).length]?
  ended : s.lookahead = none ↔ handed outcomes = ts

theorem Advances.keeps {s s' : TokenStream} {xs : Outcomes} (h : Advances s xs s') (hs : Ready s) :
    Keeps s.pending xs s' := by
  have hpending := h.inOrder hs
  refine ⟨hpending, ?_, ?_⟩
  · rw [← hpending, List.getElem?_append_right (Nat.le_refl _), Nat.sub_self]
    exact List.head?_eq_getElem?
  · rw [← hpending, List.self_eq_append_right]
    exact List.head?_eq_none_iff

/-- One call has failed, and with this error: the first that tried to take the last token of all, which
has stayed. -/
inductive FailedOnce (s : TokenStream) (e : CalcError) (s' : TokenStream) : Outcomes → Prop
  | intro {before after : Outcomes} {t : Token} (hbefore : NoError before) (hafter : NoError after)
      (hlast : s.pending = handed before ++ [t])
      (hstays : Advances s (before ++ [.error e]) (ofTokens [t]))
      (hthen : Advances (ofTokens [t]) after s') : FailedOnce s e s' (before ++ .error e :: after)

/-- As long as no call has failed the error is still to come. -/
theorem Advances.failedOnce {s s' : TokenStream} {xs : Outcomes} (h : Advances s xs s')
    (hs : Ready s) {e : CalcError} (hfailure : s.failure = some e) :
    NoError xs ∧ s'.failure = some e ∨ FailedOnce s e s' xs := by
  induction h with
  | nil s => exact .inl ⟨nofun, hfailure⟩
  | @cons s s₁ s' x xs hfirst hrest ih =>
    obtain ⟨hs₁, ⟨rfl, hsame, hpending⟩ | ⟨e', t, rfl, rfl, rfl⟩⟩ := advance_cases hs hfirst
    · rcases ih hs₁ (hsame.trans hfailure) with ⟨hok, hlater⟩ | hrest
      · exact .inl ⟨hok.cons, hlater⟩
      · cases hrest with
        | @intro before after t hbefore hafter hlast hstays hthen =>
          have hlast' : s.pending = handed (.ok s.lookahead :: before) ++ [t] := by
            rw [hpending, hlast]
            cases s.lookahead <;> rfl
          have hfailed : FailedOnce s e s' ((.ok s.lookahead :: before) ++ .error e :: after) :=
            .intro hbefore.cons hafter hlast' (.cons hfirst hstays) hthen
          exact .inr hfailed
    -- The successor of the last token cannot be made; the calls that follow are on that token alone.
    · cases hfailure
      have hfailed : FailedOnce _ e s' ([] ++ .error e :: xs) :=
        .intro nofun (hrest.noError rfl).1 rfl (.cons hfirst (.nil _)) hrest
      exact .inr hfailed

/-- Once the error has surfaced it is gone. -/
theorem FailedOnce.failure {s s' : TokenStream} {e : CalcError} {xs : Outcomes}
    (h : FailedOnce s e s' xs) : s'.failure = none := by
  cases h with
  | intro hbefore hafter hlast hstays hthen => exact (hthen.noError rfl).2

/-- The failed call is the last one, if the token that it has left is still there. -/
theorem FailedOnce.at_end {s : TokenStream} {e : CalcError} {t : Token} {xs : Outcomes}
    (h : FailedOnce s e (ofTokens [t]) xs) :
    ∃ before, xs = before ++ [.error e] ∧ NoError before ∧ s.pending = handed before ++ [t] := by
  cases h with
  | @intro before after u hbefore hafter hlast hstays hthen =>
    cases hthen with
    | nil => exact ⟨before, rfl, hbefore, hlast⟩
    | cons hfirst hrest =>
      obtain ⟨-, rfl⟩ := ending_inj (r := .ok (some u)) hfirst
      have hpending := hrest.inOrder nofun
      cases (List.append_eq_nil_iff.mp hpending).2

end Parser

/-! ## A lookahead in front of a lexer at work -/

/-- Makes the next token, if there is one, and leaves the segments behind it. After an error nothing
more is made. -/
def Segment.nextToken : List Segment → Except CalcError (Option Token) × List Segment
  | [] => (.ok none, [])
  | s :: rest =>
    match s.token? with
    | .error e => (.error e, [])
    | .ok none => nextToken rest
    | .ok (some t) => (.ok (some t), rest)

theorem Segment.nextToken_cases (ss : List Segment) :
    nextToken ss = (.ok none, []) ∧ ofSegments ss = ⟨[], none⟩ ∨
    (∃ e, nextToken ss = (.error e, []) ∧ ofSegments ss = ⟨[], some e⟩) ∨
    ∃ t rest, nextToken ss = (.ok (some t), rest) ∧
      ofSegments ss = ⟨t :: (ofSegments rest).pending, (ofSegments rest).failure⟩ := by
  induction ss with
  | nil => exact .inl ⟨rfl, rfl⟩
  | cons s rest ih =>
    rcases hs : s.token? with e | _ | t
    · exact .inr (.inl ⟨e, by rw [nextToken, hs], by rw [ofSegments, hs]⟩)
    · rw [nextToken, ofSegments, hs]
      exact ih
    · exact .inr (.inr ⟨t, rest, by rw [nextToken, hs], by rw [ofSegments, hs]⟩)

namespace Parser

/-- The token that is read next, and the segments that the lexer still has to make tokens of. -/
structure Cursor where
  lookahead : Option Token
  source : List Segment

namespace Cursor

/-- A parser object at the beginning of a text. -/
def ofText (text : String) : Except CalcError Cursor :=
  match Segment.nextToken (Segment.cut 0 text.toList) with
  | (.ok o, rest) => .ok ⟨o, rest⟩
  | (.error e, _) => .error e

/-- Fetches the next token, then answers the lookahead. -/
def advance (c : Cursor) : Except CalcError (Option Token) × Cursor :=
  match Segment.nextToken c.source with
  | (.ok o, rest) => (.ok c.lookahead, ⟨o, rest⟩)
  | (.error e, rest) => (.error e, ⟨c.lookahead, rest⟩)

/-- So many calls of `advance`. -/
def advances : Nat → Cursor → Outcomes × Cursor
  | 0, c => ([], c)
  | n + 1, c => (c.advance.1 :: (advances n c.advance.2).1, (advances n c.advance.2).2)

/-- The tokens still to come. -/
def stream (c : Cursor) : TokenStream :=
  match c.lookahead with
  | none => ⟨[], none⟩
  | some t => ⟨t :: (ofSegments c.source).pending, (ofSegments c.source).failure⟩

/-- Without a lookahead there is nothing left to make tokens of. -/
def Sound (c : Cursor) : Prop := c.lookahead = none → c.source = []

variable {c : Cursor}

theorem stream_lookahead (c : Cursor) : c.stream.lookahead = c.lookahead := by
  rcases c with ⟨_ | t, source⟩ <;> rfl

theorem pending_ne_nil {e : CalcError} (h : c.stream.failure = some e) : c.stream.pending ≠ [] := by
  rcases c with ⟨_ | t, source⟩
  · cases h
  · exact List.cons_ne_nil _ _

/-- The two ways of opening a text agree. -/
theorem ofText_eq (text : String) :
    (∃ c, ofText text = .ok c ∧ c.Sound ∧ (TokenStream.ofText text).opened = .ok c.stream ∧
      TokenStream.ofText text = c.stream) ∨
    ∃ e, ofText text = .error e ∧ (TokenStream.ofText text).opened = .error e := by
  rw [TokenStream.ofText, TokenStream.ofChars, ofText]
  rcases Segment.nextToken_cases (Segment.cut 0 text.toList) with
    ⟨hnext, hstream⟩ | ⟨e, hnext, hstream⟩ | ⟨t, rest, hnext, hstream⟩
  · rw [hnext, hstream]
    exact .inl ⟨_, rfl, fun _ => rfl, rfl, rfl⟩
  · rw [hnext, hstream]
    exact .inr ⟨e, rfl, rfl⟩
  · rw [hnext, hstream]
    exact .inl ⟨_, rfl, nofun, rfl, rfl⟩

/-- What one call does: it answers the lookahead and leaves the rest of the stream, or the lexer
fails behind the last token, which stays. -/
theorem advance_cases (h : c.Sound) : c.advance.2.Sound ∧
    (c.advance.1 = .ok c.lookahead ∧ c.advance.2.stream.failure = c.stream.failure ∧
        c.stream.pending = c.lookahead.toList ++ c.advance.2.stream.pending ∨
      ∃ e t, c.advance.1 = .error e ∧ c.stream = ⟨[t], some e⟩ ∧
        c.advance.2.stream = ofTokens [t]) := by
  rcases c with ⟨lookahead, source⟩
  rw [advance]
  rcases Segment.nextToken_cases source with
    ⟨hnext, hstream⟩ | ⟨e, hnext, hstream⟩ | ⟨u, rest, hnext, hstream⟩
  · rw [hnext]
    refine ⟨fun _ => rfl, .inl ⟨rfl, ?_⟩⟩
    cases lookahead <;> simp [stream, hstream]
  · cases lookahead with
    | none =>
      cases h rfl
      cases hnext
    | some t =>
      rw [hnext]
      exact ⟨nofun, .inr ⟨e, t, rfl, by rw [stream, hstream], rfl⟩⟩
  · cases lookahead with
    | none =>
      cases h rfl
      cases hnext
    | some t =>
      rw [hnext]
      exact ⟨nofun, .inl ⟨rfl, by simp [stream, hstream]⟩⟩

theorem advance_stream (h : c.Sound) :
    Parser.advance c.stream = ending c.advance.1 c.advance.2.stream := by
  obtain ⟨-, ⟨houtcome, hfailure, hpending⟩ | ⟨e, t, houtcome, hstream, hstays⟩⟩ := advance_cases h
  · have hne {e} := pending_ne_nil (c := c.advance.2) (e := e)
    rw [houtcome]
    generalize c.advance.2.stream = s at *
    rcases c with ⟨_ | t, source⟩
    · cases s
      cases hfailure
      cases hpending
      rfl
    · obtain ⟨pending, failure⟩ := s
      simp only [stream, Option.toList, List.singleton_append, List.cons.injEq, true_and] at *
      rw [hpending, ← hfailure]
      match pending, failure with
      | [], some e => exact absurd rfl (hne rfl)
      | [], none => rfl
      | u :: pending, failure => rfl
  · rw [houtcome, hstream, hstays]
    rfl

/-- Calls on a cursor answer what calls on its stream do, and lead to the stream that these lead to. -/
theorem advances_eq (h : c.Sound) {xs : Outcomes} {s : TokenStream} (hs : Advances c.stream xs s) :
    ∃ c' : Cursor, c.advances xs.length = (xs, c') ∧ c'.stream = s := by
  generalize hstart : c.stream = start at hs
  induction hs generalizing c with
  | nil start => exact ⟨c, rfl, hstart⟩
  | cons hfirst hrest ih =>
    subst hstart
    obtain ⟨rfl, rfl⟩ := ending_inj ((advance_stream h).symm.trans hfirst)
    obtain ⟨c', hc', hs'⟩ := ih (advance_cases h).1 rfl
    refine ⟨c', ?_, hs'⟩
    rw [List.length_cons, advances, hc']

end Cursor

end Parser

end Reckoner
