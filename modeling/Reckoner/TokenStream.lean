import Reckoner.Segment

/-!
# Token streams

The tokens of a text come in a stream that may break off: after its last token waits the error that
kept the lexer from making another one. A reader holds one token in advance, the lookahead, which is
the first of the pending tokens. Taking a token fetches its successor first, so the error surfaces
when the last token is taken: that token stays the lookahead, and the stream then ends with it.
-/

namespace Reckoner

/-- The tokens still to be read, and the error after the last of them. -/
structure TokenStream where
  pending : List Token
  failure : Option CalcError
deriving Inhabited

namespace TokenStream

/-- A complete sequence of tokens. -/
def ofTokens (ts : List Token) : TokenStream := ⟨ts, none⟩

/-- The tokens of segments, up to the first segment that makes none. -/
def ofSegments : List Segment → TokenStream
  | [] => ⟨[], none⟩
  | s :: rest =>
    match s.token? with
    | .error e => ⟨[], some e⟩
    | .ok none => ofSegments rest
    | .ok (some t) =>
      let stream := ofSegments rest
      ⟨t :: stream.pending, stream.failure⟩

/-- The tokens of a text. -/
def ofChars (cs : List Char) : TokenStream := ofSegments (Segment.cut 0 cs)

/-- The tokens of a text. -/
def ofText (text : String) : TokenStream := ofChars text.toList

/-- All tokens, or the error behind the last one. -/
def toList (s : TokenStream) : Except CalcError (List Token) :=
  match s.failure with
  | none => .ok s.pending
  | some e => .error e

/-- The stream as a reader starts on it. The first token is fetched at once, so an error before
any token is reported here. -/
def opened (s : TokenStream) : Except CalcError TokenStream :=
  match s.pending, s.failure with
  | [], some e => .error e
  | _, _ => .ok s

/-- The token that is read next. -/
def lookahead (s : TokenStream) : Option Token := s.pending.head?

end TokenStream

/-- All tokens of a text at once. -/
def tokenize (text : String) : Except CalcError (List Token) := (TokenStream.ofText text).toList

end Reckoner
