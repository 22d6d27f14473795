import Reckoner.Proofs.Lexemes
import Reckoner.Proofs.Parser.Language

/-!
# The tokens of a text

What the lexer promises: a number token holds a number that fits, and a function token names a
function. The error behind the last token is one of lexing, except for an integer literal with more
digits than are converted.
-/

namespace Reckoner

theorem Number.stage_of_ofLiteral {cs : List Char} {e : CalcError} (h : ofLiteral cs = .error e) :
    e.stage? = some .lexing ∨ ∃ n, e = .digitLimit n := by
  rcases error_of_ofLiteral h with rfl | hlimit
  · exact .inl rfl
  · exact .inr hlimit

/-- A token as the lexer makes it. -/
structure Token.Lexed (t : Token) : Prop where
  number : t.kind = .number → ∃ v, t.value = .number v ∧ v.Valid
  function : t.kind = .function → t.value.function?.isSome

theorem Segment.kind_of_punctuation? {c : Char} {kind : TokenKind}
    (h : punctuation? c = some kind) : kind ≠ .number ∧ kind ≠ .function := by
  unfold punctuation? at h
  split at h <;> cases h <;> exact ⟨nofun, nofun⟩

theorem Segment.lexed_of_token? {s : Segment} {t : Token} (h : s.token? = .ok (some t)) :
    t.Lexed := by
  unfold token? at h
  split at h
  · cases h
  · cases hv : Number.ofLiteral s.chars with
    | error e =>
      rw [hv] at h
      cases h
    | ok v =>
      rw [hv] at h
      cases h
      exact ⟨fun _ => ⟨v, rfl, Number.valid_of_ofLiteral hv⟩, nofun⟩
  · simp only at h
    split at h
    · next f hf =>
      cases h
      exact ⟨nofun, fun _ => Option.isSome_iff_exists.mpr ⟨f, hf⟩⟩
    · cases h
  · simp only at h
    split at h
    · next kind hkind =>
      cases h
      exact ⟨(absurd · (kind_of_punctuation? hkind).1), (absurd · (kind_of_punctuation? hkind).2)⟩
    · cases h

/-- A number token holds what the text of its segment is read as. -/
theorem Segment.literal_of_token? {s : Segment} {t : Token} (h : s.token? = .ok (some t))
    (hkind : t.kind = .number) : ∃ v, t.value = .number v ∧ Number.ofLiteral s.chars = .ok v := by
  unfold token? at h
  split at h
  · cases h
  · cases hv : Number.ofLiteral s.chars with
    | error e =>
      rw [hv] at h
      cases h
    | ok v =>
      rw [hv] at h
      cases h
      exact ⟨v, rfl, rfl⟩
  · simp only at h
    split at h <;> cases h
    cases hkind
  · simp only at h
    split at h
    · next kind hpunctuation =>
      cases h
      exact absurd hkind (kind_of_punctuation? hpunctuation).1
    · cases h

theorem Segment.stage_of_token? {s : Segment} {e : CalcError} (h : s.token? = .error e) :
    e.stage? = some .lexing ∨ ∃ n, e = .digitLimit n := by
  unfold token? at h
  split at h
  · cases h
  · cases hv : Number.ofLiteral s.chars with
    | error e' =>
      rw [hv] at h
      cases h
      exact Number.stage_of_ofLiteral hv
    | ok v =>
      rw [hv] at h
      cases h
  · simp only at h
    split at h <;> cases h
    exact .inl rfl
  · simp only at h
    split at h <;> cases h
    exact .inl rfl

theorem Segment.token?_eq_digitLimit_iff {s : Segment} {n : Nat} :
    s.token? = .error (.digitLimit n) ↔
      s.cls = .numeral ∧ Numeral.Overlong s.chars ∧ n = s.chars.length := by
  rw [← Number.ofLiteral_eq_digitLimit_iff]
  constructor
  · intro h
    unfold token? at h
    split at h
    · cases h
    · next hcls =>
      refine ⟨hcls, ?_⟩
      cases hv : Number.ofLiteral s.chars with
      | ok v =>
        rw [hv] at h
        cases h
      | error e =>
        rw [hv] at h
        cases h
        rfl
    · simp only at h
      split at h <;> cases h
    · simp only at h
      split at h <;> cases h
  · rintro ⟨hcls, h⟩
    rw [token?, hcls]
    simp only
    rw [h]
    rfl

namespace TokenStream

theorem exists_segment {ss : List Segment} {t : Token} (h : t ∈ (ofSegments ss).pending) :
    ∃ s ∈ ss, s.token? = .ok (some t) := by
  induction ss with
  | nil => cases h
  | cons s ss ih =>
    have hlater (h : t ∈ (ofSegments ss).pending) : ∃ s' ∈ s :: ss, s'.token? = .ok (some t) := by
      obtain ⟨s', hs', ht⟩ := ih h
      exact ⟨s', List.mem_cons_of_mem s hs', ht⟩
    unfold ofSegments at h
    split at h
    · cases h
    · exact hlater h
    · next u hu =>
      rcases List.mem_cons.mp h with rfl | h
      · exact ⟨s, List.mem_cons_self, hu⟩
      · exact hlater h

theorem lexed_ofSegments {ss : List Segment} {t : Token} (h : t ∈ (ofSegments ss).pending) :
    t.Lexed := by
  obtain ⟨s, -, hs⟩ := exists_segment h
  exact Segment.lexed_of_token? hs

/-- The error is that of the first segment that makes none. -/
theorem failure_ofSegments_iff {ss : List Segment} {e : CalcError} :
    (ofSegments ss).failure = some e ↔ ∃ before s after, ss = before ++ s :: after ∧
      (∀ b ∈ before, ∃ o, b.token? = .ok o) ∧ s.token? = .error e := by
  induction ss with
  | nil => simp [ofSegments]
  | cons s ss ih =>
    cases hs : s.token? with
    | error e' =>
      simp only [ofSegments, hs, Option.some.injEq]
      constructor
      · rintro rfl
        exact ⟨[], s, ss, rfl, fun _ hb => absurd hb List.not_mem_nil, hs⟩
      · rintro ⟨_ | ⟨b, before⟩, s', after, hss, hbefore, hs'⟩
        · cases hss
          exact Except.error.inj (hs.symm.trans hs')
        · cases hss
          obtain ⟨o, ho⟩ := hbefore s List.mem_cons_self
          cases hs.symm.trans ho
    | ok o =>
      have hfailure : (ofSegments (s :: ss)).failure = (ofSegments ss).failure := by
        cases o <;> simp only [ofSegments, hs]
      rw [hfailure, ih]
      constructor
      · rintro ⟨before, s', after, rfl, hbefore, hs'⟩
        refine ⟨s :: before, s', after, rfl, fun b hb => ?_, hs'⟩
        rcases List.mem_cons.mp hb with rfl | hb
        · exact ⟨o, hs⟩
        · exact hbefore b hb
      · rintro ⟨_ | ⟨b, before⟩, s', after, hss, hbefore, hs'⟩
        · cases hss
          cases hs.symm.trans hs'
        · cases hss
          exact ⟨before, s', after, rfl, fun b hb => hbefore b (List.mem_cons_of_mem s hb), hs'⟩

theorem namesFunctions_ofText (text : String) : NamesFunctions (ofText text).pending :=
  fun _ ht => (lexed_ofSegments ht).function

/-- The error behind the tokens of a text is one of the lexer, or that of a numeral with too many
digits. -/
theorem stage_of_failure {text : String} {e : CalcError} (h : (ofText text).failure = some e) :
    e.stage? = some .lexing ∨ ∃ n, e = .digitLimit n := by
  obtain ⟨-, s, -, -, -, hs⟩ := failure_ofSegments_iff.mp h
  exact Segment.stage_of_token? hs

end TokenStream

end Reckoner
