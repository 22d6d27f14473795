import Reckoner.Proofs.Lexemes

/-!
# Texts put together

Two texts side by side are cut like each on its own, unless the last segment of the first runs on into
the second (`Segment.cut_append_cut`); a mark keeps what is on either side of it apart. What stands
later in a text makes the same tokens, only at later places.
-/

namespace Reckoner

open TokenStream (ofSegments)

/-! ## Later places -/

def Segment.shift (k : Nat) (s : Segment) : Segment := { s with pos := s.pos + k }

def Token.shift (k : Nat) (t : Token) : Token := { t with pos := t.pos + k }

/-- The error at a later place of the text. -/
def CalcError.shift (k : Nat) : CalcError → CalcError
  | unexpectedChar c pos => unexpectedChar c (pos + k)
  | unexpectedToken found expected => unexpectedToken (found.shift k) expected
  | e => e

def TokenStream.shift (k : Nat) (s : TokenStream) : TokenStream :=
  ⟨s.pending.map (Token.shift k), s.failure.map (CalcError.shift k)⟩

theorem Token.unplaced_shift (k : Nat) (t : Token) : (t.shift k).unplaced = t.unplaced := rfl

theorem Segment.cut_add (pos k : Nat) (cs : List Char) :
    cut (pos + k) cs = (cut pos cs).map (shift k) := by
  fun_induction cut pos cs with
  | case1 => rw [cut, List.map_nil]
  | case2 pos c cs cls run ih =>
    rw [cut, List.map_cons, ← ih, Nat.add_right_comm]
    rfl

theorem Segment.token?_shift (k : Nat) (s : Segment) :
    (s.shift k).token? = (s.token?.mapError (CalcError.shift k)).map (Option.map (Token.shift k)) := by
  obtain ⟨cls, chars, pos⟩ := s
  cases cls with
  | blank => rfl
  | numeral =>
    simp only [token?, shift]
    cases h : Number.ofLiteral chars with
    | ok v => rfl
    | error e => rcases Number.error_of_ofLiteral h with rfl | ⟨n, rfl⟩ <;> rfl
  | word =>
    simp only [token?, shift]
    cases MathFunction.ofName? (String.ofList chars) <;> rfl
  | single =>
    simp only [token?, shift]
    cases punctuation? (chars.headD ' ') <;> rfl

theorem TokenStream.ofSegments_shift (k : Nat) (ss : List Segment) :
    ofSegments (ss.map (Segment.shift k)) = (ofSegments ss).shift k := by
  induction ss with
  | nil => rfl
  | cons s ss ih =>
    rw [List.map_cons, ofSegments, ofSegments, Segment.token?_shift, ih]
    rcases s.token? with e | _ | t <;> rfl

theorem TokenStream.ofSegments_cut (pos : Nat) (cs : List Char) :
    ofSegments (Segment.cut pos cs) = (ofSegments (Segment.cut 0 cs)).shift pos := by
  rw [← ofSegments_shift, ← Segment.cut_add, Nat.zero_add]

/-! ## Seams -/

/-- The first text is cut as if it were alone if its last segment does not run on. -/
theorem Segment.cut_append_cut {pos : Nat} {cs ds : List Char}
    (h : ∀ s ∈ (cut pos cs).getLast?, ∀ d ∈ ds.head?, s.cls.extends? d = false) :
    cut pos (cs ++ ds) = cut pos cs ++ cut (pos + cs.length) ds := by
  fun_induction cut pos cs with
  | case1 => rfl
  | case2 pos c cs cls run ih =>
    have hrun : ∀ d ∈ cs.takeWhile cls.extends?, cls.extends? d = true :=
      List.all_eq_true.mp List.all_takeWhile
    have hrest : ∀ d ∈ (cs.dropWhile cls.extends? ++ ds).head?, cls.extends? d = false := by
      intro d hd
      cases hdrop : cs.dropWhile cls.extends? with
      | nil =>
        rw [hdrop] at hd h
        exact h _ (by rw [cut]; rfl) d hd
      | cons u us =>
        rw [hdrop] at hd
        cases hd
        have hhead := List.head?_dropWhile_not cls.extends? cs
        rw [hdrop] at hhead
        simpa using hhead
    have hlength : pos + run.length + (cs.dropWhile cls.extends?).length =
        pos + (c :: cs).length := by
      have hcs := congrArg List.length (List.takeWhile_append_dropWhile (p := cls.extends?) (l := cs))
      rw [List.length_append] at hcs
      simp only [run, List.length_cons]
      omega
    have hlast : ∀ s ∈ (cut (pos + run.length) (cs.dropWhile cls.extends?)).getLast?,
        ∀ d ∈ ds.head?, s.cls.extends? d = false := by
      intro s hs
      apply h
      rw [List.getLast?_cons, Option.mem_def.mp hs]
      rfl
    have hsplit : c :: cs ++ ds =
        c :: (cs.takeWhile cls.extends? ++ (cs.dropWhile cls.extends? ++ ds)) := by
      rw [← List.append_assoc, List.takeWhile_append_dropWhile]
      rfl
    rw [hsplit, cut_append hrun hrest, List.cons_append, ← hlength, ← ih hlast]

/-- A mark ends the segment in front of it and is one itself. -/
theorem Segment.cut_mark {m : Char} (hm : CharClass.of m = .single) (pos : Nat)
    (cs ds : List Char) : cut pos (cs ++ m :: ds) =
      cut pos cs ++ ⟨.single, [m], pos + cs.length⟩ :: cut (pos + cs.length + 1) ds := by
  have hmark : cut (pos + cs.length) (m :: ds) =
      ⟨.single, [m], pos + cs.length⟩ :: cut (pos + cs.length + 1) ds := by
    have hds : ∀ d ∈ ds.head?, (CharClass.of m).extends? d = false := by
      rw [hm]
      exact fun _ _ => rfl
    have h := @cut_append m [] ds nofun hds (pos + cs.length)
    rw [hm] at h
    exact h
  rw [cut_append_cut, hmark]
  rintro s - d hd
  cases hd
  exact CharClass.not_extends_of_single hm _

/-- The tokens of the one and then those of the other, if the first breaks off at its end only. -/
def TokenStream.andThen (s s' : TokenStream) : TokenStream :=
  match s.failure with
  | none => ⟨s.pending ++ s'.pending, s'.failure⟩
  | some _ => s

/-- Segments behind others make their tokens, unless those before them fail. -/
theorem TokenStream.ofSegments_append (ss ss' : List Segment) :
    ofSegments (ss ++ ss') = (ofSegments ss).andThen (ofSegments ss') := by
  induction ss with
  | nil => rfl
  | cons s ss ih =>
    rw [List.cons_append, ofSegments, ofSegments]
    cases s.token? with
    | error e => rfl
    | ok o =>
      cases o with
      | none => exact ih
      | some t =>
        simp only [ih, andThen]
        generalize ofSegments ss = stream
        obtain ⟨pending, failure⟩ := stream
        cases failure <;> rfl

end Reckoner
