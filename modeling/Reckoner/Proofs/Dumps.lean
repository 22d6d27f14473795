import Reckoner.Proofs.NumberTexts
import Reckoner.Proofs.Outcome
import Reckoner.Proofs.Writing

/-!
# Dumps determine the tree

A tree that is parsed from tokens of a text can be read off both of its dumps. The one on one line is
decoded from the left: the first letter says what the root is, and every operand ends where its text
says so (`Expr.Writable.inspect_append_inj`). In the indented dump nothing marks the end of the arguments
of a call but the next line, which is indented less (`Expr.Writable.dumpLines_append_inj`).
-/

namespace Reckoner

open TokenStream (ofText)

/-! ## Texts on one line -/

theorem Number.toList_inspect (v : Number) : v.inspect.toList =
    (if v.isInt then "Integer(" else "Float(").toList ++ (v.text.toList ++ [')']) := by
  cases v <;> simp [inspect, isInt]

theorem Number.isInt_of_inspect {v w : Number} {rest rest' : List Char}
    (h : v.inspect.toList ++ rest = w.inspect.toList ++ rest') : v.isInt = w.isInt := by
  rw [toList_inspect, toList_inspect] at h
  cases hv : v.isInt <;> cases hw : w.isInt
  · rfl
  · rw [hv, hw] at h
    cases List.head_eq_of_cons_eq h
  · rw [hv, hw] at h
    cases List.head_eq_of_cons_eq h
  · rfl

/-- A number can be told from what follows it. -/
theorem Number.inspect_append_inj {v w : Number} (hv : v.Valid) (hw : w.Valid) (hv' : v.Unsigned)
    (hw' : w.Unsigned) {rest rest' : List Char}
    (h : v.inspect.toList ++ rest = w.inspect.toList ++ rest') : v = w ∧ rest = rest' := by
  have hclosing {u : Number} (hu : u.Valid) : ')' ∉ u.text.toList := by
    intro hmem
    have hchar := isTextChar_of_mem hu _ hmem
    simp [IsTextChar] at hchar
  have hkind := isInt_of_inspect h
  rw [toList_inspect, toList_inspect, hkind] at h
  simp only [List.append_assoc, List.append_cancel_left_eq] at h
  obtain ⟨htext, hrest⟩ := append_mark_inj (hclosing hv) (hclosing hw) h
  exact ⟨eq_of_text hv hw hv' hw' hkind (String.toList_inj.mp htext), hrest⟩

/-- The text needs no escapes between its quotes. -/
def Text.Bare (s : String) : Prop :=
  (quoted s).toList = '\'' :: (s.toList ++ ['\'']) ∧ '\'' ∉ s.toList

theorem Text.Bare.append_inj {s s' : String} (hs : Text.Bare s) (hs' : Text.Bare s')
    {rest rest' : List Char} (h : (quoted s).toList ++ rest = (quoted s').toList ++ rest') :
    s = s' ∧ rest = rest' := by
  rw [hs.1, hs'.1] at h
  simp only [List.cons_append, List.append_assoc, List.nil_append, List.cons.injEq, true_and] at h
  obtain ⟨htext, hrest⟩ := append_mark_inj hs.2 hs'.2 h
  exact ⟨String.toList_inj.mp htext, hrest⟩

theorem Operator.bare_symbol (op : Operator) : Text.Bare op.symbol := by
  cases op <;> exact ⟨rfl, by decide⟩

theorem MathFunction.bare_name (f : MathFunction) : Text.Bare f.name := by
  cases f <;> exact ⟨rfl, by decide⟩

/-! ## Trees on one line -/

namespace Expr

/-- The letter with which the text of a tree begins. -/
def initial : Expr → Char
  | literal _ => 'L'
  | binary .. => 'B'
  | call .. => 'F'
  | negate _ => 'N'

theorem exists_inspect_eq (e : Expr) : ∃ cs, e.inspect.toList = e.initial :: cs := by
  cases e <;> simp only [inspect, String.toList_append, List.append_assoc] <;> exact ⟨_, rfl⟩

theorem initial_of_inspect {e f : Expr} {rest rest' : List Char}
    (h : e.inspect.toList ++ rest = f.inspect.toList ++ rest') : e.initial = f.initial := by
  obtain ⟨cs, he⟩ := e.exists_inspect_eq
  obtain ⟨cs', hf⟩ := f.exists_inspect_eq
  rw [he, hf] at h
  exact List.head_eq_of_cons_eq h

/-- The text of the tree can be told from what follows it. -/
def Decodes (e : Expr) : Prop :=
  ∀ {f : Expr}, f.Writable → ∀ {rest rest' : List Char},
    e.inspect.toList ++ rest = f.inspect.toList ++ rest' → e = f ∧ rest = rest'

theorem inspectMore_append_inj {es es' : List Expr} (hes : ∀ e ∈ es, e.Decodes)
    (hes' : ∀ e ∈ es', e.Writable) {rest rest' : List Char}
    (h : (inspectMore es).toList ++ ')' :: rest = (inspectMore es').toList ++ ')' :: rest') :
    es = es' ∧ rest = rest' := by
  induction es generalizing es' with
  | nil =>
    cases es' with
    | nil => simpa [inspectMore] using h
    | cons e' es' => simp [inspectMore] at h
  | cons e es ih =>
    cases es' with
    | nil => simp [inspectMore] at h
    | cons e' es' =>
      rw [List.forall_mem_cons] at hes hes'
      simp only [inspectMore, String.toList_append, List.append_assoc,
        List.append_cancel_left_eq] at h
      obtain ⟨rfl, hmore⟩ := hes.1 hes'.1 h
      obtain ⟨rfl, rfl⟩ := ih hes.2 hes'.2 hmore
      exact ⟨rfl, rfl⟩

theorem inspectArgs_cons (e : Expr) (es : List Expr) :
    inspectArgs (e :: es) = e.inspect ++ if es = [] then "," else inspectMore es := by
  cases es <;> simp [inspectArgs]

/-- Arguments begin with a letter. -/
theorem inspectArgs_cons_ne (e : Expr) (es : List Expr) (rest rest' : List Char) :
    (inspectArgs (e :: es)).toList ++ rest ≠ ')' :: rest' := by
  obtain ⟨cs, he⟩ := e.exists_inspect_eq
  rw [inspectArgs_cons, String.toList_append, he]
  cases e <;> simp [initial]

theorem inspectArgs_append_inj {es es' : List Expr} (hes : ∀ e ∈ es, e.Decodes)
    (hes' : ∀ e ∈ es', e.Writable) {rest rest' : List Char}
    (h : (inspectArgs es).toList ++ ')' :: rest = (inspectArgs es').toList ++ ')' :: rest') :
    es = es' ∧ rest = rest' := by
  cases es with
  | nil =>
    cases es' with
    | nil => exact inspectMore_append_inj hes hes' h
    | cons e' es' => exact absurd h.symm (inspectArgs_cons_ne e' es' _ _)
  | cons e es =>
    cases es' with
    | nil => exact absurd h (inspectArgs_cons_ne e es _ _)
    | cons e' es' =>
      rw [List.forall_mem_cons] at hes hes'
      simp only [inspectArgs_cons, String.toList_append, List.append_assoc] at h
      obtain ⟨rfl, hmore⟩ := hes.1 hes'.1 h
      -- Behind the comma of a single argument stands the parenthesis, behind any other a blank.
      cases es with
      | nil =>
        cases es' with
        | nil => exact ⟨rfl, List.tail_eq_of_cons_eq (List.append_cancel_left hmore)⟩
        | cons e₂' es' => simp [inspectMore] at hmore
      | cons e₂ es =>
        cases es' with
        | nil => simp [inspectMore] at hmore
        | cons e₂' es' =>
          obtain ⟨hargs, hrest⟩ := inspectMore_append_inj hes.2 hes'.2 hmore
          rw [hargs]
          exact ⟨rfl, hrest⟩

theorem Writable.decodes {e : Expr} (he : e.Writable) : e.Decodes := by
  induction he with
  | literal hvalid hunsigned =>
    intro f hf rest rest' h
    have hinitial := initial_of_inspect h
    cases hf with
    | literal hvalid' hunsigned' =>
      simp only [inspect, Payload.inspect, String.toList_append, List.append_assoc,
        List.append_cancel_left_eq] at h
      obtain ⟨rfl, hrest⟩ := Number.inspect_append_inj hvalid hvalid' hunsigned hunsigned' h
      exact ⟨rfl, List.append_cancel_left hrest⟩
    | binary | call | negate => cases hinitial
  | binary op _ _ ihl ihr =>
    intro f hf rest rest' h
    have hinitial := initial_of_inspect h
    cases hf with
    | binary op' hl' hr' =>
      simp only [inspect, String.toList_append, List.append_assoc,
        List.append_cancel_left_eq] at h
      obtain ⟨hop, hoperands⟩ := op.bare_symbol.append_inj op'.bare_symbol h
      obtain ⟨rfl, hright⟩ := ihl hl' (List.append_cancel_left hoperands)
      obtain ⟨rfl, hrest⟩ := ihr hr' (List.append_cancel_left hright)
      rw [hop]
      exact ⟨rfl, List.append_cancel_left hrest⟩
    | literal | call | negate => cases hinitial
  | call f _ _ ih =>
    intro f' hf rest rest' h
    have hinitial := initial_of_inspect h
    cases hf with
    | call f' _ hargs' =>
      simp only [inspect, String.toList_append, List.append_assoc,
        List.append_cancel_left_eq] at h
      obtain ⟨hname, hargs⟩ := f.bare_name.append_inj f'.bare_name h
      obtain ⟨rfl, hrest⟩ := inspectArgs_append_inj ih hargs' (List.append_cancel_left hargs)
      rw [hname]
      exact ⟨rfl, List.tail_eq_of_cons_eq hrest⟩
    | literal | binary | negate => cases hinitial
  | negate _ ih =>
    intro f hf rest rest' h
    have hinitial := initial_of_inspect h
    cases hf with
    | negate hf' =>
      simp only [inspect, String.toList_append, List.append_assoc,
        List.append_cancel_left_eq] at h
      obtain ⟨rfl, hrest⟩ := ih hf' h
      exact ⟨rfl, List.append_cancel_left hrest⟩
    | literal | binary | call => cases hinitial

end Expr

/-! ## Labels -/

/-- A label begins with something else than a space and takes up one line. -/
def IsLabel (s : String) : Prop := (∃ c cs, s.toList = c :: cs ∧ c ≠ ' ') ∧ '\n' ∉ s.toList

theorem Number.isLabel_inspect {v : Number} (hv : v.Valid) : IsLabel v.inspect := by
  have htext : '\n' ∉ v.text.toList := by
    intro hmem
    have hchar := isTextChar_of_mem hv _ hmem
    simp [IsTextChar] at hchar
  rw [IsLabel, toList_inspect]
  cases v.isInt <;> simp [htext]

theorem Number.second_inspect (v : Number) :
    v.inspect.toList[1]? = some (if v.isInt then 'n' else 'l') := by
  rw [toList_inspect]
  cases v.isInt <;> simp

theorem Operator.isLabel (op : Operator) : IsLabel ("BinaryOp " ++ Text.quoted op.symbol) := by
  cases op <;> exact ⟨⟨'B', _, rfl, by decide⟩, by decide⟩

theorem MathFunction.isLabel (f : MathFunction) : IsLabel ("FunctionCall " ++ f.name) := by
  cases f <;> exact ⟨⟨'F', _, rfl, by decide⟩, by decide⟩

theorem isLabel_negate : IsLabel "Negate" := ⟨⟨'N', _, rfl, by decide⟩, by decide⟩

namespace Expr

theorem Writable.isLabel {e : Expr} (he : e.Writable) : IsLabel e.label := by
  cases he with
  | literal hvalid => exact Number.isLabel_inspect hvalid
  | binary op => exact op.isLabel
  | call f => exact f.isLabel
  | negate => exact isLabel_negate

/-- The roots are the same, whatever their operands are. -/
def SameRoot : Expr → Expr → Prop
  | literal p, literal q => p = q
  | binary op _ _, binary op' _ _ => op = op'
  | call f _, call f' _ => f = f'
  | negate _, negate _ => True
  | _, _ => False

theorem Writable.sameRoot_of_label {e f : Expr} (he : e.Writable) (hf : f.Writable)
    (h : e.label = f.label) : e.SameRoot f := by
  -- The second letter of a label tells what the root is.
  have hletter := congrArg (·.toList[1]?) h
  cases he with
  | @literal v hvalid hunsigned =>
    cases hf with
    | @literal w hvalid' hunsigned' =>
      have hinspect : v.inspect.toList ++ [] = w.inspect.toList ++ [] :=
        congrArg (·.toList ++ []) h
      exact congrArg Payload.number
        (Number.inspect_append_inj hvalid hvalid' hunsigned hunsigned' hinspect).1
    | binary | call | negate =>
      simp [label, Payload.inspect, Number.second_inspect] at hletter
      grind
  | binary op =>
    cases hf with
    | literal =>
      simp [label, Payload.inspect, Number.second_inspect] at hletter
      grind
    | binary op' =>
      have hquoted := congrArg (·.toList) h
      simp only [label, String.toList_append, List.append_cancel_left_eq] at hquoted
      exact (op.bare_symbol.append_inj op'.bare_symbol (congrArg (· ++ []) hquoted)).1
    | call | negate => simp [label] at hletter
  | call f =>
    cases hf with
    | literal =>
      simp [label, Payload.inspect, Number.second_inspect] at hletter
      grind
    | call f' =>
      have hname := congrArg (·.toList) h
      simp only [label, String.toList_append, List.append_cancel_left_eq] at hname
      exact String.toList_inj.mp hname
    | binary | negate => simp [label] at hletter
  | negate =>
    cases hf with
    | literal =>
      simp [label, Payload.inspect, Number.second_inspect] at hletter
      grind
    | negate => trivial
    | binary | call => simp [label] at hletter

/-! ## Lines -/

theorem toList_dumpLine (k : Nat) (s : String) : (dumpLine k s).toList =
    List.replicate (indentWidth * k) ' ' ++ (s.toList ++ ['\n']) := by
  simp [dumpLine]

/-- The depth of a line is that of its indentation. -/
theorem dumpLine_inj {k k' : Nat} {s s' : String} (hs : IsLabel s) (hs' : IsLabel s')
    (h : dumpLine k s = dumpLine k' s') : k = k' ∧ s = s' := by
  have hspaces (n : Nat) : ∀ c ∈ List.replicate n ' ', (c == ' ') = true := by simp
  have hlabel {s : String} (hs : IsLabel s) :
      ∀ c ∈ (s.toList ++ ['\n']).head?, (c == ' ') = false := by
    obtain ⟨⟨c, cs, hs, hc⟩, -⟩ := hs
    simpa [hs] using hc
  have hlines := congrArg String.toList h
  rw [toList_dumpLine, toList_dumpLine] at hlines
  have hindent := congrArg (·.takeWhile (· == ' ')) hlines
  have hrest := congrArg (·.dropWhile (· == ' ')) hlines
  simp only [takeWhile_run (hspaces _) (hlabel hs),
    takeWhile_run (hspaces _) (hlabel hs')] at hindent
  simp only [dropWhile_run (hspaces _) (hlabel hs), dropWhile_run (hspaces _) (hlabel hs')] at hrest
  have hwidth := congrArg List.length hindent
  simp [indentWidth] at hwidth
  exact ⟨hwidth, String.toList_inj.mp (List.append_cancel_right hrest)⟩

/-- The text ends with its only line feed. -/
def IsLine (s : String) : Prop := ∃ cs, s.toList = cs ++ ['\n'] ∧ '\n' ∉ cs

theorem isLine_dumpLine (k : Nat) {s : String} (hs : IsLabel s) : IsLine (dumpLine k s) := by
  refine ⟨List.replicate (indentWidth * k) ' ' ++ s.toList, ?_, ?_⟩
  · rw [toList_dumpLine, List.append_assoc]
  · simp [hs.2]

/-- Lines can be told from each other in the whole text. -/
theorem join_inj {lines lines' : List String} (h : ∀ s ∈ lines, IsLine s)
    (h' : ∀ s ∈ lines', IsLine s) (heq : String.join lines = String.join lines') :
    lines = lines' := by
  induction lines generalizing lines' with
  | nil =>
    cases lines' with
    | nil => rfl
    | cons s' lines' =>
      obtain ⟨cs, hs, -⟩ := h' s' List.mem_cons_self
      have hchars := congrArg String.toList heq
      simp [hs] at hchars
  | cons s lines ih =>
    rw [List.forall_mem_cons] at h
    obtain ⟨⟨cs, hs, hcs⟩, hlines⟩ := h
    cases lines' with
    | nil =>
      have hchars := congrArg String.toList heq
      simp [hs] at hchars
    | cons s' lines' =>
      rw [List.forall_mem_cons] at h'
      obtain ⟨⟨cs', hs', hcs'⟩, hlines'⟩ := h'
      have hchars := congrArg String.toList heq
      simp only [String.join_cons, String.toList_append, hs, hs', List.append_assoc,
        List.singleton_append] at hchars
      obtain ⟨rfl, hrest⟩ := append_mark_inj hcs hcs' hchars
      rw [String.toList_inj.mp (hs.trans hs'.symm), ih hlines hlines' (String.toList_inj.mp hrest)]

/-! ## Indented trees -/

theorem exists_dumpLines_eq (k : Nat) (e : Expr) :
    ∃ lines, dumpLines k e = dumpLine k e.label :: lines := by
  cases e <;> simp [dumpLines]

theorem isLine_dumpArgs {k : Nat} {es : List Expr}
    (h : ∀ e ∈ es, ∀ s ∈ dumpLines k e, IsLine s) : ∀ s ∈ dumpArgs k es, IsLine s := by
  induction es with
  | nil => simp [dumpArgs]
  | cons e es ih =>
    rw [List.forall_mem_cons] at h
    rw [dumpArgs, List.forall_mem_append]
    exact ⟨h.1, ih h.2⟩

theorem Writable.isLine {e : Expr} (he : e.Writable) (k : Nat) : ∀ s ∈ dumpLines k e, IsLine s := by
  have hroot := isLine_dumpLine k he.isLabel
  induction he generalizing k with
  | literal =>
    rw [dumpLines, List.forall_mem_singleton]
    exact hroot
  | binary op hl hr ihl ihr =>
    rw [dumpLines, List.forall_mem_cons, List.forall_mem_append]
    exact ⟨hroot, ihl _ (isLine_dumpLine _ hl.isLabel), ihr _ (isLine_dumpLine _ hr.isLabel)⟩
  | call f _ hargs ih =>
    rw [dumpLines, List.forall_mem_cons]
    refine ⟨hroot, isLine_dumpArgs fun a ha => ?_⟩
    exact ih a ha _ (isLine_dumpLine _ (hargs a ha).isLabel)
  | negate h ih =>
    rw [dumpLines, List.forall_mem_cons]
    exact ⟨hroot, ih _ (isLine_dumpLine _ h.isLabel)⟩

/-- The first of the lines, if there is one, is indented by at most `k` levels. -/
def Shallow (k : Nat) (lines : List String) : Prop :=
  ∀ line ∈ lines.head?, ∃ j s, j ≤ k ∧ IsLabel s ∧ line = dumpLine j s

theorem shallow_nil (k : Nat) : Shallow k [] := by
  simp [Shallow]

theorem Shallow.succ {k : Nat} {lines : List String} (h : Shallow k lines) :
    Shallow (k + 1) lines := by
  intro line hline
  obtain ⟨j, s, hj, hs⟩ := h line hline
  exact ⟨j, s, Nat.le_succ_of_le hj, hs⟩

theorem Writable.shallow {e : Expr} (he : e.Writable) (k : Nat) (rest : List String) :
    Shallow k (dumpLines k e ++ rest) := by
  obtain ⟨lines, hlines⟩ := exists_dumpLines_eq k e
  rw [hlines]
  rintro line ⟨⟩
  exact ⟨k, e.label, Nat.le_refl k, he.isLabel, rfl⟩

/-- The lines of the tree can be told from what follows them, unless that is indented like operands. -/
def DecodesLines (e : Expr) : Prop :=
  ∀ {f : Expr}, f.Writable → ∀ {k : Nat} {rest rest' : List String}, Shallow k rest →
    Shallow k rest' → dumpLines k e ++ rest = dumpLines k f ++ rest' → e = f ∧ rest = rest'

/-- What follows the arguments of a call is indented less than they are. -/
theorem dumpArgs_append_inj {es es' : List Expr} (hes : ∀ e ∈ es, e.DecodesLines)
    (hwritable : ∀ e ∈ es, e.Writable) (hes' : ∀ e ∈ es', e.Writable) {k : Nat}
    {rest rest' : List String} (hrest : Shallow k rest) (hrest' : Shallow k rest')
    (h : dumpArgs (k + 1) es ++ rest = dumpArgs (k + 1) es' ++ rest') :
    es = es' ∧ rest = rest' := by
  have hnone {e : Expr} (he : e.Writable) {es : List Expr} {rest rest' : List String}
      (hrest : Shallow k rest) : rest ≠ dumpArgs (k + 1) (e :: es) ++ rest' := by
    rintro rfl
    obtain ⟨lines, hlines⟩ := exists_dumpLines_eq (k + 1) e
    rw [dumpArgs, hlines] at hrest
    obtain ⟨j, s, hj, hs, hline⟩ := hrest _ rfl
    have hdepth := (dumpLine_inj he.isLabel hs hline).1
    omega
  have hdeeper {es : List Expr} (hes : ∀ e ∈ es, e.Writable) {rest : List String}
      (hrest : Shallow k rest) : Shallow (k + 1) (dumpArgs (k + 1) es ++ rest) := by
    cases es with
    | nil => exact hrest.succ
    | cons e es =>
      rw [dumpArgs, List.append_assoc]
      exact (hes e List.mem_cons_self).shallow (k + 1) _
  induction es generalizing es' with
  | nil =>
    cases es' with
    | nil => exact ⟨rfl, h⟩
    | cons e' es' => exact absurd h (hnone (hes' e' List.mem_cons_self) hrest)
  | cons e es ih =>
    cases es' with
    | nil => exact absurd h.symm (hnone (hwritable e List.mem_cons_self) hrest')
    | cons e' es' =>
      rw [List.forall_mem_cons] at hes hwritable hes'
      rw [dumpArgs, dumpArgs, List.append_assoc, List.append_assoc] at h
      obtain ⟨rfl, hmore⟩ :=
        hes.1 hes'.1 (hdeeper hwritable.2 hrest) (hdeeper hes'.2 hrest') h
      obtain ⟨rfl, rfl⟩ := ih hes.2 hwritable.2 hes'.2 hmore
      exact ⟨rfl, rfl⟩

/-- By induction over the tree: what follows its lines is not indented like its operands. -/
theorem Writable.decodesLines {e : Expr} (he : e.Writable) : e.DecodesLines := by
  have hroot {e f : Expr} (he : e.Writable) (hf : f.Writable) {k : Nat} {rest rest' : List String}
      (h : dumpLines k e ++ rest = dumpLines k f ++ rest') : e.SameRoot f := by
    obtain ⟨lines, hlines⟩ := exists_dumpLines_eq k e
    obtain ⟨lines', hlines'⟩ := exists_dumpLines_eq k f
    rw [hlines, hlines'] at h
    exact he.sameRoot_of_label hf (dumpLine_inj he.isLabel hf.isLabel (List.head_eq_of_cons_eq h)).2
  induction he with
  | literal hvalid hunsigned =>
    intro f hf k rest rest' hrest hrest' h
    have hsame := hroot (.literal hvalid hunsigned) hf h
    cases hf with
    | literal =>
      cases hsame
      exact ⟨rfl, List.append_cancel_left h⟩
    | binary | call | negate => exact hsame.elim
  | binary op hl hr ihl ihr =>
    intro f hf k rest rest' hrest hrest' h
    have hsame := hroot (.binary op hl hr) hf h
    cases hf with
    | binary op' hl' hr' =>
      have hop : op.symbol = op'.symbol := hsame
      simp only [dumpLines, List.cons_append, List.append_assoc] at h
      obtain ⟨rfl, hright⟩ := ihl hl' (hr.shallow _ _) (hr'.shallow _ _) (List.tail_eq_of_cons_eq h)
      obtain ⟨rfl, hbehind⟩ := ihr hr' hrest.succ hrest'.succ hright
      rw [hop]
      exact ⟨rfl, hbehind⟩
    | literal | call | negate => exact hsame.elim
  | call f harity hargs ih =>
    intro f' hf k rest rest' hrest hrest' h
    have hsame := hroot (.call f harity hargs) hf h
    cases hf with
    | call f' _ hargs' =>
      have hname : f.name = f'.name := hsame
      simp only [dumpLines, List.cons_append] at h
      obtain ⟨rfl, hbehind⟩ :=
        dumpArgs_append_inj ih hargs hargs' hrest hrest' (List.tail_eq_of_cons_eq h)
      rw [hname]
      exact ⟨rfl, hbehind⟩
    | literal | binary | negate => exact hsame.elim
  | negate he ih =>
    intro f hf k rest rest' hrest hrest' h
    have hsame := hroot (.negate he) hf h
    cases hf with
    | negate hf' =>
      simp only [dumpLines, List.cons_append] at h
      obtain ⟨rfl, hbehind⟩ := ih hf' hrest.succ hrest'.succ (List.tail_eq_of_cons_eq h)
      exact ⟨rfl, hbehind⟩
    | literal | binary | call => exact hsame.elim

/-! ## Trees and their dumps -/

theorem Writable.beq_self {e : Expr} (he : e.Writable) : (e == e) = true := by
  induction he with
  | literal hvalid => exact Number.beq_self hvalid
  | binary op _ _ ihl ihr => exact beq_binary op.symbol ihl ihr
  | call f _ _ ih => exact beq_call f.name (List.forall₂_same.mpr ih)
  | negate _ ih => exact ih

theorem Writable.args {f : String} {args : List Expr} (h : (Expr.call f args).Writable) :
    ∀ a ∈ args, a.Writable := by
  cases h with
  | call _ _ hargs => exact hargs

theorem Writable.operands {op : String} {l r : Expr} (h : (Expr.binary op l r).Writable) :
    l.Writable ∧ r.Writable := by
  cases h with
  | binary _ hl hr => exact ⟨hl, hr⟩

/-- Two zeros are equal, but only one of them can be written as a literal. -/
theorem Writable.eq_of_beq {e f : Expr} (he : e.Writable) (hf : f.Writable)
    (h : (e == f) = true) : e = f := by
  have hequal := equalTo_of_beq h
  induction he generalizing f with
  | literal hvalid hunsigned =>
    obtain ⟨q, rfl, hq⟩ := hequal
    cases hf with
    | literal hvalid' hunsigned' =>
      rw [(Number.beq_iff_eq hvalid hvalid' hunsigned hunsigned').mp hq]
  | binary op _ _ ihl ihr =>
    obtain ⟨l', r', rfl, hl, hr⟩ := hequal
    obtain ⟨hl', hr'⟩ := hf.operands
    rw [ihl hl' hl (equalTo_of_beq hl), ihr hr' hr (equalTo_of_beq hr)]
  | call f hargs _ ih =>
    obtain ⟨args', rfl, hargs⟩ := hequal
    have heq : List.Forall₂ Eq _ args' :=
      forall₂_of_mem hargs ih hf.args fun hab ha hb => ha hb hab (equalTo_of_beq hab)
    rw [List.forall₂_eq_eq_eq] at heq
    rw [heq]
  | negate _ ih =>
    obtain ⟨e', rfl, he'⟩ := hequal
    cases hf with
    | negate hf => rw [ih hf he' (equalTo_of_beq he')]

section Writable

variable {e f : Expr} (he : e.Writable) (hf : f.Writable)

include he hf

theorem Writable.eq_of_inspect (h : e.inspect = f.inspect) : e = f :=
  (he.decodes hf (congrArg (·.toList ++ []) h)).1

theorem Writable.eq_of_dump (h : e.dump = f.dump) : e = f := by
  have hlines := join_inj (he.isLine 0) (hf.isLine 0) h
  exact (he.decodesLines hf (shallow_nil 0) (shallow_nil 0) (congrArg (· ++ []) hlines)).1

end Writable

end Expr

/-- The parser makes the tree, of tokens that the lexer has made before, or of those of a text while it
reads them. -/
inductive Expr.Parsed : Expr → Prop
  | tokens {limit : Nat} {ts : List Token} {e : Expr}
      (hts : ∀ t ∈ ts, ∃ text, t ∈ (ofText text).pending) (h : parseTokens limit ts = .ok e) :
      Parsed e
  | text {limit : Nat} {text : String} {e : Expr} (h : parseText limit text = .ok e) : Parsed e

/-- The literals of such a tree are numbers without a sign. -/
theorem Expr.Parsed.writable {e : Expr} (he : e.Parsed) : e.Writable := by
  obtain ⟨ts, hts, htree⟩ : ∃ ts, (∀ t ∈ ts, ∃ text, t ∈ (ofText text).pending) ∧
      Spells .expr ts e := by
    cases he with
    | tokens hts h => exact ⟨_, hts, TokenStream.spells_of_parse h⟩
    | text h => exact ⟨_, fun t ht => ⟨_, ht⟩, TokenStream.spells_of_parse h⟩
  refine htree.hereditary ⟨.binary, .call, .negate⟩ fun t ht hkind => ?_
  obtain ⟨text, htext⟩ := hts t ht
  obtain ⟨s, -, hs⟩ := TokenStream.exists_segment htext
  obtain ⟨v, hv, hliteral⟩ := Segment.literal_of_token? hs hkind
  rw [hv]
  exact .literal (Number.valid_of_ofLiteral hliteral) (Number.unsigned_of_ofLiteral hliteral)

/-- **The dumps determine the tree.** Trees that the parser makes are equal exactly if their texts on one
line are the same, and exactly if their indented dumps are. -/
theorem dumps_determine_tree {e f : Expr} (he : e.Parsed) (hf : f.Parsed) :
    [(e == f) = true, e = f, e.inspect = f.inspect, e.dump = f.dump].TFAE := by
  have he := he.writable
  have hf := hf.writable
  tfae_have 1 → 2 := he.eq_of_beq hf
  tfae_have 2 → 1 := by
    rintro rfl
    exact he.beq_self
  tfae_have 2 → 3 := congrArg Expr.inspect
  tfae_have 3 → 2 := he.eq_of_inspect hf
  tfae_have 2 → 4 := congrArg Expr.dump
  tfae_have 4 → 2 := he.eq_of_dump hf
  tfae_finish

/-- The parentheses of `1-(2-3)` show in both dumps. -/
theorem dumps_determine_tree_parentheses :
    let n (k : Int) : Expr := .literal (.number (.int k))
    let first := Expr.binary "-" (.binary "-" (n 1) (n 2)) (n 3)
    let second := Expr.binary "-" (n 1) (.binary "-" (n 2) (n 3))
    parseText 8 "1-2-3" = .ok first ∧ parseText 8 "1-(2-3)" = .ok second ∧
      first.inspect ≠ second.inspect ∧ first.dump ≠ second.dump := by
  intro n first second
  have hfirst : parseText 8 "1-2-3" = .ok first := by cbv
  have hsecond : parseText 8 "1-(2-3)" = .ok second := by cbv
  have hne : first ≠ second := by simp [first, second, n]
  have htfae := dumps_determine_tree (.text hfirst) (.text hsecond)
  exact ⟨hfirst, hsecond, mt (htfae.out 2 1).mp hne, mt (htfae.out 3 1).mp hne⟩

end Reckoner
