import Mathlib
import Reckoner.Proofs.Settings.Layers
import Reckoner.Settings.Lookup

/-!
# Rank of the sources

The value that is stored for an option comes from the source of the highest rank that sets it: the
last variable, else the file read most recently, else the built-in settings. That holds after every
sequence of readings, however often the variables have been overwritten and applied again. What is
asked for is this value, or the one of the defaults if the section exists.
-/

namespace Reckoner.Settings

/-! ## Readings -/

theorem readFile_of_none {tree : FileTree} {path : String} (h : tree.read? path = none)
    (s : Store) : (readFile tree path).run s = .ok false s := by
  unfold readFile
  rw [h]
  rfl

theorem readFile_of_some {tree : FileTree} {path text : String} (h : tree.read? path = some text)
    (s : Store) :
    (readFile tree path).run s = match (Document.read path text).fault with
      | none => .ok true (s.addDocument (Document.read path text))
      | some fault => .error fault (s.addDocument (Document.read path text)) := by
  unfold readFile
  rw [h]
  change EStateM.run (match (Document.read path text).fault with
    | none => (pure true : Loading Bool)
    | some fault => throw fault) (s.addDocument (Document.read path text)) = _
  cases (Document.read path text).fault <;> rfl

/-- The documents that paths lead to. -/
def documentsAt (tree : FileTree) (paths : List String) : List Document :=
  paths.filterMap fun path => (tree.read? path).map (Document.read path)

/-- A file that cannot be opened changes nothing. -/
theorem readMore_of_none {tree : FileTree} {path : String} (h : tree.read? path = none)
    (environment : List (String × String)) (s : Store) :
    (readMore tree environment path).run s = .error (.noFile path) s := by
  unfold readMore
  rw [bind_ok (readFile_of_none h s)]
  rfl

/-- Only files that can be opened and have no fault are read with success. -/
theorem exists_text_of_readMore {tree : FileTree} {environment : List (String × String)}
    {path : String} {s s' : Store} (h : (readMore tree environment path).run s = .ok () s') :
    ∃ text, tree.read? path = some text ∧ (Document.read path text).fault = none := by
  cases hread : tree.read? path with
  | none =>
    rw [readMore_of_none hread] at h
    cases h
  | some text =>
    refine ⟨text, rfl, ?_⟩
    obtain ⟨opened, s₁, hfile, -⟩ := exists_of_bind h
    rw [readFile_of_some hread] at hfile
    cases hfault : (Document.read path text).fault with
    | none => rfl
    | some fault =>
      rw [hfault] at hfile
      cases hfile

/-- The store holds what the variables and the documents give it, by their rank. -/
abbrev Store.Follows (s : Store) (environment : List (String × String))
    (documents : List Document) : Prop :=
  s.Holds (rankedValue? variablePlace? environment documents)
    (sourceSections environment documents)

/-- A document that is read comes above the other documents, and below the variables. -/
theorem Store.Follows.readMore {environment : List (String × String)}
    (hsettable : Settable environment) {documents : List Document} {s : Store}
    (h : s.Follows environment documents) {tree : FileTree} {path text : String}
    (hread : tree.read? path = some text) (hfault : (Document.read path text).fault = none) :
    ∃ s', (Settings.readMore tree environment path).run s = .ok () s' ∧
      s'.Follows environment (documents ++ [Document.read path text]) := by
  have hfile := readFile_of_some hread s
  rw [hfault] at hfile
  obtain ⟨s', hrun, hholds⟩ := (h.addDocument hfault).applyVariables hsettable
  refine ⟨s', (bind_ok hfile).trans hrun, hholds.congr ?_ ?_⟩
  · intro sectionName option
    simp only [rankedValue?, lastDocument?, last?_append, last?_singleton]
    -- The document is laid over what the variables had set, but they are applied again.
    cases lastVariable? variablePlace? environment sectionName option with
    | none => simp only [Option.none_or, Option.or_assoc]
    | some value => rfl
  · intro name
    simp only [sourceSections, List.flatMap_append, List.flatMap_singleton, List.mem_append]
    grind

/-- The file at a path can be opened and has no fault, or cannot be opened. -/
def WellFormedAt (tree : FileTree) (path : String) : Prop :=
  ∀ text, tree.read? path = some text → (Document.read path text).fault = none

theorem documentsAt_cons (tree : FileTree) (path : String) (rest : List String) :
    documentsAt tree (path :: rest) = documentsAt tree [path] ++ documentsAt tree rest := by
  simp only [documentsAt, ← List.filterMap_append, List.singleton_append]

theorem documentsAt_of_some {tree : FileTree} {path text : String}
    (h : tree.read? path = some text) : documentsAt tree [path] = [Document.read path text] := by
  simp [documentsAt, h]

theorem documentsAt_of_none {tree : FileTree} {path : String} (h : tree.read? path = none) :
    documentsAt tree [path] = [] := by
  simp [documentsAt, h]

/-- Files lay their values over each other in the order in which they are read. -/
theorem Store.Holds.readFiles {tree : FileTree} {paths : List String}
    (hwell : ∀ path ∈ paths, WellFormedAt tree path) {s : Store}
    {value : String → String → Option String} {sections : List String}
    (h : s.Holds value sections) :
    ∃ s', (paths.forM fun path => readFile tree path >>= fun _ => pure ()).run s = .ok () s' ∧
      s'.Holds
        (fun sectionName option =>
          (lastDocument? (documentsAt tree paths) sectionName option).or (value sectionName option))
        ((documentsAt tree paths).flatMap (·.entries.map Entry.sectionName) ++ sections) := by
  induction paths generalizing s value sections with
  | nil => exact ⟨s, rfl, h⟩
  | cons path rest ih =>
    have hrest : ∀ other ∈ rest, WellFormedAt tree other :=
      fun other hother => hwell other (List.mem_cons_of_mem _ hother)
    rw [List.forM, documentsAt_cons, bind_assoc]
    cases hread : tree.read? path with
    | none =>
      obtain ⟨s', hrun, hholds⟩ := ih hrest h
      rw [documentsAt_of_none hread]
      exact ⟨s', (bind_ok (readFile_of_none hread s)).trans hrun, hholds⟩
    | some text =>
      have hfault := hwell path List.mem_cons_self text hread
      have hfile := readFile_of_some hread s
      rw [hfault] at hfile
      obtain ⟨s', hrun, hholds⟩ := ih hrest (h.addDocument hfault)
      rw [documentsAt_of_some hread]
      refine ⟨s', (bind_ok hfile).trans hrun, hholds.congr ?_ ?_⟩
      · intro sectionName option
        rw [lastDocument?, lastDocument?, last?_append, last?_singleton, Option.or_assoc]
      · intro name
        simp only [List.flatMap_append, List.flatMap_singleton, List.mem_append]
        grind

theorem reload_follows {environment : List (String × String)} (hsettable : Settable environment)
    {tree : FileTree} {paths : List String} (hwell : ∀ path ∈ paths, WellFormedAt tree path) :
    ∃ start : Store, (∀ before, (reload tree environment paths).run before = .ok () start) ∧
      start.Follows environment (documentsAt tree paths) := by
  obtain ⟨s₁, hfiles, hread⟩ := holds_builtin.readFiles hwell
  obtain ⟨s₂, hvariables, hholds⟩ := hread.applyVariables hsettable
  refine ⟨s₂, ?_, hholds.congr (fun _ _ => rfl) ?_⟩
  · intro before
    have hset : (set builtin : Loading Unit).run before = .ok () builtin := rfl
    exact (bind_ok hset).trans ((bind_ok hfiles).trans hvariables)
  · intro name
    rw [sourceSections, List.append_assoc]

/-- What `calls` read, in their order. -/
def documentsOf (calls : List (FileTree × String)) : List Document :=
  calls.flatMap fun (tree, path) => documentsAt tree [path]

theorem Store.Follows.readAll {environment : List (String × String)}
    (hsettable : Settable environment) {calls : List (FileTree × String)}
    {documents : List Document} {s s' : Store} (h : s.Follows environment documents)
    (hrun : (calls.forM fun (tree, path) => Settings.readMore tree environment path).run s
      = .ok () s') :
    s'.Follows environment (documents ++ documentsOf calls) := by
  induction calls generalizing documents s with
  | nil =>
    cases hrun
    rw [documentsOf, List.flatMap_nil, List.append_nil]
    exact h
  | cons call rest ih =>
    obtain ⟨tree, path⟩ := call
    rw [List.forM] at hrun
    obtain ⟨⟨⟩, s₁, hfirst, hrest⟩ := exists_of_bind hrun
    obtain ⟨text, hread, hfault⟩ := exists_text_of_readMore hfirst
    obtain ⟨s₂, hsecond, hholds⟩ := h.readMore hsettable hread hfault
    rw [hfirst] at hsecond
    cases hsecond
    have hall := ih hholds hrest
    rw [List.append_assoc, ← documentsAt_of_some hread] at hall
    exact hall

/-! ## Answers -/

theorem Store.Holds.raw?_eq {s : Store} {value : String → String → Option String}
    {sections : List String} (h : s.Holds value sections) (sectionName option : String) :
    s.raw? sectionName option =
      ((value sectionName option).or
        (if s.hasSection sectionName then value defaultSection option else none)).map .text := by
  rw [Store.raw?_eq, h.own, h.own]
  cases value sectionName option with
  | some text => rfl
  | none =>
    simp only [Option.map_none, Option.none_or]
    split <;> rfl

/-- The text that a value of an option stands for, with its references followed. -/
def Store.interpolate (s : Store) (sectionName option text : String) : Except Fault String := do
  RawValue.concat (← s.expand sectionName option maxSteps (.text text))

theorem pieces_of_no_percent {cs : List Char} (h : '%' ∉ cs) (hne : cs ≠ []) :
    pieces cs = [.text cs] := by
  cases cs with
  | nil => contradiction
  | cons c cs =>
    have hc : c ≠ '%' := fun heq => h (heq ▸ List.mem_cons_self)
    have hall : ∀ d ∈ cs, (d != '%') = true := by
      intro d hd
      rw [bne_iff_ne]
      rintro rfl
      exact h (List.mem_cons_of_mem c hd)
    rw [pieces, List.takeWhile_eq_self_iff.mpr hall, List.dropWhile_eq_nil_iff.mpr hall, pieces]
    · rintro - rfl
      exact absurd rfl hc
    · rintro - rfl
      exact absurd rfl hc
    · rintro rfl
      exact absurd rfl hc

/-- A value without percent signs stands for itself. -/
theorem Store.interpolate_of_no_percent (s : Store) (sectionName option : String) {text : String}
    (h : '%' ∉ text.toList) : s.interpolate sectionName option text = .ok text := by
  rw [interpolate, maxSteps, expand]
  by_cases hempty : text.toList = []
  · have htext : text = "" := String.toList_eq_nil_iff.mp hempty
    rw [hempty, htext, pieces]
    rfl
  · rw [pieces_of_no_percent h hempty]
    change RawValue.concat ([String.ofList text.toList].map .text) = .ok text
    rw [RawValue.concat_map_text, String.ofList_toList]
    rfl

/-- An answer is the value that the section sees, with references followed, else the fallback. -/
theorem Store.Holds.value?_eq {s : Store} {value : String → String → Option String}
    {sections : List String} (h : s.Holds value sections) (sectionName option fallback : String) :
    (·.getD fallback) <$> s.value? sectionName option =
      match (value sectionName (Text.lower option)).or
        (if s.hasSection sectionName then value defaultSection (Text.lower option) else none) with
      | none => .ok fallback
      | some text => s.interpolate sectionName (Text.lower option) text := by
  rw [Store.value?]
  simp only [h.raw?_eq]
  generalize (value sectionName (Text.lower option)).or _ = seen
  cases seen with
  | none => rfl
  | some text =>
    simp only [Option.map_some, Store.interpolate]
    cases s.expand sectionName (Text.lower option) maxSteps (.text text) with
    | error fault => rfl
    | ok parts =>
      change (·.getD fallback) <$> some <$> RawValue.concat parts = RawValue.concat parts
      cases RawValue.concat parts <;> rfl

/-! ## The rank over a history -/

/-- After a reloading and any sequence of further files that were read with success, an option has
the value of the last variable that sets it, else the one in the file read most recently of those
that set it, else its built-in one. What is asked for is that value, else the one of the defaults if
the section exists, else the fallback, with references followed. A file that cannot be opened is a
fault that changes nothing. -/
theorem sources_override_by_rank {environment : List (String × String)} {tree : FileTree}
    {paths : List String} (hsettable : Settable environment)
    (hwell : ∀ path ∈ paths, WellFormedAt tree path) :
    ∃ start, (∀ before, (reload tree environment paths).run before = .ok () start) ∧
      ∀ (calls : List (FileTree × String)) (s : Store),
        (calls.forM fun (tree, path) => readMore tree environment path).run start = .ok () s →
        let documents := documentsAt tree paths ++ documentsOf calls
        let value := rankedValue? variablePlace? environment documents
        (∀ sectionName option,
          s.own? sectionName option = (value sectionName option).map .text) ∧
        (∀ sectionName option fallback, (·.getD fallback) <$> s.value? sectionName option =
          match (value sectionName (Text.lower option)).or
            (if s.hasSection sectionName then value defaultSection (Text.lower option)
              else none) with
          | none => .ok fallback
          | some text => s.interpolate sectionName (Text.lower option) text) ∧
        (∀ sectionName option text, '%' ∉ text.toList →
          s.interpolate sectionName option text = .ok text) ∧
        (∀ name, s.hasSection name = true
          ↔ name = defaultSection ∨ name ∈ sourceSections environment documents) ∧
        ∀ (later : FileTree) (path : String), match later.read? path with
          | none => (readMore later environment path).run s = .error (.noFile path) s
          | some text => (Document.read path text).fault = none →
            ∃ s', (readMore later environment path).run s = .ok () s' := by
  obtain ⟨start, hreload, hstart⟩ := reload_follows hsettable hwell
  refine ⟨start, hreload, ?_⟩
  intro calls s hrun documents value
  have hholds := hstart.readAll hsettable hrun
  refine ⟨hholds.own, hholds.value?_eq, fun _ _ _ => s.interpolate_of_no_percent _ _,
    hholds.hasSection, ?_⟩
  intro later path
  split
  · rename_i hread
    exact readMore_of_none hread environment s
  · rename_i text hread
    intro hfault
    obtain ⟨s', hmore, -⟩ := hholds.readMore hsettable hread hfault
    exact ⟨s', hmore⟩

theorem read?_singleton (text : String) :
    FileTree.read? { files := [("a", text)] } "a" = some text := by
  have hparts : FileTree.parts "a" = ["a"] := by
    unfold FileTree.parts
    rw [String.splitOn, if_neg (by decide), String.splitOnAux, if_neg (by decide),
      if_neg (by decide), String.splitOnAux, if_pos (by decide)]
    decide +kernel
  have horigin : FileTree.origin "a" = [] := by decide +kernel
  have hplace : FileTree.placeOf "a" = ["a"] := by
    rw [FileTree.placeOf, hparts]
    decide +kernel
  simp [FileTree.read?, FileTree.find?, hparts, horigin, FileTree.follow, FileTree.isDirectory,
    FileTree.step, FileTree.textAt?, hplace]

/-- A file is changed and read again under two variables. -/
theorem sources_override_by_rank_changed_file :
    let environment := [("EXPRCALC_Logging_LOG_LEVEL", "ERROR"), ("EXPRCALC__HINT", "on")]
    let old := "[logging]\nlog_level = INFO\n[extra]\nflag = yes\nmode : x\n"
    let new := "[logging]\nlog_level = DEBUG\n[extra]\nflag = no\n"
    Settable environment ∧ (∀ path ∈ ["a"], WellFormedAt { files := [("a", old)] } path) ∧
      ∃ start s : Store,
        (∀ before,
          (reload { files := [("a", old)] } environment ["a"]).run before = .ok () start) ∧
        (readMore { files := [("a", new)] } environment "a").run start = .ok () s ∧
        s.own? "logging" "log_level" = some (.text "ERROR") ∧
        start.own? "extra" "flag" = some (.text "yes") ∧
        s.own? "extra" "flag" = some (.text "no") ∧
        s.own? "extra" "mode" = some (.text "x") ∧
        s.own? defaultSection "version" = some (.text builtinVersion) ∧
        s.own? defaultSection "hint" = some (.text "on") := by
  intro environment old new
  have hsettable : Settable environment := by
    intro v hv _
    simp only [environment, List.mem_cons, List.not_mem_nil, or_false] at hv
    obtain rfl | rfl := hv <;> cbv
  have hold : (Document.read "a" old).fault = none := by decide +kernel
  have hnew : (Document.read "a" new).fault = none := by decide +kernel
  have hwell : ∀ path ∈ ["a"], WellFormedAt { files := [("a", old)] } path := by
    intro path hpath text htext
    rw [List.mem_singleton] at hpath
    subst hpath
    rw [read?_singleton] at htext
    cases htext
    exact hold
  obtain ⟨start, hreload, hcalls⟩ := sources_override_by_rank hsettable hwell
  obtain ⟨hstart, -, -, -, hmore⟩ := hcalls [] start rfl
  have hmore' := hmore { files := [("a", new)] } "a"
  rw [read?_singleton] at hmore'
  obtain ⟨s, hs⟩ := hmore' hnew
  obtain ⟨hown, -⟩ := hcalls [({ files := [("a", new)] }, "a")] s (bind_ok hs)
  have hbefore : documentsAt { files := [("a", old)] } ["a"] = [Document.read "a" old] :=
    documentsAt_of_some (read?_singleton old)
  have hafter : documentsOf [({ files := [("a", new)] }, "a")] = [Document.read "a" new] := by
    simp only [documentsOf, List.flatMap_singleton, documentsAt_of_some (read?_singleton new)]
  rw [hbefore] at hstart
  rw [hbefore, hafter] at hown
  refine ⟨hsettable, hwell, start, s, hreload, hs, ?_⟩
  simp only [hstart, hown]
  decide +kernel

/-- A section without a name stands for the defaults. Its variable sets `foo` there, where every
section inherits it, and not in a section of its own. -/
theorem nameless_section_sets_default :
    let environment := [("EXPRCALC__FOO", "bar")]
    Settable environment ∧ ∃ start : Store,
      (∀ before, (reload { files := [] } environment []).run before = .ok () start) ∧
      rankedValue? variableTarget? environment [] "" "foo" = some "bar" ∧
      start.own? "" "foo" = none ∧
      rankedValue? variableTarget? environment [] defaultSection "foo" = none ∧
      start.own? defaultSection "foo" = some (.text "bar") ∧
      (·.getD "fallback") <$> start.value? "logging" "foo" = .ok "bar" := by
  intro environment
  have hsettable : Settable environment := by
    intro v hv _
    rw [List.mem_singleton] at hv
    subst hv
    cbv
  let start : Store := {
    defaults := [("version", .text builtinVersion), ("foo", .text "bar")]
    sections := [("logging", [("log_level", .text "WARNING")]),
      ("output", [("float_precision", .text "")]), ("", [])] }
  refine ⟨hsettable, start, ?_, ?_, rfl, ?_, rfl, ?_⟩
  · intro before
    simp only [environment, start]
    cbv
  · decide +kernel
  · decide +kernel
  · simp only [start]
    cbv

end Reckoner.Settings
