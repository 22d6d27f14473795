import Reckoner.Log

/-!
# The console handler

Set-ups may follow each other in any number. The first one makes the console handler and puts it in the
place of the silent ones, and all later ones work on the same handler, so the logger and the handler are
always as the last set-up asked (`State.Serves`, `last_setUp_counts`). Warnings and messages that set-ups
log on the way change nothing but what has been written. What is logged afterwards is written once, to the
stream of the last set-up.

The threshold of the log is the level of the last set-up only from 1 on: a record of a level from 0 down
is never written, even if the set-up asked for a level below it (`record_below_one_not_written`).
-/

namespace Reckoner.Log

/-- What a set-up is called with. -/
structure SetUp where
  choice : LevelChoice
  format : String
  stream : Nat
deriving DecidableEq, Repr

namespace SetUp

/-- The level that is meant, that of warnings for a name that no level has. -/
def level (u : SetUp) : Int := u.choice.level?.getD warning

/-- How the set-up leaves the console handler. -/
def console (u : SetUp) : Console := ⟨u.level, u.format, u.stream⟩

end SetUp

namespace State

variable {s : State} {others : List Attached} {c : Console}

/-- The state after set-ups, one after the other. -/
def setUps (us : List SetUp) (s : State) : State :=
  us.foldl (fun s u => s.setUp u.choice u.format u.stream) s

/-- The state after records have been logged, one after the other. -/
def logAll (rs : List Record) (s : State) : State := rs.foldl (fun s r => s.log r) s

/-- No console handler has been made yet, whatever others have attached to the logger. -/
structure Fresh (s : State) : Prop where
  current : s.current = none
  consoles : s.consoles = []
  attached : ∀ index, .console index ∉ s.attached

theorem fresh_default : Fresh {} where
  current := rfl
  consoles := rfl
  attached := by simp

/-- One console handler has been made. It is attached once, behind `others`, and set up as `c`, with the
logger on its level. -/
structure Serves (s : State) (others : List Attached) (c : Console) : Prop where
  current : s.current = some 0
  consoles : s.consoles = [c]
  attached : s.attached = others ++ [.console 0]
  not_console : ∀ index, .console index ∉ others
  propagates : s.propagates = false
  level : s.level = c.level

theorem Serves.log (h : s.Serves others c) (r : Record) : (s.log r).Serves others c :=
  ⟨h.current, h.consoles, h.attached, h.not_console, h.propagates, h.level⟩

/-- Resolving a level logs at most. -/
theorem exists_resolveLevel_eq (choice : LevelChoice) (s : State) :
    ∃ lines, s.resolveLevel choice = (choice.level?.getD warning, { s with written := lines }) := by
  cases hlevel : choice.level? with
  | some level => exact ⟨s.written, by simp [resolveLevel, hlevel]⟩
  | none =>
    cases choice with
    | number level => simp [LevelChoice.level?] at hlevel
    | named name =>
      simp only [resolveLevel, hlevel, State.log]
      exact ⟨_, rfl⟩

/-! ## What a set-up leaves -/

/-- Before the first set-up, or after one that left `others` attached. -/
def Ready (s : State) (others : List Attached) : Prop :=
  s.Fresh ∧ s.attached.filter (· != .silent) = others ∨ ∃ c, s.Serves others c

theorem Ready.useConsole (h : s.Ready others) (lines : List (Nat × String)) (c : Console) :
    (useConsole c { s with level := c.level, written := lines }).Serves others c := by
  rcases h with ⟨hfresh, rfl⟩ | ⟨old, h⟩
  · constructor
    all_goals simp [State.useConsole, hfresh.current, hfresh.consoles, hfresh.attached]
  · constructor
    all_goals simp [State.useConsole, h.current, h.consoles, h.attached, h.not_console, h.propagates]

/-- **One step**: a set-up leaves the console handler as it asks, and keeps the handlers of others. -/
theorem Ready.setUp (h : s.Ready others) (u : SetUp) :
    (s.setUp u.choice u.format u.stream).Serves others u.console := by
  obtain ⟨lines, hresolve⟩ := exists_resolveLevel_eq u.choice s
  rw [State.setUp, hresolve]
  exact (h.useConsole lines u.console).log _

theorem Ready.setUps (h : s.Ready others) (us : List SetUp) : (s.setUps us).Ready others := by
  induction us generalizing s with
  | nil => exact h
  | cons u us ih => exact ih (.inr ⟨_, h.setUp u⟩)

/-- **Any number of steps**: the last set-up decides. -/
theorem Fresh.setUps (h : s.Fresh) (before : List SetUp) (last : SetUp) :
    (s.setUps (before ++ [last])).Serves (s.attached.filter (· != .silent)) last.console := by
  have hready : (s.setUps before).Ready (s.attached.filter (· != .silent)) :=
    .setUps (.inl ⟨h, rfl⟩) before
  rw [State.setUps, List.foldl_append]
  exact hready.setUp last

/-! ## What is written -/

theorem filterMap_lineOf? {hs : List Attached} (h : ∀ index, .console index ∉ hs) (r : Record) :
    hs.filterMap (s.lineOf? r) = [] := by
  rw [List.filterMap_eq_nil_iff]
  intro handler hmem
  cases handler with
  | console index => exact absurd hmem (h index)
  | silent | foreign _ => rfl

theorem Serves.linesOf_eq (h : s.Serves others c) (hc : c.level ≠ 0) {r : Record}
    (hr : isPackageLogger r.logger = true) : s.linesOf r =
      if 0 < r.level ∧ c.level ≤ r.level then [(c.stream, formatRecord c.format r)] else [] := by
  have hlines : s.attached.filterMap (s.lineOf? r) =
      if c.level ≤ r.level then [(c.stream, formatRecord c.format r)] else [] := by
    rw [h.attached, List.filterMap_append, filterMap_lineOf? h.not_console]
    by_cases hlevel : c.level ≤ r.level <;> simp [lineOf?, h.consoles, hlevel]
  have henabled : s.isEnabledFor r.level = true ↔ 0 < r.level ∧ c.level ≤ r.level := by
    simp [isEnabledFor, effectiveLevel, h.level, hc]
  rw [linesOf, hr, Bool.true_and, hlines]
  by_cases hlevel : 0 < r.level ∧ c.level ≤ r.level
  · rw [if_pos (henabled.mpr hlevel), if_pos hlevel.2, if_pos hlevel]
  · rw [if_neg (mt henabled.mp hlevel), if_neg hlevel]

theorem Serves.written_logAll (h : s.Serves others c) (hc : c.level ≠ 0) {rs : List Record}
    (hrs : ∀ r ∈ rs, isPackageLogger r.logger = true) : (s.logAll rs).written = s.written ++
      (rs.filter fun r => 0 < r.level ∧ c.level ≤ r.level).map fun r =>
        (c.stream, formatRecord c.format r) := by
  induction rs generalizing s with
  | nil => simp [logAll]
  | cons r rs ih =>
    rw [List.forall_mem_cons] at hrs
    have hrest := ih (h.log r) hrs.2
    rw [logAll] at hrest ⊢
    rw [List.foldl_cons, hrest, State.log, h.linesOf_eq hc hrs.1]
    by_cases hlevel : 0 < r.level ∧ c.level ≤ r.level <;> simp [hlevel]

end State

/-- **Only the last set-up counts.** All set-ups answer one handler. After any number of them it is
attached once, in the place of the silent handlers and besides those of others, and the level, the stream
and the format are those of the last one. What is logged from then on is written by it once, to the last
stream, if its level reaches that of the last set-up and is not below 1. -/
theorem last_setUp_counts {s : State} (hs : s.Fresh) :
    ∃ handler, ∀ (before : List SetUp) (last : SetUp),
      let after := s.setUps (before ++ [last])
      let level := last.choice.level?.getD warning
      after.current = some handler ∧
        after.consoles[handler]? = some ⟨level, last.format, last.stream⟩ ∧
        after.attached = s.attached.filter (· != .silent) ++ [.console handler] ∧
        after.attached.count (.console handler) = 1 ∧ .silent ∉ after.attached ∧
        after.propagates = false ∧ after.level = level ∧
        (level ≠ 0 → ∀ rs : List Record, (∀ r ∈ rs, State.isPackageLogger r.logger = true) →
          (after.logAll rs).written = after.written ++
            (rs.filter fun r => 0 < r.level ∧ level ≤ r.level).map fun r =>
              (last.stream, formatRecord last.format r)) := by
  refine ⟨0, fun before last => ?_⟩
  intro after level
  have h : after.Serves (s.attached.filter (· != .silent)) last.console := hs.setUps before last
  refine ⟨h.current, ?_, h.attached, ?_, ?_, h.propagates, h.level, ?_⟩
  · rw [h.consoles]
    rfl
  · rw [h.attached, List.count_append, List.count_eq_zero.mpr (h.not_console 0)]
    rfl
  · simp [h.attached]
  · intro hlevel rs hrs
    exact h.written_logAll hlevel hrs

/-- A handler of somebody else's, a set-up with a name that no level has, and one for debugging. -/
theorem last_setUp_counts_foreign :
    let s : State := { attached := [.foreign 7, .silent] }
    let after := s.setUps [⟨.named "loud", consoleFormat, 0⟩, ⟨.number debug, "%(message)s", 1⟩]
    ∃ handler, after.current = some handler ∧
      after.attached = [.foreign 7, .console handler] ∧ after.level = debug ∧
        (after.logAll [⟨rootName, 10, "seen"⟩, ⟨rootName, 9, "unseen"⟩]).written =
          after.written ++ [(1, formatRecord "%(message)s" ⟨rootName, 10, "seen"⟩)] := by
  intro s after
  have hfresh : s.Fresh := ⟨rfl, rfl, by simp [s]⟩
  obtain ⟨handler, h⟩ := last_setUp_counts hfresh
  obtain ⟨hcurrent, -, hattached, -, -, -, hlevel, hwritten⟩ :=
    h [⟨.named "loud", consoleFormat, 0⟩] ⟨.number debug, "%(message)s", 1⟩
  refine ⟨handler, hcurrent, hattached, hlevel, hwritten (by decide) _ ?_⟩
  simp [State.isPackageLogger, rootName]

/-- With the level -5 a record of level 0 reaches the level of the logger and of its handler, and is not
written. -/
theorem record_below_one_not_written :
    let s := ({} : State).setUps [⟨.number (-5), consoleFormat, 0⟩]
    s.level = -5 ∧ s.consoles = [⟨-5, consoleFormat, 0⟩] ∧ (-5 : Int) ≠ 0 ∧ (-5 : Int) ≤ 0 ∧
      State.isPackageLogger rootName = true ∧
      (s.log ⟨rootName, 0, "x"⟩).written = s.written := by
  intro s
  have h : s.Serves [] ⟨-5, consoleFormat, 0⟩ :=
    State.fresh_default.setUps [] ⟨.number (-5), consoleFormat, 0⟩
  refine ⟨h.level, h.consoles, by decide, by decide, by decide, ?_⟩
  rw [State.log, h.linesOf_eq (by decide) (by decide), if_neg (by decide), List.append_nil]

end Reckoner.Log
