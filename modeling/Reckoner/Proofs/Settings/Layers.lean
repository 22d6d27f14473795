import Reckoner.Proofs.LowerCase
import Reckoner.Proofs.Settings.Stored
import Reckoner.Settings.Sources

/-!
# Layers of settings

What the sources say, each as a function of section and option, and what a store holds in the same
terms (`Store.Holds`). Reading a document without fault and applying the variables each lay new
values over those that were there. Within a source the last value that is given counts.
-/

namespace Reckoner.Settings

/-! ## What the sources say -/

/-- The answer of the last element that has one. -/
def last? {α β : Type} (answer : α → Option β) (xs : List α) : Option β :=
  xs.reverse.findSome? answer

theorem last?_append {α β : Type} (answer : α → Option β) (xs ys : List α) :
    last? answer (xs ++ ys) = (last? answer ys).or (last? answer xs) := by
  rw [last?, List.reverse_append, List.findSome?_append, last?, last?]

theorem last?_singleton {α β : Type} (answer : α → Option β) (x : α) :
    last? answer [x] = answer x := List.findSome?_singleton

theorem last?_cons {α β : Type} (answer : α → Option β) (x : α) (xs : List α) :
    last? answer (x :: xs) = (last? answer xs).or (answer x) := by
  rw [← List.singleton_append, last?_append, last?_singleton]

/-- The lines of the value that an entry gives to an option. -/
def Entry.lines? (sectionName option : String) : Entry → Option (List String)
  | .heading _ => none
  | .setting s o lines => if s = sectionName ∧ o = option then some lines else none

def Entry.sectionName : Entry → String
  | .heading name => name
  | .setting name _ _ => name

/-- The value that a document gives to an option. -/
def Document.value? (d : Document) (sectionName option : String) : Option String :=
  (last? (Entry.lines? sectionName option) d.entries).map RawValue.joinLines

def lastDocument? (documents : List Document) (sectionName option : String) : Option String :=
  last? (fun d => d.value? sectionName option) documents

/-- The section that holds what is set under a name. -/
def holder (sectionName : String) : String :=
  if sectionName = "" then defaultSection else sectionName

/-- The section that holds what a variable sets, and the option. -/
def variablePlace? (name : String) : Option (String × String) :=
  (variableTarget? name).map fun (sectionName, option) => (holder sectionName, option)

/-- The value of the last variable that sets an option, by what `place` says of their names. -/
def lastVariable? (place : String → Option (String × String))
    (environment : List (String × String)) (sectionName option : String) : Option String :=
  last? (fun (name, value) => if place name = some (sectionName, option) then some value else none)
    environment

def builtinValue? (sectionName option : String) : Option String :=
  (builtin.own? sectionName option).map RawValue.toText

/-- The value from the source of the highest rank. -/
def rankedValue? (place : String → Option (String × String))
    (environment : List (String × String)) (documents : List Document)
    (sectionName option : String) : Option String :=
  (lastVariable? place environment sectionName option).or
    ((lastDocument? documents sectionName option).or (builtinValue? sectionName option))

def variableSections (environment : List (String × String)) : List String :=
  environment.filterMap fun (name, _) => (variableTarget? name).map (·.1)

/-- The sections that any source names. -/
def sourceSections (environment : List (String × String)) (documents : List Document) :
    List String :=
  variableSections environment ++ documents.flatMap (·.entries.map Entry.sectionName)
    ++ builtin.sections.map (·.1)

/-! ## What a store holds -/

/-- The store holds the values, all of them finished, and has the sections. -/
structure Store.Holds (s : Store) (value : String → String → Option String)
    (sections : List String) : Prop where
  own : ∀ sectionName option, s.own? sectionName option = (value sectionName option).map .text
  hasSection : ∀ name, s.hasSection name = true ↔ name = defaultSection ∨ name ∈ sections

theorem Store.Holds.congr {s : Store} {value value' : String → String → Option String}
    {sections sections' : List String} (h : s.Holds value sections)
    (hvalue : ∀ sectionName option, value sectionName option = value' sectionName option)
    (hsections : ∀ name, name ∈ sections ↔ name ∈ sections') : s.Holds value' sections' where
  own sectionName option := by rw [h.own, hvalue]
  hasSection name := by rw [h.hasSection, hsections]

theorem holds_builtin : builtin.Holds builtinValue? (builtin.sections.map (·.1)) where
  own sectionName option := by
    have hfinish : builtin.finish = builtin := rfl
    have hown := builtin.own?_finish sectionName option
    rw [hfinish] at hown
    rw [hown, builtinValue?, Option.map_map]
    rfl
  hasSection name := by rw [Store.hasSection_iff, Store.isSome_section?]

/-! ## Documents -/

/-- Lines that are added override each other and what the store had before. -/
theorem own?_foldl_add (entries : List Entry) (s : Store) (sectionName option : String) :
    (entries.foldl Store.add s).own? sectionName option =
      ((last? (Entry.lines? sectionName option) entries).map .unfinished).or
        (s.own? sectionName option) := by
  induction entries generalizing s with
  | nil => rfl
  | cons entry rest ih =>
    have hadd : (s.add entry).own? sectionName option =
        ((entry.lines? sectionName option).map .unfinished).or
          (s.own? sectionName option) := by
      cases entry with
      | heading name => simp [Store.add, Entry.lines?]
      | setting name o lines =>
        rw [Store.add, Store.own?_put, Entry.lines?]
        split <;> rfl
    -- Of the entries that set the option, one in the rest comes later and counts.
    rw [List.foldl_cons, ih, hadd, last?_cons, ← Option.or_assoc]
    cases last? (Entry.lines? sectionName option) rest <;> rfl

/-- A section is there once a line or a header names it, and it stays. -/
theorem hasSection_foldl_add (entries : List Entry) (s : Store) (name : String) :
    (entries.foldl Store.add s).hasSection name = true
      ↔ name ∈ entries.map Entry.sectionName ∨ s.hasSection name = true := by
  induction entries generalizing s with
  | nil => simp
  | cons entry rest ih =>
    have hadd : (s.add entry).hasSection name = true
        ↔ name = entry.sectionName ∨ s.hasSection name = true := by
      cases entry <;> simp [Store.add, Entry.sectionName]
    rw [List.foldl_cons, ih, hadd, List.map_cons, List.mem_cons]
    exact or_left_comm.trans (or_assoc).symm

theorem isWhole_of_fault {d : Document} (h : d.fault = none) : d.isWhole = true := by
  simp [Document.isWhole, h]

/-- A document without fault lays its values over those that the store holds. -/
theorem Store.Holds.addDocument {s : Store} {value : String → String → Option String}
    {sections : List String} (h : s.Holds value sections) {d : Document} (hfault : d.fault = none) :
    (s.addDocument d).Holds
      (fun sectionName option => (d.value? sectionName option).or (value sectionName option))
      (d.entries.map Entry.sectionName ++ sections) where
  own sectionName option := by
    rw [Store.addDocument, if_pos (isWhole_of_fault hfault), Store.own?_finish, own?_foldl_add,
      h.own, Document.value?]
    cases last? (Entry.lines? sectionName option) d.entries with
    | none => cases value sectionName option <;> rfl
    | some lines => rfl
  hasSection name := by
    rw [Store.addDocument, if_pos (isWhole_of_fault hfault), Store.hasSection_finish,
      hasSection_foldl_add, h.hasSection, List.mem_append]
    exact or_left_comm

/-! ## Variables -/

/-- The option in a variable's name is in lower case already. -/
theorem lower_of_variableTarget? {name sectionName option : String}
    (h : variableTarget? name = some (sectionName, option)) : Text.lower option = option := by
  unfold variableTarget? at h
  split at h
  · simp only at h
    split at h
    · cases h
    · rename_i c cs hdrop
      simp only [Option.some.injEq, Prod.mk.injEq] at h
      obtain ⟨-, rfl⟩ := h
      apply Text.lower_of_subset
      intro d hd
      have hmem : d ∈ c :: cs := List.mem_cons_of_mem c hd
      rw [← hdrop] at hmem
      exact (List.dropWhile_suffix _).subset hmem
  · cases h

/-- The values that are set by variables have no percent sign that begins nothing. -/
def Settable (environment : List (String × String)) : Prop :=
  ∀ v ∈ environment, variableTarget? v.1 ≠ none → checkSettable v.2 = .ok ()

theorem bind_ok {α β : Type} {x : Loading α} {f : α → Loading β} {s s' : Store} {a : α}
    (h : x.run s = .ok a s') : (x >>= f).run s = (f a).run s' := by
  rw [EStateM.run_bind, h]

theorem exists_of_bind {α β : Type} {x : Loading α} {f : α → Loading β} {s s' : Store} {b : β}
    (h : (x >>= f).run s = .ok b s') : ∃ a s₁, x.run s = .ok a s₁ ∧ (f a).run s₁ = .ok b s' := by
  rw [EStateM.run_bind] at h
  cases hx : x.run s with
  | ok a s₁ =>
    rw [hx] at h
    exact ⟨a, s₁, rfl, h⟩
  | error fault s₁ =>
    rw [hx] at h
    cases h

theorem assign_ok {value : String} (h : checkSettable value = .ok ()) (sectionName option : String)
    (s : Store) :
    (assign sectionName option value).run s = .ok ()
      ((s.addSection sectionName).put (holder sectionName) (Text.lower option) (.text value)) := by
  unfold assign
  rw [h]
  rfl

/-- A value that is assigned answers for its section and option, and the section is there from then
on. -/
theorem Store.Holds.assign {s : Store} {value : String → String → Option String}
    {sections : List String} (h : s.Holds value sections) (name option text : String) :
    ((s.addSection name).put (holder name) option (.text text)).Holds
      (fun sectionName other =>
        (if (holder name, option) = (sectionName, other) then some text else none).or
          (value sectionName other))
      (name :: sections) where
  own sectionName other := by
    rw [Store.own?_put, Store.own?_addSection, h.own]
    simp only [Prod.mk.injEq]
    split
    · rfl
    · rw [Option.none_or]
  hasSection sectionName := by
    rw [Store.hasSection_put, Store.hasSection_addSection, h.hasSection, List.mem_cons]
    unfold holder
    split <;> grind

theorem applyVariables_cons (name text : String) (rest : List (String × String)) :
    applyVariables ((name, text) :: rest) =
      (match variableTarget? name with
        | some (sectionName, option) => assign sectionName option text
        | none => pure ()) >>= fun _ => applyVariables rest := List.forM_cons

/-- Applying the variables lays their values over those that the store holds. -/
theorem Store.Holds.applyVariables {environment : List (String × String)}
    (hsettable : Settable environment) {s : Store} {value : String → String → Option String}
    {sections : List String} (h : s.Holds value sections) :
    ∃ s', (Settings.applyVariables environment).run s = .ok () s' ∧ s'.Holds
      (fun sectionName option =>
        (lastVariable? variablePlace? environment sectionName option).or (value sectionName option))
      (variableSections environment ++ sections) := by
  induction environment generalizing s value sections with
  | nil => exact ⟨s, rfl, h⟩
  | cons v rest ih =>
    obtain ⟨name, text⟩ := v
    have hrest : Settable rest := fun w hw => hsettable w (List.mem_cons_of_mem _ hw)
    rw [applyVariables_cons]
    cases htarget : variableTarget? name with
    | none =>
      obtain ⟨s', hrun, hholds⟩ := ih hrest h
      refine ⟨s', hrun, hholds.congr ?_ ?_⟩
      · intro sectionName option
        simp [lastVariable?, last?_cons, variablePlace?, htarget]
      · intro other
        simp [variableSections, htarget]
    | some target =>
      obtain ⟨sectionName, option⟩ := target
      have hvalue : checkSettable text = .ok () :=
        hsettable (name, text) List.mem_cons_self (by simp [htarget])
      obtain ⟨s', hrun, hholds⟩ := ih hrest (h.assign sectionName option text)
      have hassign := assign_ok hvalue sectionName option s
      rw [lower_of_variableTarget? htarget] at hassign
      refine ⟨s', ?_, hholds.congr ?_ ?_⟩
      · exact (bind_ok hassign).trans hrun
      · intro other name
        simp [lastVariable?, last?_cons, variablePlace?, htarget, Option.or_assoc]
      · intro other
        simp [variableSections, htarget, or_left_comm]

end Reckoner.Settings
