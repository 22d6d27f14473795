import Reckoner.Settings.Document
import Reckoner.Settings.RawValue
import Reckoner.Text.Sorting

/-!
# The store of settings

Raw values by section and option. Options of the section of defaults are inherited by all sections;
option names are in lower case, section names are taken as they are. `raw?` is the view through
which the store is read. The values of a document are unfinished at first; a document that was read
to its end finishes all that are in the store, those of earlier documents that broke off too.
-/

namespace Reckoner.Settings

/-- Options and their raw values, in the order in which they came up. -/
abbrev Options := List (String × RawValue)

namespace Options

/-- The raw value of an option. -/
def get? (options : Options) (option : String) : Option RawValue := options.lookup option

/-- Sets an option, in its old place if it has one. -/
def put (option : String) (value : RawValue) : Options → Options
  | [] => [(option, value)]
  | (o, v) :: rest => if o = option then (o, value) :: rest else (o, v) :: put option value rest

/-- Finishes all values. -/
def finish (options : Options) : Options := options.map fun (o, v) => (o, v.finish)

theorem get?_cons (o : String) (v : RawValue) (option : String) (rest : Options) :
    get? ((o, v) :: rest) option = if option = o then some v else get? rest option := by
  by_cases h : option = o
  · simp [get?, h]
  · simp [get?, List.lookup_cons, beq_false_of_ne h, h]

/-- Setting an option changes the value of that option alone. -/
theorem get?_put (option : String) (value : RawValue) (other : String) (options : Options) :
    get? (put option value options) other
      = if other = option then some value else get? options other := by
  induction options with
  | nil => simp [put, get?_cons]
  | cons entry rest ih =>
    obtain ⟨o, v⟩ := entry
    by_cases ho : o = option
    · by_cases h : other = option <;> simp [put, get?_cons, ho, h]
    · simp only [put, ho, if_false, get?_cons, ih]
      by_cases h : other = o
      · simp [h, ho]
      · simp [h]

/-- Finishing sets no option and removes none. -/
theorem get?_finish (options : Options) (option : String) :
    get? (finish options) option = (get? options option).map RawValue.finish := by
  induction options with
  | nil => rfl
  | cons entry rest ih =>
    obtain ⟨o, v⟩ := entry
    rw [finish, List.map_cons, ← finish, get?_cons, get?_cons, ih]
    split <;> rfl

end Options

/-- The settings of all sections. -/
structure Store where
  /-- What all sections inherit. -/
  defaults : Options := []
  /-- The other sections, in the order in which they came up. -/
  sections : List (String × Options) := []
deriving DecidableEq, Repr, Inhabited

namespace Store

/-- The options of a section of its own. -/
def section? (s : Store) (name : String) : Option Options := s.sections.lookup name

/-- The section can be asked for: it was named somewhere, or is the one of defaults. -/
def hasSection (s : Store) (name : String) : Bool :=
  name == defaultSection || (s.section? name).isSome

/-- Adds a section, unless it is there already. -/
def addSection (s : Store) (name : String) : Store :=
  if s.hasSection name then s else { s with sections := s.sections ++ [(name, [])] }

/-- Sets an option of a section, which is added if need be. -/
def put (s : Store) (sectionName option : String) (value : RawValue) : Store :=
  if sectionName = defaultSection then { s with defaults := Options.put option value s.defaults }
  else
    let s := s.addSection sectionName
    { s with sections := s.sections.map fun (name, options) =>
        if name = sectionName then (name, Options.put option value options) else (name, options) }

/-- The raw value of an option as a section sees it: its own, else the inherited one. -/
def raw? (s : Store) (sectionName option : String) : Option RawValue :=
  if sectionName = defaultSection then s.defaults.get? option
  else do
    let options ← s.section? sectionName
    options.get? option <|> s.defaults.get? option

/-- The section has the option, of its own or inherited. A section without a name has only what is
inherited. -/
def hasOption (s : Store) (sectionName option : String) : Bool :=
  if sectionName = "" then (s.defaults.get? option).isSome
  else (s.raw? sectionName option).isSome

/-- Finishes all values of all sections. -/
def finish (s : Store) : Store where
  defaults := s.defaults.finish
  sections := s.sections.map fun (name, options) => (name, options.finish)

theorem section?_finish (s : Store) (name : String) :
    s.finish.section? name = (s.section? name).map Options.finish := by
  obtain ⟨defaults, sections⟩ := s
  simp only [section?, finish]
  induction sections with
  | nil => rfl
  | cons entry rest ih =>
    obtain ⟨n, options⟩ := entry
    simp only [List.map_cons, List.lookup_cons, ih]
    split <;> rfl

/-- Finishing leaves every value where it was found. -/
theorem raw?_finish (s : Store) (sectionName option : String) :
    s.finish.raw? sectionName option = (s.raw? sectionName option).map RawValue.finish := by
  have hdefaults : s.finish.defaults.get? option
      = (s.defaults.get? option).map RawValue.finish := Options.get?_finish s.defaults option
  unfold raw?
  split
  · exact hdefaults
  · rw [section?_finish, hdefaults]
    cases s.section? sectionName with
    | none => rfl
    | some options =>
      have hown := Options.get?_finish options option
      simp only [Option.map_some, Option.bind_eq_bind, Option.bind_some, hown]
      cases options.get? option <;> rfl

/-- Applies what a document says. -/
def add (s : Store) : Entry → Store
  | .heading name => s.addSection name
  | .setting sectionName option lines => s.put sectionName option (.unfinished lines)

/-- Applies all that was read of a document. -/
def addDocument (s : Store) (d : Document) : Store :=
  let s := d.entries.foldl add s
  if d.isWhole then s.finish else s

/-- The options that a section has, of its own or inherited, in order. -/
def optionNames (s : Store) (options : Options) : List String :=
  Text.sortNames (options ++ s.defaults |>.map (·.1) |>.eraseDups)

/-- The inherited options with the texts of their values, in order. -/
def sortedDefaults (s : Store) : List (String × String) :=
  (s.defaults.map fun (o, v) => (o, v.toText)).mergeSort fun a b => !decide (b.1 < a.1)

/-- The sections with the options they have, in order. -/
def listing (s : Store) : List (String × List String) :=
  (s.sections.map fun (name, options) => (name, s.optionNames options)).mergeSort
    fun a b => !decide (b.1 < a.1)

end Store

end Reckoner.Settings
