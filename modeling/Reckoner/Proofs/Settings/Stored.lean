import Reckoner.Settings.Store

/-!
# What a section holds itself

A section is seen together with the options it inherits. What is stored for the section alone,
`own?`, is what the sources of settings change: one option at a time, and nothing else in any
section. Sections come up when they are named and never disappear.
-/

namespace Reckoner.Settings.Store

/-- The raw value that is stored for an option of a section itself. -/
def own? (s : Store) (sectionName option : String) : Option RawValue :=
  if sectionName = defaultSection then s.defaults.get? option
  else (s.section? sectionName).bind (·.get? option)

theorem own?_default (s : Store) (option : String) :
    s.own? defaultSection option = s.defaults.get? option := if_pos rfl

theorem own?_of_ne (s : Store) {sectionName : String} (h : sectionName ≠ defaultSection)
    (option : String) :
    s.own? sectionName option = (s.section? sectionName).bind (·.get? option) := if_neg h

theorem hasSection_iff {s : Store} {sectionName : String} :
    s.hasSection sectionName = true
      ↔ sectionName = defaultSection ∨ (s.section? sectionName).isSome := by
  simp [hasSection]

theorem isSome_section? {s : Store} {name : String} :
    (s.section? name).isSome = true ↔ name ∈ s.sections.map (·.1) := by
  unfold section?
  induction s.sections with
  | nil => simp
  | cons entry rest ih =>
    obtain ⟨n, options⟩ := entry
    rw [List.lookup_cons, List.map_cons, List.mem_cons, ← ih]
    by_cases h : name = n
    · simp [h]
    · simp [h, beq_false_of_ne h]

/-- A section that can be asked for inherits what it does not hold itself. -/
theorem raw?_eq (s : Store) (sectionName option : String) :
    s.raw? sectionName option = (s.own? sectionName option).or
      (if s.hasSection sectionName then s.own? defaultSection option else none) := by
  by_cases h : sectionName = defaultSection
  · subst h
    simp [raw?, own?_default, hasSection]
  · rw [raw?, if_neg h, own?_of_ne s h, own?_default]
    simp only [hasSection_iff, h, false_or]
    cases s.section? sectionName with
    | none => rfl
    | some options => cases hown : options.get? option <;> simp [hown]

/-! ## Sections that come up -/

theorem section?_addSection (s : Store) (name other : String) :
    (s.addSection name).section? other =
      if other = name ∧ name ≠ defaultSection then some ((s.section? name).getD [])
      else s.section? other := by
  unfold addSection
  by_cases hhas : s.hasSection name
  · rw [if_pos hhas]
    split
    · rename_i h
      obtain ⟨rfl, hname⟩ := h
      obtain h | h := hasSection_iff.mp hhas
      · exact absurd h hname
      · obtain ⟨options, hoptions⟩ := Option.isSome_iff_exists.mp h
        rw [hoptions, Option.getD_some]
    · rfl
  · rw [if_neg hhas]
    rw [hasSection_iff, not_or, Option.not_isSome_iff_eq_none] at hhas
    obtain ⟨hname, hnone⟩ := hhas
    unfold section? at hnone ⊢
    rw [List.lookup_append, hnone, Option.getD_none]
    by_cases h : other = name
    · rw [if_pos ⟨h, hname⟩, h, hnone, List.lookup_cons_self, Option.none_or]
    · have hbeq : (other == name) = false := beq_false_of_ne h
      simp [h, List.lookup_cons, hbeq]

@[simp] theorem defaults_addSection (s : Store) (name : String) :
    (s.addSection name).defaults = s.defaults := by
  unfold addSection
  split <;> rfl

/-- A section that comes up holds nothing. -/
@[simp] theorem own?_addSection (s : Store) (name sectionName option : String) :
    (s.addSection name).own? sectionName option = s.own? sectionName option := by
  by_cases hdefault : sectionName = defaultSection
  · rw [hdefault, own?_default, own?_default, defaults_addSection]
  · rw [own?_of_ne _ hdefault, own?_of_ne _ hdefault, section?_addSection]
    split
    · rename_i h
      rw [h.1]
      cases s.section? name <;> rfl
    · rfl

@[simp] theorem hasSection_addSection (s : Store) (name sectionName : String) :
    (s.addSection name).hasSection sectionName = true
      ↔ sectionName = name ∨ s.hasSection sectionName = true := by
  rw [hasSection_iff, hasSection_iff, section?_addSection]
  by_cases h : sectionName = name
  · subst h
    by_cases hdefault : sectionName = defaultSection <;> simp [hdefault]
  · simp [h]

/-! ## Options that are set -/

theorem lookup_update (sections : List (String × Options)) (name other : String)
    (f : Options → Options) :
    (sections.map fun (n, options) => if n = name then (n, f options) else (n, options)).lookup other
      = (sections.lookup other).map fun options => if other = name then f options else options := by
  induction sections with
  | nil => rfl
  | cons entry rest ih =>
    obtain ⟨n, options⟩ := entry
    by_cases hn : n = name <;> by_cases ho : other = n <;>
      simp_all [List.lookup_cons, beq_false_of_ne]

theorem section?_put {name : String} (h : name ≠ defaultSection) (s : Store)
    (option : String) (value : RawValue) (other : String) :
    (s.put name option value).section? other =
      if other = name then some (Options.put option value ((s.section? name).getD []))
      else s.section? other := by
  have hadded := section?_addSection s name other
  unfold section? at hadded ⊢
  simp only [put, if_neg h, lookup_update]
  rw [hadded]
  by_cases ho : other = name
  · simp [ho, h]
  · simp [ho]

/-- Setting an option changes what its section holds for it, and nothing else. -/
theorem own?_put (s : Store) (name option : String) (value : RawValue)
    (sectionName other : String) :
    (s.put name option value).own? sectionName other =
      if name = sectionName ∧ option = other then some value else s.own? sectionName other := by
  by_cases hname : name = defaultSection
  · subst hname
    by_cases h : sectionName = defaultSection
    · subst h
      simp only [put, if_true, own?_default, Options.get?_put, true_and, eq_comm]
    · have hsection : (s.put defaultSection option value).section? sectionName
          = s.section? sectionName := by simp [put, section?]
      rw [own?_of_ne _ h, own?_of_ne _ h, hsection, if_neg fun hboth => h hboth.1.symm]
  · by_cases h : sectionName = defaultSection
    · have hdefaults : (s.put name option value).defaults = s.defaults := by
        simp [put, if_neg hname]
      subst h
      rw [own?_default, own?_default, hdefaults, if_neg fun hboth => hname hboth.1]
    · rw [own?_of_ne _ h, own?_of_ne _ h, section?_put hname]
      by_cases heq : sectionName = name
      · subst heq
        rw [if_pos rfl, Option.bind_some, Options.get?_put]
        cases s.section? sectionName <;> simp [Options.get?, eq_comm]
      · rw [if_neg heq, if_neg fun hboth => heq hboth.1.symm]

@[simp] theorem hasSection_put (s : Store) (name option : String) (value : RawValue)
    (sectionName : String) :
    (s.put name option value).hasSection sectionName = true
      ↔ sectionName = name ∨ s.hasSection sectionName = true := by
  by_cases hname : name = defaultSection
  · have hsection : (s.put name option value).section? sectionName = s.section? sectionName := by
      simp [put, section?, hname]
    rw [hasSection_iff, hasSection_iff, hsection, hname, ← or_assoc, or_self]
  · rw [hasSection_iff, hasSection_iff, section?_put hname]
    by_cases h : sectionName = name
    · simp [h]
    · simp [h]

/-! ## Values that are finished -/

theorem own?_finish (s : Store) (sectionName option : String) :
    s.finish.own? sectionName option = (s.own? sectionName option).map RawValue.finish := by
  by_cases h : sectionName = defaultSection
  · rw [h, own?_default, own?_default]
    exact Options.get?_finish s.defaults option
  · rw [own?_of_ne _ h, own?_of_ne _ h, section?_finish]
    cases s.section? sectionName with
    | none => rfl
    | some options => exact Options.get?_finish options option

@[simp] theorem hasSection_finish (s : Store) (sectionName : String) :
    s.finish.hasSection sectionName = s.hasSection sectionName := by
  simp only [hasSection, section?_finish, Option.isSome_map]

end Reckoner.Settings.Store
