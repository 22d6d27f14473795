import Reckoner.Settings.Store

/-!
# References in values

A raw value may refer to other options: `%(name)s` stands for the value of the option `name` of the
same section or of the defaults, and `%%` for a percent sign. References are followed when a value
is read, and those in the values they lead to as well, up to a limit on the steps. Any other percent
sign is a fault; values that are set one by one are checked for that beforehand. A value that is
unfinished has no references, and no text can be made with it.
-/

namespace Reckoner.Settings

/-- A piece of a raw value. -/
inductive Piece where
  /-- A percent sign that was doubled, or all text up to the next percent sign. -/
  | text (cs : List Char)
  /-- The option referred to, in lower case. -/
  | reference (option : String)
  /-- A percent sign that begins neither; it ends what can be read of the value. -/
  | stray (fault : Fault)
deriving DecidableEq, Repr

/-- The name in a reference whose text begins behind `%(`, and what follows the reference. -/
def referenceName? (cs : List Char) : Option (List Char × List Char) :=
  match cs.dropWhile (· != ')') with
  | ')' :: 's' :: rest =>
    let name := cs.takeWhile (· != ')')
    if name = [] then none else some (name, rest)
  | _ => none

theorem length_of_referenceName? {cs name rest : List Char}
    (h : referenceName? cs = some (name, rest)) : rest.length < cs.length := by
  have hd := (List.dropWhile_suffix (l := cs) (· != ')')).length_le
  unfold referenceName? at h
  split at h
  · rename_i heq
    rw [heq] at hd
    simp only [List.length_cons] at hd
    simp only at h
    split at h
    · cases h
    · cases h
      omega
  · cases h

/-- The pieces of a raw value, up to the first stray percent sign. -/
def pieces : List Char → List Piece
  | [] => []
  | '%' :: '%' :: cs => .text ['%'] :: pieces cs
  | '%' :: '(' :: cs =>
    match _found : referenceName? cs with
    | some (name, rest) => .reference (Text.lower (String.ofList name)) :: pieces rest
    | none => [.stray (.openReference (String.ofList ('%' :: '(' :: cs)))]
  | '%' :: cs => [.stray (.strayPercent (String.ofList ('%' :: cs)))]
  | c :: cs => .text (c :: cs.takeWhile (· != '%')) :: pieces (cs.dropWhile (· != '%'))
termination_by cs => cs.length
decreasing_by
  all_goals simp only [List.length_cons]
  · omega
  · have := length_of_referenceName? _found
    omega
  · have := (List.dropWhile_suffix (l := cs) (· != '%')).length_le
    omega

/-- The parts of the text that a raw value of an option stands for, without references, in at most
`steps` steps. A value that is referred to is a part as it is, unless it has a percent sign. -/
def Store.expand (s : Store) (sectionName option : String) :
    (steps : Nat) → (raw : RawValue) → Except Fault (List RawValue)
  | 0, raw =>
    .error (.deepReference sectionName option ((s.raw? sectionName option).getD raw).toText)
  | _ + 1, .unfinished _ => .error .unfinishedValue
  | steps + 1, raw@(.text value) => do
    let parts ← (pieces value.toList).mapM fun
      | .text cs => .ok [.text (String.ofList cs)]
      | .stray fault => .error fault
      | .reference name =>
        match s.raw? sectionName name with
        | none =>
          .error (.missingReference sectionName option name
            ((s.raw? sectionName option).getD raw).toText)
        | some value =>
          if value.hasPercent then s.expand sectionName option steps value else .ok [value]
    pure parts.flatten

/-- The text without its `%%`. -/
def withoutDoubled : List Char → List Char
  | '%' :: '%' :: cs => withoutDoubled cs
  | c :: cs => c :: withoutDoubled cs
  | [] => []

/-- The text without its references. -/
def withoutReferences : List Char → List Char
  | [] => []
  | '%' :: '(' :: cs =>
    match _found : referenceName? cs with
    | some (_, rest) => withoutReferences rest
    | none => '%' :: withoutReferences ('(' :: cs)
  | c :: cs => c :: withoutReferences cs
termination_by cs => cs.length
decreasing_by
  all_goals simp only [List.length_cons]
  · have := length_of_referenceName? _found
    omega
  · omega
  · omega

/-- A value that can be set: no percent sign is left when the doubled ones and then the references
are taken out. -/
def checkSettable (value : String) : Except Fault Unit :=
  match (withoutReferences (withoutDoubled value.toList)).findIdx? (· == '%') with
  | none => .ok ()
  | some pos => .error (.unsettable value pos)

end Reckoner.Settings
