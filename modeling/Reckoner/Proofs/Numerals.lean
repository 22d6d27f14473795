import Mathlib
import Reckoner.Literal

/-!
# Numerals

The texts that `Numeral.ofChars?` takes apart are those of numerals with digits on either side of the
point (`ofChars?_eq_some_iff`), and `ofLiteral` is given for each of the two kinds of them
(`ofLiteral_fraction`, `ofLiteral_digits`). It counts significant digits before it converts an
integer; what it refuses for their number does not fit (`intMax_lt_natValue`).
-/

namespace Reckoner

/-! ## Runs of characters -/

section Runs

variable {p : Char → Bool} {run rest : List Char} (hrun : ∀ c ∈ run, p c = true)
  (hrest : ∀ c ∈ rest.head?, p c = false)

include hrun hrest

theorem takeWhile_run : (run ++ rest).takeWhile p = run := by
  rw [List.takeWhile_append_of_pos hrun]
  cases rest with
  | nil => simp
  | cons c rest => simp [hrest c rfl]

theorem dropWhile_run : (run ++ rest).dropWhile p = rest := by
  rw [List.dropWhile_append_of_pos hrun]
  cases rest with
  | nil => simp
  | cons c rest => simp [hrest c rfl]

end Runs

namespace Numeral

/-! ## The characters of a numeral -/

/-- One digit or more. -/
def IsDigits (cs : List Char) : Prop := cs ≠ [] ∧ ∀ c ∈ cs, c.isDigit = true

/-- The text of a numeral. -/
def chars : Numeral → List Char
  | ⟨whole, none⟩ => whole
  | ⟨whole, some fraction⟩ => whole ++ '.' :: fraction

/-- There are digits in front of the point, and behind it if there is one. -/
structure Proper (n : Numeral) : Prop where
  whole : IsDigits n.whole
  fraction : ∀ fraction ∈ n.fraction, IsDigits fraction

theorem IsDigits.all {cs : List Char} (h : IsDigits cs) : cs.all Char.isDigit = true :=
  List.all_eq_true.mpr h.2

theorem IsDigits.of_subset {cs ds : List Char} (h : IsDigits ds) (hne : cs ≠ []) (hsub : cs ⊆ ds) :
    IsDigits cs := ⟨hne, fun _ hc => h.2 _ (hsub hc)⟩

theorem isDigits_zero : IsDigits ['0'] := ⟨nofun, List.all_eq_true.mp rfl⟩

theorem isDigits_toDigits (n : Nat) : IsDigits (Nat.toDigits 10 n) :=
  ⟨Nat.toDigits_ne_nil, fun _ hc => Nat.isDigit_of_mem_toDigits (by decide) (by decide) hc⟩

theorem isDigit_of_mem_zeros {n : Nat} {c : Char} (h : c ∈ List.replicate n '0') :
    c.isDigit = true := by
  rw [List.eq_of_mem_replicate h]
  rfl

theorem IsDigits.zeros_append {ds : List Char} (h : IsDigits ds) (n : Nat) :
    IsDigits (List.replicate n '0' ++ ds) := by
  refine ⟨List.append_ne_nil_of_right_ne_nil _ h.1, fun c hc => ?_⟩
  exact (List.mem_append.mp hc).elim isDigit_of_mem_zeros (h.2 c)

theorem IsDigits.append_zeros {ds : List Char} (h : IsDigits ds) (n : Nat) :
    IsDigits (ds ++ List.replicate n '0') := by
  refine ⟨List.append_ne_nil_of_left_ne_nil h.1 _, fun c hc => ?_⟩
  exact (List.mem_append.mp hc).elim (h.2 c) isDigit_of_mem_zeros

theorem proper_of_ofChars? {cs : List Char} {n : Numeral} (h : ofChars? cs = some n) :
    n.Proper ∧ n.chars = cs := by
  have hcs := List.takeWhile_append_dropWhile (p := Char.isDigit) (l := cs)
  have hdigits : ∀ c ∈ cs.takeWhile Char.isDigit, c.isDigit = true :=
    List.all_eq_true.mp List.all_takeWhile
  unfold ofChars? at h
  generalize cs.takeWhile Char.isDigit = whole at h hcs hdigits
  generalize cs.dropWhile Char.isDigit = rest at h hcs
  split at h
  · cases h
  · next hne =>
    cases h
    rw [List.append_nil] at hcs
    exact ⟨⟨⟨fun hnil => hne hnil, hdigits⟩, nofun⟩, hcs⟩
  · next d ds hne =>
    split at h
    · next hall =>
      cases h
      refine ⟨⟨⟨fun hnil => hne hnil, hdigits⟩, ?_⟩, hcs⟩
      rintro fraction ⟨⟩
      exact ⟨List.cons_ne_nil d ds, List.all_eq_true.mp hall⟩
    · cases h
  · cases h

theorem Proper.ofChars?_chars {n : Numeral} (h : n.Proper) : ofChars? n.chars = some n := by
  obtain ⟨whole, fraction⟩ := n
  obtain ⟨⟨hne, hdigits⟩, hfraction⟩ := h
  obtain ⟨e, es, rfl⟩ := List.exists_cons_of_ne_nil hne
  cases fraction with
  | none =>
    have hend : ∀ c ∈ ([] : List Char).head?, c.isDigit = false := nofun
    have htake := takeWhile_run hdigits hend
    have hdrop := dropWhile_run hdigits hend
    rw [List.append_nil] at htake hdrop
    rw [chars, ofChars?, htake, hdrop]
  | some fraction =>
    obtain ⟨hnil, hall⟩ := hfraction fraction rfl
    obtain ⟨d, ds, rfl⟩ := List.exists_cons_of_ne_nil hnil
    have hpoint : ∀ c ∈ ('.' :: d :: ds).head?, c.isDigit = false := by
      rintro c ⟨⟩
      rfl
    rw [chars, ofChars?, takeWhile_run hdigits hpoint, dropWhile_run hdigits hpoint]
    exact if_pos (List.all_eq_true.mpr hall)

theorem ofChars?_eq_some_iff {cs : List Char} {n : Numeral} :
    ofChars? cs = some n ↔ n.Proper ∧ n.chars = cs := by
  constructor
  · exact proper_of_ofChars?
  · rintro ⟨h, rfl⟩
    exact h.ofChars?_chars

theorem ofChars?_eq_whole_iff {cs whole : List Char} :
    ofChars? cs = some ⟨whole, none⟩ ↔ whole = cs ∧ IsDigits cs := by
  rw [ofChars?_eq_some_iff]
  constructor
  · rintro ⟨h, rfl⟩
    exact ⟨rfl, h.whole⟩
  · rintro ⟨rfl, h⟩
    exact ⟨⟨h, nofun⟩, rfl⟩

theorem ofChars?_eq_fraction {whole fraction : List Char} (hwhole : IsDigits whole)
    (hfraction : IsDigits fraction) :
    ofChars? (whole ++ '.' :: fraction) = some ⟨whole, some fraction⟩ := by
  refine ofChars?_eq_some_iff.mpr ⟨⟨hwhole, ?_⟩, rfl⟩
  rintro fraction ⟨⟩
  exact hfraction

theorem chars_of_ofChars? {cs : List Char} {n : Numeral} (h : ofChars? cs = some n) :
    ∃ d ds, cs = d :: ds ∧ d.isDigit = true ∧ ∀ c ∈ ds, c.isDigit = true ∨ c = '.' := by
  obtain ⟨⟨⟨hne, hwhole⟩, hfraction⟩, rfl⟩ := ofChars?_eq_some_iff.mp h
  obtain ⟨whole, fraction⟩ := n
  obtain ⟨d, ds, rfl⟩ := List.exists_cons_of_ne_nil hne
  have hds : ∀ c ∈ ds, c.isDigit = true := fun c hc => hwhole c (List.mem_cons_of_mem d hc)
  have hd := hwhole d List.mem_cons_self
  cases fraction with
  | none => exact ⟨d, ds, rfl, hd, fun c hc => .inl (hds c hc)⟩
  | some fraction =>
    refine ⟨d, ds ++ '.' :: fraction, rfl, hd, fun c hc => ?_⟩
    rcases List.mem_append.mp hc with hc | hc
    · exact .inl (hds c hc)
    · rcases List.mem_cons.mp hc with rfl | hc
      · exact .inr rfl
      · exact .inl ((hfraction fraction rfl).2 c hc)

/-! ## The values of digits -/

theorem natValue_append_zeros (ds : List Char) (n : Nat) :
    natValue (ds ++ List.replicate n '0') = 10 ^ n * natValue ds := by
  rw [natValue, natValue, Nat.ofDigitChars_append, Nat.ofDigitChars_replicate_zero]

theorem natValue_zeros_append (ds : List Char) (n : Nat) :
    natValue (List.replicate n '0' ++ ds) = natValue ds := by
  rw [natValue, natValue, Nat.ofDigitChars_append, Nat.ofDigitChars_replicate_zero, Nat.mul_zero]

theorem natValue_cons (d : Char) (ds : List Char) :
    natValue (d :: ds) = 10 ^ ds.length * (d.toNat - '0'.toNat) + natValue ds := by
  rw [natValue, Nat.ofDigitChars_cons, Nat.ofDigitChars_eq_ofDigitChars_zero, Nat.mul_zero,
    Nat.zero_add]
  rfl

/-- A first digit that counts does so as often as there are numbers of the other digits. -/
theorem pow_length_le_natValue {d : Char} (hdigit : d.isDigit = true) (hd : d ≠ '0')
    (ds : List Char) : 10 ^ ds.length ≤ natValue (d :: ds) := by
  have hpos : 1 ≤ d.toNat - '0'.toNat := by
    have hlow : '0'.toNat ≤ d.toNat := (Char.isDigit_iff_toNat.mp hdigit).1
    have hne : d.toNat ≠ '0'.toNat := fun heq => hd (Char.toNat_inj.mp heq)
    omega
  rw [natValue_cons]
  calc 10 ^ ds.length = 10 ^ ds.length * 1 := (Nat.mul_one _).symm
    _ ≤ 10 ^ ds.length * (d.toNat - '0'.toNat) := Nat.mul_le_mul_left _ hpos
    _ ≤ _ := Nat.le_add_right ..

theorem natValue_lt {cs : List Char} (hdigits : ∀ c ∈ cs, c.isDigit = true) :
    natValue cs < 10 ^ cs.length := by
  induction cs with
  | nil => exact Nat.one_pos
  | cons d ds ih =>
    obtain ⟨hd, hds⟩ := List.forall_mem_cons.mp hdigits
    have hle : d.toNat - '0'.toNat ≤ 9 := by
      have hhigh : d.toNat ≤ '9'.toNat := (Char.isDigit_iff_toNat.mp hd).2
      exact Nat.sub_le_sub_right hhigh '0'.toNat
    rw [natValue_cons, List.length_cons, Nat.pow_succ]
    calc 10 ^ ds.length * (d.toNat - '0'.toNat) + natValue ds
        < 10 ^ ds.length * 9 + 10 ^ ds.length :=
          Nat.add_lt_add_of_le_of_lt (Nat.mul_le_mul_left _ hle) (ih hds)
      _ = 10 ^ ds.length * 10 := (Nat.mul_succ ..).symm

/-- Zeros in front change neither the number of significant digits nor the value. -/
theorem pow_le_natValue {cs : List Char} (hdigits : ∀ c ∈ cs, c.isDigit = true) {k : Nat}
    (h : k < significantDigits cs) : 10 ^ k ≤ natValue cs := by
  induction cs with
  | nil => exact absurd h (Nat.not_lt_zero k)
  | cons d ds ih =>
    by_cases hd : d = '0'
    · subst hd
      have hvalue : natValue ('0' :: ds) = natValue ds := natValue_zeros_append ds 1
      rw [hvalue]
      exact ih (fun c hc => hdigits c (List.mem_cons_of_mem _ hc)) h
    · have hlength : significantDigits (d :: ds) = ds.length + 1 := by
        simp [significantDigits, hd]
      rw [hlength] at h
      calc 10 ^ k ≤ 10 ^ ds.length := Nat.pow_le_pow_right (by simp) (Nat.le_of_lt_succ h)
        _ ≤ natValue (d :: ds) := pow_length_le_natValue (hdigits d List.mem_cons_self) hd ds

/-- Twenty significant digits or more do not fit. -/
theorem intMax_lt_natValue {cs : List Char} (hdigits : IsDigits cs)
    (hlong : maxSignificantDigits < significantDigits cs) : Number.intMax < natValue cs := by
  have hvalue : 10 ^ 19 ≤ natValue cs := pow_le_natValue hdigits.2 hlong
  unfold Number.intMax
  omega

/-- More digits than are converted, though only so many count as an integer that fits may have. -/
def Overlong (cs : List Char) : Prop :=
  cs.all Char.isDigit ∧ maxDigits < cs.length ∧
    significantDigits cs ≤ maxSignificantDigits

end Numeral

namespace Number

open Numeral (IsDigits Overlong natValue)

/-! ## What a literal is read as -/

theorem chars_of_ofLiteral {cs : List Char} {v : Number} (h : ofLiteral cs = .ok v) :
    ∃ d ds, cs = d :: ds ∧ d.isDigit = true ∧ ∀ c ∈ ds, c.isDigit = true ∨ c = '.' := by
  unfold ofLiteral at h
  cases hn : Numeral.ofChars? cs with
  | none =>
    rw [hn] at h
    cases h
  | some n => exact Numeral.chars_of_ofChars? hn

/-- What is refused is quoted in the error, unless it has too many digits to be read at all. -/
theorem error_of_ofLiteral {cs : List Char} {e : CalcError} (h : ofLiteral cs = .error e) :
    e = .invalidNumber (String.ofList cs) ∨ ∃ n, e = .digitLimit n := by
  unfold ofLiteral at h
  split at h
  · cases h
    exact .inl rfl
  · simp only at h
    split at h <;> cases h
    exact .inl rfl
  · simp only at h
    split at h
    · cases h
      exact .inl rfl
    · split at h
      · cases h
        exact .inr ⟨_, rfl⟩
      · split at h <;> cases h
        exact .inl rfl

theorem valid_of_ofLiteral {cs : List Char} {v : Number} (h : ofLiteral cs = .ok v) :
    v.Valid := by
  unfold ofLiteral at h
  split at h
  · cases h
  · simp only at h
    split at h
    · next hfinite =>
      cases h
      exact hfinite
    · cases h
  · simp only at h
    split at h
    · cases h
    · split at h
      · cases h
      · split at h
        · next hfits =>
          cases h
          exact hfits
        · cases h

/-- With a point in it a numeral is read as a double, and refused if that is infinite. -/
theorem ofLiteral_fraction {whole fraction : List Char} (hwhole : IsDigits whole)
    (hfraction : IsDigits fraction) : ofLiteral (whole ++ '.' :: fraction) =
      let x := Binary64.ofFraction false (natValue (whole ++ fraction)) (powerOfTen fraction.length)
      if x.isFinite then .ok (.float x)
      else .error (.invalidNumber (String.ofList (whole ++ '.' :: fraction))) := by
  unfold ofLiteral
  rw [Numeral.ofChars?_eq_fraction hwhole hfraction]

/-- Without a point it is read as an integer, and refused if that is out of range. -/
theorem ofLiteral_digits {cs : List Char} (hdigits : IsDigits cs) (hshort : ¬Overlong cs) :
    ofLiteral cs = if natValue cs ≤ intMax then .ok (.int (natValue cs))
      else .error (.invalidNumber (String.ofList cs)) := by
  unfold ofLiteral
  rw [Numeral.ofChars?_eq_whole_iff.mpr ⟨rfl, hdigits⟩]
  dsimp only
  by_cases hlong : Numeral.maxSignificantDigits < Numeral.significantDigits cs
  · have hlarge := Numeral.intMax_lt_natValue hdigits hlong
    rw [if_pos hlong, if_neg (Int.not_le.mpr hlarge)]
  · have hlength : ¬maxDigits < cs.length :=
      fun hlt => hshort ⟨hdigits.all, hlt, Nat.le_of_not_lt hlong⟩
    have hmin : intMin ≤ natValue cs := by
      unfold intMin
      omega
    rw [if_neg hlong, if_neg hlength]
    simp only [Fits, hmin, true_and]

/-- Too many digits are the one reason not to read a numeral at all. -/
theorem ofLiteral_eq_digitLimit_iff {cs : List Char} {n : Nat} :
    ofLiteral cs = .error (.digitLimit n) ↔ Numeral.Overlong cs ∧ n = cs.length := by
  constructor
  · intro h
    unfold ofLiteral at h
    split at h
    · cases h
    · simp only at h
      split at h <;> cases h
    · next whole hwhole =>
      obtain ⟨rfl, hdigits⟩ := Numeral.ofChars?_eq_whole_iff.mp hwhole
      simp only at h
      split at h
      · cases h
      · next hsignificant =>
        split at h
        · next hlong =>
          cases h
          exact ⟨⟨hdigits.all, hlong, Nat.le_of_not_lt hsignificant⟩, rfl⟩
        · split at h <;> cases h
  · rintro ⟨⟨hdigits, hlong, hsignificant⟩, rfl⟩
    have hne : cs ≠ [] := List.ne_nil_of_length_pos (Nat.zero_lt_of_lt hlong)
    unfold ofLiteral
    rw [Numeral.ofChars?_eq_whole_iff.mpr ⟨rfl, hne, List.all_eq_true.mp hdigits⟩]
    simp only
    rw [if_neg (Nat.not_lt_of_le hsignificant), if_pos hlong]

end Number

end Reckoner
