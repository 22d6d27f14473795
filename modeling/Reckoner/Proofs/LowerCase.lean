import Reckoner.Text.Case

/-!
# Lower case of lower case

A text in lower case stays as it is, and so does every part of it. What has to be seen in the table
is that no run of small letters meets a run of capitals.
-/

namespace Reckoner.Text

/-- The run has this code point. -/
def CapitalRun.holds (r : CapitalRun) (n : Nat) : Bool :=
  r.first ≤ n && n ≤ r.last && (n - r.first) % r.step == 0

/-- The code point of the small letter of a capital of the run. -/
def CapitalRun.small (r : CapitalRun) (n : Nat) : Nat := (n + r.shift).toNat

/-- By their first and last members, no small letter of the run is a capital of the other: they lie
apart, or every second code point belongs to one of them. -/
def CapitalRun.clearOf (r other : CapitalRun) : Bool :=
  Nat.blt (r.small r.last) other.first || Nat.blt other.last (r.small r.first) ||
    ((Nat.beq r.step 2 || Nat.beq r.first r.last) && Nat.beq other.step 2 &&
      Nat.beq ((r.small r.first + other.first) % 2) 1)

theorem clearOf_capitalRuns :
    (capitalRuns.all fun r => capitalRuns.all fun other => r.clearOf other) = true := by
  decide +kernel

/-- Beyond ASCII the dotted capital I is the only capital without a run. -/
theorem small_bounds_capitalRuns :
    (capitalRuns.all fun r => decide (0x5A < r.first + r.shift) &&
      (Nat.blt (r.small r.last) 0x130 || Nat.blt 0x130 (r.small r.first))) = true := by
  decide +kernel

theorem CapitalRun.holds_iff {r : CapitalRun} {n : Nat} :
    r.holds n = true ↔ (r.first ≤ n ∧ n ≤ r.last) ∧ (n - r.first) % r.step = 0 := by
  simp [holds]

theorem CapitalRun.not_holds_small {r other : CapitalRun} {n : Nat} (hn : r.holds n = true)
    (hpos : 0 < r.first + r.shift) (hclear : r.clearOf other = true) :
    other.holds (r.small n) = false := by
  obtain ⟨⟨hfirst, hlast⟩, hstep⟩ := holds_iff.mp hn
  rw [Bool.eq_false_iff, ne_eq, holds_iff]
  rintro ⟨⟨hofirst, holast⟩, hostep⟩
  simp only [clearOf, small, Bool.or_eq_true, Bool.and_eq_true, Nat.blt_eq, Nat.beq_eq]
    at hclear hofirst holast hostep
  obtain (happart | happart) | ⟨⟨hpace, hopace⟩, hparity⟩ := hclear
  · omega
  · omega
  · rw [hopace] at hostep
    obtain hpace | hpace := hpace
    · rw [hpace] at hstep
      omega
    · omega

/-- Lower case leaves the character as it is. -/
def IsSmall (c : Char) : Prop := lowerChar c = c ∧ c.toNat ≠ 0x3A3 ∧ c.toNat ≠ 0x130

instance : DecidablePred IsSmall := fun _ => inferInstanceAs (Decidable (_ ∧ _))

theorem isSmall_toLower_ascii : ∀ n < 0x80, IsSmall (Char.ofNat n).toLower := by decide +kernel

theorem isSmall_ascii : ∀ n < 0x80, 0x5A < n → IsSmall (Char.ofNat n) := by decide +kernel

theorem lowerChar_of_not_ascii {c : Char} (h : ¬ c.toNat < 0x80) :
    lowerChar c = match capitalRuns.find? fun r => r.holds c.toNat with
      | some r => Char.ofNat (r.small c.toNat)
      | none => c := by
  simp only [lowerChar, if_neg h]
  rfl

theorem toNat_ofNat {n : Nat} (h : n.isValidChar) : (Char.ofNat n).toNat = n := by
  rw [Char.ofNat, dif_pos h]
  rfl

/-- Beyond the capitals of ASCII, what no run has is small. -/
theorem isSmall_of_not_holds {c : Char} (hascii : 0x5A < c.toNat)
    (hruns : ∀ r ∈ capitalRuns, r.holds c.toNat = false) (hdotted : c.toNat ≠ 0x130) :
    IsSmall c := by
  by_cases hlow : c.toNat < 0x80
  · have hsmall := isSmall_ascii c.toNat hlow hascii
    rwa [Char.ofNat_toNat] at hsmall
  · refine ⟨?_, ?_, hdotted⟩
    · have hnone : (capitalRuns.find? fun r => r.holds c.toNat) = none := by
        simpa using hruns
      rw [lowerChar_of_not_ascii hlow, hnone]
    · intro hsigma
      have hheld : ∃ r ∈ capitalRuns, r.holds 0x3A3 = true := by decide +kernel
      obtain ⟨r, hr, hholds⟩ := hheld
      have hno := hruns r hr
      rw [hsigma, hholds] at hno
      cases hno

theorem isSmall_small {r : CapitalRun} (hr : r ∈ capitalRuns) {n : Nat} (hn : r.holds n = true) :
    IsSmall (Char.ofNat (r.small n)) := by
  by_cases hvalid : (r.small n).isValidChar
  · have hbounds := List.all_eq_true.mp small_bounds_capitalRuns r hr
    simp only [Bool.and_eq_true, Bool.or_eq_true, decide_eq_true_eq, Nat.blt_eq] at hbounds
    obtain ⟨hpos, hdotted⟩ := hbounds
    obtain ⟨⟨hfirst, hlast⟩, -⟩ := CapitalRun.holds_iff.mp hn
    apply isSmall_of_not_holds
    · rw [toNat_ofNat hvalid, CapitalRun.small]
      omega
    · intro other hother
      rw [toNat_ofNat hvalid]
      have hclear := List.all_eq_true.mp clearOf_capitalRuns r hr
      exact r.not_holds_small hn (by omega) (List.all_eq_true.mp hclear other hother)
    · rw [toNat_ofNat hvalid]
      unfold CapitalRun.small at hdotted ⊢
      omega
  · rw [Char.ofNat, dif_neg hvalid]
    decide

/-- The lower case of a character other than the two that are treated apart is small. -/
theorem isSmall_lowerChar {c : Char} (hsigma : c.toNat ≠ 0x3A3) (hdotted : c.toNat ≠ 0x130) :
    IsSmall (lowerChar c) := by
  by_cases hlow : c.toNat < 0x80
  · have hsmall := isSmall_toLower_ascii c.toNat hlow
    rw [Char.ofNat_toNat] at hsmall
    rwa [lowerChar, if_pos hlow]
  · rw [lowerChar_of_not_ascii hlow]
    split
    · rename_i r hfound
      have hholds := List.find?_some hfound
      exact isSmall_small (List.mem_of_find?_eq_some hfound) hholds
    · rename_i hnone
      refine ⟨?_, hsigma, hdotted⟩
      rw [lowerChar_of_not_ascii hlow, hnone]

theorem isSmall_of_mem_lowerAfter {c : Char} {before cs : List Char}
    (h : c ∈ lowerAfter before cs) : IsSmall c := by
  induction cs generalizing before with
  | nil => cases h
  | cons d cs ih =>
    rw [lowerAfter, List.mem_append] at h
    obtain h | h := h
    · split at h
      · -- both small sigmas
        have hsigmas : IsSmall (Char.ofNat 0x3C2) ∧ IsSmall (Char.ofNat 0x3C3) := by decide +kernel
        split at h <;> rw [List.mem_singleton] at h <;> subst h
        · exact hsigmas.1
        · exact hsigmas.2
      · split at h
        · -- the small i and the dot that is left over
          have hpair : IsSmall 'i' ∧ IsSmall (Char.ofNat 0x307) := by decide +kernel
          simp only [List.mem_cons, List.not_mem_nil, or_false] at h
          obtain rfl | rfl := h
          · exact hpair.1
          · exact hpair.2
        · rename_i hsigma hdotted
          rw [List.mem_singleton] at h
          subst h
          exact isSmall_lowerChar hsigma hdotted
    · exact ih h

theorem lowerAfter_of_isSmall {before cs : List Char} (h : ∀ c ∈ cs, IsSmall c) :
    lowerAfter before cs = cs := by
  induction cs generalizing before with
  | nil => rfl
  | cons c cs ih =>
    obtain ⟨hself, hsigma, hdotted⟩ := h c List.mem_cons_self
    have hrest : lowerAfter (c :: before) cs = cs := ih fun d hd => h d (List.mem_cons_of_mem c hd)
    simp only [lowerAfter, if_neg hsigma, if_neg hdotted, hself, hrest, List.singleton_append]

/-- Part of a text in lower case is in lower case. -/
theorem lower_of_subset {s : String} {cs : List Char} (h : cs ⊆ (lower s).toList) :
    lower (String.ofList cs) = String.ofList cs := by
  rw [lower, String.toList_ofList]
  congr 1
  apply lowerAfter_of_isSmall
  intro c hc
  have hmem := h hc
  rw [lower, String.toList_ofList] at hmem
  exact isSmall_of_mem_lowerAfter hmem

end Reckoner.Text
