import Reckoner.Proofs.Equality
import Reckoner.Proofs.ExactValues
import Reckoner.Proofs.Groups

/-!
# The texts of numbers

No two numbers have the same text, unless one is an integer and the other a double. For integers the
digits say it; the text of a double is a numeral, with an exponent mark behind it or not
(`Decimal.Shows`), and stands for one decimal only, which is read back as the double. A text consists
of digits, points, exponent marks and signs (`Number.isTextChar_of_mem`), so it ends where any other
character follows.
-/

namespace Reckoner

open Numeral (IsDigits natValue)

/-- What stands in front of the first mark is determined by the whole. -/
theorem append_mark_inj {α : Type} {m : α} {front front' rest rest' : List α} (h : m ∉ front)
    (h' : m ∉ front') (heq : front ++ m :: rest = front' ++ m :: rest') :
    front = front' ∧ rest = rest' := by
  induction front generalizing front' with
  | nil =>
    cases front' with
    | nil => exact ⟨rfl, List.tail_eq_of_cons_eq heq⟩
    | cons c front' =>
      obtain rfl : m = c := List.head_eq_of_cons_eq heq
      exact absurd List.mem_cons_self h'
  | cons c front ih =>
    cases front' with
    | nil =>
      obtain rfl : c = m := List.head_eq_of_cons_eq heq
      exact absurd List.mem_cons_self h
    | cons c' front' =>
      obtain ⟨rfl, hrest⟩ := List.cons.inj heq
      rw [List.mem_cons, not_or] at h h'
      obtain ⟨rfl, rfl⟩ := ih h.2 h'.2 hrest
      exact ⟨rfl, rfl⟩

/-! ## Numerals with an exponent mark -/

/-- The number that a numeral stands for. -/
def Numeral.value (n : Numeral) : ℚ :=
  natValue (n.whole ++ n.fraction.getD []) / 10 ^ (n.fraction.getD []).length

theorem Numeral.mark_not_mem {cs : List Char} {n : Numeral} (h : ofChars? cs = some n) :
    'e' ∉ cs := by
  obtain ⟨d, ds, rfl, hd, hds⟩ := chars_of_ofChars? h
  intro hmem
  rcases List.mem_cons.mp hmem with rfl | hmem
  · cases hd
  · rcases hds _ hmem with hc | hc <;> cases hc

namespace Decimal

theorem exponentChars_injective : Function.Injective exponentChars := by
  have hvalue (e : Int) : natValue (if (Nat.toDigits 10 e.natAbs).length < 2 then
      '0' :: Nat.toDigits 10 e.natAbs else Nat.toDigits 10 e.natAbs) = e.natAbs := by
    have hdigits : natValue (Nat.toDigits 10 e.natAbs) = e.natAbs := Nat.ofDigitChars_ten_toDigits
    split
    · have hzero := Numeral.natValue_zeros_append (Nat.toDigits 10 e.natAbs) 1
      rw [hdigits] at hzero
      exact hzero
    · exact hdigits
  intro e e' h
  obtain ⟨-, h⟩ := List.cons.inj h
  obtain ⟨hsign, h⟩ := List.cons.inj h
  have habs : e.natAbs = e'.natAbs := by
    rw [← hvalue e, ← hvalue e', h]
  split at hsign <;> split at hsign
  · omega
  · cases hsign
  · cases hsign
  · omega

/-- The characters are a numeral, with an exponent mark behind it or not, of this value. -/
def Shows (cs : List Char) (v : ℚ) : Prop :=
  ∃ front n, Numeral.ofChars? front = some n ∧ (cs = front ∧ v = n.value ∨
    ∃ lead, cs = front ++ exponentChars lead ∧ v = n.value * 10 ^ lead)

theorem Shows.unique {cs : List Char} {v v' : ℚ} (h : Shows cs v) (h' : Shows cs v') : v = v' := by
  obtain ⟨front, n, hn, ⟨rfl, rfl⟩ | ⟨lead, rfl, rfl⟩⟩ := h
  · obtain ⟨front', n', hn', ⟨rfl, rfl⟩ | ⟨lead', rfl, rfl⟩⟩ := h'
    · cases hn.symm.trans hn'
      rfl
    · exact absurd (List.mem_append_right front' List.mem_cons_self) (Numeral.mark_not_mem hn)
  · obtain ⟨front', n', hn', ⟨rfl, rfl⟩ | ⟨lead', heq, rfl⟩⟩ := h'
    · exact absurd (List.mem_append_right front List.mem_cons_self) (Numeral.mark_not_mem hn')
    · obtain ⟨rfl, hrest⟩ :=
        append_mark_inj (Numeral.mark_not_mem hn) (Numeral.mark_not_mem hn') heq
      cases exponentChars_injective (congrArg ('e' :: ·) hrest)
      cases hn.symm.trans hn'
      rfl

theorem shows_scientificChars {ds : List Char} (hds : IsDigits ds) (lead : Int) :
    Shows (scientificChars ds lead) (natValue ds * 10 ^ (lead + 1 - ds.length)) := by
  match ds, hds with
  | [c], hds =>
    refine ⟨[c], ⟨[c], none⟩, Numeral.ofChars?_eq_whole_iff.mpr ⟨rfl, hds⟩, .inr ⟨lead, rfl, ?_⟩⟩
    simp [Numeral.value]
  | c :: second :: rest, hds =>
    have hfirst : IsDigits [c] := hds.of_subset nofun (by simp)
    have hrest : IsDigits (second :: rest) := hds.of_subset nofun (by simp)
    refine ⟨_, _, Numeral.ofChars?_eq_fraction hfirst hrest, .inr ⟨lead, ?_, ?_⟩⟩
    · simp [scientificChars]
    · have hplaces : lead + 1 - (c :: second :: rest).length =
          lead + -((second :: rest).length : Int) := by
        simp only [List.length_cons]
        omega
      rw [hplaces, zpow_add₀ (by decide), zpow_neg, zpow_natCast, Numeral.value]
      simp only [Option.getD_some, List.singleton_append]
      ring

theorem shows_layoutChars {ds : List Char} (hds : IsDigits ds) (lead : Int) :
    Shows (layoutChars .plain ds lead) (natValue ds * 10 ^ (lead + 1 - ds.length)) := by
  unfold layoutChars
  split
  · obtain ⟨whole, fraction, hn, hv⟩ := positional_positionalChars hds lead
    exact ⟨_, _, hn, .inl ⟨rfl, hv.symm⟩⟩
  · exact shows_scientificChars hds lead

theorem shows_chars {d : Decimal} (hd : d.coefficient ≠ 0) :
    Shows (d.chars .plain) (d.coefficient * 10 ^ d.exponent) := by
  rw [← natValue_digitChars hd]
  exact shows_layoutChars (isDigits_digitChars hd) _

/-- Equal decimals are read as the same double. -/
theorem wordAt_congr {c c' : Nat} {place place' : Int}
    (h : (c : ℚ) * 10 ^ place = c' * 10 ^ place') : wordAt c place = wordAt c' place' := by
  refine wordAt_eq_nearest (powerOfTen_ne_zero _) ?_
  have hpow := zpow_eq_div 10 (by decide) place'
  push_cast at hpow
  rw [h, hpow, powerOfTen_eq, powerOfTen_eq]
  push_cast
  ring

end Decimal

/-! ## Numbers without a sign -/

theorem Binary64.isNegative_ofWord {w : Nat} (hw : w < infinityWord) :
    isNegative (ofWord false w) = false := by
  have hbits : (ofWord false w).toBits = encoding false w :=
    toBits_ofBits (isFinite_unpack_encoding hw)
  have hword : (encoding false w).toNat = w := toNat_encoding hw
  rw [isNegative, hbits, hword, decide_eq_false_iff_not]
  unfold infinityWord at hw
  unfold signBit
  omega

namespace Number

theorem unsigned_of_ofLiteral {cs : List Char} {v : Number} (h : ofLiteral cs = .ok v) :
    v.Unsigned := by
  unfold ofLiteral at h
  split at h
  · cases h
  · next whole fraction _ =>
    simp only at h
    split at h
    · next hfinite =>
      cases h
      have hnearest := Binary64.isNearest_nearest (Numeral.natValue (whole ++ fraction))
        (powerOfTen_ne_zero fraction.length)
      refine Binary64.isNegative_ofWord (Nat.lt_of_le_of_ne hnearest.le fun hinfinite => ?_)
      rw [Binary64.ofFraction, hinfinite] at hfinite
      exact absurd hfinite (by decide)
    · cases h
  · simp only at h
    split at h
    · cases h
    · split at h
      · cases h
      · split at h
        · cases h
          exact Int.natCast_nonneg _
        · cases h

/-- Numbers without a sign are equal only if they are the same. -/
theorem beq_iff_eq {v w : Number} (hv : v.Valid) (hw : w.Valid) (hv' : v.Unsigned)
    (hw' : w.Unsigned) : (v == w) = true ↔ v = w := by
  constructor
  · intro h
    rcases beq_cases h with ⟨n, rfl, rfl⟩ | ⟨x, y, rfl, rfl, hxy⟩
    · rfl
    · have hx : Binary64.isNegative x = false := hv'
      have hy : Binary64.isNegative y = false := hw'
      rw [Binary64.beq_iff hv hw, Binary64.toRat_eq hv, Binary64.toRat_eq hw, hx, hy] at hxy
      have hmagnitude := Binary64.value_strictMono.injective hxy
      rw [← Binary64.ofWord_magnitude hv hx, ← Binary64.ofWord_magnitude hw hy, hmagnitude]
  · rintro rfl
    exact beq_self hv

/-! ## Texts -/

/-- What can stand in the text of a number. -/
def IsTextChar (c : Char) : Prop := c.isDigit = true ∨ c ∈ ['.', 'e', '+', '-']

end Number

theorem Decimal.Shows.isTextChar {cs : List Char} {v : ℚ} (h : Shows cs v) :
    ∀ c ∈ cs, Number.IsTextChar c := by
  obtain ⟨front, n, hn, hcs⟩ := h
  have hfront : ∀ c ∈ front, Number.IsTextChar c := by
    obtain ⟨d, ds, rfl, hd, hds⟩ := Numeral.chars_of_ofChars? hn
    rw [List.forall_mem_cons]
    refine ⟨.inl hd, fun c hc => (hds c hc).imp_right ?_⟩
    rintro rfl
    simp
  rcases hcs with ⟨rfl, -⟩ | ⟨lead, rfl, -⟩
  · exact hfront
  · have hdigits (c : Char) (hc : c ∈ Nat.toDigits 10 lead.natAbs) : Number.IsTextChar c :=
      .inl ((Numeral.isDigits_toDigits _).2 c hc)
    rw [List.forall_mem_append]
    refine ⟨hfront, ?_⟩
    simp only [exponentChars, List.forall_mem_cons]
    refine ⟨.inr (by simp), .inr (by split <;> simp), ?_⟩
    split
    · rw [List.forall_mem_cons]
      exact ⟨.inl rfl, hdigits⟩
    · exact hdigits

namespace Number

/-- Behind its sign a double shows a decimal that is read as its magnitude. -/
theorem exists_shows_text {x : Float} (hx : x.isFinite = true) :
    ∃ cs, ∃ c : Nat, ∃ place, (float x).text.toList = Binary64.signChars x ++ cs ∧
      Decimal.Shows cs (c * 10 ^ place) ∧ Decimal.wordAt c place = Binary64.magnitude x := by
  have hlt := Binary64.magnitude_lt hx
  rw [toList_text_float hx]
  by_cases hzero : Binary64.magnitude x = 0
  · refine ⟨_, 0, 0, rfl, ?_, ?_⟩
    · rw [if_pos hzero]
      refine ⟨_, ⟨['0'], some ['0']⟩, rfl, .inl ⟨rfl, ?_⟩⟩
      norm_num [Numeral.value, Numeral.natValue, Nat.ofDigitChars]
    · rw [hzero]
      rfl
  · refine ⟨_, _, _, rfl, ?_, (Decimal.hits_shortest hlt).wordAt_eq⟩
    rw [if_neg hzero]
    exact Decimal.shows_chars (Decimal.coefficient_shortest_ne_zero hlt hzero)

theorem isTextChar_of_mem {v : Number} (hv : v.Valid) : ∀ c ∈ v.text.toList, IsTextChar c := by
  cases v with
  | int n =>
    have hdigits (c : Char) (hc : c ∈ Nat.toDigits 10 n.natAbs) : IsTextChar c :=
      .inl ((Numeral.isDigits_toDigits _).2 c hc)
    rw [text, String.toList_append, String.toList_ofList, List.forall_mem_append]
    refine ⟨?_, hdigits⟩
    split
    · intro c hc
      obtain rfl : c = '-' := List.mem_singleton.mp hc
      exact .inr (by simp)
    · simp
  | float x =>
    obtain ⟨cs, c, place, htext, hshows, -⟩ := exists_shows_text hv
    rw [htext, List.forall_mem_append]
    refine ⟨fun c hc => ?_, hshows.isTextChar⟩
    rw [Binary64.signChars] at hc
    split at hc
    · obtain rfl : c = '-' := List.mem_singleton.mp hc
      exact .inr (by simp)
    · cases hc

theorem toList_text_int {n : Int} (hn : 0 ≤ n) :
    (int n).text.toList = Nat.toDigits 10 n.natAbs := by
  rw [text, if_neg (Int.not_lt.mpr hn), String.empty_append, String.toList_ofList]

/-- Without a sign, integers with the same text are the same, and so are doubles. -/
theorem eq_of_text {v w : Number} (hv : v.Valid) (hw : w.Valid) (hv' : v.Unsigned)
    (hw' : w.Unsigned) (hkind : v.isInt = w.isInt) (h : v.text = w.text) : v = w := by
  cases v with
  | int m =>
    cases w with
    | int n =>
      have hm : 0 ≤ m := hv'
      have hn : 0 ≤ n := hw'
      have hdigits := congrArg (fun s => Numeral.natValue s.toList) h
      simp only [toList_text_int hm, toList_text_int hn, Numeral.natValue,
        Nat.ofDigitChars_ten_toDigits] at hdigits
      rw [Int.natAbs_inj_of_nonneg_of_nonneg hm hn] at hdigits
      rw [hdigits]
    | float y => cases hkind
  | float x =>
    cases w with
    | int n => cases hkind
    | float y =>
      have hx : Binary64.isNegative x = false := hv'
      have hy : Binary64.isNegative y = false := hw'
      obtain ⟨cs, c, place, htext, hshows, hword⟩ := exists_shows_text hv
      obtain ⟨cs', c', place', htext', hshows', hword'⟩ := exists_shows_text hw
      rw [Binary64.signChars, hx] at htext
      rw [Binary64.signChars, hy, ← h, htext] at htext'
      obtain rfl : cs = cs' := htext'
      have hmagnitude := Decimal.wordAt_congr (hshows.unique hshows')
      rw [hword, hword'] at hmagnitude
      rw [← Binary64.ofWord_magnitude hv hx, ← Binary64.ofWord_magnitude hw hy, hmagnitude]

end Number

end Reckoner
