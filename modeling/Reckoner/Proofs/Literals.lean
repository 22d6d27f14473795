import Reckoner.Proofs.NearestDouble
import Reckoner.Proofs.Traps

/-!
# What the text of a literal stands for

`Number.Reads` says which number the text of a literal is, or why it is refused, without the steps by
which it is read: digits with a fraction are the nearest double, digits alone the integer they stand
for. `ofLiteral` answers exactly that (`ofLiteral_reads`).
-/

namespace Reckoner

namespace Numeral

/-- The texts of literals: digits, or digits on both sides of a point. -/
inductive WellFormed : List Char → Prop
  | whole {whole : List Char} (h : IsDigits whole) : WellFormed whole
  | fraction {whole fraction : List Char} (hwhole : IsDigits whole) (hfraction : IsDigits fraction) :
      WellFormed (whole ++ '.' :: fraction)

theorem wellFormed_of_ofChars? {cs : List Char} {n : Numeral} (h : ofChars? cs = some n) :
    WellFormed cs := by
  obtain ⟨hproper, rfl⟩ := ofChars?_eq_some_iff.mp h
  obtain ⟨whole, _ | fraction⟩ := n
  · exact .whole hproper.whole
  · exact .fraction hproper.whole (hproper.fraction fraction rfl)

end Numeral

namespace Number

open Numeral (IsDigits WellFormed Overlong natValue)

/-- What the text of a literal stands for: the number, or why there is none. -/
inductive Reads (text : String) : Except CalcError Number → Prop
  | malformed (h : ¬WellFormed text.toList) : Reads text (.error (.invalidNumber text))
  | double {whole fraction : List Char} {w : Nat} (hwhole : IsDigits whole)
      (hfraction : IsDigits fraction) (htext : text.toList = whole ++ '.' :: fraction)
      (hnearest : Binary64.IsNearest w (natValue (whole ++ fraction) / 10 ^ fraction.length))
      (hfinite : w < Binary64.infinityWord) : Reads text (.ok (.float (Binary64.ofWord false w)))
  | infinite {whole fraction : List Char} (hwhole : IsDigits whole) (hfraction : IsDigits fraction)
      (htext : text.toList = whole ++ '.' :: fraction)
      (hnearest : Binary64.IsNearest Binary64.infinityWord
        (natValue (whole ++ fraction) / 10 ^ fraction.length)) :
      Reads text (.error (.invalidNumber text))
  | overlong (h : Overlong text.toList) : Reads text (.error (.digitLimit text.length))
  | integer (hdigits : IsDigits text.toList) (hshort : ¬Overlong text.toList)
      (hfits : natValue text.toList ≤ intMax) : Reads text (.ok (.int (natValue text.toList)))
  | large (hdigits : IsDigits text.toList) (hshort : ¬Overlong text.toList)
      (hlarge : intMax < natValue text.toList) : Reads text (.error (.invalidNumber text))

/-- The number as its constructor makes it, which refuses one that does not fit. -/
def construct : Number → Except CalcError Number
  | int n => ofInt n
  | float x => ofFloat x

theorem construct_of_valid {v : Number} (h : v.Valid) : v.construct = .ok v := by
  cases v with
  | int n => exact if_pos h
  | float x => exact if_pos h

theorem ofLiteral_malformed {cs : List Char} (h : ¬WellFormed cs) :
    ofLiteral cs = .error (.invalidNumber (String.ofList cs)) := by
  have hnone : Numeral.ofChars? cs = none :=
    Option.eq_none_iff_forall_ne_some.mpr fun n hn => h (Numeral.wellFormed_of_ofChars? hn)
  unfold ofLiteral
  rw [hnone]

theorem isNearest_decimal_iff {w n places : Nat} :
    Binary64.IsNearest w (n / 10 ^ places) ↔ w = Binary64.nearest n (powerOfTen places) := by
  rw [← Binary64.nearest_iff (powerOfTen_ne_zero places), powerOfTen_eq]
  push_cast
  rfl

theorem exists_isNearest_decimal (n places : Nat) :
    ∃ w, Binary64.IsNearest w (n / 10 ^ places) := ⟨_, isNearest_decimal_iff.mpr rfl⟩

/-- A numeral with a point is read as the nearest double, and refused if that is infinite. -/
theorem ofLiteral_nearest {whole fraction : List Char} {w : Nat} (hwhole : IsDigits whole)
    (hfraction : IsDigits fraction)
    (hnearest : Binary64.IsNearest w (natValue (whole ++ fraction) / 10 ^ fraction.length)) :
    ofLiteral (whole ++ '.' :: fraction) =
      if w < Binary64.infinityWord then .ok (.float (Binary64.ofWord false w))
      else .error (.invalidNumber (String.ofList (whole ++ '.' :: fraction))) := by
  have hword := isNearest_decimal_iff.mp hnearest
  have hfinite : (Binary64.ofWord false w).isFinite = true ↔ w < Binary64.infinityWord := by
    constructor
    · intro h
      refine Nat.lt_of_le_of_ne hnearest.le ?_
      rintro rfl
      exact absurd h (by decide)
    · exact Binary64.isFinite_ofWord
  rw [ofLiteral_fraction hwhole hfraction]
  simp only [Binary64.ofFraction, ← hword, hfinite]

theorem Reads.eq {text : String} {r : Except CalcError Number} (h : Reads text r) :
    ofLiteral text.toList = r := by
  cases h with
  | malformed h => rw [ofLiteral_malformed h, String.ofList_toList]
  | double hwhole hfraction htext hnearest hfinite =>
    rw [htext, ofLiteral_nearest hwhole hfraction hnearest, if_pos hfinite]
  | infinite hwhole hfraction htext hnearest =>
    rw [htext, ofLiteral_nearest hwhole hfraction hnearest, if_neg (Nat.lt_irrefl _), ← htext,
      String.ofList_toList]
  | overlong h =>
    apply ofLiteral_eq_digitLimit_iff.mpr
    exact ⟨h, String.length_toList.symm⟩
  | integer hdigits hshort hfits => rw [ofLiteral_digits hdigits hshort, if_pos hfits]
  | large hdigits hshort hlarge =>
    rw [ofLiteral_digits hdigits hshort, if_neg (Int.not_le.mpr hlarge), String.ofList_toList]

theorem exists_reads (text : String) : ∃ r, Reads text r := by
  by_cases hform : WellFormed text.toList
  · generalize hcs : text.toList = cs at hform
    cases hform with
    | whole hdigits =>
      subst hcs
      by_cases hlong : Overlong text.toList
      · exact ⟨_, .overlong hlong⟩
      · rcases Int.lt_or_le intMax (natValue text.toList) with hlarge | hfits
        · exact ⟨_, .large hdigits hlong hlarge⟩
        · exact ⟨_, .integer hdigits hlong hfits⟩
    | @fraction whole fraction hwhole hfraction =>
      obtain ⟨w, hnearest⟩ := exists_isNearest_decimal (natValue (whole ++ fraction)) fraction.length
      rcases Nat.lt_or_eq_of_le hnearest.le with hlt | rfl
      · exact ⟨_, .double hwhole hfraction hcs hnearest hlt⟩
      · exact ⟨_, .infinite hwhole hfraction hcs hnearest⟩
  · exact ⟨_, .malformed hform⟩

/-- **A literal is read as what its text stands for.** No finite double is nearer to the decimal value
than the one that is read, no integer that fits is refused for its significant digits, and the
constructors accept whatever is read. -/
theorem ofLiteral_reads (text : String) :
    (∀ r, ofLiteral text.toList = r ↔ Reads text r) ∧
    (∀ whole fraction x, IsDigits whole → IsDigits fraction →
      text.toList = whole ++ '.' :: fraction → ofLiteral text.toList = .ok (.float x) →
      ∀ y : Float, y.isFinite = true →
        |Binary64.toRat x - natValue (whole ++ fraction) / 10 ^ fraction.length| ≤
          |Binary64.toRat y - natValue (whole ++ fraction) / 10 ^ fraction.length|) ∧
    (Overlong text.toList → Trapping.literal text.toList = .error (.trap .value)) ∧
    (IsDigits text.toList →
      Numeral.maxSignificantDigits < Numeral.significantDigits text.toList →
      intMax < natValue text.toList) ∧
    (ofLiteral text.toList >>= construct) = ofLiteral text.toList := by
  refine ⟨fun r => ⟨?_, Reads.eq⟩, ?_, ?_, Numeral.intMax_lt_natValue, ?_⟩
  · rintro rfl
    obtain ⟨r, hr⟩ := exists_reads text
    rwa [hr.eq]
  · intro whole fraction x hwhole hfraction htext hx y hy
    obtain ⟨w, hnearest⟩ := exists_isNearest_decimal (natValue (whole ++ fraction)) fraction.length
    rw [htext, ofLiteral_nearest hwhole hfraction hnearest] at hx
    split at hx
    · next hfinite =>
      cases hx
      exact hnearest.le_double hfinite (by positivity) hy
    · cases hx
  · intro hlong
    rw [Trapping.literal_eq, ofLiteral_eq_digitLimit_iff.mpr ⟨hlong, rfl⟩]
    rfl
  · cases hv : ofLiteral text.toList with
    | error e => rfl
    | ok v => exact construct_of_valid (valid_of_ofLiteral hv)

/-- The greatest integer that fits and the next one, which have equally many digits. -/
theorem ofLiteral_reads_limit :
    ofLiteral "9223372036854775807".toList = .ok (.int intMax) ∧
      ofLiteral "9223372036854775808".toList = .error (.invalidNumber "9223372036854775808") := by
  have hshort : ∀ text : String, text.toList.length ≤ maxDigits → ¬Overlong text.toList :=
    fun text hlength hlong => Nat.not_lt_of_le hlength hlong.2.1
  constructor
  · apply ((ofLiteral_reads "9223372036854775807").1 _).mpr
    exact .integer ⟨nofun, List.all_eq_true.mp rfl⟩ (hshort _ (by decide)) (by decide)
  · apply ((ofLiteral_reads "9223372036854775808").1 _).mpr
    exact .large ⟨nofun, List.all_eq_true.mp rfl⟩ (hshort _ (by decide)) (by decide)

end Number

end Reckoner
