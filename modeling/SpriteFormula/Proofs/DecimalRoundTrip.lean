import Mathlib.Data.List.TakeDrop
import SpriteFormula.Binary64.Shortest

/-!
The text of a finite number reads back as its magnitude, bit for bit. The shortest numeral reads
back because the search tests it, every digit of the number because its value is exact, and the
positional notation of a numeral reads back as a numeral of the same value.
-/

namespace SpriteFormula

namespace Binary64

/-! ### Rounding an exact value changes nothing -/

theorem nearestWhole_mul (n d e : Nat) (hd : 0 < d) :
    nearestWhole (n * d) (d * e) = nearestWhole n e := by
  have hq : n * d / (d * e) = n / e := by
    rw [Nat.mul_comm d e, Nat.mul_div_mul_right _ _ hd]
  have hr : 2 * (n * d % (d * e)) = 2 * (n % e) * d := by
    rw [Nat.mul_comm d e, Nat.mul_mod_mul_right, Nat.mul_assoc]
  have hlt : 2 * (n % e) * d < d * e ↔ 2 * (n % e) < e := by
    rw [Nat.mul_comm d e, Nat.mul_lt_mul_right hd]
  have heq : 2 * (n % e) * d = d * e ↔ 2 * (n % e) = e := by
    rw [Nat.mul_comm d e, Nat.mul_right_cancel_iff hd]
  simp only [nearestWhole, hq, hr, hlt, heq]

theorem nearestMagnitude_mul (n d : Nat) (hd : 0 < d) :
    nearestMagnitude (n * d) d = nearestMagnitude n 1 := by
  have hq : doublings (n * d) d = doublings n 1 := by
    rw [doublings, doublings, Nat.mul_div_cancel _ hd, Nat.div_one]
  simp only [nearestMagnitude, hq, Nat.one_mul, nearestWhole_mul n d _ hd]

theorem nearestWhole_one (n : Nat) : nearestWhole n 1 = n := by
  simp [nearestWhole, Nat.mod_one]

theorem nearestWhole_self_mul (s e : Nat) (he : 0 < e) : nearestWhole (s * e) e = s := by
  simp [nearestWhole, Nat.mul_div_cancel _ he, he]

theorem doublings_of_lt {n : Nat} (h : n < 2 ^ 53) : doublings n 1 = 0 := by
  rw [doublings, Nat.div_one]
  by_cases hn : n = 0
  · rw [hn, Nat.log2_zero]
  · have := (Nat.log2_lt hn).mpr h
    omega

theorem doublings_mul_pow {s k : Nat} (hl : 2 ^ 52 ≤ s) (hu : s < 2 ^ 53) :
    doublings (s * 2 ^ k) 1 = k := by
  have hk := Nat.two_pow_pos k
  have hn : s * 2 ^ k ≠ 0 := Nat.mul_ne_zero (by omega) (by omega)
  have hlog : (s * 2 ^ k).log2 = 52 + k := by
    rw [Nat.log2_eq_iff hn, Nat.pow_add, Nat.add_right_comm, Nat.pow_add]
    exact ⟨Nat.mul_le_mul_right _ hl, Nat.mul_lt_mul_of_pos_right hu hk⟩
  rw [doublings, Nat.div_one, hlog]
  omega

/-- The units of a finite number round to its own magnitude. -/
theorem nearestMagnitude_units {v : Binary64} (hv : v.isFinite) :
    nearestMagnitude v.units 1 = v.magnitude := by
  have hfin : v.magnitude < infiniteMagnitude := of_decide_eq_true hv
  have hmin (n : Nat) (h : n = v.magnitude) : Nat.min infiniteMagnitude n = v.magnitude := by
    rw [h]
    exact Nat.min_eq_right (Nat.le_of_lt hfin)
  by_cases he : v.exponentField = 0
  · have hm : v.magnitude < 2 ^ 52 := by
      unfold exponentField at he
      omega
    have hu : v.units = v.magnitude := by simp [units, significand, he]
    simp only [nearestMagnitude, hu, doublings_of_lt (Nat.lt_trans hm (by decide))]
    apply hmin
    rw [Nat.pow_zero, Nat.mul_one, nearestWhole_one, Nat.zero_mul, Nat.zero_add]
  · have hs : v.significand = 2 ^ 52 + v.magnitude % 2 ^ 52 := by rw [significand, if_neg he]
    have hr := Nat.mod_lt v.magnitude (Nat.two_pow_pos 52)
    have hd : doublings v.units 1 = v.exponentField - 1 :=
      doublings_mul_pow (by omega) (by omega)
    simp only [nearestMagnitude, hd]
    apply hmin
    rw [Nat.one_mul, units, nearestWhole_self_mul _ _ (Nat.two_pow_pos _), hs]
    have := Nat.div_add_mod v.magnitude (2 ^ 52)
    unfold exponentField at he ⊢
    omega

/-! ### The numeral of a number has its magnitude -/

theorem nearestMagnitude_fifths (u n : Nat) :
    nearestMagnitude (u * 5 ^ n * 2 ^ n) (10 ^ n) = nearestMagnitude u 1 := by
  rw [Nat.mul_assoc, ← Nat.mul_pow]
  exact nearestMagnitude_mul u (10 ^ n) (Nat.pow_pos (by decide))

theorem two_mul_le_log2 (u n : Nat) (hu : u ≠ 0) : 2 * n ≤ (u * 5 ^ n).log2 := by
  have h5 : 0 < 5 ^ n := Nat.pow_pos (by decide)
  rw [Nat.le_log2 (Nat.mul_ne_zero hu (by omega)), Nat.pow_mul]
  calc (2 ^ 2) ^ n ≤ 5 ^ n := Nat.pow_le_pow_left (by decide) n
    _ = 1 * 5 ^ n := (Nat.one_mul _).symm
    _ ≤ u * 5 ^ n := Nat.mul_le_mul_right _ (Nat.pos_of_ne_zero hu)

/-- Every digit of a number: its units in tenths instead of halves. -/
theorem ofDecimal_exactNumeral {v : Binary64} (hv : v.isFinite) :
    ofDecimal v.exactNumeral = v.magnitude := by
  have hm := nearestMagnitude_units hv
  by_cases hu : v.units = 0
  · rw [hu] at hm
    simp only [ofDecimal, exactNumeral, hu, Nat.zero_mul, if_true]
    rw [← hm]
    rfl
  · have hlog := two_mul_le_log2 v.units 1074 hu
    have hd : v.units * 5 ^ 1074 ≠ 0 := by
      intro h
      rw [h, Nat.log2_zero] at hlog
      omega
    have hn : Int.natAbs (-1074) = 1074 := rfl
    rw [exactNumeral, ofDecimal]
    simp only
    rw [if_neg hd, if_neg (by decide), hn, if_neg (by omega), unitsPerOne,
      nearestMagnitude_fifths v.units 1074, hm]

theorem ofDecimal_of_numeralOfLength {v : Binary64} {n : Nat} {d : Decimal}
    (h : v.numeralOfLength? n = some d) : ofDecimal d = v.magnitude := by
  unfold numeralOfLength? at h
  exact of_decide_eq_true (List.find?_some (p := fun d => ofDecimal d = v.magnitude) h)

theorem ofDecimal_shortestNumeral {v : Binary64} (hv : v.isFinite) :
    ofDecimal v.shortestNumeral = v.magnitude := by
  unfold shortestNumeral
  cases h : (List.range' 1 17).findSome? v.numeralOfLength? with
  | none => exact ofDecimal_exactNumeral hv
  | some d =>
    obtain ⟨n, _, hn⟩ := List.exists_of_findSome?_eq_some h
    exact ofDecimal_of_numeralOfLength hn

end Binary64

/-! ### Positional notation reads back -/

namespace Decimal

theorem digitsValue_append_zeros (digits : List Char) (n : Nat) :
    digitsValue (digits ++ List.replicate n '0') = digitsValue digits * 10 ^ n := by
  change Nat.ofDigitChars 10 _ 0 = Nat.ofDigitChars 10 _ 0 * 10 ^ n
  rw [Nat.ofDigitChars_append, Nat.ofDigitChars_replicate_zero, Nat.mul_comm]

theorem digitsValue_leftpad (digits : List Char) (n : Nat) :
    digitsValue (digits.leftpad n '0') = digitsValue digits := by
  change Nat.ofDigitChars 10 _ 0 = Nat.ofDigitChars 10 _ 0
  rw [List.leftpad, Nat.ofDigitChars_append, Nat.ofDigitChars_replicate_zero, Nat.mul_zero]

theorem digitsValue_toDigits (n : Nat) : digitsValue (Nat.toDigits 10 n) = n :=
  Nat.ofDigitChars_ten_toDigits

theorem isDigit_of_mem_toDigits {n : Nat} {c : Char} (h : c ∈ Nat.toDigits 10 n) : c.isDigit :=
  Nat.isDigit_of_mem_toDigits (by decide) (by decide) h

theorem text_of_nonneg {d : Decimal} (h : 0 ≤ d.exponent) :
    d.text ≠ [] ∧ (∀ c ∈ d.text, c.isDigit) ∧
      digitsValue d.text = d.digits * 10 ^ d.exponent.toNat := by
  rw [text, if_pos h]
  refine ⟨by simp [Nat.toDigits_ne_nil], fun c hc => ?_, ?_⟩
  · rcases List.mem_append.mp hc with hc | hc
    · exact isDigit_of_mem_toDigits hc
    · rw [List.eq_of_mem_replicate hc]
      decide
  · rw [digitsValue_append_zeros, digitsValue_toDigits]

theorem text_of_neg {d : Decimal} (h : d.exponent < 0) :
    ∃ whole fraction, d.text = whole ++ '.' :: fraction ∧ whole ≠ [] ∧
      (∀ c ∈ whole ++ fraction, c.isDigit) ∧ digitsValue (whole ++ fraction) = d.digits ∧
      fraction.length = d.exponent.natAbs := by
  let padded := (Nat.toDigits 10 d.digits).leftpad (d.exponent.natAbs + 1) '0'
  have hl : d.exponent.natAbs < padded.length := by
    simp only [padded, List.length_leftpad]
    omega
  have hp : padded.take (padded.length - d.exponent.natAbs) ++
      padded.drop (padded.length - d.exponent.natAbs) = padded := List.take_append_drop _ _
  refine ⟨padded.take (padded.length - d.exponent.natAbs),
    padded.drop (padded.length - d.exponent.natAbs), ?_, ?_, ?_, ?_, ?_⟩
  · rw [text, if_neg (by omega)]
  · intro hn
    have := congrArg List.length hn
    rw [List.length_take, List.length_nil] at this
    omega
  · rw [hp]
    intro c hc
    rcases List.mem_append.mp hc with hc | hc
    · rw [List.eq_of_mem_replicate hc]
      decide
    · exact isDigit_of_mem_toDigits hc
  · rw [hp, digitsValue_leftpad, digitsValue_toDigits]
  · rw [List.length_drop]
    omega

end Decimal

namespace Binary64

theorem span_digits {digits rest : List Char} (hd : ∀ c ∈ digits, c.isDigit)
    (hr : ∀ c ∈ rest.head?, c.isDigit = false) :
    (digits ++ rest).span Char.isDigit = (digits, rest) := by
  rw [List.span_eq_takeWhile_dropWhile, List.takeWhile_append_of_pos hd,
    List.dropWhile_append_of_pos hd]
  cases rest with
  | nil => simp
  | cons c rest =>
    have := hr c rfl
    simp [this]

theorem decimal_of_digits {digits : List Char} (hn : digits ≠ []) (hd : ∀ c ∈ digits, c.isDigit) :
    decimal? digits = some ⟨Decimal.digitsValue digits, 0⟩ := by
  have h := @span_digits digits [] hd nofun
  rw [List.append_nil] at h
  simp only [decimal?, h, List.isEmpty_eq_false_iff.mpr hn, Bool.false_and, Bool.false_eq_true,
    if_false, exponent?, Option.map_some, List.append_nil, List.length_nil]
  rfl

theorem decimal_of_point {whole fraction : List Char} (hn : whole ≠ [])
    (hd : ∀ c ∈ whole ++ fraction, c.isDigit) :
    decimal? (whole ++ '.' :: fraction) =
      some ⟨Decimal.digitsValue (whole ++ fraction), -fraction.length⟩ := by
  rw [List.forall_mem_append] at hd
  have hw := @span_digits whole ('.' :: fraction) hd.1 (by rintro c ⟨⟩; decide)
  have hf := @span_digits fraction [] hd.2 nofun
  rw [List.append_nil] at hf
  simp only [decimal?, hw, hf, List.isEmpty_eq_false_iff.mpr hn, Bool.false_and,
    Bool.false_eq_true, if_false, exponent?, Option.map_some, Int.zero_sub]

theorem decimal_text {d : Decimal} (h : ofDecimal d < infiniteMagnitude) :
    ∃ other, decimal? d.text = some other ∧ ofDecimal other = ofDecimal d := by
  by_cases he : 0 ≤ d.exponent
  · obtain ⟨hn, hd, hv⟩ := Decimal.text_of_nonneg he
    refine ⟨_, decimal_of_digits hn hd, ?_⟩
    rw [hv]
    by_cases hz : d.digits = 0
    · simp [ofDecimal, hz]
    · have hcut : ¬ 342 ≤ d.exponent := by
        intro hc
        simp only [ofDecimal, if_neg hz, if_pos he, if_pos hc] at h
        exact absurd h (Nat.lt_irrefl _)
      have hz' : d.digits * 10 ^ d.exponent.toNat ≠ 0 :=
        Nat.mul_ne_zero hz (Nat.pos_iff_ne_zero.mp (Nat.pow_pos (by decide)))
      simp only [ofDecimal, if_neg hz, if_neg hz', if_pos he, if_neg hcut]
      simp
  · obtain ⟨whole, fraction, ht, hn, hd, hv, hl⟩ := Decimal.text_of_neg (by omega : d.exponent < 0)
    refine ⟨_, ht ▸ decimal_of_point hn hd, ?_⟩
    have hexp : -(fraction.length : Int) = d.exponent := by omega
    rw [hv, hexp]

theorem unsigned_text {d : Decimal} (h : ofDecimal d < infiniteMagnitude) :
    unsigned? d.text = some (ofMagnitude false (ofDecimal d)) := by
  obtain ⟨other, hd, ho⟩ := decimal_text h
  simp only [unsigned?, hd, ho]

/-! ### Numbers -/

/-- A row of digits with points among them, the first a digit. -/
def IsNumeral (text : List Char) : Prop :=
  ∃ first rest, text = first :: rest ∧ first.isDigit ∧ ∀ c ∈ rest, c.isDigit ∨ c = '.'

theorem isNumeral_of_digits {whole rest : List Char} (hn : whole ≠ [])
    (hw : ∀ c ∈ whole, c.isDigit) (hr : ∀ c ∈ rest, c.isDigit ∨ c = '.') :
    IsNumeral (whole ++ rest) := by
  cases whole with
  | nil => exact absurd rfl hn
  | cons first others =>
    rw [List.forall_mem_cons] at hw
    refine ⟨first, others ++ rest, rfl, hw.1, fun c hc => ?_⟩
    rcases List.mem_append.mp hc with hc | hc
    · exact .inl (hw.2 c hc)
    · exact hr c hc

theorem isNumeral_text (d : Decimal) : IsNumeral d.text := by
  by_cases he : 0 ≤ d.exponent
  · obtain ⟨hn, hd, _⟩ := Decimal.text_of_nonneg he
    rw [← List.append_nil d.text]
    exact isNumeral_of_digits hn hd nofun
  · obtain ⟨whole, fraction, ht, hn, hd, _⟩ := Decimal.text_of_neg (by omega : d.exponent < 0)
    rw [List.forall_mem_append] at hd
    rw [ht]
    refine isNumeral_of_digits hn hd.1 fun c hc => ?_
    rcases List.mem_cons.mp hc with rfl | hc
    · exact .inr rfl
    · exact .inl (hd.2 c hc)

theorem ofText_of_numeral {text : List Char} (hn : IsNumeral text) :
    ofText? (String.ofList text) = unsigned? text := by
  obtain ⟨first, rest, rfl, hf, _⟩ := hn
  rw [ofText?, String.toList_ofList]
  split
  · next h =>
    cases h
    exact absurd hf (by decide)
  · next h =>
    cases h
    exact absurd hf (by decide)
  · rfl

theorem isNumeral_magnitudeText {v : Binary64} (hv : v.isFinite) : IsNumeral v.magnitudeText := by
  have hfin : v.magnitude < infiniteMagnitude := of_decide_eq_true hv
  have hi : v.isInfinite = false := by simp [isInfinite]; omega
  unfold magnitudeText
  rw [hi]
  split
  · contradiction
  · split
    · exact ⟨'0', [], rfl, by decide, nofun⟩
    · exact isNumeral_text _

/-- The text of a finite number's magnitude reads back as the magnitude, exactly. -/
theorem ofText_magnitudeText {v : Binary64} (hv : v.isFinite) :
    ofText? (String.ofList v.magnitudeText) = some (ofMagnitude false v.magnitude) := by
  have hfin : v.magnitude < infiniteMagnitude := of_decide_eq_true hv
  have hi : v.isInfinite = false := by simp [isInfinite]; omega
  rw [ofText_of_numeral (isNumeral_magnitudeText hv), magnitudeText, hi, if_neg Bool.false_ne_true]
  split
  · next hz =>
    rw [isZero, beq_iff_eq] at hz
    have hd : decimal? ['0'] = some ⟨0, 0⟩ :=
      decimal_of_digits (List.cons_ne_nil _ _) (List.forall_mem_singleton.mpr (by decide))
    simp only [unsigned?, hd, ofDecimal, if_true, hz]
  · have hs := ofDecimal_shortestNumeral hv
    rw [unsigned_text (by rw [hs]; exact hfin), hs]

end Binary64

end SpriteFormula
