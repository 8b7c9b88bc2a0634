import Pilot.V1.Wire

/-!
# The texts of decimals

A decimal is written with its own digits, in plain notation where its exponent is small and with
an exponent elsewhere. Whatever notation is chosen, reading the text gives the same number.
-/

namespace Pilot.V1

open V33 (parseFloat takeDigits takeSign)

/-! ### Decimals -/

/-- A finite decimal as it is stored: its sign, its digits and the exponent of the last one. -/
structure Decimal where
  negative : Bool
  digits : List Char
  exponent : ℤ
  isDigit : ∀ c ∈ digits, c.isDigit = true
  nonempty : digits ≠ []

/-- The number the digits write. -/
def coefficient (digits : List Char) : ℕ := Nat.ofDigitChars 10 digits 0

/-- A sign. -/
def signValue (negative : Bool) : ℤ := if negative then -1 else 1

namespace Decimal

/-- The number a decimal is. -/
def value (d : Decimal) : ℚ :=
  signValue d.negative * coefficient d.digits * (10 : ℚ) ^ d.exponent

/-- The position of the leading digit, counted from the point. -/
def leftDigits (d : Decimal) : ℤ := d.exponent + d.digits.length

/-- Where the point is put among the digits. -/
def dotPlace (d : Decimal) : ℤ :=
  if d.exponent ≤ 0 ∧ -6 < d.leftDigits then d.leftDigits else 1

/-- The digits with the point. -/
def mantissa (d : Decimal) : List Char :=
  if d.dotPlace ≤ 0 then '0' :: '.' :: (List.replicate (-d.dotPlace).toNat '0' ++ d.digits)
  else if (d.digits.length : ℤ) ≤ d.dotPlace then
    d.digits ++ List.replicate (d.dotPlace.toNat - d.digits.length) '0'
  else d.digits.take d.dotPlace.toNat ++ '.' :: d.digits.drop d.dotPlace.toNat

/-- An exponent with its sign, nothing if it is zero. -/
def exponentText (e : ℤ) : List Char :=
  if e = 0 then [] else 'E' :: (if 0 ≤ e then '+' else '-') :: Nat.toDigits 10 e.natAbs

/-- The text of a decimal. -/
def str (d : Decimal) : String :=
  String.ofList <| (if d.negative then ['-'] else []) ++ d.mantissa ++
    exponentText (d.leftDigits - d.dotPlace)

end Decimal

/-! ### Reading digits -/

/-- The text does not go on with a digit. -/
def EndsDigits (rest : List Char) : Prop := ∀ c ∈ rest.head?, c.isDigit = false

/-- Digits are read up to where they end. -/
theorem takeDigits_append {ds rest : List Char} (hds : ∀ c ∈ ds, c.isDigit = true)
    (hrest : EndsDigits rest) (acc len : ℕ) :
    takeDigits (ds ++ rest) acc len = (Nat.ofDigitChars 10 ds acc, len + ds.length, rest) := by
  induction ds generalizing acc len with
  | nil =>
    cases rest with
    | nil => simp [takeDigits]
    | cons c rest =>
      have hc := hrest c rfl
      simp [takeDigits, hc]
  | cons c ds ih =>
    have hc := hds c (by simp)
    rw [List.cons_append, takeDigits, if_pos hc, ih fun x hx => hds x (by simp [hx]),
      Nat.ofDigitChars_cons, List.length_cons]
    congr 2
    omega

/-- Digits behind others add to what those write, shifted. -/
theorem coefficient_append (whole frac : List Char) :
    coefficient (whole ++ frac) = coefficient whole * 10 ^ frac.length + coefficient frac := by
  unfold coefficient
  rw [Nat.ofDigitChars_append, Nat.ofDigitChars_eq_ofDigitChars_zero, mul_comm]

/-- A sign before digits is read, and its absence as well. -/
theorem takeSign_digits (negative : Bool) {whole : List Char}
    (hwhole : ∀ c ∈ whole, c.isDigit = true) (hne : whole ≠ []) (rest : List Char) :
    takeSign ((if negative then ['-'] else []) ++ (whole ++ rest)) =
      (signValue negative, whole ++ rest) := by
  cases negative with
  | true => rfl
  | false =>
    cases whole with
    | nil => exact absurd rfl hne
    | cons c whole =>
      have hc := hwhole c (by simp)
      simp only [Bool.false_eq_true, if_false, List.nil_append, List.cons_append]
      unfold takeSign
      split
      · next h => cases h; simp at hc
      · next h => cases h; simp at hc
      · rfl

/-- An exponent ends the digits before it. -/
theorem endsDigits_exponentText (e : ℤ) : EndsDigits (Decimal.exponentText e) := by
  unfold Decimal.exponentText
  split_ifs with hzero hsign
  · simp [EndsDigits]
  all_goals
    intro c hc
    cases hc
    rfl

/-- An exponent is read back. -/
theorem takeExponent {e : ℤ} (he : e ≠ 0) :
    ∃ text, Decimal.exponentText e = 'E' :: text ∧
      takeSign text = (if 0 ≤ e then 1 else -1, Nat.toDigits 10 e.natAbs) ∧
      takeDigits (Nat.toDigits 10 e.natAbs) 0 0 =
        (e.natAbs, (Nat.toDigits 10 e.natAbs).length, []) := by
  refine ⟨(if 0 ≤ e then '+' else '-') :: Nat.toDigits 10 e.natAbs, ?_, ?_, ?_⟩
  · rw [Decimal.exponentText, if_neg he]
  · split_ifs <;> rfl
  · have hdigits : ∀ c ∈ Nat.toDigits 10 e.natAbs, c.isDigit = true := fun c hc =>
      Nat.isDigit_of_mem_toDigits (by norm_num) (by norm_num) hc
    have := @takeDigits_append _ [] hdigits (by simp [EndsDigits]) 0 0
    rwa [List.append_nil, Nat.ofDigitChars_ten_toDigits, zero_add] at this

/-- What is left after the digits of a mantissa, and what they denote. -/
def readExponent (value : ℚ) (rest : List Char) : Option ℚ :=
  match rest with
  | [] => some value
  | e :: rest =>
    if e = 'e' ∨ e = 'E' then
      let (esign, rest) := takeSign rest
      match takeDigits rest 0 0 with
      | (_, 0, _) => none
      | (exponent, _, []) => some (value * (10 : ℚ) ^ (esign * exponent))
      | _ => none
    else none

/-- A written exponent is read back. -/
theorem readExponent_exponentText (value : ℚ) (e : ℤ) :
    readExponent value (Decimal.exponentText e) = some (value * (10 : ℚ) ^ e) := by
  by_cases he : e = 0
  · subst he
    simp [Decimal.exponentText, readExponent]
  · obtain ⟨text, htext, hsign, hdigits⟩ := takeExponent he
    have hlen : (Nat.toDigits 10 e.natAbs).length ≠ 0 := Nat.length_toDigits_pos.ne'
    rw [htext, readExponent, if_pos (Or.inr rfl)]
    dsimp only
    rw [hsign]
    dsimp only
    rw [hdigits]
    obtain ⟨n, hn⟩ := Nat.exists_eq_succ_of_ne_zero hlen
    simp only [hn]
    have hexp : (if 0 ≤ e then 1 else -1 : ℤ) * (e.natAbs : ℤ) = e := by
      split_ifs <;> omega
    rw [hexp]

/-- The digits behind a point. -/
def takeFraction (l : List Char) : ℕ × ℕ × List Char :=
  match l with
  | '.' :: rest => takeDigits rest 0 0
  | l => (0, 0, l)

/-- A literal is read in its parts. -/
theorem parseFloat_of_parts {l l₁ l₂ l₃ : List Char} {sign : ℤ} {whole wholeLen frac fracLen : ℕ}
    (hsign : takeSign l = (sign, l₁)) (hwhole : takeDigits l₁ 0 0 = (whole, wholeLen, l₂))
    (hfrac : takeFraction l₂ = (frac, fracLen, l₃)) (hlen : wholeLen ≠ 0) :
    parseFloat l = readExponent (sign * (whole + (frac : ℚ) / 10 ^ fracLen)) l₃ := by
  have hsome : ¬wholeLen + fracLen = 0 := by omega
  have hparts : parseFloat l =
      let a := takeSign l
      let b := takeDigits a.2 0 0
      let c := takeFraction b.2.2
      if b.2.1 + c.2.1 = 0 then none
      else readExponent (a.1 * (b.1 + (c.1 : ℚ) / 10 ^ c.2.1)) c.2.2 := rfl
  rw [hparts, hsign]
  dsimp only
  rw [hwhole]
  dsimp only
  rw [hfrac]
  dsimp only
  rw [if_neg hsome]

/-- A sign, whole digits, perhaps a fraction, and an exponent are read as what they write. -/
theorem parseFloat_literal (negative : Bool) {whole : List Char} (frac : Option (List Char))
    (e : ℤ) (hwhole : ∀ c ∈ whole, c.isDigit = true) (hne : whole ≠ [])
    (hfrac : ∀ c ∈ frac.getD [], c.isDigit = true) :
    parseFloat ((if negative then ['-'] else []) ++
        (whole ++ (frac.elim [] (List.cons '.') ++ Decimal.exponentText e))) =
      some (signValue negative * (coefficient whole +
        (coefficient (frac.getD []) : ℚ) / 10 ^ (frac.getD []).length) * (10 : ℚ) ^ e) := by
  have hends := endsDigits_exponentText e
  have hpoint : EndsDigits (frac.elim [] (List.cons '.') ++ Decimal.exponentText e) := by
    cases frac with
    | none => exact hends
    | some frac =>
      intro c hc
      cases hc
      rfl
  have htail : takeFraction (frac.elim [] (List.cons '.') ++ Decimal.exponentText e) =
      (coefficient (frac.getD []), (frac.getD []).length, Decimal.exponentText e) := by
    cases frac with
    | none =>
      by_cases he : e = 0
      · subst he
        rfl
      · obtain ⟨text, htext, -⟩ := takeExponent he
        rw [htext]
        rfl
    | some frac =>
      have := takeDigits_append hfrac hends 0 0
      rwa [zero_add] at this
  have hlen : 0 + whole.length ≠ 0 := by
    have := List.length_pos_of_ne_nil hne
    omega
  rw [parseFloat_of_parts (takeSign_digits negative hwhole hne _)
    (takeDigits_append hwhole hpoint 0 0) htail hlen, readExponent_exponentText]
  rfl

/-! ### The round trip -/

namespace Decimal

variable (d : Decimal)

/-- A decimal has a digit. -/
theorem length_pos : 0 < d.digits.length := List.length_pos_of_ne_nil d.nonempty

/-- Whatever the notation, the parts of a mantissa write the digits of the decimal. -/
theorem mantissa_parts :
    ∃ (whole : List Char) (frac : Option (List Char)),
      d.mantissa = whole ++ frac.elim [] (List.cons '.') ∧ whole ≠ [] ∧
      (∀ c ∈ whole, c.isDigit = true) ∧ (∀ c ∈ frac.getD [], c.isDigit = true) ∧
      coefficient whole * 10 ^ (frac.getD []).length + coefficient (frac.getD []) =
        coefficient d.digits ∧
      d.leftDigits - d.dotPlace - (frac.getD []).length = d.exponent := by
  have hpos := d.length_pos
  unfold mantissa
  split_ifs with hlow hhigh
  · -- The point is before the digits, behind a zero.
    have hdot : d.dotPlace = d.leftDigits := by
      unfold dotPlace at hlow ⊢
      split_ifs at hlow ⊢ <;> omega
    refine ⟨['0'], some (List.replicate (-d.dotPlace).toNat '0' ++ d.digits), rfl, by simp, ?_, ?_,
      ?_, ?_⟩
    · intro c hc
      rw [List.mem_singleton.mp hc]
      rfl
    · intro c hc
      rcases List.mem_append.mp hc with hc | hc
      · rw [List.eq_of_mem_replicate hc]
        rfl
      · exact d.isDigit c hc
    · rw [Option.getD_some, coefficient_append (List.replicate _ _)]
      simp [coefficient, Nat.ofDigitChars_cons]
    · simp only [Option.getD_some, List.length_append, List.length_replicate]
      unfold leftDigits at hdot ⊢
      omega
  · -- The point is after the digits, and none is left out.
    have hdot : d.dotPlace = d.digits.length := by
      unfold dotPlace leftDigits at *
      split_ifs at * <;> omega
    refine ⟨d.digits, none, ?_, d.nonempty, d.isDigit, by simp, by simp [coefficient], ?_⟩
    · simp [hdot]
    · simp only [Option.getD_none, List.length_nil]
      unfold leftDigits
      omega
  · -- The point is among the digits.
    refine ⟨d.digits.take d.dotPlace.toNat, some (d.digits.drop d.dotPlace.toNat), rfl, ?_, ?_, ?_,
      ?_, ?_⟩
    · have : 0 < d.dotPlace.toNat := by omega
      rw [Ne, List.take_eq_nil_iff, not_or]
      exact ⟨this.ne', d.nonempty⟩
    · exact fun c hc => d.isDigit c (List.mem_of_mem_take hc)
    · exact fun c hc => d.isDigit c (List.mem_of_mem_drop hc)
    · rw [Option.getD_some, ← coefficient_append, List.take_append_drop]
    · simp only [Option.getD_some, List.length_drop]
      unfold leftDigits
      omega

/-- A decimal is read back from its text. -/
theorem parseFloat_str : parseFloat d.str.toList = some d.value := by
  obtain ⟨whole, frac, hmantissa, hne, hwhole, hfrac, hdigits, hexponent⟩ := d.mantissa_parts
  have htext : d.str.toList = (if d.negative then ['-'] else []) ++
      (whole ++ (frac.elim [] (List.cons '.') ++ exponentText (d.leftDigits - d.dotPlace))) := by
    simp [str, hmantissa]
  rw [htext, parseFloat_literal d.negative frac _ hwhole hne hfrac]
  have hten : (10 : ℚ) ≠ 0 := by norm_num
  have hpow : (10 : ℚ) ^ (d.leftDigits - d.dotPlace) =
      10 ^ d.exponent * 10 ^ (frac.getD []).length := by
    rw [← zpow_natCast, ← zpow_add₀ hten]
    congr 1
    omega
  have hcoefficient : (coefficient d.digits : ℚ) =
      coefficient whole * 10 ^ (frac.getD []).length + coefficient (frac.getD []) := by
    exact_mod_cast hdigits.symm
  rw [value, hcoefficient, hpow]
  congr 1
  field_simp

/-- A character of the text of a decimal. -/
def Plain (c : Char) : Prop := c.isDigit = true ∨ c ∈ ['-', '+', '.', 'E']

/-- The text of a decimal has plain characters only. -/
theorem plain_of_mem {c : Char} (hc : c ∈ d.str.toList) : Plain c := by
  obtain ⟨whole, frac, hmantissa, -, hwhole, hfrac, -⟩ := d.mantissa_parts
  rw [str, String.toList_ofList, hmantissa] at hc
  simp only [List.mem_append] at hc
  rcases hc with (hc | hc | hc) | hc
  · split_ifs at hc
    · exact Or.inr (by simp at hc; simp [hc])
    · simp at hc
  · exact Or.inl (hwhole c hc)
  · cases frac with
    | none => simp at hc
    | some frac =>
      rcases List.mem_cons.mp hc with rfl | hc
      · exact Or.inr (by decide)
      · exact Or.inl (hfrac c hc)
  · unfold exponentText at hc
    split_ifs at hc with hzero hsign
    · simp at hc
    all_goals
      rcases List.mem_cons.mp hc with rfl | hc
      · exact Or.inr (by decide)
      · rcases List.mem_cons.mp hc with rfl | hc
        · exact Or.inr (by decide)
        · exact Or.inl (Nat.isDigit_of_mem_toDigits (by norm_num) (by norm_num) hc)

/-- A plain character is neither a blank nor an underscore. -/
theorem Plain.ne {c : Char} (h : Plain c) : c.isWhitespace = false ∧ c ≠ '_' := by
  rcases h with h | h
  · constructor
    · by_contra hw
      rw [Bool.not_eq_false, Char.isWhitespace] at hw
      simp only [Bool.or_eq_true, decide_eq_true_eq] at hw
      rcases hw with ((rfl | rfl) | rfl) | rfl <;> simp at h
    · rintro rfl
      simp at h
  · simp only [List.mem_cons, List.not_mem_nil, or_false] at h
    rcases h with rfl | rfl | rfl | rfl <;> decide

/-- The text of a decimal is read as the decimal. -/
theorem decimalOfText_str : decimalOfText d.str = some d.value := by
  have hplain : ∀ c ∈ d.str.toList, c.isWhitespace = false ∧ c ≠ '_' := fun c hc =>
    (d.plain_of_mem hc).ne
  have hdrop : ∀ l : List Char, (∀ c ∈ l, c.isWhitespace = false) →
      l.dropWhile Char.isWhitespace = l := by
    intro l hl
    cases l with
    | nil => rfl
    | cons c l => rw [List.dropWhile_cons, if_neg (by simp [hl c (by simp)])]
  have hfilter : d.str.toList.filter (fun c => c ≠ '_') = d.str.toList := by
    rw [List.filter_eq_self]
    exact fun c hc => decide_eq_true (hplain c hc).2
  unfold decimalOfText
  dsimp only
  rw [hdrop _ fun c hc => (hplain c hc).1,
    hdrop _ fun c hc => (hplain c (List.mem_reverse.mp hc)).1, List.reverse_reverse, hfilter,
    d.parseFloat_str]

end Decimal

end Pilot.V1
