import Mathlib.Algebra.Ring.Nat
import Mathlib.Data.List.TakeWhile
import ProtoCatalog.Number.Decimal

/-!
# Numerals read back

A number that is written, in whatever layout, is read as itself: the digits before and behind the
point are its digits with zeros around them, and the exponent moves them back into place.
-/

namespace ProtoCatalog

/-! ## Digits -/

/-- A text of one digit or more. -/
structure IsDigits (s : List Char) : Prop where
  ne_nil : s ≠ []
  digit : ∀ c ∈ s, c.isDigit = true

/-- A text that no digit goes on. -/
def EndsDigits (rest : List Char) : Prop := ∀ c ∈ rest.head?, c.isDigit = false

/-- Digits that start with a zero only if they are just that. -/
structure IsWhole (s : List Char) : Prop extends IsDigits s where
  lead : ∀ rest, s = '0' :: rest → rest = []

theorem IsDigits.append {s t : List Char} (hs : IsDigits s) (ht : ∀ c ∈ t, c.isDigit = true) :
    IsDigits (s ++ t) :=
  ⟨fun h ↦ hs.ne_nil (List.append_eq_nil_iff.mp h).1,
    fun _ hc ↦ (List.mem_append.mp hc).elim (hs.digit _) (ht _)⟩

theorem isDigit_of_mem_replicate {n : Nat} {c : Char} (h : c ∈ List.replicate n '0') :
    c.isDigit = true := by
  rw [List.eq_of_mem_replicate h]
  rfl

theorem isDigits_zeros_append (n : Nat) {s : List Char} (h : IsDigits s) :
    IsDigits (List.replicate n '0' ++ s) :=
  ⟨fun hnil ↦ h.ne_nil (List.append_eq_nil_iff.mp hnil).2,
    fun c hc ↦ (List.mem_append.mp hc).elim isDigit_of_mem_replicate (h.digit c)⟩

/-- A character that numerals are written with. -/
def IsNumeralChar (c : Char) : Prop := c.isDigit = true ∨ c ∈ ['.', 'e', '+', '-']

theorem IsDigits.isNumeralChar {s : List Char} (h : IsDigits s) : ∀ c ∈ s, IsNumeralChar c :=
  fun c hc ↦ .inl (h.digit c hc)

namespace Decimal

theorem isDigits_natDigits (n : Nat) : IsDigits (natDigits n) :=
  ⟨Nat.toDigits_ne_nil, fun _ hc ↦ Nat.isDigit_of_mem_toDigits (by decide) (by decide) hc⟩

/-- Only zero is written with a zero in front. -/
theorem head?_natDigits {n : Nat} (h : n ≠ 0) : (natDigits n).head? ≠ some '0' := by
  -- Over the number without its last digit, which has the same first digit.
  induction n using Nat.strong_induction_on with
  | _ n ih =>
    rw [natDigits, Nat.toDigits_eq_if (by decide)]
    split
    · rename_i hlt
      have hdigit : ∀ n < 10, n ≠ 0 → Nat.digitChar n ≠ '0' := by decide
      simpa using hdigit n hlt h
    · rename_i hge
      have hfirst := ih (n / 10) (by omega) (by omega)
      rw [natDigits] at hfirst
      rw [List.head?_append]
      cases hhead : (Nat.toDigits 10 (n / 10)).head? with
      | none => exact absurd (List.head?_eq_none_iff.mp hhead) Nat.toDigits_ne_nil
      | some c => rwa [hhead] at hfirst

theorem natDigits_zero : natDigits 0 = ['0'] := rfl

theorem isWhole_natDigits (n : Nat) : IsWhole (natDigits n) where
  toIsDigits := isDigits_natDigits n
  lead rest hrest := by
    by_cases hn : n = 0
    · rw [hn, natDigits_zero] at hrest
      exact (List.cons.inj hrest).2.symm
    · exact absurd (congrArg List.head? hrest) (head?_natDigits hn)

/-! ## The number of some digits -/

theorem natOfDigits_eq (s : List Char) : natOfDigits s = Nat.ofDigitChars 10 s 0 :=
  Nat.ofDigitChars_eq_foldl.symm

theorem natOfDigits_natDigits (n : Nat) : natOfDigits (natDigits n) = n := by
  rw [natOfDigits_eq]
  exact Nat.ofDigitChars_ten_toDigits

theorem natOfDigits_zeros_append (k : Nat) (s : List Char) :
    natOfDigits (List.replicate k '0' ++ s) = natOfDigits s := by
  rw [natOfDigits_eq, Nat.ofDigitChars_append, Nat.ofDigitChars_replicate_zero, Nat.mul_zero,
    natOfDigits_eq]

theorem natOfDigits_append_zeros (s : List Char) (k : Nat) :
    natOfDigits (s ++ List.replicate k '0') = natOfDigits s * 10 ^ k := by
  rw [natOfDigits_eq, Nat.ofDigitChars_append, Nat.ofDigitChars_replicate_zero, natOfDigits_eq,
    Nat.mul_comm]

/-- Zeros behind the digits move into the exponent. -/
theorem ofDigits_mul_pow (negative : Bool) (digits k : Nat) (exponent : Int) :
    ofDigits negative (digits * 10 ^ k) exponent = ofDigits negative digits (exponent + k) := by
  induction k generalizing exponent with
  | zero => simp
  | succ k ih =>
    by_cases hzero : digits = 0
    · have hnil : ∀ e, ofDigits negative 0 e = zero negative := fun e ↦ by
        rw [ofDigits, if_pos rfl]
      rw [hzero, Nat.zero_mul, hnil, hnil]
    · have hpos : digits * 10 ^ (k + 1) ≠ 0 :=
        Nat.mul_ne_zero hzero (Nat.pow_pos (by decide)).ne'
      have hdiv : digits * 10 ^ (k + 1) = digits * 10 ^ k * 10 := by
        rw [Nat.pow_succ, Nat.mul_assoc]
      have hnext : exponent + 1 + k = exponent + (k + 1 : Nat) := by omega
      rw [ofDigits, if_neg hpos, dif_pos (by omega), hdiv, Nat.mul_div_cancel _ (by decide), ih,
        hnext]

end Decimal

/-! ## The parts of a numeral -/

namespace Numeral

open Decimal

theorem digits?_append {s rest : List Char} (hs : IsDigits s) (hrest : EndsDigits rest) :
    digits? (s ++ rest) = some (s, rest) := by
  have htake : (s ++ rest).takeWhile Char.isDigit = s := by
    rw [List.takeWhile_append_of_pos hs.digit]
    cases rest with
    | nil => simp
    | cons c rest => simp [hrest c rfl]
  have hdrop : (s ++ rest).dropWhile Char.isDigit = rest := by
    rw [List.dropWhile_append_of_pos hs.digit]
    cases rest with
    | nil => rfl
    | cons c rest => simp [hrest c rfl]
  rw [digits?, htake, hdrop, if_neg (by simpa using hs.ne_nil)]

theorem whole?_append {s rest : List Char} (hs : IsWhole s) (hrest : EndsDigits rest) :
    whole? (s ++ rest) = some (s, rest) := by
  rw [whole?, digits?_append hs.toIsDigits hrest]
  split
  · rename_i heq
    cases heq
    exact absurd (hs.lead _ rfl) (List.cons_ne_nil _ _)
  · rfl

/-- The digits behind the point, and the point, if there are any. -/
def pointText : Option (List Char) → List Char
  | none => []
  | some f => '.' :: f

theorem fraction?_append {f : Option (List Char)} {rest : List Char} (hf : ∀ s ∈ f, IsDigits s)
    (hrest : EndsDigits rest) (hpoint : rest.head? ≠ some '.') :
    fraction? (pointText f ++ rest) = some (f, rest) := by
  cases f with
  | some s =>
    show (digits? (s ++ rest)).map _ = _
    rw [digits?_append (hf s rfl) hrest]
    rfl
  | none =>
    show fraction? rest = _
    unfold fraction?
    split
    · exact absurd rfl hpoint
    · rfl

theorem exponent?_exponentText (width : Nat) (e : Int) :
    exponent? ('e' :: exponentText width e) = some (some e) := by
  have hdigits := isDigits_zeros_append (width - (natDigits e.natAbs).length)
    (isDigits_natDigits e.natAbs)
  have hread : digits? (_ ++ []) = some (_, []) := digits?_append hdigits nofun
  rw [List.append_nil] at hread
  by_cases hneg : e < 0
  · simp only [exponentText, if_pos hneg, List.cons_append]
    show exponentDigits? true _ = _
    rw [exponentDigits?, hread]
    simp only [natOfDigits_zeros_append, natOfDigits_natDigits, if_true]
    rw [show -(e.natAbs : Int) = e by omega]
  · simp only [exponentText, if_neg hneg, List.cons_append]
    show exponentDigits? false _ = _
    rw [exponentDigits?, hread]
    simp only [natOfDigits_zeros_append, natOfDigits_natDigits, Bool.false_eq_true, if_false]
    rw [show (e.natAbs : Int) = e by omega]

/-- What ends the digits of a numeral: its exponent, or nothing. -/
structure IsExponent (text : List Char) (e : Option Int) : Prop where
  read : exponent? text = some e
  start : ∀ c ∈ text.head?, c = 'e'
  chars : ∀ c ∈ text, IsNumeralChar c

theorem isExponent_nil : IsExponent [] none := ⟨rfl, nofun, nofun⟩

theorem isExponent_exponentText (width : Nat) (e : Int) :
    IsExponent ('e' :: exponentText width e) (some e) where
  read := exponent?_exponentText width e
  start _ hc := (Option.some.inj hc).symm
  chars := by
    have hdigits := isDigits_zeros_append (width - (natDigits e.natAbs).length)
      (isDigits_natDigits e.natAbs)
    have hsign : IsNumeralChar (if e < 0 then '-' else '+') := by
      split <;> exact .inr (by decide)
    have hstart : IsNumeralChar 'e' := .inr (by decide)
    exact List.forall_mem_cons.mpr ⟨hstart, List.forall_mem_cons.mpr
      ⟨hsign, hdigits.isNumeralChar⟩⟩

section Unsigned

variable {negative : Bool} {whole text : List Char} {fraction : Option (List Char)}
  {exponent : Option Int}

theorem whole?_fraction? (hw : IsWhole whole) (hf : ∀ s ∈ fraction, IsDigits s)
    (he : IsExponent text exponent) :
    whole? (whole ++ (pointText fraction ++ text)) = some (whole, pointText fraction ++ text) ∧
      fraction? (pointText fraction ++ text) = some (fraction, text) := by
  have htext : EndsDigits text := by
    intro c hc
    rw [he.start c hc]
    rfl
  have hpoint : text.head? ≠ some '.' := fun h ↦ absurd (he.start '.' h) (by decide)
  refine ⟨whole?_append hw ?_, fraction?_append hf htext hpoint⟩
  cases fraction with
  | none => exact htext
  | some f =>
    intro c hc
    cases hc
    rfl

theorem unsigned?_integer (hw : IsWhole whole) :
    unsigned? negative whole =
      some (.integer (if negative then -(natOfDigits whole : Int) else natOfDigits whole)) := by
  have hnone : ∀ s ∈ (none : Option (List Char)), IsDigits s := nofun
  obtain ⟨hwhole, -⟩ := whole?_fraction? hw hnone isExponent_nil
  simp only [pointText, List.append_nil] at hwhole
  rw [unsigned?, hwhole]
  rfl

/-- With a point or an exponent a numeral is a decimal. -/
theorem unsigned?_decimal (hw : IsWhole whole) (hf : ∀ s ∈ fraction, IsDigits s)
    (he : IsExponent text exponent) (h : fraction.isSome = true ∨ exponent.isSome = true) :
    unsigned? negative (whole ++ (pointText fraction ++ text)) =
      some (.decimal (ofDigits negative (natOfDigits (whole ++ fraction.getD []))
        (exponent.getD 0 - (fraction.getD []).length))) := by
  obtain ⟨hwhole, hfraction⟩ := whole?_fraction? hw hf he
  rw [unsigned?, hwhole, Option.bind_eq_bind, Option.bind_some]
  simp only [hfraction, he.read, Option.bind_eq_bind, Option.bind_some]
  cases fraction with
  | some f => rfl
  | none =>
    cases exponent with
    | some e => rfl
    | none => simp at h

end Unsigned

theorem isNumeralChar_sign (negative : Bool) :
    ∀ c ∈ if negative then ['-'] else [], IsNumeralChar c := by
  cases negative with
  | true => exact List.forall_mem_singleton.mpr (.inr (by decide))
  | false => exact nofun

-- Digits are no sign.
theorem read?_signed (negative : Bool) {s : List Char} (hs : IsDigits s) (rest : List Char) :
    read? ((if negative then ['-'] else []) ++ (s ++ rest)) = unsigned? negative (s ++ rest) := by
  cases negative with
  | true => rfl
  | false =>
    cases s with
    | nil => exact absurd rfl hs.ne_nil
    | cons c s =>
      show read? (c :: (s ++ rest)) = _
      unfold read?
      split
      · rename_i heq
        cases heq
        exact absurd (hs.digit '-' List.mem_cons_self) (by decide)
      · rfl

end Numeral

/-! ## Decimals -/

namespace Decimal

open Numeral

/-- The parts of a numeral that a decimal is read from. -/
structure Parts (d : Decimal) (whole : List Char) (fraction : Option (List Char))
    (text : List Char) (exponent : Option Int) : Prop where
  isWhole : IsWhole whole
  isFraction : ∀ s ∈ fraction, IsDigits s
  isExponent : IsExponent text exponent
  isDecimal : fraction.isSome = true ∨ exponent.isSome = true
  value : ofDigits d.negative (natOfDigits (whole ++ fraction.getD []))
    (exponent.getD 0 - (fraction.getD []).length) = d

theorem Parts.read? {d : Decimal} {whole text : List Char} {fraction : Option (List Char)}
    {exponent : Option Int} (h : d.Parts whole fraction text exponent) :
    read? ((if d.negative then ['-'] else []) ++ (whole ++ (pointText fraction ++ text))) =
      some (.decimal d) := by
  rw [read?_signed _ h.isWhole.toIsDigits,
    unsigned?_decimal h.isWhole h.isFraction h.isExponent h.isDecimal, h.value]

theorem Parts.chars {d : Decimal} {whole text : List Char} {fraction : Option (List Char)}
    {exponent : Option Int} (h : d.Parts whole fraction text exponent) :
    ∀ c ∈ (if d.negative then ['-'] else []) ++ (whole ++ (pointText fraction ++ text)),
      IsNumeralChar c := by
  have hpoint : ∀ c ∈ pointText fraction, IsNumeralChar c := by
    cases fraction with
    | none => exact nofun
    | some f =>
      exact List.forall_mem_cons.mpr ⟨.inr (by decide), (h.isFraction f rfl).isNumeralChar⟩
  simp only [List.forall_mem_append]
  exact ⟨isNumeralChar_sign _, h.isWhole.isNumeralChar, hpoint, h.isExponent.chars⟩

variable (d : Decimal)

theorem length_natDigits_pos (n : Nat) : 0 < (natDigits n).length :=
  List.length_pos_iff.mpr (isDigits_natDigits n).ne_nil

-- Some of the digits are in front of the point, and all others behind it.
theorem isWhole_take (n k : Nat) (hk : 0 < k) : IsWhole ((natDigits n).take k) where
  ne_nil h := by
    have hlength := congrArg List.length h
    have hpos := length_natDigits_pos n
    rw [List.length_take, List.length_nil] at hlength
    omega
  digit c hc := (isDigits_natDigits n).digit c (List.mem_of_mem_take hc)
  lead rest hrest := by
    have hall := List.take_append_drop k (natDigits n)
    rw [hrest, List.cons_append] at hall
    have hnil := (isWhole_natDigits n).lead _ hall.symm
    exact (List.append_eq_nil_iff.mp hnil).1

theorem value_take_drop (k : Nat) {exponent : Int}
    (h : exponent - ((natDigits d.digits).drop k).length = d.exponent) :
    ofDigits d.negative (natOfDigits ((natDigits d.digits).take k ++ (natDigits d.digits).drop k))
      (exponent - ((natDigits d.digits).drop k).length) = d := by
  rw [List.take_append_drop, natOfDigits_natDigits, h, ofDigits_self]

theorem isDigits_drop {n k : Nat} (h : (natDigits n).drop k ≠ []) :
    IsDigits ((natDigits n).drop k) :=
  ⟨h, fun c hc ↦ (isDigits_natDigits n).digit c (List.mem_of_mem_drop hc)⟩

/-- A number without a fraction has zeros behind its digits, and one behind the point. -/
theorem parts_of_nonneg (h : 0 ≤ d.exponent) :
    d.Parts (natDigits d.digits ++ List.replicate d.exponent.toNat '0') (some ['0']) [] none where
  isWhole :=
    { (isDigits_natDigits d.digits).append fun _ ↦ isDigit_of_mem_replicate with
      lead := by
        intro rest hrest
        rcases d.normal with hdigits | ⟨hdigits, hexp⟩
        · -- The first digit is not zero.
          cases hs : natDigits d.digits with
          | nil => exact absurd hs (isDigits_natDigits _).ne_nil
          | cons c s =>
            rw [hs, List.cons_append] at hrest
            obtain ⟨rfl, -⟩ := List.cons.inj hrest
            exact absurd (congrArg List.head? hs) (head?_natDigits (by omega))
        · rw [hdigits, hexp] at hrest
          exact (List.cons.inj hrest).2.symm }
  isFraction s hs := by
    cases hs
    exact ⟨List.cons_ne_nil _ _, List.forall_mem_singleton.mpr rfl⟩
  isExponent := isExponent_nil
  isDecimal := .inl rfl
  value := by
    have hzeros : List.replicate d.exponent.toNat '0' ++ ['0'] =
        List.replicate (d.exponent.toNat + 1) '0' := List.replicate_succ'.symm
    simp only [Option.getD_some, Option.getD_none, List.append_assoc, hzeros,
      natOfDigits_append_zeros, natOfDigits_natDigits, ofDigits_mul_pow]
    have hexp : (0 : Int) - (['0'] : List Char).length + (d.exponent.toNat + 1 : Nat) =
        d.exponent := by
      rw [List.length_singleton]
      omega
    rw [hexp, ofDigits_self]

-- Some digits are in front of the point and some behind it.
theorem parts_of_leading (hexp : d.exponent < 0) (hlead : 0 ≤ d.leading) :
    d.Parts ((natDigits d.digits).take ((natDigits d.digits).length + d.exponent).toNat)
      (some ((natDigits d.digits).drop ((natDigits d.digits).length + d.exponent).toNat)) []
      none where
  isWhole := by
    rw [leading] at hlead
    exact isWhole_take _ _ (by omega)
  isFraction s hs := by
    cases hs
    apply isDigits_drop
    intro hnil
    have hlength := congrArg List.length hnil
    have hpos := length_natDigits_pos d.digits
    rw [List.length_drop, List.length_nil] at hlength
    omega
  isExponent := isExponent_nil
  isDecimal := .inl rfl
  value := by
    rw [leading] at hlead
    refine d.value_take_drop _ ?_
    rw [List.length_drop, Option.getD_none]
    omega

/-- A number below one has a zero in front of the point, and zeros in front of its digits. -/
theorem parts_of_leading_neg (hlead : d.leading < 0) :
    d.Parts ['0'] (some (List.replicate (-d.leading - 1).toNat '0' ++ natDigits d.digits)) []
      none where
  isWhole := isWhole_natDigits 0
  isFraction s hs := by
    cases hs
    exact isDigits_zeros_append _ (isDigits_natDigits _)
  isExponent := isExponent_nil
  isDecimal := .inl rfl
  value := by
    -- The zero in front of the point is one zero more.
    have hzeros : ['0'] ++ (List.replicate (-d.leading - 1).toNat '0' ++ natDigits d.digits) =
        List.replicate ((-d.leading - 1).toNat + 1) '0' ++ natDigits d.digits := rfl
    have hexp : (0 : Int) - (List.replicate (-d.leading - 1).toNat '0' ++
        natDigits d.digits).length = d.exponent := by
      have hpos := length_natDigits_pos d.digits
      rw [List.length_append, List.length_replicate, leading]
      rw [leading] at hlead
      omega
    rw [Option.getD_some, Option.getD_none, hzeros, natOfDigits_zeros_append,
      natOfDigits_natDigits, hexp, ofDigits_self]

/-- The parts of positional notation. -/
theorem exists_parts_positional : ∃ whole fraction,
    d.positional = whole ++ (pointText (some fraction) ++ []) ∧
      d.Parts whole (some fraction) [] none := by
  simp only [positional, List.append_nil, pointText]
  split
  · rename_i hexp
    exact ⟨_, _, rfl, d.parts_of_nonneg hexp⟩
  split
  · rename_i hexp hlead
    exact ⟨_, _, rfl, d.parts_of_leading (by omega) hlead⟩
  · rename_i hlead
    exact ⟨['0'], _, rfl, d.parts_of_leading_neg (by omega)⟩

/-- The parts of scientific notation. -/
theorem exists_parts_scientific (width : Nat) : ∃ whole fraction text,
    d.scientific width = whole ++ (pointText fraction ++ text) ∧
      d.Parts whole fraction text (some d.leading) := by
  have hlength := length_natDigits_pos d.digits
  have hvalue : d.leading - ((natDigits d.digits).drop 1).length = d.exponent := by
    rw [List.length_drop, leading]
    omega
  have hwhole := isWhole_take d.digits 1 (by decide)
  have htext := isExponent_exponentText width d.leading
  unfold scientific
  simp only [List.append_assoc]
  split
  · rename_i hempty
    have hdrop := d.value_take_drop 1 hvalue
    rw [List.isEmpty_iff.mp hempty] at hdrop
    exact ⟨_, none, _, rfl, hwhole, nofun, htext, .inr rfl, hdrop⟩
  · rename_i hempty
    refine ⟨_, some _, _, rfl, hwhole, ?_, htext, .inr rfl, d.value_take_drop 1 hvalue⟩
    intro s hs
    cases hs
    exact isDigits_drop fun hnil ↦ hempty (List.isEmpty_iff.mpr hnil)

/-- The parts of a decimal as a layout writes it. -/
theorem exists_parts_render (layout : Layout) : ∃ whole fraction text exponent,
    d.render layout =
        (if d.negative then ['-'] else []) ++ (whole ++ (pointText fraction ++ text)) ∧
      d.Parts whole fraction text exponent := by
  unfold render
  by_cases hplace : layout.isPositional d.leading = true
  · obtain ⟨whole, fraction, htext, hparts⟩ := d.exists_parts_positional
    exact ⟨_, _, _, _, by rw [if_pos hplace, htext], hparts⟩
  · obtain ⟨whole, fraction, text, htext, hparts⟩ :=
      d.exists_parts_scientific layout.exponentDigits
    exact ⟨_, _, _, _, by rw [if_neg hplace, htext], hparts⟩

/-- A decimal is read back from whatever notation a layout gives it. -/
theorem read?_render (layout : Layout) : Numeral.read? (d.render layout) = some (.decimal d) := by
  obtain ⟨_, _, _, _, htext, hparts⟩ := d.exists_parts_render layout
  rw [htext, hparts.read?]

theorem isNumeralChar_of_mem_render (layout : Layout) :
    ∀ c ∈ d.render layout, IsNumeralChar c := by
  obtain ⟨_, _, _, _, htext, hparts⟩ := d.exists_parts_render layout
  rw [htext]
  exact hparts.chars

end Decimal

/-! ## Integers -/

namespace Numeral

open Decimal

theorem read?_integer (negative : Bool) (n : Nat) :
    read? ((if negative then ['-'] else []) ++ natDigits n) =
      some (.integer (if negative then -(n : Int) else n)) := by
  have hsigned := read?_signed negative (isDigits_natDigits n) []
  rw [List.append_nil] at hsigned
  rw [hsigned, unsigned?_integer (isWhole_natDigits n), natOfDigits_natDigits]

end Numeral
end ProtoCatalog
