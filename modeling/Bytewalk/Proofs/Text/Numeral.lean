import Mathlib.Data.List.TakeWhile
import Bytewalk.Text.Blank
import Bytewalk.Text.Numeral

/-!
# Numerals between blanks

Which texts are read as which numbers. A numeral is an optional plus sign and at least one decimal
digit. `readNumeral_eq_ok_iff` says that exactly the numerals below the bound are read, each as the
number that its digits stand for. `isNumeral_trimChars_iff` says which texts have a numeral left
when the blank characters at their ends are removed.
-/

namespace Bytewalk.Text

/-! ## Numerals -/

/-- The characters are a decimal numeral of the number. -/
inductive IsNumeral : List Char → Nat → Prop
  /-- Digits alone. -/
  | plain {digits : List Char} (hne : digits ≠ []) (hdigits : ∀ c ∈ digits, c.isDigit = true) :
      IsNumeral digits (Nat.ofDigitChars 10 digits 0)
  /-- A plus sign in front of the digits. -/
  | signed {digits : List Char} (hne : digits ≠ []) (hdigits : ∀ c ∈ digits, c.isDigit = true) :
      IsNumeral ('+' :: digits) (Nat.ofDigitChars 10 digits 0)

variable {bound n m : Nat} {digits chars : List Char}

theorem digitOf?_eq (c : Char) :
    digitOf? c = if c.isDigit then some (c.toNat - '0'.toNat) else none := by
  have hdigit : ('0' ≤ c ∧ c ≤ '9') ↔ c.isDigit = true := by
    simp only [Char.isDigit, Bool.and_eq_true, decide_eq_true_eq, Char.le_def]
  rw [digitOf?]
  simp only [hdigit]

/-- Further digits make a number no smaller. -/
theorem le_ofDigitChars (digits : List Char) (n : Nat) : n ≤ Nat.ofDigitChars 10 digits n := by
  induction digits generalizing n with
  | nil => simp
  | cons c rest ih =>
    rw [Nat.ofDigitChars_cons]
    exact Nat.le_trans (by omega) (ih _)

/-- Digits are read as the number that they stand for, unless it reaches the bound. -/
theorem readDigits_eq_ok_iff (hn : n < bound) :
    readDigits bound n digits = .ok m ↔
      (∀ c ∈ digits, c.isDigit = true) ∧ Nat.ofDigitChars 10 digits n = m ∧ m < bound := by
  induction digits generalizing n with
  | nil =>
    simp only [readDigits, List.not_mem_nil, false_implies, implies_true, Nat.ofDigitChars_nil,
      true_and, Except.ok.injEq]
    exact ⟨fun h => ⟨h, h ▸ hn⟩, And.left⟩
  | cons c rest ih =>
    rw [readDigits, digitOf?_eq, Nat.ofDigitChars_cons, Nat.mul_comm 10 n, List.forall_mem_cons]
    cases hc : c.isDigit with
    | false => simp
    | true =>
      simp only [↓reduceIte, true_and]
      by_cases hnext : n * 10 + (c.toNat - '0'.toNat) < bound
      · rw [if_pos hnext]
        exact ih hnext
      · -- The number has reached the bound, and no further digit takes it back.
        rw [if_neg hnext]
        refine iff_of_false nofun fun ⟨_, hvalue, hm⟩ => ?_
        have := le_ofDigitChars rest (n * 10 + (c.toNat - '0'.toNat))
        omega

theorem IsNumeral.ne_nil (h : IsNumeral chars n) : chars ≠ [] := by
  cases h with
  | plain hne => exact hne
  | signed => exact List.cons_ne_nil _ _

theorem readNumeral_signed (hne : digits ≠ []) :
    readNumeral bound ('+' :: digits) = readDigits bound 0 digits := by
  cases digits with
  | nil => exact absurd rfl hne
  | cons c rest => rfl

theorem readNumeral_plain (hne : chars ≠ []) (hsign : chars.head? ≠ some '+') :
    readNumeral bound chars = readDigits bound 0 chars := by
  fun_cases readNumeral bound chars with
  | case1 => exact absurd rfl hne
  | case2 => exact absurd rfl hsign
  | case3 digits => exact absurd rfl hsign
  | case4 => rfl

/-- A digit is no plus sign. -/
theorem head?_ne_plus (hdigits : ∀ c ∈ digits, c.isDigit = true) : digits.head? ≠ some '+' := by
  intro hhead
  have hplus := hdigits '+' (List.mem_of_mem_head? hhead)
  revert hplus
  decide

/-- Exactly the numerals below the bound are read, as what they stand for. -/
theorem readNumeral_eq_ok_iff (hbound : 0 < bound) :
    readNumeral bound chars = .ok n ↔ IsNumeral chars n ∧ n < bound := by
  constructor
  · intro h
    by_cases hsign : chars.head? = some '+'
    · obtain ⟨digits, rfl⟩ := List.head?_eq_some_iff.1 hsign
      have hne : digits ≠ [] := by
        rintro rfl
        cases h
      rw [readNumeral_signed hne] at h
      obtain ⟨hdigits, rfl, hlt⟩ := (readDigits_eq_ok_iff hbound).1 h
      exact ⟨.signed hne hdigits, hlt⟩
    · have hne : chars ≠ [] := by
        rintro rfl
        cases h
      rw [readNumeral_plain hne hsign] at h
      obtain ⟨hdigits, rfl, hlt⟩ := (readDigits_eq_ok_iff hbound).1 h
      exact ⟨.plain hne hdigits, hlt⟩
  · rintro ⟨h, hlt⟩
    cases h with
    | plain hne hdigits =>
      rw [readNumeral_plain hne (head?_ne_plus hdigits)]
      exact (readDigits_eq_ok_iff hbound).2 ⟨hdigits, rfl, hlt⟩
    | signed hne hdigits =>
      rw [readNumeral_signed hne]
      exact (readDigits_eq_ok_iff hbound).2 ⟨hdigits, rfl, hlt⟩

/-- Zeros in front of its decimal digits make no difference to a number. -/
theorem isNumeral_toDigits (zeros n : Nat) :
    IsNumeral (List.replicate zeros '0' ++ Nat.toDigits 10 n) n := by
  have hvalue : Nat.ofDigitChars 10 (List.replicate zeros '0' ++ Nat.toDigits 10 n) 0 = n := by
    rw [Nat.ofDigitChars_append, Nat.ofDigitChars_replicate_zero, Nat.mul_zero,
      Nat.ofDigitChars_ten_toDigits]
  have hne : List.replicate zeros '0' ++ Nat.toDigits 10 n ≠ [] :=
    fun h => Nat.toDigits_ne_nil (List.append_eq_nil_iff.1 h).2
  have hdigits : ∀ c ∈ List.replicate zeros '0' ++ Nat.toDigits 10 n, c.isDigit = true := by
    intro c hc
    rcases List.mem_append.1 hc with hc | hc
    · rw [List.eq_of_mem_replicate hc]
      decide
    · exact Nat.isDigit_of_mem_toDigits (by decide) (by decide) hc
  have hnumeral := IsNumeral.plain hne hdigits
  rwa [hvalue] at hnumeral

/-! ## Blanks around -/

/-- All the characters are blank. -/
def AreBlank (chars : List Char) : Prop :=
  ∀ c ∈ chars, isBlank c = true

instance (chars : List Char) : Decidable (AreBlank chars) :=
  inferInstanceAs (Decidable (∀ c ∈ chars, isBlank c = true))

/-- No character that is printed in ASCII is blank but the space. -/
theorem isBlank_of_printed {c : Char} (hlow : 0x20 < c.toNat) (hhigh : c.toNat < 0x7F) :
    isBlank c = false := by
  simp only [isBlank, memberOf, blanks, Span.holds, List.any_toArray, List.any_cons, List.any_nil,
    Bool.or_eq_false_iff, Bool.and_eq_false_iff, decide_eq_false_iff_not, and_true]
  omega

/-- A numeral has no blank character. -/
theorem IsNumeral.isBlank_eq_false (h : IsNumeral chars n) : ∀ c ∈ chars, isBlank c = false := by
  have hdigit (c : Char) (hc : c.isDigit = true) : isBlank c = false := by
    simp only [Char.isDigit, Bool.and_eq_true, decide_eq_true_eq, UInt32.le_iff_toNat_le] at hc
    change 48 ≤ c.toNat ∧ c.toNat ≤ 57 at hc
    exact isBlank_of_printed (by omega) (by omega)
  cases h with
  | plain hne hdigits => exact fun c hc => hdigit c (hdigits c hc)
  | signed hne hdigits =>
    intro c hc
    rcases List.mem_cons.1 hc with rfl | hc
    · exact isBlank_of_printed (by decide) (by decide)
    · exact hdigit c (hdigits c hc)

/-- Nothing is dropped in front of a character that is not blank. -/
theorem dropWhile_isBlank_eq_self (h : ∀ c ∈ chars, isBlank c = false) (hne : chars ≠ [])
    (after : List Char) : (chars ++ after).dropWhile isBlank = chars ++ after := by
  cases chars with
  | nil => exact absurd rfl hne
  | cons c rest =>
    rw [List.cons_append, List.dropWhile_cons_of_neg]
    rw [h c List.mem_cons_self]
    decide

/-- Between blanks, trimming leaves the characters of which none is blank. -/
theorem trimChars_append {before after : List Char} (hbefore : AreBlank before)
    (hchars : ∀ c ∈ chars, isBlank c = false) (hne : chars ≠ []) (hafter : AreBlank after) :
    trimChars (before ++ (chars ++ after)) = chars := by
  have hreverse : ∀ c ∈ chars.reverse, isBlank c = false :=
    fun c hc => hchars c (List.mem_reverse.1 hc)
  have hend : chars.reverse.dropWhile isBlank = chars.reverse := by
    have hself := dropWhile_isBlank_eq_self hreverse (List.reverse_ne_nil_iff.2 hne) []
    rwa [List.append_nil] at hself
  rw [trimChars, List.dropWhile_append_of_pos hbefore, dropWhile_isBlank_eq_self hchars hne after,
    dropBlanksEnd, List.reverse_append,
    List.dropWhile_append_of_pos fun c hc => hafter c (List.mem_reverse.1 hc), hend,
    List.reverse_reverse]

/-- Trimming takes away nothing but blanks at both ends. -/
theorem exists_blanks (chars : List Char) : ∃ before after,
    AreBlank before ∧ AreBlank after ∧ chars = before ++ (trimChars chars ++ after) := by
  have hfront := List.takeWhile_append_dropWhile (p := isBlank) (l := chars)
  have hend := List.takeWhile_append_dropWhile (p := isBlank)
    (l := (chars.dropWhile isBlank).reverse)
  refine ⟨chars.takeWhile isBlank, ((chars.dropWhile isBlank).reverse.takeWhile isBlank).reverse,
    fun c hc => List.mem_takeWhile_imp hc,
    fun c hc => List.mem_takeWhile_imp (List.mem_reverse.1 hc), ?_⟩
  rw [trimChars, dropBlanksEnd, ← List.reverse_append, hend, List.reverse_reverse, hfront]

/-- Nothing is left exactly where all characters are blank. -/
theorem trimChars_eq_nil_iff : trimChars chars = [] ↔ AreBlank chars := by
  constructor
  · intro h
    obtain ⟨before, after, hbefore, hafter, hchars⟩ := exists_blanks chars
    rw [h, List.nil_append] at hchars
    rw [hchars]
    intro c hc
    exact (List.mem_append.1 hc).elim (hbefore c) (hafter c)
  · intro h
    rw [trimChars, List.dropWhile_eq_nil_iff.2 h]
    rfl

/-- The characters are a numeral of the number between blanks. -/
def Denotes (chars : List Char) (n : Nat) : Prop :=
  ∃ before numeral after, AreBlank before ∧ IsNumeral numeral n ∧ AreBlank after ∧
    chars = before ++ (numeral ++ after)

theorem isNumeral_trimChars_iff : IsNumeral (trimChars chars) n ↔ Denotes chars n := by
  constructor
  · intro h
    obtain ⟨before, after, hbefore, hafter, hchars⟩ := exists_blanks chars
    exact ⟨before, _, after, hbefore, h, hafter, hchars⟩
  · rintro ⟨before, numeral, after, hbefore, hnumeral, hafter, rfl⟩
    rwa [trimChars_append hbefore hnumeral.isBlank_eq_false hnumeral.ne_nil hafter]

end Bytewalk.Text
