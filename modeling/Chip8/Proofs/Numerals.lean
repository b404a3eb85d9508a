import Mathlib.Data.List.Forall2
import Mathlib.Data.Nat.Digits.Defs
import Chip8.Numeral

/-!
# Which texts are read as numbers

A text spells a number in a base if it is made of the digits of the number, the highest first, and
of nothing else but a plus sign in front. Letters may be small or capital, and zeros may lead. A
number only grows while digits are read behind it, so one that stays below the limit to the end has
been below it all along, and the texts that are read are just those that spell a number below it.
-/

namespace Chip8.Numeral

/-- The character stands for that digit of the base. A letter may be small or capital. -/
def IsDigit (base : Nat) (c : Char) (d : Nat) : Prop :=
  d < base ∧ (c = Nat.digitChar d ∨ c = (Nat.digitChar d).toUpper)

/-- The characters are the digits of the number in that base, the highest first. Zeros may lead. -/
def Digits (base n : Nat) (chars : List Char) : Prop :=
  chars ≠ [] ∧ ∃ digits, List.Forall₂ (IsDigit base) chars digits ∧
    Nat.ofDigits base digits.reverse = n

/-- The text is the number in that base, with one plus sign in front or without. -/
def Spells (base n : Nat) (text : String) : Prop :=
  ∃ chars, (text.toList = chars ∨ text.toList = '+' :: chars) ∧ Digits base n chars

theorem toNat_lt_of_digitValue? {c : Char} {d : Nat} (h : digitValue? c = some d) :
    c.toNat < 128 := by
  unfold digitValue? at h
  split at h
  case isTrue hrange =>
    exact Nat.lt_of_le_of_lt hrange.2 (by decide)
  split at h
  case isTrue hrange =>
    exact Nat.lt_of_le_of_lt hrange.2 (by decide)
  split at h
  case isTrue hrange =>
    exact Nat.lt_of_le_of_lt hrange.2 (by decide)
  cases h

/-- No character but a digit has the value of one. -/
theorem eq_of_digitValue? {c : Char} {d : Nat} (h : digitValue? c = some d) :
    c = Nat.digitChar d ∨ c = (Nat.digitChar d).toUpper := by
  have hall : ∀ n < 128, ∀ d ∈ digitValue? (Char.ofNat n),
      Char.ofNat n = Nat.digitChar d ∨ Char.ofNat n = (Nat.digitChar d).toUpper := by decide
  have hc := hall c.toNat (toNat_lt_of_digitValue? h) d
  rw [Char.ofNat_toNat] at hc
  exact hc h

variable {base limit : Nat}

theorem digit?_eq_some_iff (hbase : base ≤ 16) {c : Char} {d : Nat} :
    digit? base c = some d ↔ IsDigit base c d := by
  rw [digit?, Option.filter_eq_some_iff, decide_eq_true_iff]
  constructor
  · rintro ⟨hvalue, hd⟩
    exact ⟨hd, eq_of_digitValue? hvalue⟩
  · rintro ⟨hd, rfl | rfl⟩
    · exact ⟨digitValue?_digitChar (by omega), hd⟩
    · exact ⟨digitValue?_toUpper_digitChar (by omega), hd⟩

/-- The number that these digits make behind a number already read. -/
def extend (base value : Nat) (digits : List Nat) : Nat :=
  digits.foldl (fun value d => base * value + d) value

theorem le_extend (hbase : 0 < base) (value : Nat) (digits : List Nat) :
    value ≤ extend base value digits := by
  induction digits generalizing value with
  | nil => exact Nat.le_refl value
  | cons d rest ih =>
    calc value ≤ base * value := Nat.le_mul_of_pos_left value hbase
      _ ≤ base * value + d := Nat.le_add_right _ d
      _ ≤ extend base value (d :: rest) := ih _

theorem extend_zero (base : Nat) (digits : List Nat) :
    extend base 0 digits = Nat.ofDigits base digits.reverse := by
  rw [Nat.ofDigits_eq_foldr, List.foldr_reverse, extend]
  simp [Nat.add_comm]

/-- A character that is a digit stands for no other one. -/
theorem exists_digits_cons (hbase : base ≤ 16) {c : Char} {d : Nat} (hc : digit? base c = some d)
    {value n : Nat} {rest : List Char} :
    (∃ digits, List.Forall₂ (IsDigit base) (c :: rest) digits ∧ extend base value digits = n) ↔
      ∃ digits, List.Forall₂ (IsDigit base) rest digits ∧
        extend base (base * value + d) digits = n := by
  constructor
  · rintro ⟨digits, hdigits, hn⟩
    cases hdigits with
    | cons hd hrest =>
      have hsame := (digit?_eq_some_iff hbase).mpr hd
      obtain rfl := Option.some.inj (hc.symm.trans hsame)
      exact ⟨_, hrest, hn⟩
  · rintro ⟨digits, hrest, hn⟩
    exact ⟨d :: digits, .cons ((digit?_eq_some_iff hbase).mp hc) hrest, hn⟩

/-- Digits are read when all of them are digits of the base and their number is below the limit. -/
theorem readDigits_eq_ok_iff (hpos : 0 < base) (hbase : base ≤ 16) {value n : Nat}
    (hvalue : value < limit) {chars : List Char} :
    readDigits base limit value chars = .ok n ↔
      (∃ digits, List.Forall₂ (IsDigit base) chars digits ∧ extend base value digits = n) ∧
        n < limit := by
  induction chars generalizing value with
  | nil =>
    rw [readDigits, Except.ok.injEq]
    constructor
    · rintro rfl
      exact ⟨⟨[], .nil, rfl⟩, hvalue⟩
    · rintro ⟨⟨digits, hdigits, hn⟩, -⟩
      cases hdigits
      exact hn
  | cons c rest ih =>
    rw [readDigits]
    cases hc : digit? base c with
    | none =>
      refine iff_of_false (by simp) ?_
      rintro ⟨⟨digits, hdigits, -⟩, -⟩
      cases hdigits with
      | cons hd _ => exact absurd ((digit?_eq_some_iff hbase).mpr hd) (by simp [hc])
    | some d =>
      rw [exists_digits_cons hbase hc]
      dsimp only
      split
      case isTrue hlt => exact ih hlt
      case isFalse hge =>
        -- Further digits never bring a number back below the limit.
        refine iff_of_false (by simp) ?_
        rintro ⟨⟨digits, -, rfl⟩, hn⟩
        exact hge ((le_extend hpos _ digits).trans_lt hn)

theorem not_digits_plus (hbase : base ≤ 16) (n : Nat) (chars : List Char) :
    ¬Digits base n ('+' :: chars) := by
  rintro ⟨-, digits, hdigits, -⟩
  cases hdigits with
  | cons hd _ => exact absurd ((digit?_eq_some_iff hbase).mpr hd) (by simp [digit?, digitValue?])

theorem spells_iff_of_plus (hbase : base ≤ 16) {n : Nat} {text : String} {chars : List Char}
    (h : text.toList = '+' :: chars) : Spells base n text ↔ Digits base n chars := by
  constructor
  · rintro ⟨other, hother | hother, hdigits⟩
    · rw [← hother, h] at hdigits
      exact absurd hdigits (not_digits_plus hbase n chars)
    · rw [h, List.cons.injEq] at hother
      rwa [hother.2]
  · exact fun hdigits => ⟨chars, .inr h, hdigits⟩

theorem spells_iff_of_not_plus {n : Nat} {text : String}
    (h : ∀ chars, text.toList ≠ '+' :: chars) : Spells base n text ↔ Digits base n text.toList := by
  constructor
  · rintro ⟨chars, rfl | hplus, hdigits⟩
    · exact hdigits
    · exact absurd hplus (h chars)
  · exact fun hdigits => ⟨text.toList, .inl rfl, hdigits⟩

/-- **A number is read from just the texts that spell it**, if it is below the limit. -/
theorem read_eq_ok_iff (hpos : 0 < base) (hbase : base ≤ 16) (hlimit : 0 < limit) {n : Nat}
    {text : String} : read base limit text = .ok n ↔ Spells base n text ∧ n < limit := by
  have hread {chars : List Char} (hne : chars ≠ []) :
      readDigits base limit 0 chars = .ok n ↔ Digits base n chars ∧ n < limit := by
    simp only [readDigits_eq_ok_iff hpos hbase hlimit, extend_zero, Digits, hne, ne_eq,
      not_false_eq_true, true_and]
  unfold read
  split
  case h_1 hnil =>
    rw [spells_iff_of_not_plus (by simp [hnil]), hnil]
    exact iff_of_false (by simp) fun h => h.1.1 rfl
  case h_2 hsign =>
    rw [spells_iff_of_plus hbase hsign]
    exact iff_of_false (by simp) fun h => h.1.1 rfl
  case h_3 chars hne hsign =>
    rw [spells_iff_of_plus hbase hsign]
    exact hread hne
  case h_4 chars hne _ hsign =>
    rw [spells_iff_of_not_plus hsign]
    exact hread hne

end Chip8.Numeral
