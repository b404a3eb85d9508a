import Chip8.Instruction.Fields
import Chip8.Proofs.Decoding

/-!
# A word is read exactly as its pattern says

Each of the thirty-four kinds of instruction has a pattern of four places. A place is a digit
that the word must have there, or it belongs to a field, and the digits of a field make up its
number in the order in which they stand. The decoder knows nothing of this table, and yet the
two agree: a word of no pattern has no reading, a word of a pattern has the one that its digits
spell, and no word has two patterns. Encoding puts the operands back in their places, so on
operands that fit it undoes decoding and is undone by it.
-/

namespace Chip8

theorem Alu.digit_lt (operation : Alu) : operation.digit < 16 := by
  cases operation <;> decide

namespace Instruction

/-- A place of a pattern: a digit that a word must have there, or one that belongs to a field. -/
inductive Place
  | digit (value : Nat)
  | field (f : Field)
  deriving DecidableEq, Repr

namespace Place

/-- Five letters name fields, and every other character is a digit. -/
def ofChar : Char → Place
  | 'A' => field .A
  | 'B' => field .B
  | 'n' => field .n
  | 'x' => field .x
  | 'y' => field .y
  | c => digit ((Numeral.digitValue? c).getD 0)

/-- There is a digit for each place, and the right one where it is fixed. -/
def fit : List Place → List Nat → Bool
  | digit value :: places, d :: digits => d == value && fit places digits
  | field _ :: places, _ :: digits => fit places digits
  | places, digits => places.isEmpty && digits.isEmpty

/-- The digits of a field, in order, behind a number already read. -/
def gather (f : Field) : Nat → List Place → List Nat → Nat
  | value, field g :: places, d :: digits =>
    gather f (if g = f then 0x10 * value + d else value) places digits
  | value, digit _ :: places, _ :: digits => gather f value places digits
  | value, _, _ => value

end Place

/-- The pattern of each kind of instruction, behind the tag of the kind. -/
def patterns : List (String × String) :=
  [("cls", "00e0"), ("ret", "00ee"), ("jmp", "1AAA"), ("call", "2AAA"),
   ("seb", "3xBB"), ("sneb", "4xBB"), ("se", "5xyn"), ("movb", "6xBB"), ("addb", "7xBB"),
   ("mov", "8xy0"), ("or", "8xy1"), ("and", "8xy2"), ("xor", "8xy3"), ("add", "8xy4"),
   ("sub", "8xy5"), ("shr", "8xy6"), ("bsub", "8xy7"), ("shl", "8xye"),
   ("sne", "9xyn"), ("movI", "aAAA"), ("jmpr", "bAAA"), ("rand", "cxBB"), ("draw", "dxyn"),
   ("sek", "ex9e"), ("snek", "exa1"), ("getdt", "fx07"), ("waitk", "fx0a"), ("setdt", "fx15"),
   ("movst", "fx18"), ("addI", "fx1e"), ("font", "fx29"), ("bcd", "fx33"), ("dmao", "fx55"),
   ("dmai", "fx65")]

def places (pattern : String) : List Place :=
  pattern.toList.map Place.ofChar

/-- The four digits of a word. -/
def digits (word : UInt16) : List Nat :=
  [word.toNat / 0x1000, word.toNat / 0x100 % 0x10, word.toNat / 0x10 % 0x10, word.toNat % 0x10]

/-- The word has every fixed digit of the pattern. -/
def Matches (word : UInt16) (pattern : String) : Prop :=
  Place.fit (places pattern) (digits word) = true

instance (word : UInt16) (pattern : String) : Decidable (Matches word pattern) :=
  inferInstanceAs (Decidable (_ = true))

/-- The digits of the word fit the places and give the fields their numbers. -/
def Bears (word : UInt16) (places : List Place) (fields : List (Field × Nat)) : Prop :=
  Place.fit places (digits word) = true ∧
    ∀ field ∈ fields, Place.gather field.1 0 places (digits word) = field.2

/-- The word has the pattern of the instruction's kind, with the operands in their places. -/
def Spells (word : UInt16) (i : Instruction) : Prop :=
  ∃ pattern, patterns.lookup i.tag = some pattern ∧ Bears word (places pattern) i.fields

variable {word : UInt16}

/-! ## What the digits of a word spell -/

section Shapes

variable {family : Nat} {x y : UInt64}

theorem bears_address {a : UInt16} :
    Bears word [.digit family, .field .A, .field .A, .field .A] [(.A, a.toNat)] ↔
      a < 0x1000 ∧ codeAddress family a = word.toNat := by
  simp [Bears, Place.fit, Place.gather, digits, codeAddress, UInt16.lt_iff_toNat_lt]
  omega

theorem bears_byte {b : UInt8} :
    Bears word [.digit family, .field .x, .field .B, .field .B] [(.B, b.toNat), (.x, x.toNat)] ↔
      x < 16 ∧ codeByte family x b = word.toNat := by
  have hb := b.toNat_lt
  simp [Bears, Place.fit, Place.gather, digits, codeByte, UInt64.lt_iff_toNat_lt]
  omega

theorem bears_digits {n : UInt8} :
    Bears word [.digit family, .field .x, .field .y, .field .n]
        [(.y, y.toNat), (.x, x.toNat), (.n, n.toNat)] ↔
      (x < 16 ∧ y < 16 ∧ n < 16) ∧ codeDigits family x y n.toNat = word.toNat := by
  simp [Bears, Place.fit, Place.gather, digits, codeDigits, UInt64.lt_iff_toNat_lt,
    UInt8.lt_iff_toNat_lt]
  omega

theorem bears_pair {last : Nat} (hlast : last < 16) :
    Bears word [.digit family, .field .x, .field .y, .digit last] [(.y, y.toNat), (.x, x.toNat)] ↔
      (x < 16 ∧ y < 16) ∧ codeDigits family x y last = word.toNat := by
  simp [Bears, Place.fit, Place.gather, digits, codeDigits, UInt64.lt_iff_toNat_lt]
  omega

theorem bears_single {third last : Nat} {b : UInt8} (hlast : last < 16)
    (hb : 0x10 * third + last = b.toNat) :
    Bears word [.digit family, .field .x, .digit third, .digit last] [(.x, x.toNat)] ↔
      x < 16 ∧ codeByte family x b = word.toNat := by
  have hlt := b.toNat_lt
  simp [Bears, Place.fit, Place.gather, digits, codeByte, UInt64.lt_iff_toNat_lt]
  omega

theorem bears_plain {third last : Nat} (hthird : third < 16) (hlast : last < 16) :
    Bears word [.digit 0, .digit 0, .digit third, .digit last] [] ↔
      0x10 * third + last = word.toNat := by
  simp [Bears, Place.fit, digits]
  omega

end Shapes

theorem spells_iff_of_lookup {i : Instruction} {pattern : String}
    (h : patterns.lookup i.tag = some pattern) :
    Spells word i ↔ Bears word (places pattern) i.fields := by
  simp [Spells, h]

/-- A word spells an instruction if the operands fit and the word is its number. -/
theorem spells_iff {i : Instruction} : Spells word i ↔ i.InRange ∧ i.code = word.toNat := by
  cases i with
  | clear | ret =>
    rw [spells_iff_of_lookup rfl]
    exact (bears_plain (by decide) (by decide)).trans (and_iff_right trivial).symm
  | jump a | call a | setIndex a | jumpOffset a =>
    rw [spells_iff_of_lookup rfl]
    exact bears_address
  | skipIfByte x b | skipUnlessByte x b | setByte x b | addByte x b | random x b =>
    rw [spells_iff_of_lookup rfl]
    exact bears_byte
  | skipIfSame x y n | skipUnlessSame x y n | draw x y n =>
    rw [spells_iff_of_lookup rfl]
    exact bears_digits
  | alu operation x y =>
    cases operation <;> (rw [spells_iff_of_lookup rfl]; exact bears_pair (by decide))
  | _ x =>
    rw [spells_iff_of_lookup rfl]
    exact bears_single (by decide) (by decide)

/-! ## What the decoder reads -/

/-- Nothing of the word is lost: the instruction is written as the number it was read from. -/
theorem code_of_decode {i : Instruction} (h : decode word = some i) : i.code = word.toNat := by
  simp only [decode] at h
  -- one case for each first digit of the word, grouped by the operands of its family
  split at h
  case h_1 =>
    split at h
    · simp only [ofPlainCode?] at h
      split at h <;> cases h <;> simp only [code] <;> omega
    · cases h
  case h_2 | h_3 | h_11 | h_12 =>
    cases h
    simp only [code, codeAddress, UInt16.toNat_ofNat']
    omega
  case h_4 | h_5 | h_7 | h_8 | h_13 =>
    cases h
    simp only [code, codeByte, UInt64.toNat_ofNat', UInt8.toNat_ofNat']
    omega
  case h_6 | h_10 | h_14 =>
    cases h
    simp only [code, codeDigits, UInt64.toNat_ofNat', UInt8.toNat_ofNat']
    omega
  case h_9 =>
    obtain ⟨operation, hop, rfl⟩ := Option.map_eq_some_iff.mp h
    simp only [Alu.ofDigit?] at hop
    split at hop <;> cases hop <;> simp [code, codeDigits, Alu.digit] <;> omega
  case h_15 =>
    simp only [ofKeyCode?] at h
    split at h <;> cases h <;> simp [code, codeByte] <;> omega
  case h_16 =>
    simp only [ofDeviceCode?] at h
    split at h <;> cases h <;> simp [code, codeByte] <;> omega
  case h_17 => cases h

section Fields

variable {family : Nat} {x y : UInt64}

theorem fields_of_codeAddress {a : UInt16} (ha : a < 0x1000)
    (h : codeAddress family a = word.toNat) :
    word.toNat / 0x1000 = family ∧ UInt16.ofNat (word.toNat % 0x1000) = a := by
  simp only [codeAddress, UInt16.lt_iff_toNat_lt, UInt16.reduceToNat] at ha h
  rw [← UInt16.toNat_inj, UInt16.toNat_ofNat']
  omega

theorem fields_of_codeByte {b : UInt8} (hx : x < 16) (h : codeByte family x b = word.toNat) :
    word.toNat / 0x1000 = family ∧ UInt64.ofNat (word.toNat / 0x100 % 0x10) = x ∧
      word.toNat % 0x100 = b.toNat := by
  have hb := b.toNat_lt
  simp only [codeByte, UInt64.lt_iff_toNat_lt, UInt64.reduceToNat] at hx h
  rw [← UInt64.toNat_inj, UInt64.toNat_ofNat']
  omega

theorem fields_of_codeDigits {last : Nat} (hx : x < 16) (hy : y < 16) (hlast : last < 16)
    (h : codeDigits family x y last = word.toNat) :
    word.toNat / 0x1000 = family ∧ UInt64.ofNat (word.toNat / 0x100 % 0x10) = x ∧
      UInt64.ofNat (word.toNat / 0x10 % 0x10) = y ∧ word.toNat % 0x10 = last := by
  simp only [codeDigits, UInt64.lt_iff_toNat_lt, UInt64.reduceToNat] at hx hy h
  rw [← UInt64.toNat_inj, UInt64.toNat_ofNat', ← UInt64.toNat_inj, UInt64.toNat_ofNat']
  omega

theorem codeAddress_lt {a : UInt16} (hfamily : family < 16) (ha : a < 0x1000) :
    codeAddress family a < UInt16.size := by
  simp only [codeAddress, UInt16.size, UInt16.lt_iff_toNat_lt, UInt16.reduceToNat] at ha ⊢
  omega

theorem codeByte_lt {b : UInt8} (hfamily : family < 16) (hx : x < 16) :
    codeByte family x b < UInt16.size := by
  have hb := b.toNat_lt
  simp only [codeByte, UInt16.size, UInt64.lt_iff_toNat_lt, UInt64.reduceToNat] at hx ⊢
  omega

theorem codeDigits_lt {last : Nat} (hfamily : family < 16) (hx : x < 16) (hy : y < 16)
    (hlast : last < 16) : codeDigits family x y last < UInt16.size := by
  simp only [codeDigits, UInt16.size, UInt64.lt_iff_toNat_lt, UInt64.reduceToNat] at hx hy ⊢
  omega

end Fields

/-- An instruction whose operands fit is read from its number. -/
theorem decode_of_code {i : Instruction} (hi : i.InRange) (h : i.code = word.toNat) :
    decode word = some i := by
  cases i with
  | clear | ret =>
    simp only [decode, ← h]
    rfl
  | jump a | call a | setIndex a | jumpOffset a =>
    obtain ⟨hfamily, ha⟩ := fields_of_codeAddress hi h
    simp only [decode, hfamily, ha]
  | skipIfByte x b | skipUnlessByte x b | setByte x b | addByte x b | random x b =>
    obtain ⟨hfamily, hx, hb⟩ := fields_of_codeByte hi h
    simp only [decode, hfamily, hx, hb, UInt8.ofNat_toNat]
  | skipIfSame x y n | skipUnlessSame x y n | draw x y n =>
    have hlast : n.toNat < 16 := UInt8.lt_iff_toNat_lt.mp hi.2.2
    obtain ⟨hfamily, hx, hy, hn⟩ := fields_of_codeDigits hi.1 hi.2.1 hlast h
    simp only [decode, hfamily, hx, hy, hn, UInt8.ofNat_toNat]
  | alu operation x y =>
    obtain ⟨hfamily, hx, hy, hlast⟩ := fields_of_codeDigits hi.1 hi.2 operation.digit_lt h
    simp only [decode, hfamily, hx, hy, hlast]
    cases operation <;> rfl
  | _ x =>
    obtain ⟨hfamily, hx, hb⟩ := fields_of_codeByte hi h
    simp only [decode, hfamily, hx, hb]
    rfl

/-- The number of an instruction whose operands fit has four digits. -/
theorem code_lt {i : Instruction} (hi : i.InRange) : i.code < UInt16.size := by
  cases i with
  | clear | ret => decide
  | jump a | call a | setIndex a | jumpOffset a => exact codeAddress_lt (by decide) hi
  | skipIfByte x b | skipUnlessByte x b | setByte x b | addByte x b | random x b =>
    exact codeByte_lt (by decide) hi
  | skipIfSame x y n | skipUnlessSame x y n | draw x y n =>
    exact codeDigits_lt (by decide) hi.1 hi.2.1 (UInt8.lt_iff_toNat_lt.mp hi.2.2)
  | alu operation x y => exact codeDigits_lt (by decide) hi.1 hi.2 operation.digit_lt
  | _ x => exact codeByte_lt (by decide) hi

theorem encode_eq_iff {i : Instruction} (hi : i.InRange) :
    i.encode = word ↔ i.code = word.toNat := by
  rw [← UInt16.toNat_inj, encode, UInt16.toNat_ofNat', Nat.mod_eq_of_lt (code_lt hi)]

/-- Decoding is undone by encoding and undoes it, as far as the operands fit. -/
theorem decode_eq_some_iff {i : Instruction} :
    decode word = some i ↔ i.InRange ∧ i.code = word.toNat :=
  ⟨fun h => ⟨inRange_of_decode h, code_of_decode h⟩, fun h => decode_of_code h.1 h.2⟩

/-- A word with the pattern of a kind is read as an instruction of that kind. -/
theorem tag_decode {row : String × String} (hrow : row ∈ patterns) (h : Matches word row.2) :
    (decode word).map tag = some row.1 := by
  have hlast : word.toNat % 0x100 = 0x10 * (word.toNat / 0x10 % 0x10) + word.toNat % 0x10 := by
    omega
  have hplain (hfirst : word.toNat < 0x1000) (hsecond : word.toNat / 0x100 % 0x10 = 0) :
      word.toNat < 0x100 := by
    omega
  simp only [patterns, List.mem_cons, List.not_mem_nil, or_false] at hrow
  -- one case for each row of the table
  repeat' obtain rfl | hrow := hrow
  all_goals
    simp [Matches, places, Place.ofChar, Place.fit, digits, Numeral.digitValue?] at h
    simp [decode, h, hlast, hplain, Nat.div_eq_of_lt, Alu.ofDigit?, ofPlainCode?, ofKeyCode?,
      ofDeviceCode?, tag, Alu.mnemonic]

theorem lookup_of_mem {row : String × String} (hrow : row ∈ patterns) :
    patterns.lookup row.1 = some row.2 :=
  (by decide : ∀ row ∈ patterns, patterns.lookup row.1 = some row.2) row hrow

/-- No word has the patterns of two kinds. -/
theorem eq_of_matches {row other : String × String} (hrow : row ∈ patterns)
    (hother : other ∈ patterns) (h : Matches word row.2) (h' : Matches word other.2) :
    row = other := by
  have htag : row.1 = other.1 :=
    Option.some.inj ((tag_decode hrow h).symm.trans (tag_decode hother h'))
  have hpattern : some row.2 = some other.2 := by
    rw [← lookup_of_mem hrow, ← lookup_of_mem hother, htag]
  exact Prod.ext htag (Option.some.inj hpattern)

theorem decode_eq_none_iff : decode word = none ↔ ∀ row ∈ patterns, ¬Matches word row.2 := by
  constructor
  · intro hnone row hrow h
    have htag := tag_decode hrow h
    rw [hnone] at htag
    cases htag
  · intro hrows
    cases hd : decode word with
    | none => rfl
    | some i =>
      obtain ⟨pattern, hlookup, hfit, -⟩ := spells_iff.mpr (decode_eq_some_iff.mp hd)
      obtain ⟨front, back, hsplit, -⟩ := List.lookup_eq_some_iff.mp hlookup
      have hmem : (i.tag, pattern) ∈ patterns :=
        hsplit ▸ List.mem_append_right front List.mem_cons_self
      exact absurd hfit (hrows _ hmem)

/-- **A word is read exactly as its pattern says.** There are thirty-four patterns, and no word
has two of them. A word of none is no instruction. Any other is read as the instruction that it
spells, whose operands fit, and which is written as that word and no other. -/
theorem decode_exact (word : UInt16) :
    patterns.length = 34 ∧
    (∀ row ∈ patterns, ∀ other ∈ patterns,
      Matches word row.2 → Matches word other.2 → row = other) ∧
    (decode word = none ↔ ∀ row ∈ patterns, ¬Matches word row.2) ∧
    (∀ i, decode word = some i ↔ Spells word i) ∧
    (∀ i, decode word = some i ↔ i.InRange ∧ i.encode = word) ∧
    ∀ i, decode word = some i → ∀ other, decode other = some i → other = word := by
  have hencode (word : UInt16) (i : Instruction) :
      decode word = some i ↔ i.InRange ∧ i.encode = word := by
    rw [decode_eq_some_iff]
    exact and_congr_right fun hi => (encode_eq_iff hi).symm
  refine ⟨rfl, fun _ hrow _ hother => eq_of_matches hrow hother, decode_eq_none_iff,
    fun i => decode_eq_some_iff.trans spells_iff.symm, hencode word, ?_⟩
  intro i h other h'
  exact ((hencode other i).mp h').2.symm.trans ((hencode word i).mp h).2

end Instruction

end Chip8
