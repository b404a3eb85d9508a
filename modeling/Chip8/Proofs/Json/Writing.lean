import Chip8.Json.Write
import Chip8.Proofs.Json.Grammar

/-!
# A written tree is one of its texts

A character of a quoted text is written as itself, as a short escape, or as a numbered
escape, and in each case comes back as the same character. Digits come back as their number.
So what is written for a tree is a text of that tree, and is read back.
-/

namespace Chip8.Json

/-! ## Numbers -/

/-- A number starts with a zero only if it is zero. -/
theorem head?_toDigits {n : Nat} (h : n ≠ 0) : (Nat.toDigits 10 n).head? ≠ some '0' := by
  induction n using Nat.strongRecOn with
  | _ n ih =>
    by_cases hlt : n < 10
    · rw [Nat.toDigits_of_lt_base hlt, List.head?_cons]
      exact (by decide : ∀ d : Fin 10, d.val ≠ 0 → some (Nat.digitChar d) ≠ some '0') ⟨n, hlt⟩ h
    · have hquotient := ih (n / 10) (Nat.div_lt_self (by omega) (by decide)) (by omega)
      rw [Nat.toDigits_of_base_le (by decide) (Nat.le_of_not_lt hlt), List.head?_append]
      cases hhead : (Nat.toDigits 10 (n / 10)).head? with
      | none => exact absurd (List.head?_eq_none_iff.mp hhead) Nat.toDigits_ne_nil
      | some c => rwa [hhead] at hquotient

theorem isDigit_of_mem_toDigits {n : Nat} {c : Char} (h : c ∈ Nat.toDigits 10 n) :
    c.isDigit = true :=
  Nat.isDigit_of_mem_toDigits (by decide) (by decide) h

theorem whole_toDigits (n : Nat) : Whole (Nat.toDigits 10 n) := by
  refine ⟨⟨Nat.toDigits_ne_nil, fun c hc => isDigit_of_mem_toDigits hc⟩, ?_⟩
  by_cases h : n = 0
  · rw [h]
    exact .inl rfl
  · exact .inr (head?_toDigits h)

theorem spells_natural (n : Nat) : Spells (natural n) (Nat.toDigits 10 n) := by
  have hword := Word.natural (whole_toDigits n)
  rw [Nat.ofDigitChars_toDigits (by decide) (by decide)] at hword
  exact .word hword

/-! ## Quoted texts -/

/-- How a character comes back: a control character without a short escape by its number. -/
def Piece.ofChar (c : Char) : Piece :=
  if c < ' ' ∧ c ∉ ['\x08', '\x0c', '\n', '\r', '\t'] then .unit c.toNat else .char c

theorem Piece.join_unit {value : Nat} (h : value < 0xd800) (rest : List Piece) :
    join (.unit value :: rest) = (join rest).map (Char.ofNat value :: ·) := by
  have hleading : isLeading value = false := by
    simp only [isLeading, Bool.and_eq_false_imp, decide_eq_true_eq, decide_eq_false_iff_not]
    omega
  have htrailing : isTrailing value = false := by
    simp only [isTrailing, Bool.and_eq_false_imp, decide_eq_true_eq, decide_eq_false_iff_not]
    omega
  cases rest with
  | nil => simp [join, hleading, htrailing]
  | cons piece rest => cases piece <;> simp [join, hleading, htrailing]

theorem toNat_lt_of_control {c : Char} (h : c < ' ') : c.toNat < 32 :=
  h

theorem Piece.join_ofChar (content : List Char) :
    join (content.map Piece.ofChar) = some content := by
  induction content with
  | nil => rfl
  | cons c rest ih =>
    rw [List.map_cons, Piece.ofChar]
    split
    · rename_i hc
      have hlt := toNat_lt_of_control hc.1
      rw [join_unit (by omega), ih, Char.ofNat_toNat]
      rfl
    · rw [join, ih]
      rfl

theorem leftpad_toDigits_of_lt {n : Nat} (h : n < 32) :
    (Nat.toDigits 16 n).leftpad 4 '0' =
      ['0', '0', Nat.digitChar (n / 16), Nat.digitChar (n % 16)] :=
  (by decide : ∀ n : Fin 32, (Nat.toDigits 16 n.val).leftpad 4 '0' =
    ['0', '0', Nat.digitChar (n.val / 16), Nat.digitChar (n.val % 16)]) ⟨n, h⟩

theorem Piece.spells_writeChar (c : Char) : (ofChar c).Spells (writeChar c) := by
  by_cases hshort : c ∈ ['"', '\\', '\x08', '\x0c', '\n', '\r', '\t']
  · simp only [List.mem_cons, List.not_mem_nil, or_false] at hshort
    obtain rfl | rfl | rfl | rfl | rfl | rfl | rfl := hshort <;> exact .short rfl
  · simp only [List.mem_cons, List.not_mem_nil, or_false, not_or] at hshort
    obtain ⟨hquote, hslash, h8, hc, hn, hr, ht⟩ := hshort
    simp only [writeChar, hquote, hslash, h8, hc, hn, hr, ht, if_false]
    by_cases hcontrol : c < ' '
    · have hlt := toNat_lt_of_control hcontrol
      have hdigit {d : Nat} (hd : d < 16) : Numeral.digit? 16 (Nat.digitChar d) = some d :=
        Numeral.digit?_of_value (Numeral.digitValue?_digitChar hd) hd
      have hzero : Numeral.digit? 16 '0' = some 0 := hdigit (d := 0) (by decide)
      have hunit := Piece.Spells.numbered hzero hzero (hdigit (d := c.toNat / 16) (by omega))
        (hdigit (d := c.toNat % 16) (by omega))
      have hvalue : 16 * (16 * (16 * 0 + 0) + c.toNat / 16) + c.toNat % 16 = c.toNat := by omega
      rw [hvalue] at hunit
      rw [if_pos hcontrol, ofChar, if_pos ⟨hcontrol, by simp [h8, hc, hn, hr, ht]⟩,
        leftpad_toDigits_of_lt hlt]
      exact hunit
    · rw [if_neg hcontrol, ofChar, if_neg fun h => hcontrol h.1]
      exact .plain hcontrol hquote hslash

/-- Every text is written between quotes, also one that is no string of characters. -/
theorem quotes_writeText (content : Text) : Quotes content (writeText content) := by
  cases content with
  | none =>
    have hhalf : (Piece.unit 0xd800).Spells ['\\', 'u', 'd', '8', '0', '0'] :=
      .numbered (a := 13) (b := 8) (c := 0) (d := 0) (by decide) (by decide) (by decide) (by decide)
    exact @Quotes.intro [(_, _)] fun s hs => List.mem_singleton.mp hs ▸ hhalf
  | some content =>
    have hspelled : ∀ s ∈ content.toList.map fun c => (Piece.ofChar c, writeChar c),
        s.1.Spells s.2 :=
      List.forall_mem_map.mpr fun c _ => Piece.spells_writeChar c
    simpa [Function.comp_def, List.flatMap_map, Piece.join_ofChar, writeText] using
      Quotes.intro hspelled

/-! ## Whole trees -/

/-- Every number in the tree that is not natural is read as it is written. -/
inductive Readable : Json → Prop
  | null : Readable null
  | bool (b : Bool) : Readable (bool b)
  | natural (n : Nat) : Readable (natural n)
  | number {lexeme : String} (hbare : ∀ c ∈ lexeme.toList, isBare c = true)
      (h : ofBare? lexeme.toList = some (number lexeme)) : Readable (number lexeme)
  | text (content : Text) : Readable (text content)
  | list {items : List Json} (h : ∀ item ∈ items, Readable item) : Readable (list items)
  | record {fields : List (Text × Json)} (h : ∀ field ∈ fields, Readable field.2) :
      Readable (record fields)

theorem writeItems_eq (items : List Json) :
    writeItems items = [','].intercalate (items.map writeValue) := by
  induction items with
  | nil => rfl
  | cons item rest ih =>
    cases rest with
    | nil => simp [writeItems]
    | cons next rest => simp [writeItems, ih, List.intercalate_cons_cons]

/-- A field with its written texts. -/
def Member.written (field : Text × Json) : Member :=
  ⟨field.1, writeText field.1, field.2, field.2.writeValue⟩

theorem writeFields_eq (fields : List (Text × Json)) :
    writeFields fields =
      [','].intercalate (fields.map fun field => (Member.written field).chars) := by
  induction fields with
  | nil => rfl
  | cons field rest ih =>
    cases rest with
    | nil => simp [writeFields, Member.written, Member.chars]
    | cons next rest =>
      simp [writeFields, ih, List.intercalate_cons_cons, Member.written, Member.chars]

theorem Readable.spells {tree : Json} (h : tree.Readable) : Spells tree tree.writeValue := by
  have hgap : Blank [] := fun _ hc => nomatch hc
  induction h with
  | null => exact .word .null
  | bool b =>
    cases b with
    | true => exact .word .yes
    | false => exact .word .no
  | natural n => exact spells_natural n
  | number hbare h => exact .word (.of_ofBare? h)
  | text content => exact .text (quotes_writeText content)
  | @list items h ih =>
    have hitems : ∀ item ∈ items.map fun item => (item, item.writeValue), Spells item.1 item.2 :=
      List.forall_mem_map.mpr ih
    simpa [Function.comp_def, writeValue, writeItems_eq] using Spells.list hitems hgap
  | @record fields h ih =>
    have hname : ∀ m ∈ fields.map Member.written, Spells (.text m.name) m.nameText :=
      List.forall_mem_map.mpr fun field _ => .text (quotes_writeText field.1)
    have hvalue : ∀ m ∈ fields.map Member.written, Spells m.value m.valueText :=
      List.forall_mem_map.mpr ih
    simpa [Function.comp_def, Member.written, Member.field, writeValue, writeFields_eq] using
      Spells.record hname hvalue hgap

/-- **A written tree is read back.** -/
theorem Readable.read_write {tree : Json} (h : tree.Readable) : read tree.write = some tree := by
  refine Spells.read_eq ?_
  rw [write, String.toList_ofList]
  exact h.spells

end Chip8.Json
