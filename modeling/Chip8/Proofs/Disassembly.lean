import Mathlib.Data.List.TakeWhile
import Chip8.Instruction.Assembly
import Chip8.Proofs.Checked

/-!
# Assembly text can be read back

A line of assembly is cut at its blanks and commas into the mnemonic and the texts of the operands.
What stands before an operand tells its kind, but for the numbers behind `#`, of which a byte and a
digit may look the same. The kinds of the operands leave only a few instructions, and these differ
in their mnemonics. So a line gives its instruction back, less the digit that a comparison of two
registers ignores, and lines are the same only for instructions that differ in no more than that.
-/

namespace Chip8

/-! ## Numbers -/

namespace Numeral

/-- The number below the limit that these digits of base sixteen stand for. -/
def ofHex? (limit : Nat) (digits : List Char) : Option Nat :=
  (readDigits 16 limit 0 digits).toOption

/-- What holds of all digits holds of the characters of every number. -/
theorem forall_mem_toDigits {P : Char → Prop} (h : ∀ d < 16, P (Nat.digitChar d)) (n : Nat) :
    ∀ c ∈ Nat.toDigits 16 n, P c := by
  induction n using Nat.strongRecOn with
  | _ n ih =>
    by_cases hn : n < 16
    · rw [Nat.toDigits_of_lt_base hn]
      simpa using h n hn
    · rw [Nat.toDigits_of_base_le (by decide) (Nat.le_of_not_lt hn), List.forall_mem_append]
      refine ⟨ih (n / 16) (by omega), ?_⟩
      simpa using h (n % 16) (Nat.mod_lt n (by decide))

theorem forall_mem_hexPadded {P : Char → Prop} (h : ∀ d < 16, P (Nat.digitChar d))
    (width n : Nat) : ∀ c ∈ (hexPadded width n).toList, P c := by
  rw [hexPadded, String.toList_ofList, List.leftpad, List.forall_mem_append]
  refine ⟨fun c hc => ?_, forall_mem_toDigits h n⟩
  rw [List.eq_of_mem_replicate hc]
  exact h 0 (by decide)

theorem hexPadded_ne_empty (width n : Nat) : (hexPadded width n).toList ≠ [] := by
  rw [hexPadded, String.toList_ofList, List.leftpad]
  exact List.append_ne_nil_of_right_ne_nil _ Nat.toDigits_ne_nil

theorem forall_mem_hexCapital {P : Char → Prop} (h : ∀ d < 16, P (Nat.digitChar d).toUpper)
    (n : Nat) : ∀ c ∈ (hexCapital n).toList, P c := by
  rw [hexCapital, String.toList_ofList, List.forall_mem_map]
  exact forall_mem_toDigits h n

variable {limit n : Nat}

theorem ofHex?_hexCapital (h : n < limit) : ofHex? limit (hexCapital n).toList = some n := by
  have hdigit (d : Nat) (hd : d < 16) : digit? 16 (Nat.digitChar d).toUpper = some d :=
    digit?_of_value (digitValue?_toUpper_digitChar hd) hd
  rw [ofHex?, hexCapital, String.toList_ofList, readDigits_map_toDigits (by decide) hdigit h]
  rfl

theorem readDigits_toDigits (h : n < limit) :
    readDigits 16 limit 0 (Nat.toDigits 16 n) = .ok n := by
  have hdigit (d : Nat) (hd : d < 16) : digit? 16 (id (Nat.digitChar d)) = some d :=
    digit?_of_value (digitValue?_digitChar hd) hd
  have hread := readDigits_map_toDigits (by decide) hdigit h
  rwa [List.map_id] at hread

theorem ofHex?_hex (h : n < limit) : ofHex? limit (hex n).toList = some n := by
  rw [ofHex?, hex, String.toList_ofList, readDigits_toDigits h]
  rfl

/-- Zeros in front make no difference. -/
theorem readDigits_zeros (hlimit : 0 < limit) (count : Nat) (digits : List Char) :
    readDigits 16 limit 0 (List.replicate count '0' ++ digits) = readDigits 16 limit 0 digits := by
  induction count with
  | zero => rfl
  | succ count ih =>
    have hzero : digit? 16 '0' = some 0 := by decide
    rw [List.replicate_succ, List.cons_append, readDigits, hzero]
    simpa [hlimit] using ih

theorem ofHex?_hexPadded (h : n < limit) (width : Nat) :
    ofHex? limit (hexPadded width n).toList = some n := by
  rw [ofHex?, hexPadded, String.toList_ofList, List.leftpad, readDigits_zeros (by omega),
    readDigits_toDigits h]
  rfl

end Numeral

/-! ## Operands -/

namespace Operand

/-- The operand as far as its own text tells: a digit looks like a byte. -/
def blurred : Operand → Operand
  | digit n => byte n
  | operand => operand

/-- The operand with that text; a number behind `#` is taken for a byte. -/
def ofChars? : List Char → Option Operand
  | ['I'] => some index
  | ['&', 'I'] => some memory
  | ['D', 'T'] => some delay
  | ['S', 'T'] => some sound
  | 'v' :: digits => (Numeral.ofHex? UInt64.size digits).map fun x => register (.ofNat x)
  | '#' :: digits => (Numeral.ofHex? UInt8.size digits).map fun b => byte (.ofNat b)
  | '$' :: rest =>
    (Numeral.ofHex? UInt16.size (rest.takeWhile (· != '+'))).map fun a =>
      if '+' ∈ rest then offset (.ofNat a) else address (.ofNat a)
  | digits => (Numeral.ofHex? UInt16.size digits).map fun a => target (.ofNat a)

/-- Text that begins like no other operand is an address to go to. -/
theorem ofChars?_of_digits {digits : List Char}
    (h : ∀ c ∈ digits, c ∉ ['I', '&', 'D', 'S', 'v', '#', '$']) :
    ofChars? digits = (Numeral.ofHex? UInt16.size digits).map fun a => target (.ofNat a) := by
  rw [ofChars?.eq_def]
  split
  case h_8 => rfl
  all_goals exact absurd (h _ List.mem_cons_self) (by decide)

theorem ofChars?_text (operand : Operand) :
    ofChars? operand.text.toList = some operand.blurred := by
  have hplus (a : UInt16) : ∀ c ∈ (Numeral.hexPadded 3 a.toNat).toList, c ≠ '+' :=
    Numeral.forall_mem_hexPadded (by decide) 3 a.toNat
  cases operand with
  | target a =>
    have hdigits : ∀ c ∈ (target a).text.toList, c ∉ ['I', '&', 'D', 'S', 'v', '#', '$'] :=
      Numeral.forall_mem_hexPadded (by decide) 3 a.toNat
    rw [ofChars?_of_digits hdigits, text, Numeral.ofHex?_hexPadded a.toNat_lt]
    simp [blurred]
  | offset a =>
    have hcut : ((Numeral.hexPadded 3 a.toNat).toList ++ ['+', 'v', '0']).takeWhile (· != '+') =
        (Numeral.hexPadded 3 a.toNat).toList := by
      rw [List.takeWhile_append_of_pos (by simpa using hplus a)]
      simp
    simp [text, ofChars?, hcut, Numeral.ofHex?_hexPadded a.toNat_lt, blurred]
  | address a =>
    have hcut : (Numeral.hexPadded 3 a.toNat).toList.takeWhile (· != '+') =
        (Numeral.hexPadded 3 a.toNat).toList := by
      rw [List.takeWhile_eq_self_iff]
      simpa using hplus a
    have hnot : '+' ∉ (Numeral.hexPadded 3 a.toNat).toList := fun h => hplus a '+' h rfl
    simp [text, ofChars?, hcut, hnot, Numeral.ofHex?_hexPadded a.toNat_lt, blurred]
  | byte b => simp [text, ofChars?, Numeral.ofHex?_hexPadded b.toNat_lt, blurred]
  | digit n => simp [text, ofChars?, Numeral.ofHex?_hex n.toNat_lt, blurred]
  | register x => simp [text, ofChars?, Numeral.ofHex?_hexCapital x.toNat_lt, blurred]
  | _ => rfl

/-- No text of an operand has a blank or a comma in it. -/
theorem forall_mem_text (operand : Operand) : ∀ c ∈ operand.text.toList, c ≠ ' ' ∧ c ≠ ',' := by
  have hpadded (width n : Nat) : ∀ c ∈ (Numeral.hexPadded width n).toList, c ≠ ' ' ∧ c ≠ ',' :=
    Numeral.forall_mem_hexPadded (by decide) width n
  cases operand with
  | target a => exact hpadded 3 _
  | offset a => simpa [text, or_imp, forall_and] using hpadded 3 a.toNat
  | address a => simpa [text, or_imp, forall_and] using hpadded 3 a.toNat
  | byte b => simpa [text, or_imp, forall_and] using hpadded 2 b.toNat
  | digit n =>
    have hdigits : ∀ c ∈ Nat.toDigits 16 n.toNat, c ≠ ' ' ∧ c ≠ ',' :=
      Numeral.forall_mem_toDigits (by decide) n.toNat
    simpa [text, Numeral.hex, or_imp, forall_and] using hdigits
  | register x =>
    have hdigits : ∀ c ∈ (Numeral.hexCapital x.toNat).toList, c ≠ ' ' ∧ c ≠ ',' :=
      Numeral.forall_mem_hexCapital (by decide) x.toNat
    simpa [text, or_imp, forall_and] using hdigits
  | _ => simp [text]

theorem text_ne_empty (operand : Operand) : operand.text.toList ≠ [] := by
  cases operand with
  | target a => exact Numeral.hexPadded_ne_empty 3 a.toNat
  | _ => simp [text]

end Operand

/-! ## Lines -/

namespace Instruction

/-- The instruction with another digit where its line leaves one out. -/
def withDigit (n : UInt8) : Instruction → Instruction
  | skipIfSame x y _ => skipIfSame x y n
  | skipUnlessSame x y _ => skipUnlessSame x y n
  | i => i

/-- The digit that the line leaves out. -/
def ignored : Instruction → UInt8
  | skipIfSame _ _ n | skipUnlessSame _ _ n => n
  | _ => 0

/-- The operations on two registers. -/
def operations : List Alu :=
  [.copy, .or, .and, .xor, .add, .subtract, .shiftRight, .subtractFrom, .shiftLeft]

/-- The instructions with these operands. -/
def candidates : List Operand → List Instruction
  | [] => [clear, ret]
  | [.target a] => [jump a, call a]
  | [.offset a] => [jumpOffset a]
  | [.byte b, .register x] =>
    [skipIfByte x b, skipUnlessByte x b, setByte x b, addByte x b, random x b]
  | [.register y, .register x] =>
    [skipIfSame x y 0, skipUnlessSame x y 0] ++ operations.map (alu · x y)
  | [.address a, .index] => [setIndex a]
  | [.byte n, .register x, .register y] => [draw x y n]
  | [.register x] =>
    [skipIfHeld x, skipIfLoose x, awaitKey x, storeRegisters x, loadRegisters x]
  | [.delay, .register x] => [getDelay x]
  | [.register x, .delay] => [setDelay x]
  | [.register x, .sound] => [setSound x]
  | [.register x, .index] => [addIndex x, pointGlyph x]
  | [.register x, .memory] => [storeDigits x]
  | _ => []

/-- The instruction with that mnemonic and these operands. -/
def ofAssembly? (mnemonic : String) (operands : List Operand) : Option Instruction :=
  (candidates operands).find? (·.assembly.1 == mnemonic)

/-- The mnemonic of a line and the texts of its operands. -/
def cut (line : List Char) : String × List (List Char) :=
  let operands := (line.dropWhile (· != ' ')).filter (· != ' ')
  (String.ofList (line.takeWhile (· != ' ')), (operands.splitOn ',').filter (· != []))

/-- The instruction with that line, whose ignored digit is taken to be zero. -/
def ofText? (line : String) : Option Instruction := do
  let (mnemonic, texts) := cut line.toList
  ofAssembly? mnemonic (← texts.mapM Operand.ofChars?)

theorem ofAssembly?_assembly (i : Instruction) :
    ofAssembly? i.assembly.1 (i.assembly.2.map Operand.blurred) = some (i.withDigit 0) := by
  cases i with
  | alu operation x y => cases operation <;> rfl
  | _ => rfl

def mnemonics : List String :=
  ["cls", "ret", "jmp", "call", "se", "sne", "mov", "add", "or", "and", "xor", "sub", "shr",
   "bsub", "shl", "rand", "draw", "sek", "snek", "waitk", "font", "bcd", "dmao", "dmai"]

theorem mnemonic_mem (i : Instruction) : i.assembly.1 ∈ mnemonics := by
  cases i with
  | alu operation x y => cases operation <;> simp [assembly, Alu.mnemonic, mnemonics]
  | _ => simp [assembly, mnemonics]

/-- At least one blank follows a mnemonic in its column. -/
theorem mnemonic_fits {mnemonic : String} (h : mnemonic ∈ mnemonics) :
    mnemonic.length < 7 ∧ ∀ c ∈ mnemonic.toList, (c != ' ') = true := by
  have hall : mnemonics.all
      (fun m => decide (m.length < 7) && m.toList.all (· != ' ')) = true := by decide
  have hfits := List.all_eq_true.mp hall mnemonic h
  rwa [Bool.and_eq_true, decide_eq_true_iff, List.all_eq_true] at hfits

theorem filter_intercalate {texts : List (List Char)} (h : ∀ t ∈ texts, ∀ c ∈ t, c ≠ ' ') :
    (List.intercalate [',', ' '] texts).filter (· != ' ') = List.intercalate [','] texts := by
  have hkeep : ∀ t ∈ texts, t.filter (· != ' ') = t := fun t ht =>
    List.filter_eq_self.mpr (by simpa using h t ht)
  induction texts with
  | nil => rfl
  | cons t rest ih =>
    have ih := ih (fun u hu => h u (.tail _ hu)) (fun u hu => hkeep u (.tail _ hu))
    have ht := hkeep t List.mem_cons_self
    cases rest with
    | nil => simpa using ht
    | cons u rest =>
      rw [List.intercalate_cons_cons, List.intercalate_cons_cons, List.filter_append,
        List.filter_append, ht, ih]
      rfl

/-- The line gives the mnemonic and the texts of the operands back. -/
theorem cut_text (i : Instruction) :
    cut i.text.toList = (i.assembly.1, i.assembly.2.map (·.text.toList)) := by
  obtain ⟨hshort, hblank⟩ := mnemonic_fits i.mnemonic_mem
  generalize hm : i.assembly.1 = mnemonic at *
  generalize ho : i.assembly.2 = operands
  let texts := operands.map (·.text.toList)
  have htexts : ∀ t ∈ texts, t ≠ [] ∧ ∀ c ∈ t, c ≠ ' ' ∧ c ≠ ',' :=
    List.forall_mem_map.mpr fun operand _ => ⟨operand.text_ne_empty, operand.forall_mem_text⟩
  have hline : i.text.toList = mnemonic.toList ++
      (' ' :: (List.replicate (6 - mnemonic.length) ' ' ++ List.intercalate [',', ' '] texts)) := by
    have hcount : 7 - mnemonic.length = 6 - mnemonic.length + 1 := by omega
    have htext : i.text = String.ofList (mnemonic.toList.rightpad 7 ' ') ++
        String.intercalate ", " (operands.map Operand.text) := by rw [← hm, ← ho]; rfl
    rw [htext, String.toList_append, String.toList_ofList, String.toList_intercalate,
      List.map_map, List.rightpad, String.length_toList, hcount, List.replicate_succ,
      List.append_assoc, List.cons_append]
    rfl
  have hmnemonic : i.text.toList.takeWhile (· != ' ') = mnemonic.toList := by
    rw [hline, List.takeWhile_append_of_pos hblank]
    simp
  have hrest : (i.text.toList.dropWhile (· != ' ')).filter (· != ' ') =
      List.intercalate [','] texts := by
    rw [hline, List.dropWhile_append_of_pos hblank]
    simpa using filter_intercalate fun t ht c hc => ((htexts t ht).2 c hc).1
  have hcut : ((List.intercalate [','] texts).splitOn ',').filter (· != []) = texts := by
    by_cases hnone : texts = []
    · rw [hnone]; rfl
    · rw [List.splitOn_intercalate ',' (fun t ht hc => ((htexts t ht).2 ',' hc).2 rfl) hnone]
      exact List.filter_eq_self.mpr fun t ht => by simpa using (htexts t ht).1
  rw [cut, hmnemonic, hrest, hcut, String.ofList_toList]

theorem ofText?_text (i : Instruction) : ofText? i.text = some (i.withDigit 0) := by
  have hoperands : (i.assembly.2.map (·.text.toList)).mapM Operand.ofChars? =
      some (i.assembly.2.map Operand.blurred) := by
    rw [List.mapM_map]
    exact mapM_eq_some fun operand _ => operand.ofChars?_text
  rw [ofText?, cut_text]
  simp only [hoperands]
  exact i.ofAssembly?_assembly

/-- The instructions are the same but for the digit that a comparison of two registers ignores. -/
def SameButIgnored (i j : Instruction) : Prop :=
  i = j ∨ (∃ x y n n', i = skipIfSame x y n ∧ j = skipIfSame x y n') ∨
    ∃ x y n n', i = skipUnlessSame x y n ∧ j = skipUnlessSame x y n'

theorem withDigit_ignored (i : Instruction) : (i.withDigit 0).withDigit i.ignored = i := by
  cases i <;> rfl

theorem sameButIgnored_withDigit (i : Instruction) (n n' : UInt8) :
    SameButIgnored (i.withDigit n) (i.withDigit n') := by
  cases i with
  | skipIfSame x y _ => exact .inr (.inl ⟨x, y, n, n', rfl, rfl⟩)
  | skipUnlessSame x y _ => exact .inr (.inr ⟨x, y, n, n', rfl, rfl⟩)
  | _ => exact .inl rfl

/-- **Two lines of assembly are the same just when the instructions are**, except that a comparison
of two registers leaves out the digit that it ignores. -/
theorem text_eq_iff (i j : Instruction) : i.text = j.text ↔ SameButIgnored i j := by
  constructor
  · intro h
    have hread : some (i.withDigit 0) = some (j.withDigit 0) := by
      rw [← ofText?_text, ← ofText?_text, h]
    have hsame := (i.withDigit 0).sameButIgnored_withDigit i.ignored j.ignored
    rwa [withDigit_ignored, Option.some.inj hread, withDigit_ignored] at hsame
  · rintro (rfl | ⟨x, y, n, n', rfl, rfl⟩ | ⟨x, y, n, n', rfl, rfl⟩) <;> rfl

end Instruction

end Chip8
