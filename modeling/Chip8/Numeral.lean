/-!
# Numbers are written in the fewest digits and read under a limit

Every number in the machine's texts is a natural number written in base two, ten
or sixteen. Writing goes through `Nat.toDigits`, so a number other than zero never
starts with a zero unless it is padded. Reading goes through the text one digit
at a time and stops at the first character that is no digit or the first digit
that carries the value past the limit, whichever comes first.
-/

namespace Chip8.Numeral

def decimal (n : Nat) : String :=
  String.ofList (Nat.toDigits 10 n)

/-- The digits of a number in base sixteen, with small letters. -/
def hex (n : Nat) : String :=
  String.ofList (Nat.toDigits 16 n)

/-- The digits of a number in base sixteen, with capital letters. -/
def hexCapital (n : Nat) : String :=
  String.ofList ((Nat.toDigits 16 n).map Char.toUpper)

/-- Base sixteen with small letters, filled up with zeros to at least `width` digits. -/
def hexPadded (width n : Nat) : String :=
  String.ofList ((Nat.toDigits 16 n).leftpad width '0')

/-- Base two, filled up with zeros to at least `width` digits. -/
def binaryPadded (width n : Nat) : String :=
  String.ofList ((Nat.toDigits 2 n).leftpad width '0')

/-- Base ten, filled up with blanks to at least `width` places. -/
def decimalPadded (width n : Nat) : String :=
  String.ofList ((Nat.toDigits 10 n).leftpad width ' ')

/-- Why a text is not a number below the limit. -/
inductive Fault
  | empty
  | strayCharacter
  | tooLarge
  deriving DecidableEq, Repr

/-- What is said of a text that is not a number below the limit. -/
def Fault.message : Fault → String
  | .empty => "cannot parse integer from empty string"
  | .strayCharacter => "invalid digit found in string"
  | .tooLarge => "number too large to fit in target type"

/-- The value of a digit of base sixteen, whose letters may be small or capital. -/
def digitValue? (c : Char) : Option Nat :=
  if '0' ≤ c ∧ c ≤ '9' then some (c.toNat - '0'.toNat)
  else if 'a' ≤ c ∧ c ≤ 'f' then some (c.toNat - 'a'.toNat + 10)
  else if 'A' ≤ c ∧ c ≤ 'F' then some (c.toNat - 'A'.toNat + 10)
  else none

/-- The value of a digit of the given base, which is sixteen at most. -/
def digit? (base : Nat) (c : Char) : Option Nat :=
  (digitValue? c).filter (· < base)

/-- Reads digits behind a number already read. -/
def readDigits (base limit : Nat) : Nat → List Char → Except Fault Nat
  | value, [] => .ok value
  | value, c :: rest =>
    match digit? base c with
    | none => .error .strayCharacter
    | some d =>
      if base * value + d < limit then readDigits base limit (base * value + d) rest
      else .error .tooLarge

/-- Reads a number below `limit`; one plus sign may stand in front of the digits. -/
def read (base limit : Nat) (text : String) : Except Fault Nat :=
  match text.toList with
  | [] => .error .empty
  | ['+'] => .error .strayCharacter
  | '+' :: digits => readDigits base limit 0 digits
  | digits => readDigits base limit 0 digits

/-- The number of values of a machine word. -/
def wordLimit : Nat := UInt64.size

theorem digitValue?_digitChar {d : Nat} (h : d < 16) : digitValue? (Nat.digitChar d) = some d :=
  (by decide : ∀ d : Fin 16, digitValue? (Nat.digitChar d) = some d.val) ⟨d, h⟩

theorem digitValue?_toUpper_digitChar {d : Nat} (h : d < 16) :
    digitValue? (Nat.digitChar d).toUpper = some d :=
  (by decide : ∀ d : Fin 16, digitValue? (Nat.digitChar d).toUpper = some d.val) ⟨d, h⟩

theorem digit?_of_value {base d : Nat} {c : Char} (h : digitValue? c = some d) (hd : d < base) :
    digit? base c = some d := by
  simp [digit?, h, hd]

theorem readDigits_append (base limit value : Nat) (front back : List Char) :
    readDigits base limit value (front ++ back) =
      (readDigits base limit value front).bind (readDigits base limit · back) := by
  induction front generalizing value with
  | nil => rfl
  | cons c rest ih =>
    simp only [List.cons_append, readDigits]
    cases digit? base c with
    | none => rfl
    | some d =>
      simp only
      split
      · exact ih _
      · rfl

theorem readDigits_single {base limit value d : Nat} {c : Char} (hc : digit? base c = some d)
    (h : base * value + d < limit) :
    readDigits base limit value [c] = .ok (base * value + d) := by
  simp [readDigits, hc, h]

/-- The digits of a number below the limit are read back, whatever the case of its letters. -/
theorem readDigits_map_toDigits {base limit : Nat} (hb : 1 < base) {f : Char → Char}
    (hf : ∀ d < base, digit? base (f (Nat.digitChar d)) = some d) {n : Nat} (hn : n < limit) :
    readDigits base limit 0 ((Nat.toDigits base n).map f) = .ok n := by
  induction n using Nat.strongRecOn with
  | _ n ih =>
    by_cases h : n < base
    · rw [Nat.toDigits_of_lt_base h, List.map_singleton, readDigits_single (hf n h) (by omega)]
      simp
    · have hq : n / base < n := Nat.div_lt_self (by omega) hb
      have hs : base * (n / base) + n % base = n := Nat.div_add_mod n base
      rw [Nat.toDigits_of_base_le hb (by omega), List.map_append, List.map_singleton,
        readDigits_append, ih _ hq (by omega)]
      simp only [Except.bind]
      rw [readDigits_single (hf _ (Nat.mod_lt n (by omega))) (by omega), hs]

end Chip8.Numeral
