import Mathlib.Data.List.TakeWhile
import Chip8.Host.Options
import Chip8.Proofs.Numerals

/-!
# A command line may be written in any order

A command line is made of entries: the file, and options with their numbers. Each entry is read as
one item whatever stands behind it, so the items of a line are those of its entries. Taking an item
changes the setting of its own option only. So what a line sets for an option depends on nothing
but the numbers that the line gives for that option, in their order, and the order of the entries
matters no further.
-/

namespace Chip8.Host

/-! ## Options -/

/-- What a command line can set to a number. -/
inductive Parameter
  | steps
  | frameRate
  | frames
  | key
  | sticky
  deriving DecidableEq

namespace Parameter

/-- Its name behind two dashes. -/
def word : Parameter → String
  | steps => "steps"
  | frameRate => "frame-rate"
  | frames => "frames"
  | key => "key"
  | sticky => "sticky"

/-- Its name behind one dash. -/
def letter : Parameter → Char
  | steps => 's'
  | frameRate => 'f'
  | frames => 'n'
  | key => 'k'
  | sticky => 't'

/-- Keys are numbered in base sixteen, and all else in base ten. -/
def base : Parameter → Nat
  | key => 16
  | _ => 10

/-- The option that sets it. -/
def switch : Parameter → Switch
  | steps => .steps
  | frameRate => .frameRate
  | frames => .frames
  | key => .key
  | sticky => .sticky

theorem base_switch (p : Parameter) : p.switch.base = p.base := by
  cases p <;> rfl

theorem base_pos (p : Parameter) : 0 < p.base := by
  cases p <;> decide

theorem base_le (p : Parameter) : p.base ≤ 16 := by
  cases p <;> decide

theorem takesValue_switch (p : Parameter) : p.switch.takesValue = true := by
  cases p <;> rfl

theorem ofWord?_word (p : Parameter) : Switch.ofWord? p.word = some p.switch := by
  cases p <;> decide

theorem ofLetter?_letter (p : Parameter) : Switch.ofLetter? p.letter = some p.switch := by
  cases p <;> decide

theorem letter_ne_dash (p : Parameter) : p.letter ≠ '-' := by
  cases p <;> decide

/-- A word ends where an equals sign stands, so none is in it. -/
theorem forall_mem_word (p : Parameter) : ∀ c ∈ p.word.toList, (c != '=') = true := by
  have hall : p.word.toList.all (· != '=') = true := by cases p <;> decide
  exact List.all_eq_true.mp hall

/-- The reader tells whether a text spells a number. -/
instance (p : Parameter) (n : Nat) (text : String) : Decidable (Numeral.Spells p.base n text) :=
  decidable_of_iff (Numeral.read p.base (n + 1) text = .ok n) <|
    (Numeral.read_eq_ok_iff p.base_pos p.base_le n.succ_pos).trans (and_iff_left n.lt_succ_self)

end Parameter

/-- How an option is typed with its value: `--name value`, `--name=value` or `-x value`. -/
inductive Style
  | word
  | equals
  | letter

namespace Style

def arguments (p : Parameter) (value : String) : Style → List String
  | word => ["--" ++ p.word, value]
  | equals => ["--" ++ p.word ++ "=" ++ value]
  | letter => ["-" ++ p.letter.toString, value]

/-- What the option is called in this style. -/
def typed (p : Parameter) : Style → String
  | word | equals => Item.typedWord p.word.toList
  | letter => Item.typedLetter p.letter

end Style

namespace Item

theorem ofArgument_word (p : Parameter) :
    ofArgument ("--" ++ p.word) = ([], some (p.switch, typedWord p.word.toList)) := by
  have hword : p.word.toList.takeWhile (· != '=') = p.word.toList :=
    List.takeWhile_eq_self_iff.mpr p.forall_mem_word
  have hvalue : behindEquals? p.word.toList = none := by
    rw [behindEquals?, List.dropWhile_eq_nil_iff.mpr p.forall_mem_word]
  have hargument : ("--" ++ p.word).toList = '-' :: '-' :: p.word.toList := by
    rw [String.toList_append]
    rfl
  rw [ofArgument, hargument]
  simp only [hword, hvalue, ofWord, String.ofList_toList, p.ofWord?_word, p.takesValue_switch,
    if_true]

theorem ofArgument_equals (p : Parameter) (value : String) :
    ofArgument ("--" ++ p.word ++ "=" ++ value) =
      ([.option p.switch (typedWord p.word.toList) value], none) := by
  have hword : (p.word.toList ++ '=' :: value.toList).takeWhile (· != '=') = p.word.toList := by
    rw [List.takeWhile_append_of_pos p.forall_mem_word]
    simp
  have hvalue : behindEquals? (p.word.toList ++ '=' :: value.toList) = some value.toList := by
    rw [behindEquals?, List.dropWhile_append_of_pos p.forall_mem_word]
    simp
  have hargument : ("--" ++ p.word ++ "=" ++ value).toList =
      '-' :: '-' :: (p.word.toList ++ '=' :: value.toList) := by
    simp
  rw [ofArgument, hargument]
  simp only [hword, hvalue, ofWord, String.ofList_toList, p.ofWord?_word, p.takesValue_switch,
    if_true]

theorem ofArgument_letter (p : Parameter) :
    ofArgument ("-" ++ p.letter.toString) = ([], some (p.switch, typedLetter p.letter)) := by
  have hargument : ("-" ++ p.letter.toString).toList = ['-', p.letter] := by simp
  rw [ofArgument, hargument]
  split
  case h_1 word hdashes =>
    simp only [List.cons.injEq, true_and] at hdashes
    exact absurd hdashes.1 p.letter_ne_dash
  case h_2 c letters _ hletter =>
    simp only [List.cons.injEq, true_and] at hletter
    obtain ⟨rfl, rfl⟩ := hletter
    simp [ofLetters, p.ofLetter?_letter, p.takesValue_switch]
  case h_3 _ hletter => exact absurd rfl (hletter p.letter [])

theorem ofArgument_free {argument : String} (h : argument.toList.head? ≠ some '-') :
    ofArgument argument = ([.free argument], none) := by
  rw [ofArgument]
  split
  case h_1 hdash => exact absurd (by rw [hdash]; rfl) h
  case h_2 hdash => exact absurd (by rw [hdash]; rfl) h
  case h_3 => rfl

theorem ofArguments_of_alone {argument : String} {items : List Item}
    (h : ofArgument argument = (items, none)) (hne : argument ≠ "--") (rest : List String) :
    ofArguments (argument :: rest) = items ++ ofArguments rest := by
  rw [ofArguments.eq_def]
  simp only [if_neg hne, h]

theorem ofArguments_of_awaiting {argument typed : String} {switch : Switch}
    (h : ofArgument argument = ([], some (switch, typed))) (value : String) (rest : List String) :
    ofArguments (argument :: value :: rest) = .option switch typed value :: ofArguments rest := by
  -- Two dashes alone wait for nothing.
  have hne : argument ≠ "--" := by
    rintro rfl
    cases h
  rw [ofArguments.eq_def]
  simp only [if_neg hne, h, List.nil_append]

end Item

/-! ## Entries -/

/-- A part of a command line: the file, whose text must not look like an option, or an option with
a number that is spelled in its base. -/
inductive Entry
  | file (text : String) (plain : text.toList.head? ≠ some '-' := by decide)
  | option (p : Parameter) (style : Style) (number : UInt64) (text : String)
      (spells : Numeral.Spells p.base number.toNat text := by decide +kernel)

namespace Entry

/-- The arguments that the entry is typed as. -/
def arguments : Entry → List String
  | file text _ => [text]
  | option p style _ text _ => style.arguments p text

def item : Entry → Item
  | file text _ => .free text
  | option p style _ text _ => .option p.switch (style.typed p) text

def file? : Entry → Option String
  | file text _ => some text
  | option .. => none

/-- The number that the entry gives for this parameter. -/
def number? (p : Parameter) : Entry → Option Nat
  | file .. => none
  | option other _ number _ _ => if other = p then some number.toNat else none

/-- An entry is one item, whatever stands behind it. -/
theorem ofArguments_append (entry : Entry) (rest : List String) :
    Item.ofArguments (entry.arguments ++ rest) = entry.item :: Item.ofArguments rest := by
  cases entry with
  | file text plain =>
    have hread := Item.ofArgument_free plain
    have hne : text ≠ "--" := by
      rintro rfl
      exact plain rfl
    exact Item.ofArguments_of_alone hread hne rest
  | option p style number text _ =>
    cases style with
    | word => exact Item.ofArguments_of_awaiting (Item.ofArgument_word p) text rest
    | equals =>
      have hread := Item.ofArgument_equals p text
      have hne : "--" ++ p.word ++ "=" ++ text ≠ "--" := by
        intro he
        rw [he] at hread
        cases hread
      exact Item.ofArguments_of_alone hread hne rest
    | letter => exact Item.ofArguments_of_awaiting (Item.ofArgument_letter p) text rest

theorem ofArguments_flatMap (line : List Entry) :
    Item.ofArguments (line.flatMap arguments) = line.map item := by
  induction line with
  | nil => rfl
  | cons entry rest ih => rw [List.flatMap_cons, ofArguments_append, ih, List.map_cons]

end Entry

/-! ## Settings -/

namespace Settings

/-- The settings with the numbers given for each parameter. Of several the last one counts, but
keys add up. -/
def given (s : Settings) (numbers : Parameter → List Nat) : Settings where
  file := s.file
  help := s.help
  steps := (numbers .steps).getLast?.getD s.steps
  frameRate := (numbers .frameRate).getLast?.getD s.frameRate
  frames := (numbers .frames).getLast?.or s.frames
  keys := s.keys ++ numbers .key
  sticky := (numbers .sticky).getLast?.getD s.sticky

theorem given_none (s : Settings) : s.given (fun _ => []) = s := by
  simp [given]

theorem given_set (s : Settings) (p : Parameter) (number : Nat) (numbers : Parameter → List Nat) :
    (s.set number p.switch).given numbers =
      s.given fun other => if p = other then number :: numbers other else numbers other := by
  cases p <;> simp [given, set, Parameter.switch, List.getLast?_cons]

namespace Draft

/-- An option with a number that is spelled in its base is never refused. -/
theorem take_option (d : Draft) {p : Parameter} {number : UInt64} {text : String}
    (h : Numeral.Spells p.base number.toNat text) (typed : String) :
    d.take (.option p.switch typed text) =
      .ok { d with settings := d.settings.set number.toNat p.switch } := by
  have hread : Numeral.read p.base Numeral.wordLimit text = .ok number.toNat :=
    (Numeral.read_eq_ok_iff p.base_pos p.base_le (by decide)).mpr ⟨h, number.toNat_lt⟩
  rw [take, p.base_switch, hread]

/-- What a line of entries sets, starting from a draft. A second file is not taken.

The induction is over the line for every draft, which carries the file and the numbers so far. -/
theorem foldlM_take (d : Draft) (line : List Entry) :
    (line.map Entry.item).foldlM take d =
      match d.file.toList ++ line.filterMap Entry.file? with
      | _ :: extra :: _ => .error (.extraArgument extra)
      | files => .ok ⟨d.settings.given fun p => line.filterMap (Entry.number? p), files.head?⟩ := by
  induction line generalizing d with
  | nil =>
    obtain ⟨settings, _ | file⟩ := d <;>
    · simp only [List.filterMap_nil, given_none]
      rfl
  | cons entry rest ih =>
    rw [List.map_cons, List.foldlM_cons]
    cases entry with
    | file text plain =>
      obtain ⟨settings, _ | file⟩ := d
      · exact ih ⟨settings, some text⟩
      · rfl
    | option p style number text spells =>
      have hnumbers : (fun other => (Entry.option p style number text spells
          :: rest).filterMap (Entry.number? other)) = fun other =>
            if p = other then number.toNat :: rest.filterMap (Entry.number? other)
            else rest.filterMap (Entry.number? other) := by
        funext other
        by_cases h : p = other <;> simp [Entry.number?, h]
      rw [hnumbers, ← given_set, Entry.item, d.take_option spells]
      exact ih { d with settings := d.settings.set number.toNat p.switch }

end Draft

/-- The settings of a line are those that its file and the numbers of each parameter make. -/
theorem ofArguments_line (line : List Entry) :
    ofArguments (line.flatMap Entry.arguments) =
      match line.filterMap Entry.file? with
      | [] => .error .missingFile
      | [file] =>
        .ok { initial.given fun p => line.filterMap (Entry.number? p) with file := file }
      | _ :: extra :: _ => .error (.extraArgument extra) := by
  rw [ofArguments, Entry.ofArguments_flatMap, Draft.foldlM_take]
  obtain _ | ⟨file, _ | ⟨extra, rest⟩⟩ := line.filterMap Entry.file? <;> rfl

end Settings

/-- What a user may want of the host. -/
structure Wishes where
  file : Option String
  steps : Option Nat
  frameRate : Option Nat
  frames : Option Nat
  keys : List Nat
  sticky : Option Nat

namespace Wishes

/-- The numbers wanted for a parameter. -/
def numbers (w : Wishes) : Parameter → List Nat
  | .steps => w.steps.toList
  | .frameRate => w.frameRate.toList
  | .frames => w.frames.toList
  | .key => w.keys
  | .sticky => w.sticky.toList

/-- The line names each thing that is wanted once and the keys in their order, and nothing else. -/
structure WrittenAs (w : Wishes) (line : List Entry) : Prop where
  file : line.filterMap Entry.file? = w.file.toList
  numbers (p : Parameter) : line.filterMap (Entry.number? p) = w.numbers p

/-- **A command line gives what is wanted back**, in whatever order and style its entries are
typed. What is left out is ten steps in a frame, sixty frames in a second, no limit on the frames
and fifteen frames for a typed key. A line without a file is refused. -/
theorem ofArguments_of_writtenAs {w : Wishes} {line : List Entry} (h : w.WrittenAs line) :
    Settings.ofArguments (line.flatMap Entry.arguments) =
      match w.file with
      | none => .error .missingFile
      | some file => .ok
        { file := file
          help := false
          steps := w.steps.getD 10
          frameRate := w.frameRate.getD 60
          frames := w.frames
          keys := w.keys
          sticky := w.sticky.getD 15 } := by
  have hnumbers : (fun p => line.filterMap (Entry.number? p)) = w.numbers := funext h.numbers
  have hlast (o : Option Nat) : o.toList.getLast? = o := by cases o <;> rfl
  rw [Settings.ofArguments_line, h.file, hnumbers]
  cases w.file with
  | none => rfl
  | some file => simp [Settings.given, Settings.initial, numbers, hlast]

/-- Keys in both cases, the largest word with a sign and a zero in front, a file with an equals
sign in the middle, and no frame rate. -/
theorem ofArguments_of_writtenAs_in_mixed_styles :
    let w : Wishes :=
      ⟨some "a=b.ch8", some 0xffffffffffffffff, none, some 0, [0xab, 0xf, 0], some 4⟩
    let line : List Entry :=
      [.option .key .equals 0xab "aB", .option .frames .letter 0 "0", .option .key .word 0xf "F",
       .file "a=b.ch8", .option .steps .word 0xffffffffffffffff "+018446744073709551615",
       .option .key .letter 0 "0", .option .sticky .equals 4 "4"]
    w.WrittenAs line ∧
    Settings.ofArguments ["--key=aB", "-n", "0", "--key", "F", "a=b.ch8", "--steps",
      "+018446744073709551615", "-k", "0", "--sticky=4"] =
      .ok ⟨"a=b.ch8", false, 0xffffffffffffffff, 60, some 0, [0xab, 0xf, 0], 4⟩ := by
  intro w line
  have hline : w.WrittenAs line := ⟨rfl, fun p => by cases p <;> decide +kernel⟩
  exact ⟨hline, ofArguments_of_writtenAs hline⟩

end Wishes

end Chip8.Host
