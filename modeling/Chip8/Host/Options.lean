import Chip8.Numeral

/-!
# The command line

A command line is a list of arguments in which options and the one free argument,
the program's file, may come in any order. It is read in two passes. The first
looks only at the shape of the arguments and turns them into items: free
arguments, switches, and options with the text of their value. The second goes
through the items and fills in the settings. Both go from left to right, so the
first fault in the order of the arguments is the one that is reported.
-/

namespace Chip8.Host

inductive Switch
  | help
  | steps
  | frameRate
  | frames
  | key
  | sticky
  deriving DecidableEq, Repr

namespace Switch

/-- The options in the order in which they are explained. -/
def all : List Switch :=
  [help, steps, frameRate, frames, key, sticky]

/-- The letter that names the option behind one dash. -/
def letter : Switch → Char
  | help => 'h'
  | steps => 's'
  | frameRate => 'f'
  | frames => 'n'
  | key => 'k'
  | sticky => 't'

/-- The word that names the option behind two dashes. -/
def word : Switch → String
  | help => "help"
  | steps => "steps"
  | frameRate => "frame-rate"
  | frames => "frames"
  | key => "key"
  | sticky => "sticky"

/-- What the value is called, if the option takes one. -/
def value? : Switch → Option String
  | help => none
  | steps => some "STEPS"
  | frameRate => some "FR"
  | frames => some "FRAMES"
  | key => some "KEY"
  | sticky => some "FRAMES"

def takesValue (switch : Switch) : Bool :=
  switch.value?.isSome

/-- The value that holds if the option is not given. -/
def default? : Switch → Option Nat
  | steps => some 10
  | frameRate => some 60
  | sticky => some 15
  | help | frames | key => none

def explanation : Switch → String
  | help => "Print this help message."
  | steps => "Set the instructions-per-frame rate."
  | frameRate => "Set the target framerate."
  | frames => "Stop after this many frames."
  | key => "Hold a key (0-F) down for the whole run."
  | sticky => "Release a typed key after this many frames."

/-- The base in which the value is written. -/
def base : Switch → Nat
  | key => 16
  | _ => 10

def ofLetter? (c : Char) : Option Switch :=
  all.find? (·.letter == c)

def ofWord? (word : String) : Option Switch :=
  all.find? (·.word == word)

end Switch

/-- What is wrong with a command line. The options are named as they were typed. -/
inductive Misuse
  | missingFile
  | extraArgument (argument : String)
  | unknownOption (typed : String)
  | missingValue (typed : String)
  | needlessValue (typed : String)
  | badValue (typed : String) (cause : Numeral.Fault)
  deriving DecidableEq, Repr

namespace Misuse

/-- A text between the marks that set off what the user typed. -/
def marked (text : String) : String :=
  "`" ++ text ++ "`"

def message : Misuse → String
  | missingFile => "missing required free argument"
  | extraArgument argument => "unexpected free argument " ++ marked argument
  | unknownOption typed => "unrecognized option " ++ marked typed
  | missingValue typed => "missing argument to option " ++ marked typed
  | needlessValue typed => "option " ++ marked typed ++ " does not accept an argument"
  | badValue typed cause =>
      "invalid argument to option " ++ marked typed ++ ": " ++ cause.message

end Misuse

/-- An argument, or an option with its value. -/
inductive Item
  | free (argument : String)
  | help
  | option (switch : Switch) (typed value : String)
  | misused (fault : Misuse)
  deriving DecidableEq, Repr

namespace Item

/-- How an option named by a letter is typed. -/
def typedLetter (c : Char) : String :=
  String.ofList ['-', c]

/-- How an option named by a word is typed. -/
def typedWord (word : List Char) : String :=
  String.ofList ('-' :: '-' :: word)

/-- The switches of a group of letters; the first that takes a value ends the group. -/
def ofLetters : List Char → List Item × Option (Switch × String)
  | [] => ([], none)
  | c :: rest =>
    match Switch.ofLetter? c with
    | none => ([.misused (.unknownOption (typedLetter c))], none)
    | some switch =>
      if switch.takesValue then
        if rest.isEmpty then ([], some (switch, typedLetter c))
        else ([.option switch (typedLetter c) (String.ofList rest)], none)
      else
        let (items, pending) := ofLetters rest
        (.help :: items, pending)

/-- An option named by a word, with the value behind its equals sign if it has one. -/
def ofWord (word : List Char) (value : Option (List Char)) :
    List Item × Option (Switch × String) :=
  match Switch.ofWord? (String.ofList word), value with
  | none, _ => ([.misused (.unknownOption (typedWord word))], none)
  | some switch, some value =>
    if switch.takesValue then ([.option switch (typedWord word) (String.ofList value)], none)
    else ([.misused (.needlessValue (typedWord word))], none)
  | some switch, none =>
    if switch.takesValue then ([], some (switch, typedWord word)) else ([.help], none)

/-- The characters behind the first equals sign, if there is one. -/
def behindEquals? (characters : List Char) : Option (List Char) :=
  match characters.dropWhile (· != '=') with
  | [] => none
  | _ :: value => some value

/-- The items of one argument, and the option that takes the next argument as its value. -/
def ofArgument (argument : String) : List Item × Option (Switch × String) :=
  match argument.toList with
  | '-' :: '-' :: word => ofWord (word.takeWhile (· != '=')) (behindEquals? word)
  | '-' :: c :: letters => ofLetters (c :: letters)
  | _ => ([.free argument], none)

/-- The items of a command line; behind two dashes alone every argument is free. -/
def ofArguments : List String → List Item
  | [] => []
  | argument :: rest =>
    if argument = "--" then rest.map .free
    else
      match ofArgument argument, rest with
      | (items, none), rest => items ++ ofArguments rest
      | (items, some (_, typed)), [] => items ++ [.misused (.missingValue typed)]
      | (items, some (switch, typed)), value :: rest =>
        items ++ .option switch typed value :: ofArguments rest

end Item

/-- What the host is to do. -/
structure Settings where
  file : String
  help : Bool
  steps : Nat
  frameRate : Nat
  frames : Option Nat
  keys : List Nat
  sticky : Nat
  deriving DecidableEq, Repr

namespace Settings

/-- What the host does unless it is told otherwise. -/
def initial : Settings where
  file := ""
  help := false
  steps := 10
  frameRate := 60
  frames := none
  keys := []
  sticky := 15

/-- Puts in the value of an option. A later value replaces an earlier one, but keys add up. -/
def set (s : Settings) (value : Nat) : Switch → Settings
  | .help => { s with help := true }
  | .steps => { s with steps := value }
  | .frameRate => { s with frameRate := value }
  | .frames => { s with frames := some value }
  | .key => { s with keys := s.keys ++ [value] }
  | .sticky => { s with sticky := value }

end Settings

/-- The settings so far, and the file if it was given. -/
structure Settings.Draft where
  settings : Settings
  file : Option String
  deriving DecidableEq, Repr

namespace Settings.Draft

/-- Before the first item. -/
def initial : Draft := ⟨.initial, none⟩

def take (d : Draft) : Item → Except Misuse Draft
  | .free argument =>
    match d.file with
    | none => .ok { d with file := some argument }
    | some _ => .error (.extraArgument argument)
  | .help => .ok { d with settings := { d.settings with help := true } }
  | .option switch typed value =>
    match Numeral.read switch.base Numeral.wordLimit value with
    | .ok number => .ok { d with settings := d.settings.set number switch }
    | .error cause => .error (.badValue typed cause)
  | .misused fault => .error fault

/-- The settings, in which the file may be left out only if help is asked for. -/
def finish (d : Draft) : Except Misuse Settings :=
  match d.file with
  | some file => .ok { d.settings with file := file }
  | none => if d.settings.help then .ok d.settings else .error .missingFile

end Settings.Draft

/-- The settings that a command line asks for. -/
def Settings.ofArguments (arguments : List String) : Except Misuse Settings :=
  ((Item.ofArguments arguments).foldlM Draft.take Draft.initial).bind Draft.finish

namespace Usage

/-- Where the explanations begin. -/
def column : Nat := 23

def row (name explanation : String) : String :=
  String.ofList (name.toList.rightpad column ' ') ++ explanation

def optionRow (switch : Switch) : String :=
  row
    ("  " ++ Item.typedLetter switch.letter ++ ", " ++ Item.typedWord switch.word.toList
      ++ (match switch.value? with
          | some value => " " ++ value
          | none => ""))
    (switch.explanation
      ++ (match switch.default? with
          | some number => " (default: " ++ Numeral.decimal number ++ ")"
          | none => ""))

def text : String :=
  String.intercalate "\n"
    (["Positional arguments:", row "  file" "Load a ROM to run on Chimp.", "",
      "Optional arguments:"]
      ++ Switch.all.map optionRow)

end Usage

end Chip8.Host
