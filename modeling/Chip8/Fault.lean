import Chip8.Text.Labelled

/-!
# What can go wrong

A fault is the cause of a refused operation, with the numbers that its message
needs. The machine raises the first three while it runs; the next three refuse a
request of the host; the last one says why a program file could not be read.
-/

namespace Chip8

/-- The broad reasons for which a file cannot be read. -/
inductive FileProblem
  | notFound
  | permissionDenied
  | unexpectedEnd
  | invalidData
  deriving DecidableEq, Repr

namespace FileProblem

/-- The problem said of a file without more detail. -/
def message : FileProblem → String
  | notFound => "entity not found"
  | permissionDenied => "permission denied"
  | unexpectedEnd => "unexpected end of file"
  | invalidData => "invalid data"

def label : FileProblem → String
  | notFound => "NotFound"
  | permissionDenied => "PermissionDenied"
  | unexpectedEnd => "UnexpectedEof"
  | invalidData => "InvalidData"

end FileProblem

/-- What the operating system answers when a path leads to no readable file. -/
inductive PathProblem
  | missing
  | throughFile
  | directory
  | tooLong
  | tooManyLinks
  deriving DecidableEq, Repr

namespace PathProblem

/-- The system's number for the problem. -/
def code : PathProblem → Nat
  | missing => 2
  | throughFile => 20
  | directory => 21
  | tooLong => 36
  | tooManyLinks => 40

def ofCode? (code : Nat) : Option PathProblem :=
  [missing, throughFile, directory, tooLong, tooManyLinks].find? fun p => p.code == code

def label : PathProblem → String
  | missing => "NotFound"
  | throughFile => "NotADirectory"
  | directory => "IsADirectory"
  | tooLong => "InvalidFilename"
  | tooManyLinks => "FilesystemLoop"

/-- The system's words for the problem. -/
def words : PathProblem → String
  | missing => "No such file or directory"
  | throughFile => "Not a directory"
  | directory => "Is a directory"
  | tooLong => "File name too long"
  | tooManyLinks => "Too many levels of symbolic links"

end PathProblem

/-- Why a file could not be read. -/
inductive FileFault
  | path (problem : PathProblem)
  /-- No file can have that name, so the system is not even asked. -/
  | unnameable
  | plain (problem : FileProblem)
  | explained (problem : FileProblem) (text : String)
  deriving DecidableEq, Repr

namespace FileFault

/-- What is said of a name that no file can have. -/
def unnameableWords : String :=
  "file name contained an unexpected NUL byte"

def message : FileFault → String
  | path problem => problem.words ++ " (os error " ++ Numeral.decimal problem.code ++ ")"
  | unnameable => unnameableWords
  | plain problem => problem.message
  | explained _ text => text

def labelled : FileFault → String
  | path problem => Text.labelled "Os"
      [("code", Numeral.decimal problem.code), ("kind", problem.label),
       ("message", Text.quoted problem.words)]
  | unnameable => Text.labelled "Error"
      [("kind", "InvalidInput"), ("message", Text.quoted unnameableWords)]
  | plain problem => Text.wrapped "Kind" problem.label
  | explained problem text => Text.labelled "Custom"
      [("kind", problem.label), ("error", Text.quoted text)]

end FileFault

/-- The cause of a refused operation. -/
inductive Fault
  | stackOverflow
  | stackUnderflow
  | unknownOpcode (word : UInt16)
  | invalidKey (key : Nat)
  | invalidRegister (register : Nat)
  | programTooLarge (length capacity : Nat)
  | unreadable (cause : FileFault)
  deriving DecidableEq, Repr

namespace Fault

def label : Fault → String
  | stackOverflow => "StackOverflow"
  | stackUnderflow => "StackUnderflow"
  | unknownOpcode _ => "UnknownOpcode"
  | invalidKey _ => "InvalidKey"
  | invalidRegister _ => "InvalidRegister"
  | programTooLarge _ _ => "ProgramTooLarge"
  | unreadable _ => "IoError"

def message : Fault → String
  | stackOverflow => "stack overflow: all 16 return addresses are in use"
  | stackUnderflow => "stack underflow: returned with no return address on the stack"
  | unknownOpcode word => "opcode " ++ Numeral.hexPadded 4 word.toNat ++ " not recognized"
  | invalidKey key => "tried to press key " ++ Numeral.hexCapital key ++ " which does not exist"
  | invalidRegister register =>
      "tried to access register v" ++ Numeral.hexCapital register ++ " which does not exist"
  | programTooLarge length capacity =>
      "program is " ++ Numeral.decimal length ++ " bytes, but only "
        ++ Numeral.decimal capacity ++ " bytes of program memory exist"
  | unreadable cause => cause.message

def labelled (fault : Fault) : String :=
  match fault with
  | stackOverflow | stackUnderflow => fault.label
  | unknownOpcode word => Text.labelled fault.label [("word", Numeral.decimal word.toNat)]
  | invalidKey key => Text.labelled fault.label [("key", Numeral.decimal key)]
  | invalidRegister register => Text.labelled fault.label [("reg", Numeral.decimal register)]
  | programTooLarge length capacity => Text.labelled fault.label
      [("len", Numeral.decimal length), ("max", Numeral.decimal capacity)]
  | unreadable cause => Text.wrapped fault.label cause.labelled

end Fault

end Chip8
