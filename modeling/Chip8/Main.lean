import Chip8.Host.Session
import Chip8.Machine.Report
import Chip8.Noise
import Chip8.Speaker

/-!
# Running a program in the terminal

The command line is read, the program is loaded, and frames are run until they
are used up or the program faults. After each frame the new orders and the beeps
are sent to the terminal. A plain output has no key events, so the program sees
the keys that are held for the whole run.
-/

namespace Chip8.Host

/-- The cause of a file that could not be read. Some numbers of the system come negated. -/
def causeOf (error : IO.Error) : FileFault :=
  let explained := FileFault.explained .invalidData (toString error)
  match error with
  | .noFileOrDirectory _ _ _ => .path .missing
  | .permissionDenied _ _ _ => .plain .permissionDenied
  | .inappropriateType _ code _ | .invalidArgument _ code _ =>
    ((PathProblem.ofCode? code.toInt32.toInt.natAbs).map FileFault.path).getD explained
  | _ => explained

def readProgram (path : String) : IO (Except FileFault (List UInt8)) := do
  try
    return .ok (← IO.FS.readBinFile path).toList
  catch error => return .error (causeOf error)

/-- Runs frames to the end, and answers with what went wrong and the machine at that point. -/
partial def runFrames (seed : UInt64) (session : Session) :
    IO (Option Fault × Machine Screen) := do
  let beeps := session.machine.beeps
  let (session, frame) := session.next (Noise.stream seed session.machine.cycle)
  let (text, display) := session.display.flush
  IO.print text
  (← IO.getStdout).flush
  IO.eprint (Speaker.bell.output (session.machine.beeps - beeps))
  match frame with
  | none => return (none, session.machine)
  | some (.error fault) => return (some fault, session.machine)
  | some (.ok ()) =>
    IO.sleep (UInt32.ofNat (1000 / session.rate))
    runFrames seed { session with display := display }

def run (settings : Settings) : IO UInt32 := do
  match Session.start settings (← readProgram settings.file) with
  | .error fault =>
    IO.eprintln fault.message
    return 1
  | .ok session =>
    let (opening, display) := session.display.enter.flush
    IO.print opening
    let seed := UInt64.ofNat (← IO.monoNanosNow)
    let (fault?, machine) ← runFrames seed { session with display := display }
    IO.print display.leave.output
    match fault? with
    | none => return 0
    | some fault =>
      IO.eprintln fault.message
      IO.eprint machine.report
      return 1

end Chip8.Host

open Chip8.Host in
/-- Reads the command line and runs the host. -/
def main (arguments : List String) : IO UInt32 := do
  match Settings.ofArguments arguments with
  | .error misuse =>
    IO.eprintln misuse.message
    return 2
  | .ok settings =>
    if settings.help then
      IO.println Usage.text
      return 0
    run settings
