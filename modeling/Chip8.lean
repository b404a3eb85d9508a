import Chip8.Archive
import Chip8.Main
import Chip8.Machine.Command
import Chip8.Machine.Report
import Chip8.Noise
import Chip8.Plane
import Chip8.Screen.Drawing
import Chip8.Shared
import Chip8.Speaker
import Chip8.Proofs.Execution
import Chip8.Proofs.Faults
import Chip8.Proofs.Simulation
import Chip8.Proofs.Addresses
import Chip8.Proofs.Calls
import Chip8.Proofs.Decoding
import Chip8.Proofs.WellFormed
import Chip8.Proofs.Checked
import Chip8.Proofs.Safety
import Chip8.Proofs.Trace
import Chip8.Proofs.Edgeless
import Chip8.Proofs.Redraw
import Chip8.Proofs.Restart
import Chip8.Proofs.Timers
import Chip8.Proofs.Waiting
import Chip8.Proofs.Frames
import Chip8.Proofs.Latch
import Chip8.Proofs.Timeout
import Chip8.Proofs.Delivery
import Chip8.Proofs.FrameLoop
import Chip8.Proofs.Patterns
import Chip8.Proofs.Terminal
import Chip8.Proofs.Showing
import Chip8.Proofs.Serial
import Chip8.Proofs.Footprint
import Chip8.Proofs.Compositing
import Chip8.Proofs.Parity
import Chip8.Proofs.Stores
import Chip8.Proofs.Bounded
import Chip8.Proofs.Pixels
import Chip8.Proofs.Collision
import Chip8.Proofs.Json.Lexing
import Chip8.Proofs.Archiving
import Chip8.Proofs.Restored
import Chip8.Proofs.Arithmetic
import Chip8.Proofs.KeyEvents
import Chip8.Proofs.Renderings
import Chip8.Proofs.Transfers
import Chip8.Proofs.StepCount
import Chip8.Proofs.Countdown
import Chip8.Proofs.Disassembly
import Chip8.Proofs.Presentation
import Chip8.Proofs.Numerals
import Chip8.Proofs.CommandLine
