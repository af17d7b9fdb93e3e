import Chip8.Archive
import Chip8.CommandLine
import Chip8.Dump.Inspection
import Chip8.FileTree
import Chip8.Main
import Chip8.Proofs.Encoding
import Chip8.Proofs.Cycle
import Chip8.Proofs.Failure
import Chip8.Proofs.Footprint
import Chip8.Proofs.Run
import Chip8.Proofs.Presentation
import Chip8.Proofs.CallStack
import Chip8.Proofs.KeyWait
import Chip8.Proofs.Effects
import Chip8.Proofs.Checked
import Chip8.Proofs.Dialects
import Chip8.Proofs.MemoryTable
import Chip8.Proofs.Dump
import Chip8.Proofs.History
import Chip8.Proofs.Countdown
import Chip8.Proofs.RandomStream
import Chip8.Proofs.Drawing
import Chip8.Proofs.Headless
import Chip8.Proofs.Redrawing
import Chip8.Proofs.Arithmetic
import Chip8.Proofs.Continuation
import Chip8.Proofs.Language
import Chip8.Proofs.Transfer
import Chip8.Proofs.Access
import Chip8.Proofs.Frame
import Chip8.Proofs.Trace
import Chip8.Proofs.Folding
import Chip8.Proofs.Loading
import Chip8.Proofs.Parity
import Chip8.Proofs.KeyChanges
