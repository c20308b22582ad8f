import Chip8.Checked
import Chip8.Text.Hex
import Chip8.Text.Separated
import Chip8.Pacing
import Chip8.Value
import Chip8.Fault
import Chip8.Glyphs
import Chip8.Memory
import Chip8.Screen
import Chip8.Keypad
import Chip8.Timers
import Chip8.Random
import Chip8.Random.Lcg
import Chip8.Random.Tape
import Chip8.CallStack
import Chip8.Registers
import Chip8.Instruction
import Chip8.Instruction.Decode
import Chip8.Instruction.Assembly
import Chip8.Log
import Chip8.Machine
import Chip8.Machine.Execute
import Chip8.Machine.Operation
import Chip8.Machine.Run
import Chip8.Probe
import Chip8.Console
import Chip8.Console.Operation
import Chip8.Screen.Cells
import Chip8.Proofs.SpritePlot
import Chip8.Proofs.Coverage
import Chip8.Proofs.DrawOrder
import Chip8.Proofs.LitPixels
import Chip8.Proofs.SpriteHalves
import Chip8.Memory.Cells
import Chip8.Memory.Blocks
import Chip8.Proofs.CallStack
import Chip8.Proofs.Effect
import Chip8.Proofs.FaultLaw
import Chip8.Proofs.Footprint
import Chip8.Proofs.Arithmetic
import Chip8.Proofs.History
import Chip8.Proofs.SpriteDraw
import Chip8.Proofs.CrashFreedom
import Chip8.Proofs.GlyphTable
import Chip8.Proofs.AddressWidth
import Chip8.Proofs.Subroutines
import Chip8.Proofs.Frames
import Chip8.Proofs.RandomDraws
import Chip8.Proofs.FullPeriod
import Chip8.Proofs.ConsoleView
import Chip8.Proofs.Lockstep
import Chip8.Proofs.Unroll
import Chip8.Proofs.Replay
import Chip8.Proofs.SeedBytes
import Chip8.Proofs.TimerBlindness
import Chip8.Proofs.ConsoleHistory
import Chip8.Proofs.Counters
import Chip8.Proofs.TimerPace
import Chip8.Proofs.Successor
import Chip8.Proofs.KeyWait
import Chip8.Proofs.Loading
import Chip8.Proofs.RegisterBlocks
import Chip8.Proofs.Interchange
import Chip8.Proofs.ValueText
import Chip8.Proofs.AssemblyText
import Chip8.Proofs.Observation
import Chip8.Proofs.KeyHistory
import Chip8.Proofs.Picture
import Chip8.Proofs.WordStream
import Chip8.Proofs.FaultText
import Chip8.Proofs.LogAccount
