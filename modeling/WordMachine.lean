import WordMachine.CommandLine.Desk
import WordMachine.Debugger.Screen
import WordMachine.Main
import WordMachine.Memory.Lemmas
import WordMachine.Memory.Probe
import WordMachine.Proofs.Lockstep
import WordMachine.Proofs.Guarded
import WordMachine.Proofs.Bus.Guarded
import WordMachine.Proofs.Bus.Lockstep
import WordMachine.Proofs.Bus.Tap
import WordMachine.Proofs.Bus.Windows
import WordMachine.Proofs.Bus.Registry
import WordMachine.Proofs.Memory.Access
import WordMachine.Proofs.Memory.History
import WordMachine.Proofs.Memory.Tap
import WordMachine.Proofs.Bus.Attachment
import WordMachine.Proofs.Processor.Fault
import WordMachine.Proofs.Processor.Width
import WordMachine.Proofs.Processor.Direct
import WordMachine.Proofs.Processor.Meaning
import WordMachine.Proofs.Computer.Operation
import WordMachine.Proofs.Computer.Wiring
import WordMachine.Proofs.Computer.Reachable
import WordMachine.Proofs.Computer.Lag
import WordMachine.Proofs.Computer.Stepping
import WordMachine.Proofs.Computer.Sync
import WordMachine.Proofs.Computer.Dirty
import WordMachine.Proofs.Text.Cuts
import WordMachine.Proofs.Assembly.Denotation
import WordMachine.Proofs.Assembly.Value
import WordMachine.Proofs.Assembly.Grammar
import WordMachine.Proofs.Assembly.Operand
import WordMachine.Proofs.Assembly.Layout
import WordMachine.Proofs.Assembly.Execution
import WordMachine.Proofs.Text.Numeral
import WordMachine.Proofs.Assembly.Program
import WordMachine.Proofs.Disassembly.Operand
import WordMachine.Proofs.Assembly.Line
import WordMachine.Proofs.Disassembly.RoundTrip
import WordMachine.Proofs.Computer.Schedule
import WordMachine.Proofs.Computer.Guarded
import WordMachine.Proofs.Debugger.Stepping
import WordMachine.Proofs.Debugger.Breakpoint
import WordMachine.Proofs.FrontEnds
import WordMachine.Proofs.Processor.Interrupts
import WordMachine.Proofs.Bus.Interrupts
import WordMachine.Proofs.Disassembly.Walk
import WordMachine.Proofs.Disassembly.Injective
import WordMachine.Proofs.CommandLine.Trace
import WordMachine.Proofs.Device.Keyboard
import WordMachine.Proofs.Bus.Line
import WordMachine.Proofs.Bus.Keyboard
import WordMachine.Proofs.Device.Clock
import WordMachine.Proofs.Bus.Clock
import WordMachine.Proofs.Processor.Refusal
import WordMachine.Proofs.Computer.Stuck
import WordMachine.Proofs.Bus.Traffic
import WordMachine.Proofs.Computer.Idle
import WordMachine.Proofs.Computer.Traffic
import WordMachine.Proofs.Processor.Accesses
import WordMachine.Proofs.CommandLine.Assembled
import WordMachine.Proofs.Processor.Arithmetic
import WordMachine.Proofs.Processor.Frame
import WordMachine.Proofs.Computer.Building
import WordMachine.Proofs.Computer.Loading
import WordMachine.Proofs.Processor.Stack
import WordMachine.Proofs.Disassembly.Acceptance
import WordMachine.Proofs.Text.Digits
import WordMachine.Proofs.Assembly.Number
import WordMachine.Proofs.Text.Neutral
import WordMachine.Proofs.Assembly.Outline
import WordMachine.Proofs.Assembly.Reference
import WordMachine.Proofs.Assembly.Neutral
import WordMachine.Proofs.Assembly.Spacing
import WordMachine.Proofs.Assembly.LetterCase
import WordMachine.Proofs.Image.Grammar
import WordMachine.Proofs.Disassembly.Listing
import WordMachine.Proofs.Debugger.Typing
import WordMachine.Proofs.Debugger.MemoryView
import WordMachine.Proofs.Debugger.StatusLine
import WordMachine.Proofs.Bus.Tenure
import WordMachine.Proofs.Config.RoundTrip
