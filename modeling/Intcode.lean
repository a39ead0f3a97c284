import Intcode.Assembly.Listing
import Intcode.Assembly.Source
import Intcode.Assembly.Statement
import Intcode.Assembly.Token
import Intcode.Command.Arguments
import Intcode.Command.FileTree
import Intcode.Command.Input
import Intcode.Command.Invocation
import Intcode.Command.Log
import Intcode.Command.Output
import Intcode.Command.Path
import Intcode.Command.Session
import Intcode.Command.Usage
import Intcode.Instruction.Basic
import Intcode.Instruction.Error
import Intcode.Instruction.Mode
import Intcode.Instruction.Opcode
import Intcode.Iteration
import Intcode.Machine.Basic
import Intcode.Machine.Effect
import Intcode.Machine.Error
import Intcode.Machine.Operand
import Intcode.Machine.Run
import Intcode.Machine.Step
import Intcode.Memory
import Intcode.Program
import Intcode.Ring
import Intcode.Text.Blank
import Intcode.Text.Numeral
import Intcode.Text.Quoted
import Intcode.Text.Terminal
import Intcode.Text.Unprintable
import Intcode.Text.Uppercase
import Intcode.Word
import Intcode.Main
import Intcode.Proofs.Numeral
import Intcode.Proofs.NumeralGrammar
import Intcode.Proofs.Statement
import Intcode.Proofs.RoundTrip
import Intcode.Proofs.Delivery
import Intcode.Proofs.Ideal
import Intcode.Proofs.Progress
import Intcode.Proofs.Simulation
import Intcode.Proofs.Interleaving
import Intcode.Proofs.Rounds
import Intcode.Proofs.Execution
import Intcode.Proofs.Extent
import Intcode.Proofs.Traffic
import Intcode.Proofs.Status
import Intcode.Proofs.Agreement
import Intcode.Proofs.Stream
import Intcode.Proofs.Session
import Intcode.Proofs.Invocation
import Intcode.Proofs.RunCommand
import Intcode.Proofs.Layout
import Intcode.Proofs.Overwrite
import Intcode.Proofs.ExitCode
import Intcode.Proofs.CanonicalLine
import Intcode.Proofs.Encoding
import Intcode.Proofs.Listing
import Intcode.Proofs.ProgramText
import Intcode.Proofs.ProgramGrammar
import Intcode.Proofs.Composition
import Intcode.Proofs.Causes
import Intcode.Proofs.Failure
import Intcode.Proofs.History
import Intcode.Proofs.Consumption
import Intcode.Proofs.Spelling
import Intcode.Proofs.Concatenation
import Intcode.Proofs.Wording
import Intcode.Proofs.Overrides
import Intcode.Proofs.Truncation
import Intcode.Proofs.FileEffects
import Intcode.Proofs.Trace
import Intcode.Proofs.LineGrammar
import Intcode.Proofs.Confinement
import Intcode.Proofs.OperandNumeral
import Intcode.Proofs.Verbosity
