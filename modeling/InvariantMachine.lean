import InvariantMachine.Assembly.Encode
import InvariantMachine.Assembly.Lexeme
import InvariantMachine.Assembly.Literal
import InvariantMachine.Assembly.Token
import InvariantMachine.Assembly.Tokenize
import InvariantMachine.Bytes.LittleEndian
import InvariantMachine.Bytes.LittleEndianRange
import InvariantMachine.Bytes.Reader
import InvariantMachine.Code.Agreement
import InvariantMachine.Code.Capacity
import InvariantMachine.Code.Document
import InvariantMachine.Code.DocumentReading
import InvariantMachine.Code.Image
import InvariantMachine.Code.Instruction
import InvariantMachine.Code.Listing
import InvariantMachine.Code.Opcode
import InvariantMachine.Code.Operand
import InvariantMachine.Code.Program
import InvariantMachine.Code.Stored
import InvariantMachine.Code.StringPool
import InvariantMachine.Json.Numeral
import InvariantMachine.Json.Quoted
import InvariantMachine.Json.Reader
import InvariantMachine.Json.Writer
import InvariantMachine.Machine.Config
import InvariantMachine.Machine.Document
import InvariantMachine.Machine.DocumentReading
import InvariantMachine.Machine.Execute
import InvariantMachine.Machine.Memory
import InvariantMachine.Machine.Run
import InvariantMachine.Machine.Stack
import InvariantMachine.Machine.State
import InvariantMachine.Machine.Step
import InvariantMachine.Machine.Value
import InvariantMachine.Machine.Violation
import InvariantMachine.Main
import InvariantMachine.Number.Binary64
import InvariantMachine.Number.Layout
import InvariantMachine.Number.Reading
import InvariantMachine.Number.Shortest
import InvariantMachine.Registration.Activity
import InvariantMachine.Registration.Basins
import InvariantMachine.Registration.State
import InvariantMachine.Registration.Verifier
import InvariantMachine.Shell.Assembler
import InvariantMachine.Shell.Boot
import InvariantMachine.Shell.Environment
import InvariantMachine.Shell.FileTask
import InvariantMachine.Shell.Path
import InvariantMachine.Text.Alphanumeric
import InvariantMachine.Text.Blank
import InvariantMachine.Text.Padding
import InvariantMachine.Text.Quoted
import InvariantMachine.Text.Ranges
import InvariantMachine.Text.Utf8
import InvariantMachine.Text.Visible
import InvariantMachine.Proofs.Codec
import InvariantMachine.Proofs.Layout
import InvariantMachine.Proofs.Effects
import InvariantMachine.Proofs.Frame
import InvariantMachine.Proofs.Verdicts
import InvariantMachine.Proofs.HostSession
import InvariantMachine.Proofs.Bounds
import InvariantMachine.Proofs.Indexed
import InvariantMachine.Proofs.Refinement
import InvariantMachine.Proofs.PoolReferences
import InvariantMachine.Proofs.Traps
import InvariantMachine.Proofs.StoredPrograms
import InvariantMachine.Proofs.ImageContents
import InvariantMachine.Proofs.Encoding
import InvariantMachine.Proofs.Validity
import InvariantMachine.Proofs.CanonicalForm
import InvariantMachine.Proofs.Modes
import InvariantMachine.Proofs.VerifierPolicy
import InvariantMachine.Proofs.Enlargement
import InvariantMachine.Proofs.UnresolvedTargets
import InvariantMachine.Proofs.StackFaults
import InvariantMachine.Proofs.Coherence
import InvariantMachine.Proofs.Containment
import InvariantMachine.Proofs.Munching
import InvariantMachine.Proofs.LexicalClasses
import InvariantMachine.Proofs.Tokenizing
import InvariantMachine.Proofs.DocumentTexts
import InvariantMachine.Proofs.DocumentReaders
import InvariantMachine.Proofs.DigitRuns
import InvariantMachine.Proofs.NumeralTexts
import InvariantMachine.Proofs.Rounding
import InvariantMachine.Proofs.ShortestDecimals
import InvariantMachine.Proofs.RereadNumbers
import InvariantMachine.Proofs.DocumentRoundTrip
import InvariantMachine.Proofs.LexemeEnds
import InvariantMachine.Proofs.SourceLines
import InvariantMachine.Proofs.LexedTokens
import InvariantMachine.Proofs.EncodingErrors
import InvariantMachine.Proofs.Reassembly
import InvariantMachine.Proofs.RefusedCalls
import InvariantMachine.Proofs.CycleCounts
import InvariantMachine.Proofs.Runs
import InvariantMachine.Proofs.ForwardPrograms
import InvariantMachine.Proofs.Underflow
import InvariantMachine.Proofs.StackDiscipline
import InvariantMachine.Proofs.Confinement
import InvariantMachine.Proofs.Trajectory
import InvariantMachine.Proofs.Truncation
import InvariantMachine.Proofs.DenotedNumbers
import InvariantMachine.Proofs.StringLiterals
import InvariantMachine.Proofs.StackForms
import InvariantMachine.Proofs.EncodingOverflow
import InvariantMachine.Proofs.IntegerArithmetic
import InvariantMachine.Proofs.AssemblerFiles
import InvariantMachine.Proofs.OperandCodec
import InvariantMachine.Proofs.BoundedContainers
