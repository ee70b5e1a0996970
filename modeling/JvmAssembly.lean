import JvmAssembly.Text.CodePoint
import JvmAssembly.Text.Blank
import JvmAssembly.Text.Quoted
import JvmAssembly.Location
import JvmAssembly.Numeral.Basic
import JvmAssembly.Numeral.Value
import JvmAssembly.Token.Basic
import JvmAssembly.Token.Piece
import JvmAssembly.Token.Escape
import JvmAssembly.Token.Scan
import JvmAssembly.Modifier
import JvmAssembly.Element.Container
import JvmAssembly.Element.Node
import JvmAssembly.Element.Basic
import JvmAssembly.Diagnostic
import JvmAssembly.Session
import JvmAssembly.Expect
import JvmAssembly.Handle
import JvmAssembly.Operand.Basic
import JvmAssembly.Operand.Kind
import JvmAssembly.Operand.Constant
import JvmAssembly.Operand.Switch
import JvmAssembly.Operand.Verify
import JvmAssembly.InstructionSet.Basic
import JvmAssembly.InstructionSet.Jvm
import JvmAssembly.Constant
import JvmAssembly.Resolve.Keyword
import JvmAssembly.Resolve.Annotations
import JvmAssembly.Resolve.Pending
import JvmAssembly.Resolve.Members
import JvmAssembly.Resolve.Program
import JvmAssembly.Proofs.Repetition
import JvmAssembly.Proofs.ObjectKeys
import JvmAssembly.Proofs.Steps
import JvmAssembly.Proofs.Frame
import JvmAssembly.Proofs.OperandFrame
import JvmAssembly.Proofs.ConstantGrammar
import JvmAssembly.Proofs.LoadableConstant
import JvmAssembly.Proofs.NestingBound
import JvmAssembly.Proofs.EscapeRules
import JvmAssembly.Proofs.ScanCoverage
import JvmAssembly.Proofs.ResolveFrame
import JvmAssembly.Proofs.AppendOnly
import JvmAssembly.Proofs.Sequence
import JvmAssembly.Proofs.SequenceItems
import JvmAssembly.Proofs.AttributeOwner
import JvmAssembly.Proofs.ProgramGrammar
import JvmAssembly.Proofs.Acceptance
import JvmAssembly.Proofs.AttributeForms
import JvmAssembly.Proofs.MemberForms
import JvmAssembly.Proofs.SequenceForms
import JvmAssembly.Proofs.ProgramAcceptance
import JvmAssembly.Proofs.Reported
import JvmAssembly.Proofs.AnnotationValues
import JvmAssembly.Proofs.AnnotationAccounts
import JvmAssembly.Proofs.NothingDropped
import JvmAssembly.Proofs.NormalForm
import JvmAssembly.Proofs.WellTyped
import JvmAssembly.Proofs.SwitchForms
import JvmAssembly.Proofs.SwitchReports
import JvmAssembly.Proofs.ModifierAccounts
import JvmAssembly.Proofs.ValueForms
import JvmAssembly.Proofs.Holes
import JvmAssembly.Proofs.Composition
import JvmAssembly.Proofs.SetIndependence
import JvmAssembly.Proofs.LineComposition
import JvmAssembly.Proofs.PrintedTokens
import JvmAssembly.Proofs.NumeralGrammar
import JvmAssembly.Proofs.ValueNormalization
import JvmAssembly.Proofs.IntegerValues
import JvmAssembly.Proofs.NumeralFaults
import JvmAssembly.Proofs.OperandProblems
import JvmAssembly.Proofs.TokenLocations
import JvmAssembly.Proofs.CheckedCode
