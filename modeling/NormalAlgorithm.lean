import NormalAlgorithm.CommandLine.Answer
import NormalAlgorithm.Proofs.Run.Eager
import NormalAlgorithm.Proofs.Run.Reached
import NormalAlgorithm.Proofs.Program.Printed
import NormalAlgorithm.Proofs.Expansion.Product
import NormalAlgorithm.Proofs.Expansion.Growth
import NormalAlgorithm.Proofs.Expansion.EncodedKey
import NormalAlgorithm.Proofs.Run.Drained
import NormalAlgorithm.Proofs.Run.Lockstep
import NormalAlgorithm.Proofs.Program.Wider
import NormalAlgorithm.Proofs.Program.Resumed
import NormalAlgorithm.Proofs.Program.Refused
import NormalAlgorithm.Proofs.Run.Failure
import NormalAlgorithm.Proofs.Display.Windowed
import NormalAlgorithm.Proofs.CommandLine.Modes
import NormalAlgorithm.Proofs.Program.Reordered
import NormalAlgorithm.Proofs.Program.Spliced
import NormalAlgorithm.Proofs.Rule.Characters
import NormalAlgorithm.Proofs.Rule.Replacement
import NormalAlgorithm.Proofs.Run.Shadowed
import NormalAlgorithm.Proofs.Pattern.Lexical
import NormalAlgorithm.Proofs.Escape.Cuts
import NormalAlgorithm.Proofs.Statement.Grammar
import NormalAlgorithm.Proofs.Source.FirstOffence
import NormalAlgorithm.Proofs.Expansion.Origin
import NormalAlgorithm.Proofs.Expansion.Overfull
import NormalAlgorithm.Proofs.Program.Dangling
import NormalAlgorithm.Proofs.Run.Evaluated
import NormalAlgorithm.Proofs.Display.Accounted
import NormalAlgorithm.Proofs.Display.Numbered
import NormalAlgorithm.Proofs.CommandLine.Groups
import NormalAlgorithm.Proofs.CommandLine.InlineInput
import NormalAlgorithm.Proofs.CommandLine.ProgramPart
import NormalAlgorithm.Proofs.CommandLine.InForce
import NormalAlgorithm.Proofs.CommandLine.GroupSettings
import NormalAlgorithm.Proofs.CommandLine.OptionOrder
import NormalAlgorithm.Proofs.Rule.Literal
import NormalAlgorithm.Proofs.Escape.Decoded
import NormalAlgorithm.Proofs.Escape.Embedded
import NormalAlgorithm.Proofs.Escape.Faithful
import NormalAlgorithm.Proofs.Escape.FirstSeparator
import NormalAlgorithm.Proofs.CodePoints
import NormalAlgorithm.Proofs.CommandLine.Colors
