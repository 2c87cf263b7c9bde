import ThreeAddress.Main
import ThreeAddress.Proofs.Depth
import ThreeAddress.Proofs.Linearization
import ThreeAddress.Proofs.RoundTrip
import ThreeAddress.Proofs.Shape
import ThreeAddress.Proofs.Stock
import ThreeAddress.Proofs.Entering
import ThreeAddress.Proofs.Coupling
import ThreeAddress.Proofs.Numbering
import ThreeAddress.Proofs.Restoring
import ThreeAddress.Proofs.Termination
import ThreeAddress.Proofs.SwitchJumps
import ThreeAddress.Proofs.BuiltAtoms
import ThreeAddress.Proofs.BuiltStatements
import ThreeAddress.Proofs.Escapes
import ThreeAddress.Proofs.Grown
import ThreeAddress.Proofs.Parsed
import ThreeAddress.Proofs.QuotedReading
import ThreeAddress.Proofs.StringLiterals
import ThreeAddress.Proofs.CallOrder
import ThreeAddress.Proofs.SideEffects
import ThreeAddress.Proofs.Phrases
import ThreeAddress.Proofs.TokenRuns
import ThreeAddress.Proofs.PhraseBuilding
import ThreeAddress.Proofs.PhraseReading
import ThreeAddress.Proofs.PhraseParsing
import ThreeAddress.Proofs.Respelling
import ThreeAddress.Proofs.OperandGrouping
import ThreeAddress.Proofs.WrittenListings
import ThreeAddress.Proofs.Mirroring
import ThreeAddress.Proofs.Precedence
import ThreeAddress.Proofs.Positions
import ThreeAddress.Proofs.IntegerLiterals
import ThreeAddress.Proofs.HandedNames
import ThreeAddress.Proofs.HeredocText
import ThreeAddress.Proofs.NestingCheck
import ThreeAddress.Proofs.ElseChains
