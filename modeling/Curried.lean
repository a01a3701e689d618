import Curried.Main
import Curried.Session
import Curried.Proofs.Atomicity
import Curried.Proofs.CallDepth
import Curried.Proofs.Chains
import Curried.Proofs.Code
import Curried.Proofs.Congruence
import Curried.Proofs.Correspondence
import Curried.Proofs.DeclarationReader
import Curried.Proofs.Derivation
import Curried.Proofs.Discipline
import Curried.Proofs.ExpressionReader
import Curried.Proofs.Fillers
import Curried.Proofs.FrameLaw
import Curried.Proofs.Handles
import Curried.Proofs.Joining
import Curried.Proofs.JsonRoundTrip
import Curried.Proofs.Kinship
import Curried.Proofs.LayoutLaws
import Curried.Proofs.Lexical
import Curried.Proofs.Lineage
import Curried.Proofs.Moves
import Curried.Proofs.NormalForm
import Curried.Proofs.OperatorUse
import Curried.Proofs.Plan
import Curried.Proofs.ProgramReader
import Curried.Proofs.Reading
import Curried.Proofs.Reference
import Curried.Proofs.Refinement
import Curried.Proofs.Repetition
import Curried.Proofs.Runs
import Curried.Proofs.ScopeHistory
import Curried.Proofs.Sequencing
import Curried.Proofs.Sights
import Curried.Proofs.Similarity
import Curried.Proofs.Simulation
import Curried.Proofs.StoreGrowth
import Curried.Proofs.Surface
import Curried.Proofs.Termination
import Curried.Proofs.Twins
import Curried.Proofs.WellShaped
import Curried.Proofs.Custody
import Curried.Proofs.Renaming
import Curried.Proofs.ClosedMachines
import Curried.Proofs.DiscardedCalls
import Curried.Proofs.Hygiene
import Curried.Proofs.AcceptedSources
import Curried.Proofs.SurfaceCode
import Curried.Proofs.Rewording
import Curried.Proofs.ParameterNames
import Curried.Proofs.SpareDepth
import Curried.Proofs.Operands
import Curried.Proofs.DollarChains
import Curried.Proofs.Layers
import Curried.Proofs.Currying
import Curried.Proofs.StaticNames
import Curried.Proofs.DefinedNames
import Curried.Proofs.Addresses
import Curried.Proofs.GraphEncoding
import Curried.Proofs.TextLiterals
import Curried.Proofs.DotText
import Curried.Proofs.Reordering
import Curried.Proofs.FunctionOrder
