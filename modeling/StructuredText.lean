import StructuredText.Binary64
import StructuredText.Body
import StructuredText.Body.OfTree
import StructuredText.Body.Verify
import StructuredText.Calendar
import StructuredText.Command
import StructuredText.Command.Arguments
import StructuredText.CompilationUnit
import StructuredText.CompilationUnit.OfTree
import StructuredText.Cursor
import StructuredText.Diagnostic
import StructuredText.Dimension
import StructuredText.Duration
import StructuredText.Elementary
import StructuredText.Execution
import StructuredText.Execution.Expression
import StructuredText.Execution.Resume
import StructuredText.Execution.Statement
import StructuredText.Grammar.Constant
import StructuredText.Grammar.Declaration
import StructuredText.Grammar.Expression
import StructuredText.Grammar.Statement
import StructuredText.Graph
import StructuredText.Ident
import StructuredText.Interpreter
import StructuredText.Library
import StructuredText.Link
import StructuredText.Link.Merge
import StructuredText.Link.References
import StructuredText.Link.Types
import StructuredText.Link.Variables
import StructuredText.Literal
import StructuredText.Main
import StructuredText.Memory
import StructuredText.Memory.Address
import StructuredText.Operator
import StructuredText.Parser
import StructuredText.Problem
import StructuredText.Proofs.Computation
import StructuredText.Proofs.Stepping
import StructuredText.Proofs.BigStep
import StructuredText.Proofs.Settling
import StructuredText.Proofs.Agreement
import StructuredText.Proofs.Refinement
import StructuredText.Proofs.Cycle
import StructuredText.Proofs.Verified
import StructuredText.Proofs.Replaced
import StructuredText.Proofs.Exits
import StructuredText.RefPool
import StructuredText.Source
import StructuredText.SourceFile
import StructuredText.Span
import StructuredText.StandardFunction
import StructuredText.Storage
import StructuredText.Storage.Create
import StructuredText.Storage.Display
import StructuredText.StorageClass
import StructuredText.Text.LetterTable
import StructuredText.Text.Lowercase
import StructuredText.Text.Numeral
import StructuredText.Token
import StructuredText.Token.Lexer
import StructuredText.Tree
import StructuredText.TypeTable
import StructuredText.TypeTable.Assign
import StructuredText.TypeTable.Create
import StructuredText.Value
import StructuredText.Value.Arithmetic
import StructuredText.Value.Error
import StructuredText.Proofs.Keeps
import StructuredText.Proofs.Expansion
import StructuredText.Proofs.Magnitude
import StructuredText.Proofs.Inhabits
import StructuredText.Proofs.Stable
import StructuredText.Proofs.Compatible
import StructuredText.Proofs.Located
import StructuredText.Proofs.Sound
import StructuredText.Proofs.Reading
import StructuredText.Proofs.Locate
import StructuredText.Proofs.Results
import StructuredText.Proofs.Safe
import StructuredText.Proofs.SafeExpr
import StructuredText.Proofs.SafeStmt
import StructuredText.Proofs.Nodes
import StructuredText.Proofs.Checked
import StructuredText.Proofs.Complete
import StructuredText.Proofs.WellFormed
import StructuredText.Proofs.Prepared
import StructuredText.Proofs.Heads
import StructuredText.Proofs.Named
import StructuredText.Proofs.Numbered
import StructuredText.Proofs.Parsed
import StructuredText.Proofs.Units
import StructuredText.Proofs.LinkedTypes
import StructuredText.Proofs.LinkedVars
import StructuredText.Proofs.LinkedLibrary
import StructuredText.Proofs.Instances
import StructuredText.Proofs.Queries
import StructuredText.Proofs.Session
import StructuredText.Proofs.FreshCycle
import StructuredText.Proofs.SteppingInto
import StructuredText.Proofs.Transitions
import StructuredText.Proofs.Limits
import StructuredText.Proofs.Silent
import StructuredText.Proofs.CallStack
import StructuredText.Proofs.CycleInvariants
import StructuredText.Proofs.NestedCalls
import StructuredText.Proofs.LoopStack
import StructuredText.Proofs.RunningLoops
import StructuredText.Proofs.ReadSources
import StructuredText.Proofs.Alike
import StructuredText.Proofs.Parallel
import StructuredText.Proofs.ParallelExpr
import StructuredText.Proofs.ParallelStmt
import StructuredText.Proofs.Paired
import StructuredText.Proofs.History
import StructuredText.Proofs.Recording
import StructuredText.Proofs.CaseInsensitive
import StructuredText.Proofs.Folds
import StructuredText.Proofs.Lockstep
import StructuredText.Proofs.LockstepStmt
import StructuredText.Proofs.Unfolded
import StructuredText.Proofs.Folding
import StructuredText.Proofs.Control
import StructuredText.Proofs.Kinds
import StructuredText.Proofs.Positions
import StructuredText.Proofs.Expanded
import StructuredText.Proofs.LinkedTables
import StructuredText.Proofs.Coercion
import StructuredText.Proofs.Assignable
import StructuredText.Proofs.AkinTypes
import StructuredText.Proofs.MemoryBits
import StructuredText.Proofs.FaithfulMemory
import StructuredText.Proofs.StoreFrame
import StructuredText.Proofs.LinkedAddresses
import StructuredText.Proofs.ValueResult
import StructuredText.Proofs.ExactIntegers
import StructuredText.Proofs.Reals
import StructuredText.Proofs.Rounding
import StructuredText.Proofs.RealOperations
import StructuredText.Proofs.Operands
import StructuredText.Proofs.Bindings
import StructuredText.Proofs.Digits
import StructuredText.Proofs.DurationLiterals
import StructuredText.Proofs.Addresses
import StructuredText.Proofs.OneToken
import StructuredText.Proofs.ShownLiterals
import StructuredText.Proofs.ShownDurations
import StructuredText.Proofs.Reachability
import StructuredText.Proofs.RecursiveTypes
import StructuredText.Proofs.RecursiveBlocks
import StructuredText.Proofs.Callbacks
import StructuredText.Proofs.Relinked
import StructuredText.Proofs.NodeTrees
import StructuredText.Proofs.CompleteBodies
import StructuredText.Proofs.Outlines
import StructuredText.Proofs.DistinctNames
import StructuredText.Proofs.ElementCounts
import StructuredText.Proofs.Layout
import StructuredText.Proofs.TokenOrder
import StructuredText.Proofs.NestedSpans
import StructuredText.Proofs.ParsedSpans
import StructuredText.Proofs.Precedence
import StructuredText.Proofs.TypedConstants
import StructuredText.Proofs.SteppedCycles
