import Garnet.Visited
import Garnet.Syntax.Parser
import Garnet.Interpreter.Start
import Garnet.Interpreter.Evaluation
import Garnet.Repl
import Garnet.CommandLine
import Garnet.Main
import Garnet.Proofs.Effects
import Garnet.Proofs.Journal
import Garnet.Proofs.Closure
import Garnet.Proofs.Canonical
import Garnet.Proofs.Faults
import Garnet.Proofs.Growth
import Garnet.Proofs.LoadOnce
import Garnet.Proofs.Scopes
import Garnet.Proofs.Invariants
import Garnet.Proofs.Hierarchy
import Garnet.Proofs.Tables
import Garnet.Proofs.Termination
import Garnet.Proofs.Rules
import Garnet.Proofs.Longest
import Garnet.Proofs.Decimals
import Garnet.Proofs.Munch
import Garnet.Proofs.MaximalMunch
import Garnet.Proofs.Tiling
import Garnet.Proofs.Writing
import Garnet.Proofs.Evolution
import Garnet.Proofs.Raising
import Garnet.Proofs.Receivers
import Garnet.Proofs.Footprint
import Garnet.Proofs.RaiseSites
import Garnet.Proofs.Backtraces
import Garnet.Proofs.Grammar
import Garnet.Proofs.Lockstep
import Garnet.Proofs.Concatenation
import Garnet.Proofs.LineEnds
import Garnet.Proofs.Joining
import Garnet.Proofs.Blame
import Garnet.Proofs.Completing
import Garnet.Proofs.Completions
import Garnet.Proofs.EarliestErrors
import Garnet.Proofs.Spacing
import Garnet.Proofs.Layout
import Garnet.Proofs.Symbols
import Garnet.Proofs.SymbolIdentity
import Garnet.Proofs.Bisimilarity
import Garnet.Proofs.Unfolding
import Garnet.Proofs.SearchOrder
import Garnet.Proofs.Entering
import Garnet.Proofs.Dispatch
import Garnet.Proofs.RescueClauses
import Garnet.Proofs.Assignments
import Garnet.Proofs.Hosting
import Garnet.Proofs.Ancestors
import Garnet.Proofs.PublicMethods
import Garnet.Proofs.FirstFile
import Garnet.Proofs.WholeSources
import Garnet.Proofs.Inspecting
import Garnet.Proofs.Abutting
import Garnet.Proofs.DisplayedTrees
import Garnet.Proofs.ReadingBack
import Garnet.Proofs.InputLines
import Garnet.Proofs.Conversation
import Garnet.Proofs.IntegerLiterals
import Garnet.Proofs.CommandArguments
import Garnet.Proofs.PathParts
import Garnet.Proofs.ExpandedPaths
