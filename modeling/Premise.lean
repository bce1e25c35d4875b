import Premise.Element.Json
import Premise.Library.FileTree
import Premise.Main
import Premise.Scope.Family
import Premise.Proofs.DepthLimit
import Premise.Proofs.Construct
import Premise.Proofs.Session
import Premise.Proofs.Table
import Premise.Proofs.Independence
import Premise.Proofs.Branches
import Premise.Proofs.Walk
import Premise.Proofs.DocumentOrder
import Premise.Proofs.Declarations
import Premise.Proofs.Merge
import Premise.Proofs.Linking
import Premise.Proofs.Outline
import Premise.Proofs.Alias
import Premise.Proofs.Program
import Premise.Proofs.DocumentSize
import Premise.Proofs.FreeNames
import Premise.Proofs.Behind
import Premise.Proofs.Sections
import Premise.Proofs.Inlining
import Premise.Proofs.Visits
import Premise.Proofs.Cycles
import Premise.Proofs.ImportDepth
import Premise.Proofs.Refusal
import Premise.Proofs.Constraints
import Premise.Proofs.Layout
import Premise.Proofs.Tokens
import Premise.Proofs.Source
import Premise.Proofs.Reading
import Premise.Proofs.RoundTrip
import Premise.Proofs.Number
import Premise.Proofs.ValueOrder
import Premise.Proofs.Membership
import Premise.Proofs.Tracing
import Premise.Proofs.GeneratedNames
import Premise.Proofs.Levels
import Premise.Proofs.Decimal
import Premise.Proofs.Resolution
import Premise.Proofs.Typing
import Premise.Proofs.ShortestPath
import Premise.Proofs.Compilation
import Premise.Proofs.Reference
import Premise.Proofs.Renaming
import Premise.Proofs.Namespace
import Premise.Proofs.Activation
import Premise.Proofs.Balance
import Premise.Proofs.Announcements
import Premise.Proofs.Failure
import Premise.Proofs.Visibility
import Premise.Proofs.Substitution
import Premise.Proofs.CallText
import Premise.Proofs.Invocation
import Premise.Proofs.Aggregates
import Premise.Proofs.Numbering
import Premise.Proofs.Height
import Premise.Proofs.Parentheses
import Premise.Proofs.Complement
import Premise.Proofs.Quantifiers
import Premise.Proofs.Overrides
import Premise.Proofs.Products
import Premise.Proofs.Quoting
import Premise.Proofs.Canonical
import Premise.Proofs.Sets
import Premise.Proofs.Equality
import Premise.Proofs.PathOrder
import Premise.Proofs.FullImports
import Premise.Proofs.JsonText
import Premise.Proofs.DocumentJson
import Premise.Proofs.GraphBuilding
import Premise.Proofs.Stores
import Premise.Proofs.Grammar
import Premise.Proofs.GrammarTokens
import Premise.Proofs.Recognition
import Premise.Proofs.TreeBuilding
import Premise.Proofs.Calls
import Premise.Proofs.Recursion
