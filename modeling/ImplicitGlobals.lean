import ImplicitGlobals.CommandLine.LogFormat
import ImplicitGlobals.Main
import ImplicitGlobals.Proofs.Grammar.Walk
import ImplicitGlobals.Proofs.Grammar.Cost
import ImplicitGlobals.Proofs.Grammar.Logic
import ImplicitGlobals.Proofs.Grammar.Steps
import ImplicitGlobals.Proofs.Grammar.Building
import ImplicitGlobals.Proofs.Grammar.Balanced
import ImplicitGlobals.Proofs.Grammar.Binding
import ImplicitGlobals.Proofs.Grammar.Declaration
import ImplicitGlobals.Proofs.Grammar.Module
import ImplicitGlobals.Proofs.Grammar.Statement
import ImplicitGlobals.Proofs.Syntax.Completion
import ImplicitGlobals.Proofs.Syntax.Tiling
import ImplicitGlobals.Proofs.Syntax.Lossless
import ImplicitGlobals.Proofs.Grammar.Order
import ImplicitGlobals.Proofs.Diagnostic.Height
import ImplicitGlobals.Proofs.Diagnostic.Filter
import ImplicitGlobals.Proofs.Syntax.Shape
import ImplicitGlobals.Proofs.Scope.Binding
import ImplicitGlobals.Proofs.Scope.Globals
import ImplicitGlobals.Proofs.Bundle.Resolution
import ImplicitGlobals.Generated.Reading
import ImplicitGlobals.Proofs.Generated.ReadBack
import ImplicitGlobals.Proofs.Generated.Evaluation
import ImplicitGlobals.Proofs.Syntax.Nesting
import ImplicitGlobals.Proofs.Grammar.Yields
import ImplicitGlobals.Proofs.Acceptance.Logic
import ImplicitGlobals.Proofs.Acceptance.Runs
import ImplicitGlobals.Proofs.Acceptance.Declarations
import ImplicitGlobals.Proofs.Acceptance.Modules
import ImplicitGlobals.Proofs.Acceptance.Statements
import ImplicitGlobals.Proofs.Acceptance.Soundness
import ImplicitGlobals.Proofs.Syntax.Places
import ImplicitGlobals.Proofs.Printing.Source
import ImplicitGlobals.Proofs.Printing.Logic
import ImplicitGlobals.Proofs.Printing.Runs
import ImplicitGlobals.Proofs.Printing.Declarations
import ImplicitGlobals.Proofs.Printing.Statements
import ImplicitGlobals.Proofs.Printing.Trees
import ImplicitGlobals.Proofs.Printing.RoundTrip
import ImplicitGlobals.Proofs.Bundle.Synthesis
import ImplicitGlobals.Proofs.Source.References
import ImplicitGlobals.Proofs.Setting.Basic
import ImplicitGlobals.Proofs.Setting.Logic
import ImplicitGlobals.Proofs.Setting.Steps
import ImplicitGlobals.Proofs.Setting.Runs
import ImplicitGlobals.Proofs.Setting.Declarations
import ImplicitGlobals.Proofs.Setting.Modules
import ImplicitGlobals.Proofs.Setting.Statements
import ImplicitGlobals.Proofs.Setting.Sources
import ImplicitGlobals.Proofs.Scope.Listing
import ImplicitGlobals.Proofs.Scope.Declared
import ImplicitGlobals.Proofs.Scope.Arena
import ImplicitGlobals.Proofs.Source.Spacing
import ImplicitGlobals.Proofs.Source.Joining
import ImplicitGlobals.Proofs.Budget.Reach
import ImplicitGlobals.Proofs.Budget.Logic
import ImplicitGlobals.Proofs.Budget.Steps
import ImplicitGlobals.Proofs.Budget.Rules
import ImplicitGlobals.Proofs.Budget.Exact
import ImplicitGlobals.Proofs.Generation.Paths
import ImplicitGlobals.Proofs.Bundle.Bindings
import ImplicitGlobals.Proofs.Generated.SharedReadBack
import ImplicitGlobals.Proofs.Boundary.Recovery
import ImplicitGlobals.Proofs.Boundary.Statements
import ImplicitGlobals.Proofs.Disk.Paths
import ImplicitGlobals.Proofs.Disk.Places
import ImplicitGlobals.Proofs.Disk.Operations
import ImplicitGlobals.Proofs.Generation.Output
import ImplicitGlobals.Proofs.Grammar.Keeping
import ImplicitGlobals.Proofs.Angles.Matching
import ImplicitGlobals.Proofs.Angles.Runs
import ImplicitGlobals.Proofs.Angles.Trees
import ImplicitGlobals.Proofs.Grammar.Related
import ImplicitGlobals.Proofs.Grammar.Trail
import ImplicitGlobals.Proofs.Acceptance.Imports
import ImplicitGlobals.Proofs.Diagnostic.Enclosing
import ImplicitGlobals.Proofs.Diagnostic.Reports
import ImplicitGlobals.Proofs.Syntax.Cutting
import ImplicitGlobals.Proofs.Syntax.Quoting
import ImplicitGlobals.Proofs.Syntax.LongestMatch
import ImplicitGlobals.Proofs.Printing.ImportLists
import ImplicitGlobals.Proofs.Printing.Predicates
import ImplicitGlobals.Proofs.Printing.ClassHeads
import ImplicitGlobals.Proofs.Bodies.Pruning
import ImplicitGlobals.Proofs.Catalog.Derivation
import ImplicitGlobals.Proofs.Boundary.Resumption
import ImplicitGlobals.Proofs.Source.Resuming
import ImplicitGlobals.Proofs.Source.Mending
import ImplicitGlobals.Proofs.Bodies.Reading
import ImplicitGlobals.Proofs.Source.Bodies
import ImplicitGlobals.Proofs.Source.Namespaces
