import Schemata.Cli.Arguments
import Schemata.Cli.Run
import Schemata.Compile
import Schemata.Config.Basic
import Schemata.Config.Error
import Schemata.Config.Load
import Schemata.Config.Writer
import Schemata.Diagnostic.Serial
import Schemata.Digest.Sources
import Schemata.Handoff.Writer
import Schemata.Json.Merge
import Schemata.Json.Printer
import Schemata.Json.Reader
import Schemata.Main
import Schemata.Model.Serial
import Schemata.Model.Shape
import Schemata.Names.Case
import Schemata.Names.Literal
import Schemata.Number.Double
import Schemata.Source.Reference
import Schemata.Source.SourceSet
import Schemata.Toml.Quoted
import Schemata.Toml.Reader
import Schemata.Yaml.Block
import Schemata.Yaml.Literal
import Schemata.Yaml.Plain
import Schemata.Yaml.Quoted
import Schemata.Yaml.Reader
import Schemata.Yaml.Token.Lexer
import Schemata.Yaml.Tree.Grammar
import Schemata.Proofs.Json.Distinct
import Schemata.Proofs.Json.Merge
import Schemata.Proofs.Model.Lookup
import Schemata.Proofs.Order.Components
import Schemata.Proofs.Order.Draining
import Schemata.Proofs.Order.Moves
import Schemata.Proofs.Order.Topological
import Schemata.Proofs.Order.Connected
import Schemata.Proofs.Order.Settling
import Schemata.Proofs.Order.Cycles
import Schemata.Proofs.Model.Size
import Schemata.Proofs.Extract.Naming
import Schemata.Proofs.Extract.Placed
import Schemata.Proofs.Extract.Walk
import Schemata.Proofs.Extract.Replay
import Schemata.Proofs.Extract.Plain
import Schemata.Proofs.Extract.Sharing
import Schemata.Proofs.Extract.Reach
import Schemata.Proofs.Extract.References
import Schemata.Proofs.Build.Loading
import Schemata.Proofs.Build.Pointers
import Schemata.Proofs.Build.Agreement
import Schemata.Proofs.Build.Failures
import Schemata.Proofs.Build.Naming
import Schemata.Proofs.Extract.Closed
import Schemata.Proofs.Compile.Stages
import Schemata.Proofs.Compile.Closed
import Schemata.Proofs.Compile.Acyclic
import Schemata.Proofs.Extract.Idempotence
import Schemata.Proofs.Extract.Declared
import Schemata.Proofs.Build.Places
import Schemata.Proofs.Extract.Kept
import Schemata.Proofs.Compile.References
import Schemata.Proofs.Yaml.Distinct
import Schemata.Proofs.Source.TwoPhase
import Schemata.Proofs.Source.Failure
import Schemata.Proofs.Bind.Scope
import Schemata.Proofs.Build.Notes
import Schemata.Proofs.Compile.Unconstrained
import Schemata.Proofs.Compile.Conservation
import Schemata.Build.Builder
import Schemata.Proofs.Order.Relocation
import Schemata.Proofs.Build.Memory
import Schemata.Proofs.Build.Levels
import Schemata.Proofs.Build.Circles
import Schemata.Proofs.Compile.PassThrough
import Schemata.Proofs.Source.Locality
import Schemata.Proofs.Source.Sheltered
import Schemata.Proofs.Order.Emptying
import Schemata.Proofs.Order.Consistent
import Schemata.Proofs.Order.Classes
import Schemata.Proofs.Extract.Visits
import Schemata.Proofs.Extract.Records
import Schemata.Proofs.Extract.Minimal
import Schemata.Proofs.Extract.Renamed
import Schemata.Proofs.Build.Addresses
import Schemata.Proofs.Build.Overrides
import Schemata.Proofs.Build.WellFormed
import Schemata.Proofs.Build.Accounts
import Schemata.Proofs.Build.Ignored
import Schemata.Proofs.Json.Layers
import Schemata.Proofs.Source.Once
import Schemata.Proofs.Model.Sameness
import Schemata.Proofs.Handoff.Paths
import Schemata.Proofs.Handoff.Sections
import Schemata.Proofs.Names.Literal
