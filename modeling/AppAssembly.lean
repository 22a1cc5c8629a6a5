import AppAssembly.Act
import AppAssembly.Claims
import AppAssembly.CommandLine
import AppAssembly.Compile
import AppAssembly.Component
import AppAssembly.Decimal.Digits
import AppAssembly.Decimal.Nearest
import AppAssembly.Decimal.Read
import AppAssembly.Decimal.Shortest
import AppAssembly.Delegate
import AppAssembly.Demo
import AppAssembly.Document.Format
import AppAssembly.Document.Json.Number
import AppAssembly.Document.Json.Reader
import AppAssembly.Document.Json.Writer
import AppAssembly.Document.Node
import AppAssembly.Document.Raw
import AppAssembly.Document.Spec
import AppAssembly.Document.Toml.Reader
import AppAssembly.Document.Toml.Tables
import AppAssembly.Document.Toml.Writer
import AppAssembly.Document.Yaml.Quoted
import AppAssembly.Document.Yaml.Reader
import AppAssembly.Document.Yaml.Scalar
import AppAssembly.Document.Yaml.Writer
import AppAssembly.Entries.Basic
import AppAssembly.Entries.FirstBy
import AppAssembly.Entries.Sorted
import AppAssembly.Error.Basic
import AppAssembly.Error.Context
import AppAssembly.Factory.Keywords
import AppAssembly.Factory.Workshop
import AppAssembly.Handler.Basic
import AppAssembly.Handler.BuiltIn
import AppAssembly.Handler.Custom
import AppAssembly.Handler.Registry
import AppAssembly.Instance.Basic
import AppAssembly.Instance.Evaluate
import AppAssembly.Instance.Invoke
import AppAssembly.Instance.Lifecycle
import AppAssembly.Layer.Basic
import AppAssembly.Layer.Compiled
import AppAssembly.Layer.Linearization
import AppAssembly.Ledger
import AppAssembly.Loader.Catalog
import AppAssembly.Loader.Load
import AppAssembly.Main
import AppAssembly.Origin
import AppAssembly.Path
import AppAssembly.Proofs.Accusations
import AppAssembly.Proofs.Acts
import AppAssembly.Proofs.Agenda
import AppAssembly.Proofs.Backing
import AppAssembly.Proofs.BlockOrder
import AppAssembly.Proofs.Blocks
import AppAssembly.Proofs.Bookkeeping
import AppAssembly.Proofs.Caching
import AppAssembly.Proofs.Cells
import AppAssembly.Proofs.Clients
import AppAssembly.Proofs.Components
import AppAssembly.Proofs.Contributions
import AppAssembly.Proofs.Courses
import AppAssembly.Proofs.Creation
import AppAssembly.Proofs.CustomBlocks
import AppAssembly.Proofs.Demands
import AppAssembly.Proofs.DocumentValues
import AppAssembly.Proofs.Drafts
import AppAssembly.Proofs.Effects
import AppAssembly.Proofs.FailStop
import AppAssembly.Proofs.Failures
import AppAssembly.Proofs.Forcing
import AppAssembly.Proofs.Groups
import AppAssembly.Proofs.Hierarchy
import AppAssembly.Proofs.Inheritance
import AppAssembly.Proofs.Installers
import AppAssembly.Proofs.Jobs
import AppAssembly.Proofs.Keywords
import AppAssembly.Proofs.LifeCycle
import AppAssembly.Proofs.Lineage
import AppAssembly.Proofs.Linearization
import AppAssembly.Proofs.Loading
import AppAssembly.Proofs.Locations
import AppAssembly.Proofs.Moments
import AppAssembly.Proofs.Moves
import AppAssembly.Proofs.NameClaims
import AppAssembly.Proofs.NameHistory
import AppAssembly.Proofs.NameRecords
import AppAssembly.Proofs.Nullifying
import AppAssembly.Proofs.Override
import AppAssembly.Proofs.Paths
import AppAssembly.Proofs.Phases
import AppAssembly.Proofs.Provenance
import AppAssembly.Proofs.Registration
import AppAssembly.Proofs.Requirements
import AppAssembly.Proofs.Resolution
import AppAssembly.Proofs.Setting
import AppAssembly.Proofs.Showing
import AppAssembly.Proofs.Steps
import AppAssembly.Proofs.Suppression
import AppAssembly.Proofs.Unresolved
import AppAssembly.Proofs.Validity
import AppAssembly.Proofs.Winners
import AppAssembly.Spec.Block
import AppAssembly.Spec.TypeSpec
import AppAssembly.Text.Blank
import AppAssembly.Text.CaseTable
import AppAssembly.Text.Lowercase
import AppAssembly.Text.Split
import AppAssembly.Value.Basic
import AppAssembly.Value.Describe
import AppAssembly.Value.Equal
