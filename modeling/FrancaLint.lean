import FrancaLint.Closure
import FrancaLint.CommandLine.Arguments
import FrancaLint.CommandLine.Flag
import FrancaLint.CommandLine.Report
import FrancaLint.CommandLine.Run
import FrancaLint.CommandLine.Usage
import FrancaLint.Diagnostic
import FrancaLint.Disk.FileLoader
import FrancaLint.Disk.FileSystem
import FrancaLint.Disk.FileTree
import FrancaLint.Disk.SettingsFile
import FrancaLint.Graph.Components
import FrancaLint.Graph.DepthFirst
import FrancaLint.Graph.Reach
import FrancaLint.Json.Reader
import FrancaLint.Json.Value
import FrancaLint.Json.Writer
import FrancaLint.Loader
import FrancaLint.Main
import FrancaLint.MemoryStore
import FrancaLint.Model
import FrancaLint.Notice
import FrancaLint.Path
import FrancaLint.Project
import FrancaLint.Proofs.Closure.BrokenImports
import FrancaLint.Proofs.Closure.Composition
import FrancaLint.Proofs.Closure.FailedImports
import FrancaLint.Proofs.Closure.ImportGraph
import FrancaLint.Proofs.Closure.Requests
import FrancaLint.Proofs.Closure.RootImports
import FrancaLint.Proofs.Closure.RootedFiles
import FrancaLint.Proofs.Closure.Walk
import FrancaLint.Proofs.CommandLine.JointRun
import FrancaLint.Proofs.CommandLine.ProjectFiles
import FrancaLint.Proofs.CommandLine.SourceRuns
import FrancaLint.Proofs.CommandLine.Words
import FrancaLint.Proofs.Disk.Files
import FrancaLint.Proofs.Disk.SettingsFiles
import FrancaLint.Proofs.Document.Labels
import FrancaLint.Proofs.Document.References
import FrancaLint.Proofs.Graph.ComponentSearch
import FrancaLint.Proofs.Graph.Components
import FrancaLint.Proofs.Graph.CycleSearch
import FrancaLint.Proofs.Graph.LowLinks
import FrancaLint.Proofs.Graph.Reachability
import FrancaLint.Proofs.Graph.Rings
import FrancaLint.Proofs.Graph.SearchCourse
import FrancaLint.Proofs.Json.LineEnds
import FrancaLint.Proofs.Json.Reading
import FrancaLint.Proofs.Loader.Answers
import FrancaLint.Proofs.Loader.Keeps
import FrancaLint.Proofs.MemoryStore.Run
import FrancaLint.Proofs.MemoryStore.Serving
import FrancaLint.Proofs.Path.Canonical
import FrancaLint.Proofs.Path.CanonicalForm
import FrancaLint.Proofs.Path.Prefixes
import FrancaLint.Proofs.Path.Resolution
import FrancaLint.Proofs.Path.Roots
import FrancaLint.Proofs.Path.Segments
import FrancaLint.Proofs.Rule.Collision
import FrancaLint.Proofs.Rule.DanglingReference
import FrancaLint.Proofs.Rule.EnumLiteral
import FrancaLint.Proofs.Rule.KeyAliases
import FrancaLint.Proofs.Rule.MapKey
import FrancaLint.Proofs.Rule.TypeCycle
import FrancaLint.Proofs.Session.Cached
import FrancaLint.Proofs.Session.Steps
import FrancaLint.Proofs.Source.Determinism
import FrancaLint.Proofs.Source.Excerpts
import FrancaLint.Proofs.Source.FileGrammar
import FrancaLint.Proofs.Source.ImportUris
import FrancaLint.Proofs.Source.Insertion
import FrancaLint.Proofs.Source.Languages
import FrancaLint.Proofs.Source.Literals
import FrancaLint.Proofs.Source.Matches
import FrancaLint.Proofs.Source.Occurrences
import FrancaLint.Proofs.Source.Parts
import FrancaLint.Proofs.Source.Pieces
import FrancaLint.Proofs.Source.Places
import FrancaLint.Proofs.Source.QuotedWords
import FrancaLint.Proofs.Source.Reading
import FrancaLint.Proofs.Source.RoundTrip
import FrancaLint.Proofs.Source.Scanning
import FrancaLint.Proofs.Source.Sentences
import FrancaLint.Proofs.Source.SyntaxErrors
import FrancaLint.Proofs.Source.WellFormed
import FrancaLint.Proofs.Source.Wording
import FrancaLint.Proofs.Source.Words
import FrancaLint.Proofs.Source.Writer
import FrancaLint.Proofs.Source.Writing
import FrancaLint.Proofs.SymbolIndex.Cache
import FrancaLint.Proofs.SymbolIndex.Determined
import FrancaLint.Proofs.SymbolIndex.Listing
import FrancaLint.Proofs.SymbolIndex.Order
import FrancaLint.Proofs.Text.Encoding
import FrancaLint.Proofs.TypeScope.Acyclic
import FrancaLint.Proofs.TypeScope.BaseChain
import FrancaLint.Proofs.TypeScope.Cycles
import FrancaLint.Proofs.TypeScope.Declared
import FrancaLint.Proofs.TypeScope.FirstCycle
import FrancaLint.Proofs.TypeScope.Inheritance
import FrancaLint.Proofs.TypeScope.Nearest
import FrancaLint.Proofs.TypeScope.SharedNames
import FrancaLint.Proofs.Validation.Anchors
import FrancaLint.Proofs.Validation.Extension
import FrancaLint.Proofs.Validation.Report
import FrancaLint.Proofs.Validation.SharedCache
import FrancaLint.Proofs.Validation.SharedIndex
import FrancaLint.Proofs.Validation.WholeProject
import FrancaLint.Rule.ArgumentName
import FrancaLint.Rule.BrokenImport
import FrancaLint.Rule.Collision
import FrancaLint.Rule.DanglingReference
import FrancaLint.Rule.ElementName
import FrancaLint.Rule.EnumLiteral
import FrancaLint.Rule.MapKey
import FrancaLint.Rule.TypeCycle
import FrancaLint.Settings
import FrancaLint.Source.Decimal
import FrancaLint.Source.Document
import FrancaLint.Source.Grammar
import FrancaLint.Source.Layout
import FrancaLint.Source.Phrase
import FrancaLint.Source.Position
import FrancaLint.Source.Quoted
import FrancaLint.Source.Scan
import FrancaLint.Source.Token
import FrancaLint.Span
import FrancaLint.SymbolIndex
import FrancaLint.Text.DecimalDigit
import FrancaLint.Text.Digest
import FrancaLint.Text.Encoding
import FrancaLint.Text.Hexadecimal
import FrancaLint.Text.Literal
import FrancaLint.Text.Printable
import FrancaLint.TypeScope
import FrancaLint.Validation
