import KeyRemap.Annotation
import KeyRemap.ClassText
import KeyRemap.Compilation
import KeyRemap.CompileError
import KeyRemap.Event
import KeyRemap.FileTree
import KeyRemap.Filter
import KeyRemap.Fragments
import KeyRemap.Header
import KeyRemap.Hook
import KeyRemap.Main
import KeyRemap.Numbering
import KeyRemap.Operand.Group
import KeyRemap.Operand.Kind
import KeyRemap.Operand.Table
import KeyRemap.Operation
import KeyRemap.OsError
import KeyRemap.Path
import KeyRemap.Plan
import KeyRemap.Proofs.AddedSources
import KeyRemap.Proofs.AnnotationLine
import KeyRemap.Proofs.Braces
import KeyRemap.Proofs.Chords
import KeyRemap.Proofs.Classification
import KeyRemap.Proofs.Columns
import KeyRemap.Proofs.Dispatch
import KeyRemap.Proofs.Emission
import KeyRemap.Proofs.FailedLine
import KeyRemap.Proofs.Failure
import KeyRemap.Proofs.FilterLine
import KeyRemap.Proofs.Flags
import KeyRemap.Proofs.HeaderLine
import KeyRemap.Proofs.Independence
import KeyRemap.Proofs.Interleaving
import KeyRemap.Proofs.Line
import KeyRemap.Proofs.Manifest
import KeyRemap.Proofs.Merging
import KeyRemap.Proofs.Numerals
import KeyRemap.Proofs.Operands
import KeyRemap.Proofs.Padding
import KeyRemap.Proofs.ParameterText
import KeyRemap.Proofs.Part
import KeyRemap.Proofs.PathParents
import KeyRemap.Proofs.PlanChecks
import KeyRemap.Proofs.PseudoKeys
import KeyRemap.Proofs.QuotedText
import KeyRemap.Proofs.RuleLines
import KeyRemap.Proofs.RuleNames
import KeyRemap.Proofs.RunFiles
import KeyRemap.Proofs.SetupText
import KeyRemap.Proofs.Slots
import KeyRemap.Proofs.SourceBoundary
import KeyRemap.Proofs.SplitRule
import KeyRemap.Proofs.SymbolLoading
import KeyRemap.Proofs.SymbolLookup
import KeyRemap.Registry
import KeyRemap.Registry.Manifest
import KeyRemap.Resolver
import KeyRemap.Rule
import KeyRemap.Run
import KeyRemap.Settings
import KeyRemap.Source
import KeyRemap.Statement
import KeyRemap.SymbolFile
import KeyRemap.SymbolMap
import KeyRemap.Text.Blank
import KeyRemap.Text.Mark
import KeyRemap.Text.Pieces
import KeyRemap.Toml.Document
import KeyRemap.Toml.Layout
import KeyRemap.Toml.Number
import KeyRemap.Toml.Quoted
import KeyRemap.Toml.Schema
import KeyRemap.Toml.Table
import KeyRemap.Toml.Text
import KeyRemap.Toml.Value
