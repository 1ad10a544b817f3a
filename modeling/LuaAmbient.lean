import LuaAmbient.Breakdown
import LuaAmbient.CommandLine.Arguments
import LuaAmbient.CommandLine.Run
import LuaAmbient.Data.Basic
import LuaAmbient.Data.Check
import LuaAmbient.Data.JsonPrinter
import LuaAmbient.Data.JsonReader
import LuaAmbient.Data.TomlReader
import LuaAmbient.Data.TomlScalar
import LuaAmbient.Declaration.Basic
import LuaAmbient.Declaration.Derivation
import LuaAmbient.Declaration.OfSource
import LuaAmbient.Declaration.Overload
import LuaAmbient.Digest
import LuaAmbient.Directive.Basic
import LuaAmbient.Directive.Numbering
import LuaAmbient.Directive.Parser
import LuaAmbient.DocBlock
import LuaAmbient.DocType.Basic
import LuaAmbient.DocType.Parser
import LuaAmbient.DocType.Printer
import LuaAmbient.Emission.Body
import LuaAmbient.Emission.Module
import LuaAmbient.FileTree.Basic
import LuaAmbient.FileTree.Content
import LuaAmbient.Generation.Basic
import LuaAmbient.Generation.Batch
import LuaAmbient.Generation.Run
import LuaAmbient.Keyed
import LuaAmbient.Log
import LuaAmbient.Lua.Lifting
import LuaAmbient.Lua.LongBracket
import LuaAmbient.Lua.Parser
import LuaAmbient.Lua.Quoted
import LuaAmbient.Lua.Syntax
import LuaAmbient.Lua.Token
import LuaAmbient.Lua.Tree
import LuaAmbient.Main
import LuaAmbient.NameSet
import LuaAmbient.Nesting
import LuaAmbient.Project
import LuaAmbient.Proofs.Data.DistinctFields
import LuaAmbient.Proofs.Data.JsonRoundTrip
import LuaAmbient.Proofs.Declaration.Classes
import LuaAmbient.Proofs.Declaration.Collecting
import LuaAmbient.Proofs.Declaration.Definition
import LuaAmbient.Proofs.Declaration.Orphans
import LuaAmbient.Proofs.Declaration.Overload
import LuaAmbient.Proofs.Declaration.Parameters
import LuaAmbient.Proofs.Declaration.Repetition
import LuaAmbient.Proofs.Declaration.Scope
import LuaAmbient.Proofs.Declaration.Signature
import LuaAmbient.Proofs.Declaration.UsedNames
import LuaAmbient.Proofs.Directive.Boundary
import LuaAmbient.Proofs.Directive.Location
import LuaAmbient.Proofs.Directive.RoundTrip
import LuaAmbient.Proofs.Directive.TypeNames
import LuaAmbient.Proofs.DocBlock
import LuaAmbient.Proofs.DocType.Descent
import LuaAmbient.Proofs.DocType.Forms
import LuaAmbient.Proofs.DocType.Grouping
import LuaAmbient.Proofs.DocType.Names
import LuaAmbient.Proofs.DocType.Printable
import LuaAmbient.Proofs.DocType.Reading
import LuaAmbient.Proofs.DocType.RoundTrip
import LuaAmbient.Proofs.DocType.Seamless
import LuaAmbient.Proofs.DocType.TableField
import LuaAmbient.Proofs.Emission.Comments
import LuaAmbient.Proofs.Emission.Imports
import LuaAmbient.Proofs.Emission.Owners
import LuaAmbient.Proofs.Emission.Resolution
import LuaAmbient.Proofs.Emission.Stubs
import LuaAmbient.Proofs.Except
import LuaAmbient.Proofs.FileTree.Basic
import LuaAmbient.Proofs.FileTree.Directory
import LuaAmbient.Proofs.FileTree.Listing
import LuaAmbient.Proofs.FileTree.Removal
import LuaAmbient.Proofs.FileTree.Traversal
import LuaAmbient.Proofs.FileTree.Walk
import LuaAmbient.Proofs.Generation.Accounting
import LuaAmbient.Proofs.Generation.Agreement
import LuaAmbient.Proofs.Generation.Batch
import LuaAmbient.Proofs.Generation.Effect
import LuaAmbient.Proofs.Generation.Fresh
import LuaAmbient.Proofs.Generation.History
import LuaAmbient.Proofs.Generation.Imports
import LuaAmbient.Proofs.Generation.Overwriting
import LuaAmbient.Proofs.Generation.Records
import LuaAmbient.Proofs.Generation.Rewriting
import LuaAmbient.Proofs.Generation.Scheduling
import LuaAmbient.Proofs.Generation.Skipping
import LuaAmbient.Proofs.Generation.Store
import LuaAmbient.Proofs.Generation.Target
import LuaAmbient.Proofs.Generation.Writing
import LuaAmbient.Proofs.Keyed
import LuaAmbient.Proofs.NameSet
import LuaAmbient.Proofs.Nesting
import LuaAmbient.Proofs.Nesting.Cuts
import LuaAmbient.Proofs.Nesting.Description
import LuaAmbient.Proofs.Nesting.Partner
import LuaAmbient.Proofs.Nesting.Parts
import LuaAmbient.Proofs.OutputDirectory
import LuaAmbient.Proofs.Project.Accounting
import LuaAmbient.Proofs.Project.Clean
import LuaAmbient.Proofs.Project.Frame
import LuaAmbient.Proofs.Project.Imports
import LuaAmbient.Proofs.Project.Outliving
import LuaAmbient.Proofs.Project.Overwriting
import LuaAmbient.Proofs.Project.Plan
import LuaAmbient.Proofs.Project.Recovery
import LuaAmbient.Proofs.Project.Rewriting
import LuaAmbient.Proofs.Project.Scheduling
import LuaAmbient.Proofs.Project.Verification
import LuaAmbient.Proofs.RunCache
import LuaAmbient.Proofs.RunCache.Session
import LuaAmbient.Proofs.Scan.Discovery
import LuaAmbient.Proofs.Scan.Stability
import LuaAmbient.Proofs.SourcePath
import LuaAmbient.Proofs.SourcePath.RelativeImport
import LuaAmbient.Proofs.Text.Blank
import LuaAmbient.Proofs.Text.Part
import LuaAmbient.Proofs.Text.Search
import LuaAmbient.Proofs.Text.Word
import LuaAmbient.Proofs.TypeScript.Grammar
import LuaAmbient.Proofs.TypeScript.LegalName
import LuaAmbient.Proofs.TypeScript.Meaning
import LuaAmbient.Proofs.TypeScript.OptionalName
import LuaAmbient.Proofs.TypeScript.Spelling
import LuaAmbient.Report
import LuaAmbient.RunCache
import LuaAmbient.Scan.Glob
import LuaAmbient.Scan.Ignore
import LuaAmbient.Scan.Sources
import LuaAmbient.Settings.Basic
import LuaAmbient.Settings.IntegerText
import LuaAmbient.Settings.Loading
import LuaAmbient.Settings.Validation
import LuaAmbient.Sorting
import LuaAmbient.SourceFix
import LuaAmbient.SourcePath
import LuaAmbient.Text.Alphanumeric
import LuaAmbient.Text.Blank
import LuaAmbient.Text.DecimalDigit
import LuaAmbient.Text.IdentifierContinue
import LuaAmbient.Text.IdentifierStart
import LuaAmbient.Text.Line
import LuaAmbient.Text.Quoted
import LuaAmbient.Text.Search
import LuaAmbient.Text.Utf8
import LuaAmbient.Text.Word
import LuaAmbient.TypeScript.Name
import LuaAmbient.TypeScript.TypeText
