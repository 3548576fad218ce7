import XmlRecords.BoundSchema
import XmlRecords.Codec
import XmlRecords.Codec.Fault
import XmlRecords.CommandLine
import XmlRecords.CommandLine.Arguments
import XmlRecords.CommandLine.Markup
import XmlRecords.CommandLine.Table
import XmlRecords.Enumeration
import XmlRecords.Fault
import XmlRecords.FileStore
import XmlRecords.Identifier
import XmlRecords.Intake
import XmlRecords.Json.Basic
import XmlRecords.Json.Reader
import XmlRecords.Main
import XmlRecords.ModuleSource.CodecTable
import XmlRecords.ModuleSource.FieldSource
import XmlRecords.ModuleSource.Generation
import XmlRecords.ModuleSource.Line
import XmlRecords.ModuleSource.Module
import XmlRecords.ModuleSource.OfSchema
import XmlRecords.ModuleSource.RecordClass
import XmlRecords.Notice
import XmlRecords.Number.Binary64
import XmlRecords.Number.NumberText
import XmlRecords.Number.Shortest
import XmlRecords.Occurrence
import XmlRecords.Record.Access
import XmlRecords.Record.Canonical
import XmlRecords.Record.FromElement
import XmlRecords.Record.Type
import XmlRecords.Schema.Basic
import XmlRecords.Schema.Bundled
import XmlRecords.Schema.Bundled.ApexInfoList
import XmlRecords.Schema.Bundled.AudioPolicyConfiguration
import XmlRecords.Schema.Bundled.Builder
import XmlRecords.Schema.Catalog
import XmlRecords.Schema.Definition
import XmlRecords.Schema.Dependency
import XmlRecords.Schema.Edit
import XmlRecords.Schema.Problem
import XmlRecords.Schema.Validity
import XmlRecords.Text.Blank
import XmlRecords.Text.Capital
import XmlRecords.Text.DecimalDigit
import XmlRecords.Text.Hexadecimal
import XmlRecords.Text.IdentifierChar
import XmlRecords.Text.Literal
import XmlRecords.Text.LiteralValue
import XmlRecords.Text.Printable
import XmlRecords.Text.Quoted
import XmlRecords.Value
import XmlRecords.Value.Same
import XmlRecords.Value.Shown
import XmlRecords.Xml.Char
import XmlRecords.Xml.ContentModel
import XmlRecords.Xml.Declaration
import XmlRecords.Xml.Document
import XmlRecords.Xml.Encoding
import XmlRecords.Xml.Entity
import XmlRecords.Xml.Escape
import XmlRecords.Xml.Inclusion
import XmlRecords.Xml.LineEnd
import XmlRecords.Xml.Location
import XmlRecords.Xml.Namespace
import XmlRecords.Xml.Node
import XmlRecords.Xml.Piece
import XmlRecords.Xml.Raw
import XmlRecords.Xml.Subset
import XmlRecords.Xml.Token
import XmlRecords.Proofs.Outcomes
import XmlRecords.Proofs.RecordShape
import XmlRecords.Proofs.Reading
import XmlRecords.Proofs.ReadingFaults
import XmlRecords.Proofs.Binding
import XmlRecords.Proofs.BoundReading
import XmlRecords.Proofs.Runs
import XmlRecords.Proofs.Tolerance
import XmlRecords.Proofs.Forest
import XmlRecords.Proofs.Items
import XmlRecords.Proofs.Writing
import XmlRecords.Proofs.Characters
import XmlRecords.Proofs.CodecText
import XmlRecords.Proofs.DeclaredCharacters
import XmlRecords.Proofs.ItemReadBack
import XmlRecords.Proofs.Loading
import XmlRecords.Proofs.RecordReadBack
import XmlRecords.Proofs.RoundTrip
import XmlRecords.Proofs.Dependency
import XmlRecords.Proofs.Validity
import XmlRecords.Proofs.Resolution
import XmlRecords.Proofs.Faithfulness
import XmlRecords.Proofs.Naming
import XmlRecords.Proofs.Realizability
import XmlRecords.Proofs.ItemSettling
import XmlRecords.Proofs.RecordSettling
import XmlRecords.Proofs.Canonicalisation
import XmlRecords.Proofs.CodecConstants
import XmlRecords.Proofs.CodecFaults
import XmlRecords.Proofs.Counterpart
import XmlRecords.Proofs.DeclarationOrder
import XmlRecords.Proofs.Drafting
import XmlRecords.Proofs.EmittedClasses
import XmlRecords.Proofs.GeneratedApi
import XmlRecords.Proofs.IntakeFaults
import XmlRecords.Proofs.EmittedModules
import XmlRecords.Proofs.Passing
import XmlRecords.Proofs.Rearrangement
import XmlRecords.Proofs.SameSchema
import XmlRecords.Proofs.Sites
import XmlRecords.Proofs.DependencyOrder
import XmlRecords.Proofs.Accessors
import XmlRecords.Proofs.AttributeOrder
import XmlRecords.Proofs.DefinitionFaults
import XmlRecords.Proofs.JsonFaults
import XmlRecords.Proofs.LoadingFaults
import XmlRecords.Proofs.Retagging
import XmlRecords.Proofs.EmptyAttributes
import XmlRecords.Proofs.TagConversion
import XmlRecords.Proofs.LiteralReadBack
import XmlRecords.Proofs.ModuleLiterals
import XmlRecords.Proofs.CapitalForms
import XmlRecords.Proofs.ModuleNames
import XmlRecords.Proofs.IntegerText
import XmlRecords.Proofs.EscapedContent
import XmlRecords.Proofs.CatalogIndex
import XmlRecords.Proofs.CatalogRuns
import XmlRecords.Proofs.BoundNames
import XmlRecords.Proofs.ListText
import XmlRecords.Proofs.SafeNames
import XmlRecords.Proofs.CodecReferences
