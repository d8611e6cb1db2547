import Ferrotype.Command.Arguments
import Ferrotype.Command.Run
import Ferrotype.Files.Path
import Ferrotype.Files.Tree
import Ferrotype.Grammar.Attribute
import Ferrotype.Grammar.Basic
import Ferrotype.Grammar.Cursor
import Ferrotype.Grammar.Expr
import Ferrotype.Grammar.Fault
import Ferrotype.Grammar.Function
import Ferrotype.Grammar.Item
import Ferrotype.Grammar.Path
import Ferrotype.Grammar.Rule
import Ferrotype.Grammar.TokenTree
import Ferrotype.Grammar.Type
import Ferrotype.Json.Reader
import Ferrotype.Json.Value
import Ferrotype.Main
import Ferrotype.Noted
import Ferrotype.Notice
import Ferrotype.Options
import Ferrotype.Options.Document
import Ferrotype.Options.File
import Ferrotype.Output.Declaration
import Ferrotype.Output.Doc
import Ferrotype.Output.Module
import Ferrotype.Position
import Ferrotype.Proofs.Accounted
import Ferrotype.Proofs.Apart
import Ferrotype.Proofs.Balanced
import Ferrotype.Proofs.BlockComments
import Ferrotype.Proofs.Command.Arguments
import Ferrotype.Proofs.Delivery
import Ferrotype.Proofs.Discriminants
import Ferrotype.Proofs.DocComments
import Ferrotype.Proofs.DocText
import Ferrotype.Proofs.EnumLines
import Ferrotype.Proofs.Except
import Ferrotype.Proofs.FieldNames
import Ferrotype.Proofs.Files.Paths
import Ferrotype.Proofs.Files.Write
import Ferrotype.Proofs.Grammar.Climb
import Ferrotype.Proofs.Grammar.Complete
import Ferrotype.Proofs.Grammar.Exposed
import Ferrotype.Proofs.Grammar.Exprs
import Ferrotype.Proofs.Grammar.File
import Ferrotype.Proofs.Grammar.Follows
import Ferrotype.Proofs.Grammar.Frame
import Ferrotype.Proofs.Grammar.Functions
import Ferrotype.Proofs.Grammar.Items
import Ferrotype.Proofs.Grammar.Join
import Ferrotype.Proofs.Grammar.Lines
import Ferrotype.Proofs.Grammar.Lists
import Ferrotype.Proofs.Grammar.Mismatch
import Ferrotype.Proofs.Grammar.Nesting
import Ferrotype.Proofs.Grammar.Operators
import Ferrotype.Proofs.Grammar.Paths
import Ferrotype.Proofs.Grammar.Printed
import Ferrotype.Proofs.Grammar.Run
import Ferrotype.Proofs.Grammar.Shape
import Ferrotype.Proofs.Grammar.Trees
import Ferrotype.Proofs.Grammar.TypeComplete
import Ferrotype.Proofs.Grammar.TypeParts
import Ferrotype.Proofs.Grammar.TypePaths
import Ferrotype.Proofs.Grammar.TypeWords
import Ferrotype.Proofs.Grammar.Types
import Ferrotype.Proofs.Halting
import Ferrotype.Proofs.Halting.Items
import Ferrotype.Proofs.Halting.Steps
import Ferrotype.Proofs.Halting.Types
import Ferrotype.Proofs.Headers
import Ferrotype.Proofs.Integers
import Ferrotype.Proofs.Join
import Ferrotype.Proofs.Json.Distinct
import Ferrotype.Proofs.LastDeclared
import Ferrotype.Proofs.LineEnds
import Ferrotype.Proofs.Located
import Ferrotype.Proofs.Notices.Groups
import Ferrotype.Proofs.OptionalFields
import Ferrotype.Proofs.OptionalTypes
import Ferrotype.Proofs.Options.Sections
import Ferrotype.Proofs.OptionsDocuments
import Ferrotype.Proofs.OptionsFiles
import Ferrotype.Proofs.Output.Level
import Ferrotype.Proofs.Output.Order
import Ferrotype.Proofs.Partition
import Ferrotype.Proofs.Patterns
import Ferrotype.Proofs.Plain.Declarations
import Ferrotype.Proofs.Plain.Items
import Ferrotype.Proofs.Plain.Parts
import Ferrotype.Proofs.Plain.Syntax
import Ferrotype.Proofs.Plain.Text
import Ferrotype.Proofs.Plain.Types
import Ferrotype.Proofs.Precedence
import Ferrotype.Proofs.Relevant
import Ferrotype.Proofs.Reordered
import Ferrotype.Proofs.Reports
import Ferrotype.Proofs.Resolution
import Ferrotype.Proofs.Reworded.Items
import Ferrotype.Proofs.Reworded.Outlines
import Ferrotype.Proofs.Reworded.Steps
import Ferrotype.Proofs.Reworded.Trees
import Ferrotype.Proofs.Reworded.Types
import Ferrotype.Proofs.RoundTrip
import Ferrotype.Proofs.Runs
import Ferrotype.Proofs.Schema.Accounts
import Ferrotype.Proofs.Schema.Docs
import Ferrotype.Proofs.Schema.Join
import Ferrotype.Proofs.Schema.Names
import Ferrotype.Proofs.Schema.TypeFront
import Ferrotype.Proofs.Schema.TypeText
import Ferrotype.Proofs.Sessions
import Ferrotype.Proofs.Shifts
import Ferrotype.Proofs.Strings
import Ferrotype.Proofs.Text.Ascii
import Ferrotype.Proofs.Text.Classes
import Ferrotype.Proofs.Text.JsonString
import Ferrotype.Proofs.Text.Newlines
import Ferrotype.Proofs.Text.Quoted
import Ferrotype.Proofs.Text.Utf8
import Ferrotype.Proofs.Token.Alone
import Ferrotype.Proofs.Token.Append
import Ferrotype.Proofs.Token.Comment
import Ferrotype.Proofs.Token.Escapes
import Ferrotype.Proofs.Token.Integer
import Ferrotype.Proofs.Token.Join
import Ferrotype.Proofs.Token.Kinds
import Ferrotype.Proofs.Token.Local
import Ferrotype.Proofs.Token.Newlines
import Ferrotype.Proofs.Token.Number
import Ferrotype.Proofs.Token.Spaced
import Ferrotype.Proofs.Token.Spelled
import Ferrotype.Proofs.Token.Words
import Ferrotype.Proofs.TokenTrees
import Ferrotype.Proofs.Types
import Ferrotype.Proofs.Unambiguous
import Ferrotype.Schema.Declaration
import Ferrotype.Schema.Extract
import Ferrotype.Schema.Name
import Ferrotype.Schema.Resolve
import Ferrotype.Schema.Type
import Ferrotype.Session
import Ferrotype.SyntaxError
import Ferrotype.Text.Character
import Ferrotype.Text.Digits
import Ferrotype.Text.JsonString
import Ferrotype.Text.LetterTable
import Ferrotype.Text.Lines
import Ferrotype.Text.Parts
import Ferrotype.Text.PrintableTable
import Ferrotype.Text.Quoted
import Ferrotype.Text.UppercaseTable
import Ferrotype.Text.Utf8
import Ferrotype.Token.Basic
import Ferrotype.Token.Keyword
import Ferrotype.Token.Lexeme
import Ferrotype.Token.Literal
import Ferrotype.Token.Partition
import Ferrotype.Token.Punct
import Ferrotype.Token.Scan
import Ferrotype.Transpile
import Ferrotype.Tree.Basic
import Ferrotype.Tree.Item
import Ferrotype.Tree.Outline
