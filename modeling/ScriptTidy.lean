import ScriptTidy.Text.Category
import ScriptTidy.Text.Utf8
import ScriptTidy.Text.Display
import ScriptTidy.Text.Escape
import ScriptTidy.Text.Capital
import ScriptTidy.Number.Canonical
import ScriptTidy.Syntax.Node
import ScriptTidy.Order.Key
import ScriptTidy.Comments.Attach
import ScriptTidy.Style.Equality
import ScriptTidy.Style.Braces
import ScriptTidy.Style.Cases
import ScriptTidy.Style.Capitals
import ScriptTidy.Style.Declarations
import ScriptTidy.Style.Members
import ScriptTidy.Settings.Options
import ScriptTidy.Style.Plan
import ScriptTidy.Layout.Print
import ScriptTidy.Concrete.Fault
import ScriptTidy.Concrete.Read
import ScriptTidy.Grammar.Token
import ScriptTidy.Grammar.Operation
import ScriptTidy.Grammar.Target
import ScriptTidy.Grammar.Expression
import ScriptTidy.Grammar.Script
import ScriptTidy.Session
import ScriptTidy.Command.Flag
import ScriptTidy.Command.Arguments
import ScriptTidy.Command.Path
import ScriptTidy.Command.Files
import ScriptTidy.Command.Disk
import ScriptTidy.Command.Run
import ScriptTidy.Main
import ScriptTidy.Proofs.Syntax.Addresses
import ScriptTidy.Proofs.Comments.Passes
import ScriptTidy.Proofs.Comments.Conservation
import ScriptTidy.Proofs.Comments.Placement
import ScriptTidy.Proofs.Style.Features
import ScriptTidy.Proofs.Order.Sorting
import ScriptTidy.Proofs.Style.Cases
import ScriptTidy.Proofs.Style.Bodies
import ScriptTidy.Proofs.Style.Declarations
import ScriptTidy.Proofs.Style.Members
import ScriptTidy.Proofs.Style.Rules
import ScriptTidy.Proofs.Style.Descent
import ScriptTidy.Proofs.Style.Gathering
import ScriptTidy.Proofs.Style.Order
import ScriptTidy.Proofs.Style.Invariants
import ScriptTidy.Proofs.Style.Dangling
import ScriptTidy.Proofs.Style.Bracing
import ScriptTidy.Proofs.Style.NeedlessBraces
import ScriptTidy.Proofs.Style.Dispatch
import ScriptTidy.Proofs.Style.Fallthrough
import ScriptTidy.Proofs.Style.Separation
import ScriptTidy.Proofs.Style.Strictness
import ScriptTidy.Proofs.Style.Ownership
import ScriptTidy.Proofs.Text.Quoting
import ScriptTidy.Proofs.Number.Canonical
import ScriptTidy.Proofs.Number.Integers
import ScriptTidy.Proofs.Number.Spelling
import ScriptTidy.Proofs.Style.Keys
import ScriptTidy.Proofs.Style.Plan
import ScriptTidy.Proofs.Style.Again
import ScriptTidy.Proofs.Style.Duplicates
import ScriptTidy.Proofs.Style.RunOrder
import ScriptTidy.Proofs.Layout.Pieces
import ScriptTidy.Proofs.Layout.Shape
import ScriptTidy.Proofs.Layout.Comments
import ScriptTidy.Proofs.Layout.Lines
import ScriptTidy.Proofs.Layout.Leading
import ScriptTidy.Proofs.Layout.Rendering
import ScriptTidy.Proofs.Layout.Faults
import ScriptTidy.Proofs.Concrete.Bare
import ScriptTidy.Proofs.Concrete.Fresh
import ScriptTidy.Proofs.Concrete.Literals
import ScriptTidy.Proofs.Format.Stages
import ScriptTidy.Proofs.Format.Repeat
import ScriptTidy.Proofs.Format.ReadBack
import ScriptTidy.Proofs.Format.Comments
import ScriptTidy.Proofs.Format.Reading
import ScriptTidy.Proofs.Format.Sessions
import ScriptTidy.Proofs.Layout.Places
import ScriptTidy.Proofs.Layout.Templates
import ScriptTidy.Proofs.Syntax.Replacing
import ScriptTidy.Proofs.Layout.Rewording
import ScriptTidy.Proofs.Command.Batch
import ScriptTidy.Proofs.Command.Disk
import ScriptTidy.Proofs.Command.Replace
import ScriptTidy.Proofs.Command.Visits
import ScriptTidy.Proofs.Layout.Normal
import ScriptTidy.Proofs.Layout.Rows
import ScriptTidy.Proofs.Layout.Brackets
import ScriptTidy.Proofs.Comments.Order
import ScriptTidy.Proofs.Concrete.Lowered
import ScriptTidy.Proofs.Layout.FirstLine
import ScriptTidy.Proofs.Format.Hashbang
import ScriptTidy.Proofs.Concrete.Errors
import ScriptTidy.Proofs.Format.Recursion
import ScriptTidy.Proofs.Format.Holes
import ScriptTidy.Proofs.Style.Comparison
