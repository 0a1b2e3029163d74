import TreeScribe.Main
import TreeScribe.Proofs.Scope.History
import TreeScribe.Proofs.Scope.Escapes
import TreeScribe.Tree.Make
import TreeScribe.Proofs.Layout.Laid
import TreeScribe.Proofs.Tree.Induction
import TreeScribe.Proofs.Render.Gives
import TreeScribe.Proofs.Render.Laid
import TreeScribe.Proofs.Render.Surface
import TreeScribe.Proofs.Render.Operand
import TreeScribe.Proofs.Read.Lexer
import TreeScribe.Proofs.Read.Operators
import TreeScribe.Proofs.Read.RoundTrip
import TreeScribe.Proofs.Render.Ending
import TreeScribe.Proofs.Render.Arrangement
import TreeScribe.Proofs.Render.Occurrences
import TreeScribe.Proofs.Source.Declarations
import TreeScribe.Proofs.Source.Names
import TreeScribe.Proofs.Analysis.Mentions
import TreeScribe.Proofs.Render.Formats
import TreeScribe.Proofs.Render.Declining
import TreeScribe.Proofs.Render.Consulted
import TreeScribe.Proofs.Render.Sharing
import TreeScribe.Proofs.Render.Repeats
import TreeScribe.Proofs.Render.Jumps
import TreeScribe.Proofs.Analysis.Noted
import TreeScribe.Proofs.Analysis.Reach
import TreeScribe.Proofs.Analysis.Targets
import TreeScribe.Proofs.Render.Imports
import TreeScribe.Proofs.Layout.Shift
import TreeScribe.Proofs.Layout.Strokes
import TreeScribe.Proofs.Source.Layers
import TreeScribe.Proofs.Analysis.Plain
import TreeScribe.Proofs.Render.Balanced
import TreeScribe.Proofs.Render.Statements
import TreeScribe.Proofs.Source.WellFormed
import TreeScribe.Proofs.Json.Field
import TreeScribe.Proofs.Tree.Stored
import TreeScribe.Proofs.TypeRef.Substitution
import TreeScribe.Proofs.Source.ValidNames
import TreeScribe.Proofs.Layout.Metrics
import TreeScribe.Proofs.Render.Metrics
import TreeScribe.Proofs.TypeRef.Shares
import TreeScribe.Proofs.Render.Initializers
import TreeScribe.Proofs.Render.Signs
import TreeScribe.Proofs.TypeRef.Namespaces
import TreeScribe.Proofs.Render.Literals
import TreeScribe.Proofs.Source.Comments
import TreeScribe.Proofs.Settings.Layer
import TreeScribe.Proofs.Command.Failures
import TreeScribe.Proofs.Scope.WellFormed
import TreeScribe.Proofs.Analysis.Confined
import TreeScribe.Proofs.Render.Depth
import TreeScribe.Proofs.Source.Numbering
import TreeScribe.Proofs.TypeRef.Cursor
