import WireSchema.Main
import WireSchema.Proofs.Layout.Ordinals
import WireSchema.Proofs.Layout.Bytes
import WireSchema.Proofs.Layout.Valid
import WireSchema.Proofs.Layout.Stability
import WireSchema.Proofs.Layout.Greedy
import WireSchema.Proofs.Layout.Exact
import WireSchema.Proofs.Workspace.Cache
import WireSchema.Proofs.Workspace.Cycles
import WireSchema.Proofs.Token.Lexeme
import WireSchema.Proofs.Token.Split
import WireSchema.Proofs.Token.Written
import WireSchema.Proofs.Token.Requests
import WireSchema.Proofs.Module.Closed
import WireSchema.Proofs.Workspace.Closed
import WireSchema.Proofs.Grammar.Nesting
import WireSchema.Proofs.Grammar.Soundness
import WireSchema.Proofs.Grammar.Completeness
import WireSchema.Proofs.Grammar.Rendering
import WireSchema.Proofs.Module.Integers
import WireSchema.Proofs.Module.Values
import WireSchema.Proofs.Grammar.Identifiers
import WireSchema.Proofs.Module.Order
import WireSchema.Proofs.Grammar.Lines
import WireSchema.Proofs.Module.Lines
import WireSchema.Proofs.Workspace.Formatting
import WireSchema.Proofs.Workspace.Linked
import WireSchema.Proofs.Workspace.Session
import WireSchema.Proofs.Workspace.Blame
import WireSchema.Proofs.Module.Kinds
import WireSchema.Proofs.Module.Unambiguous
import WireSchema.Proofs.Module.Hiding
import WireSchema.Proofs.Module.Constants
import WireSchema.Proofs.Layout.Numbering
import WireSchema.Proofs.Grammar.FaultLines
import WireSchema.Proofs.Grammar.Diagnostics
import WireSchema.Proofs.Workspace.LayoutNames
import WireSchema.Proofs.Workspace.Grounded
import WireSchema.Proofs.Module.MethodOrdinals
import WireSchema.Proofs.Layout.Words
import WireSchema.Proofs.Module.Specs
import WireSchema.Proofs.Workspace.Paths
import WireSchema.Proofs.Workspace.Shown
import WireSchema.Proofs.Invocation.Writes
import WireSchema.Proofs.Invocation.Outputs
import WireSchema.Proofs.Grammar.TypeText
import WireSchema.Proofs.Module.Literals
