import Stencil.Diagnostic.Catalog
import Stencil.Main
import Stencil.Proofs.CommandLine.Agreement
import Stencil.Proofs.Generator.AllOrNothing
import Stencil.Proofs.Input.Faults
import Stencil.Proofs.Join.NestedLoop
import Stencil.Proofs.Parameters
import Stencil.Proofs.Query.Language
import Stencil.Proofs.Scope.Lookup
import Stencil.Proofs.Sections
import Stencil.Proofs.Table.Written
import Stencil.Proofs.Template.RoundTrip
import Stencil.Proofs.Input.Named
import Stencil.Proofs.Input.Globals
import Stencil.Proofs.Input.Placeholders
import Stencil.Proofs.Join.Reordered
import Stencil.Proofs.Scope.Reordered
import Stencil.Proofs.Input.Reordered
import Stencil.Proofs.Join.Faults
import Stencil.Proofs.Query.ErrorSpan
import Stencil.Proofs.Template.Grammar
import Stencil.Proofs.LineForm.Comment
import Stencil.Proofs.LineForm.Padding
import Stencil.Proofs.Scope.Rearranged
import Stencil.Proofs.Query.Blanks
import Stencil.Proofs.Query.Sides
import Stencil.Proofs.Table.Heading
import Stencil.Proofs.Table.Lines
import Stencil.Proofs.Template.Kept
import Stencil.Proofs.Diagnostic.Record
import Stencil.Proofs.Diagnostic.Snippet
import Stencil.Proofs.Query.Lossless
import Stencil.Proofs.LineForm.Cells
import Stencil.Proofs.Cleaning
