import CheckedThrows.Ast.Find
import CheckedThrows.Main
import CheckedThrows.Proofs.ReorderedSources
import CheckedThrows.Proofs.SourceOrder
import CheckedThrows.Proofs.SuppressedFindings
import CheckedThrows.Proofs.Invocations
import CheckedThrows.Proofs.NameReads
import CheckedThrows.Proofs.Rethrows
import CheckedThrows.Proofs.ClassHierarchy
import CheckedThrows.Proofs.Inlining
import CheckedThrows.Proofs.ViablePrefixes
import CheckedThrows.Proofs.MarkedPrograms
import CheckedThrows.Proofs.EscapedContents
import CheckedThrows.Proofs.Distances
import CheckedThrows.Proofs.Overlays
import CheckedThrows.Proofs.FunctionTypes
import CheckedThrows.Proofs.Traversals
import CheckedThrows.Proofs.IgnoreDirectives
