import TypedMirror.Main
import TypedMirror.Proofs.Synchronisation
import TypedMirror.Proofs.Coverage
import TypedMirror.Proofs.Recorded
import TypedMirror.Proofs.Rendering
import TypedMirror.Proofs.Contents
import TypedMirror.Proofs.Literals
import TypedMirror.Proofs.Idempotence
import TypedMirror.Proofs.Language
import TypedMirror.Proofs.Reidentification
import TypedMirror.Proofs.Patterns
import TypedMirror.Proofs.Calls
import TypedMirror.Proofs.OrderedMap
import TypedMirror.Proofs.Naming.Duplicates
import TypedMirror.Proofs.Interleaving
import TypedMirror.Proofs.Reordering
import TypedMirror.Proofs.Matching.Pieces
import TypedMirror.Proofs.Screening
import TypedMirror.Proofs.Scripts
import TypedMirror.Proofs.Declarations
import TypedMirror.Proofs.Encoding
import TypedMirror.Proofs.Literals.Operands
import TypedMirror.Proofs.Words.References
import TypedMirror.Proofs.Tiling.Bytes
import TypedMirror.Proofs.Stepwise
