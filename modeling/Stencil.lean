import Stencil.Main
import Stencil.Memory
import Stencil.Proofs.Nesting
import Stencil.Proofs.Interpretation
import Stencil.Proofs.Ancestors
import Stencil.Proofs.Openers
import Stencil.Proofs.Scanning
import Stencil.Proofs.Writing
import Stencil.Proofs.Agreement
import Stencil.Proofs.Building
import Stencil.Proofs.Rendering
import Stencil.Proofs.Preservation
import Stencil.Proofs.Literals
import Stencil.Proofs.Tiling
import Stencil.Proofs.Closing
import Stencil.Proofs.Dependence
import Stencil.Proofs.Freshness
import Stencil.Proofs.Coherence
import Stencil.Proofs.Bracketing
import Stencil.Proofs.Linking
import Stencil.Proofs.Derivation
import Stencil.Proofs.Parsing
import Stencil.Proofs.Acceptance
import Stencil.Proofs.Operations
import Stencil.Proofs.Failing
import Stencil.Proofs.Stepping
import Stencil.Proofs.Termination
import Stencil.Proofs.Blame
import Stencil.Proofs.Positions
import Stencil.Proofs.Strictness
import Stencil.Proofs.Visibility
import Stencil.Proofs.Guard
import Stencil.Proofs.Recorded
import Stencil.Proofs.Slots
import Stencil.Proofs.Spelling
import Stencil.Proofs.Printing
import Stencil.Proofs.Readback
import Stencil.Proofs.Fetching
import Stencil.Proofs.Steadiness
import Stencil.Proofs.Accounts
import Stencil.Proofs.Queries
import Stencil.Proofs.Verbatim
import Stencil.Proofs.Scoping
import Stencil.Proofs.Output
import Stencil.Proofs.Pieces
import Stencil.Proofs.Rounding
import Stencil.Proofs.Doubles
import Stencil.Proofs.Comparing
import Stencil.Proofs.Integers
import Stencil.Proofs.Directives
import Stencil.Proofs.Stripping
import Stencil.Proofs.Arena
import Stencil.Proofs.Jumps
import Stencil.Proofs.Frames
import Stencil.Proofs.Munching
