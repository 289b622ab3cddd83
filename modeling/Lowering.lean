import Lowering.Pass
import Lowering.Arrays.Pass
import Lowering.Tree.Enum
import Lowering.Cache.WrapElement
import Lowering.Proofs.Cache.Identity
import Lowering.Proofs.Cache.Lifetime
import Lowering.Proofs.Cache.Coherence
import Lowering.Proofs.Cache.Refusal
import Lowering.Proofs.Cache.Integrity
import Lowering.Proofs.Cache.Mirrored
import Lowering.Proofs.Cache.Isolation.Reset
import Lowering.Proofs.Cache.Retry
import Lowering.Proofs.Cache.MethodTypes
import Lowering.Proofs.Cache.Enrichment
import Lowering.Proofs.Cache.Resolution
import Lowering.Proofs.Cache.Numbering
import Lowering.Proofs.Cache.RoundTrip.Elements
import Lowering.Proofs.Cache.RoundTrip.Types
import Lowering.Proofs.Symbols.ArrayTypes
import Lowering.Proofs.Tree.Parents
import Lowering.Proofs.Tree.Slots
import Lowering.Proofs.Tree.Children
import Lowering.Proofs.Tree.Copies
import Lowering.Proofs.Tree.Traversal
import Lowering.Proofs.Tree.Conversion
import Lowering.Proofs.Arrays.Refinement
import Lowering.Proofs.Arrays.Ownership
import Lowering.Proofs.Arrays.NormalForm
import Lowering.Proofs.Arrays.Signatures
import Lowering.Proofs.Arrays.Accesses
import Lowering.Proofs.Arrays.Types
import Lowering.Proofs.Arrays.Tours
import Lowering.Proofs.Arrays.Refusals
import Lowering.Proofs.Arrays.Modes.Renaming
