import Stencil.Proofs.FileSystem.Repeated
import Stencil.Proofs.Tree.LastWriter
/-!
# A pass over its own results

A pass that succeeded, done again where it ended, does the same deed for every node and leaves the same
files, as long as it does not write over what it reads.

    d.perform turn = (next, none) → Retraces final turn fs →
      ∃ fs', d.perform fs = (fs', none) ∧ Retraces final next fs'        if next extends to final
    Run pass base p ns ds p' → ∃ q', Run pass base q ns ds q'            if q retraces p
-/

namespace Stencil

open FileSystem

/-! ## Deeds -/

namespace Deed

end Deed

/-! ## Nodes -/

namespace Pass

section
variable {pass : Pass} {base : Path}

variable {ns : List Node} {ds : List Deed} {p p' : Progress} (hrun : Run pass base p ns ds p')
include hrun

end

/-! ## Trees -/

end Pass

end Stencil
