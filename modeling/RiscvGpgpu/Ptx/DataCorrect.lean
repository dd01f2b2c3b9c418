import RiscvGpgpu.Ptx.DataEmission

/-!
# Which data movement is right

The lines that the emitter accepts leave what PTX defines exactly for the instructions below: moves
inside the class that the first letter tells, conversions that keep the bits, the conversion from
`.s32` to the nearest float, and parameters of 32 bits.
-/

namespace RiscvGpgpu.Ptx

open Asm (Line Machine Fpu run)
open Rv32 (LoadOp)
open RvEmitter

/-! ## Moves -/

section Mov

variable {isFloat : List Char → Bool} {dst name : List Char} {type : MovType} {axis : Axis}
  {r : PlaceReg} {v : ℤ}

end Mov

/-! ## Conversions -/

namespace IntType

def isWord (t : IntType) : Bool := t.loadOp = .lw

end IntType

namespace Cvt

/-- The conversions that keep the bits. -/
def keeps : Cvt → Bool
  | ints sat d a => d.isWord && a.isWord && (!sat || d = a)
  | floats rounding ftz sat => rounding = none && !ftz && !sat
  | toFloat _ _ _ | toInt _ _ _ _ | half _ => false

end Cvt

namespace Cvt

end Cvt

namespace Cvt

end Cvt

section Conversions

variable {isFloat : List Char → Bool} {dst src : List Char} {c : Cvt} {fpu : Fpu} {s : RvEmitter}
  {w : Rv32.Word}

end Conversions

/-! ## Parameters -/

section Parameters

variable {isFloat : List Char → Bool} {dst param : List Char} {type : MemType} {s s' : RvEmitter}

end Parameters

/-! ## All instructions -/

namespace DataInstr

end DataInstr

end RiscvGpgpu.Ptx
