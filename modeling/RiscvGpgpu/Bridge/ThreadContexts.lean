import Mathlib.Data.List.Basic
import Mathlib.Data.BitVec

/-!
# Thread contexts

`computeThreadContexts` of the host runtime. Counts and ids are 32 bits wide, and so are their
products.
-/

namespace RiscvGpgpu.Bridge

/-- The three dimensions of a grid or a block, or a place in one. -/
structure Dim3 where
  x : BitVec 32
  y : BitVec 32
  z : BitVec 32
deriving DecidableEq

/-- `std::max(1u, x)`. -/
def atLeastOne (x : BitVec 32) : BitVec 32 := if 1 < x then x else 1

namespace Dim3

variable (e : Dim3)

def atLeastOne : Dim3 := ⟨Bridge.atLeastOne e.x, Bridge.atLeastOne e.y, Bridge.atLeastOne e.z⟩

def product : BitVec 32 := e.x * e.y * e.z

/-- The place with number `i`, `x` fastest. -/
def place (i : BitVec 32) : Dim3 := ⟨i % e.x, i / e.x % e.y, i / (e.x * e.y)⟩

end Dim3

/-- What `runtime/src/host_runtime.h` keeps for a thread. -/
structure ThreadContext where
  tid : Dim3
  ctaid : Dim3
  ntid : Dim3
  globalId : BitVec 32
deriving DecidableEq

/-- A turn of the loop. No divisor is zero in one that is taken, or there would be no threads. -/
def threadContext (grid block : Dim3) (t : BitVec 32) : ThreadContext where
  tid := block.place (t % block.product)
  ctaid := grid.place (t / block.product)
  ntid := block
  globalId := t

def computeThreadContexts (grid block : Dim3) : List ThreadContext :=
  let grid := grid.atLeastOne
  let block := block.atLeastOne
  let totalThreads := grid.product * block.product
  (List.range totalThreads.toNat).map fun t => threadContext grid block (BitVec.ofNat 32 t)

end RiscvGpgpu.Bridge
