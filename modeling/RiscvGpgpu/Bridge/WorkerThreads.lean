import RiscvGpgpu.Bridge.LoopRules
import RiscvGpgpu.Golden.StepFootprint
import RiscvGpgpu.Lib.Interleaving

/-!
# The workers as threads over one memory

A worker is a thread of its block. The cells at the context symbol are left out: every step begins
with the worker's own context in them, whatever the others have left there.
-/

namespace RiscvGpgpu.Bridge

open Golden (Address BlockId Byte Cell MemoryHierarchy HostFloat BinaryUnit byteCells)
open Golden (AgreeOn SameLayout)

section Context

/-- The cells that every step begins by overwriting, if the memory has them all. -/
def Launch.contextCells (L : Launch) (W : BitVec 32) (m : MemoryHierarchy) : List Cell :=
  match L.contextSymbol with
  | some address =>
    if (Golden.readCells m.cellByte (byteCells W 0 (address.setWidth 64) 48)).isSome then
      byteCells W 0 (address.setWidth 64) 48
    else []
  | none => []

theorem length_bytes (ctx : CudaThreadCtx) : ctx.bytes.length = 48 := rfl

variable {L : Launch} {W : BitVec 32} {m₀ m n : MemoryHierarchy} {ctx : CudaThreadCtx} {c : Cell}

/-- Memories with the same cells have the same of them in a list. -/
theorem isSome_readCells_layout (h : SameLayout W m₀ m) (cs : List Cell) :
    (Golden.readCells m.cellByte cs).isSome = (Golden.readCells m₀.cellByte cs).isSome := by
  rw [Golden.isSome_readCells, Golden.isSome_readCells]
  congr 1
  funext c
  exact h.cells c

theorem contextCells_layout (h : SameLayout W m₀ m) :
    L.contextCells W m = L.contextCells W m₀ := by
  unfold Launch.contextCells
  cases L.contextSymbol with
  | none => rfl
  | some address =>
    dsimp only
    rw [isSome_readCells_layout h]

theorem writeBytes_layout (h : SameLayout W m₀ m) (addr : Address) (data : List Byte)
    (blockId : BlockId) : SameLayout W m₀ (m.writeBytes addr data blockId) := by
  refine ⟨h.windowed.writeBytes _ _ _, fun c => ?_⟩
  rw [MemoryHierarchy.cellByte_writeBytes h.windowed, Golden.isSome_writeCells, h.cells]

theorem withContext_layout (h : SameLayout W m₀ m) : SameLayout W m₀ (L.withContext ctx m) := by
  unfold Launch.withContext
  cases L.contextSymbol with
  | none => exact h
  | some address => exact writeBytes_layout h _ _ _

/-- Outside the context cells nothing changes. -/
theorem withContext_frame (h : SameLayout W m₀ m) (hc : c ∉ L.contextCells W m₀) :
    (L.withContext ctx m).cellByte c = m.cellByte c := by
  unfold Launch.withContext
  unfold Launch.contextCells at hc
  cases hsym : L.contextSymbol with
  | none => rfl
  | some address =>
    rw [hsym] at hc
    dsimp only at hc ⊢
    rw [MemoryHierarchy.cellByte_writeBytes h.windowed, length_bytes]
    split_ifs at hc with hall
    · exact Golden.writeCells_frame hc
    · unfold Golden.writeCells
      rw [isSome_readCells_layout h, if_neg hall]

/-- The context cells hold the context, whatever was in them. -/
theorem withContext_congr (hm : SameLayout W m₀ m) (hn : SameLayout W m₀ n)
    (hc : c ∈ L.contextCells W m₀) :
    (L.withContext ctx m).cellByte c = (L.withContext ctx n).cellByte c := by
  unfold Launch.withContext
  unfold Launch.contextCells at hc
  cases hsym : L.contextSymbol with
  | none =>
    rw [hsym] at hc
    exact absurd hc List.not_mem_nil
  | some address =>
    rw [hsym] at hc
    dsimp only at hc ⊢
    split_ifs at hc with hall
    · rw [MemoryHierarchy.cellByte_writeBytes hm.windowed,
        MemoryHierarchy.cellByte_writeBytes hn.windowed, length_bytes]
      unfold Golden.writeCells
      rw [isSome_readCells_layout hm, isSome_readCells_layout hn, if_pos hall, if_pos hall]
      refine Golden.overwrite_mem ?_ hc
      rw [length_bytes]
      exact Golden.length_byteCells_le ..
    · exact absurd hc List.not_mem_nil

/-- Memories that agree outside the context cells agree when a context is put into them. -/
theorem withContext_agree (hm : SameLayout W m₀ m) (hn : SameLayout W m₀ n) {cs : List Cell}
    (h : ∀ c ∈ cs, c ∉ L.contextCells W m₀ → m.cellByte c = n.cellByte c) :
    AgreeOn cs (L.withContext ctx m) (L.withContext ctx n) := by
  intro c hc
  by_cases hctx : c ∈ L.contextCells W m₀
  · exact withContext_congr hm hn hctx
  · rw [withContext_frame hm hctx, withContext_frame hn hctx]
    exact h c hc hctx

end Context

/-! ## The threads -/

section Threads

variable (F : HostFloat) (L : Launch) (W : BitVec 32) (m₀ : MemoryHierarchy)

/-- Those of some cells that no context hides. -/
def visible (cs : List Cell) : Set Cell := {c | c ∈ cs ∧ c ∉ L.contextCells W m₀}

/-- The byte of a cell that no context hides. -/
def visibleByte (m : MemoryHierarchy) (c : Cell) : Option Byte :=
  if c ∈ L.contextCells W m₀ then none else m.cellByte c

/-- The cells that a step goes to, from the memory before the context is put into it. -/
def stepAccessed (ctx : CudaThreadCtx) (x : Option BinaryUnit) (m : MemoryHierarchy) : Set Cell :=
  match x with
  | some cu => visible L W m₀ (cu.accessed W (cu.executes (L.withContext ctx m)))
  | none => ∅

/-- The cells that a step stores to. -/
def stepWritten (ctx : CudaThreadCtx) (x : Option BinaryUnit) (m : MemoryHierarchy) : Set Cell :=
  match x with
  | some cu => visible L W m₀ (cu.written W (cu.executes (L.withContext ctx m)))
  | none => ∅

variable {F L W m₀} {ctx : CudaThreadCtx} {cu cu' : BinaryUnit} {m n m' : MemoryHierarchy}

theorem withContext_visible (hm : SameLayout W m₀ m) (hn : SameLayout W m₀ n) {cs : List Cell}
    (h : ∀ c ∈ visible L W m₀ cs, visibleByte L W m₀ m c = visibleByte L W m₀ n c) :
    AgreeOn cs (L.withContext ctx m) (L.withContext ctx n) := by
  refine withContext_agree hm hn fun c hc hctx => ?_
  have hbyte := h c ⟨hc, hctx⟩
  unfold visibleByte at hbyte
  rwa [if_neg hctx, if_neg hctx] at hbyte

/-- What a step does to the cells that no context hides. -/
theorem step_visible (hm : SameLayout W m₀ m)
    (h : cu.step F (L.withContext ctx m) = some (cu', m')) :
    SameLayout W m₀ m' ∧ ∀ c ∉ stepWritten L W m₀ ctx (some cu) m,
      visibleByte L W m₀ m' c = visibleByte L W m₀ m c := by
  have hctx : SameLayout W m₀ (L.withContext ctx m) := withContext_layout hm
  obtain ⟨⟨hlayout, hframe⟩, -⟩ := BinaryUnit.step_local hctx.windowed h
  refine ⟨⟨hlayout.windowed, fun c => (hlayout.cells c).trans (hctx.cells c)⟩, fun c hc => ?_⟩
  unfold visibleByte
  split_ifs with hhidden
  · rfl
  · have hnot : c ∉ cu.written W (cu.executes (L.withContext ctx m)) := fun hmem =>
      hc ⟨hmem, hhidden⟩
    rw [hframe c hnot, withContext_frame hm hhidden]

theorem executes_visible (hm : SameLayout W m₀ m) (hn : SameLayout W m₀ n)
    (h : ∀ c ∈ stepAccessed L W m₀ ctx (some cu) m,
      visibleByte L W m₀ m c = visibleByte L W m₀ n c) :
    cu.executes (L.withContext ctx n) = cu.executes (L.withContext ctx m) :=
  BinaryUnit.executes_congr (withContext_layout hm).windowed (withContext_layout hn).windowed
    (withContext_visible hm hn h)

theorem step_visible_eq (hm : SameLayout W m₀ m) (hn : SameLayout W m₀ n)
    (h : ∀ c ∈ stepAccessed L W m₀ ctx (some cu) m,
      visibleByte L W m₀ m c = visibleByte L W m₀ n c)
    (hstep : cu.step F (L.withContext ctx m) = some (cu', m')) :
    ∃ n', cu.step F (L.withContext ctx n) = some (cu', n') ∧
      ∀ c ∈ stepWritten L W m₀ ctx (some cu) m,
        visibleByte L W m₀ m' c = visibleByte L W m₀ n' c := by
  obtain ⟨-, hother⟩ := BinaryUnit.step_local (withContext_layout hm).windowed hstep
  obtain ⟨n', hn', hnew⟩ := hother _ (withContext_layout hn).windowed (withContext_visible hm hn h)
  refine ⟨n', hn', fun c hc => ?_⟩
  unfold visibleByte
  rw [if_neg hc.2, if_neg hc.2]
  exact hnew c hc.1

variable (F L W m₀) (block : ℕ → Option BlockId) (ctxs : ℕ → CudaThreadCtx)

/-- The workers' steps, for workers of these blocks with these contexts. -/
def workerThreads : Interleaving.Threads ℕ (Option BlockId) (Option BinaryUnit) Word
    MemoryHierarchy Cell (Option Byte) where
  block := block
  get := visibleByte L W m₀
  valid m := SameLayout W m₀ m
  runs x := ∃ cu, x = some cu ∧ cu.halted = false ∧ cu.blocked = false
  waits x k := ∃ cu, x = some cu ∧ cu.blocked = true ∧ cu.barrierId = k
  resume x := x.map fun cu => { cu with blocked := false }
  step i x m := x.bind fun cu =>
    (cu.step F (L.withContext (ctxs i) m)).map fun r => (some r.1, r.2)
  accessed i x m := stepAccessed L W m₀ (ctxs i) x m
  written i x m := stepWritten L W m₀ (ctxs i) x m
  not_waits := by
    rintro _ k ⟨cu, rfl, -, hblocked⟩ ⟨cu', heq, hblocked', -⟩
    obtain rfl := Option.some.inj heq
    exact Bool.false_ne_true (hblocked.symm.trans hblocked')
  written_subset := by
    rintro i x m c hc
    cases x with
    | none => exact hc
    | some cu => exact ⟨BinaryUnit.written_subset _ hc.1, hc.2⟩
  frame := by
    rintro i _ m x' m' hm ⟨cu, rfl, -, -⟩ hstep
    obtain ⟨r, hr, heq⟩ := Option.map_eq_some_iff.1 hstep
    obtain ⟨rfl, rfl⟩ := Prod.mk.inj heq
    exact step_visible hm hr
  accessed_eq := by
    rintro i _ m n hm hn ⟨cu, rfl, -, -⟩ h
    unfold stepAccessed stepWritten
    dsimp only
    rw [executes_visible hm hn h]
    exact ⟨rfl, rfl⟩
  step_eq := by
    rintro i _ m n x' m' hm hn ⟨cu, rfl, -, -⟩ h hstep
    obtain ⟨r, hr, heq⟩ := Option.map_eq_some_iff.1 hstep
    obtain ⟨rfl, rfl⟩ := Prod.mk.inj heq
    obtain ⟨n', hn', hnew⟩ := step_visible_eq hm hn h hr
    exact ⟨n', Option.map_eq_some_iff.2 ⟨_, hn', rfl⟩, hnew⟩

end Threads

end RiscvGpgpu.Bridge
