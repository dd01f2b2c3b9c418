import RiscvGpgpu.Bridge.Workers
import RiscvGpgpu.Lib.Grid

/-!
# The mapping of threads

Each of the three ways to number the threads of a launch is `threadPlace` on the numbers below the
thread count, as long as no product wraps (`threadMapping_iff`).
-/

namespace RiscvGpgpu.Bridge

open Golden (MemoryHierarchy)

/-! ## Places -/

namespace Dim3

/-- The number of places of a grid or a block. -/
def volume (e : Dim3) : ℕ := e.x.toNat * e.y.toNat * e.z.toNat

/-- The place is one of the grid or the block. -/
def Inside (p e : Dim3) : Prop := p.x < e.x ∧ p.y < e.y ∧ p.z < e.z

instance (p e : Dim3) : Decidable (p.Inside e) := inferInstanceAs (Decidable (_ ∧ _ ∧ _))

/-- No dimension is zero. -/
def Positive (e : Dim3) : Prop := e.x ≠ 0 ∧ e.y ≠ 0 ∧ e.z ≠ 0

instance (e : Dim3) : Decidable e.Positive := inferInstanceAs (Decidable (_ ∧ _ ∧ _))

def toCell (p : Dim3) : ℕ × ℕ × ℕ := (p.x.toNat, p.y.toNat, p.z.toNat)

variable {e : Dim3}

theorem toCell_injective : Function.Injective toCell := by
  rintro ⟨x, y, z⟩ ⟨x', y', z'⟩ h
  obtain ⟨hx, hyz⟩ := Prod.mk.inj h
  obtain ⟨hy, hz⟩ := Prod.mk.inj hyz
  obtain rfl : x = x' := BitVec.eq_of_toNat_eq hx
  obtain rfl : y = y' := BitVec.eq_of_toNat_eq hy
  obtain rfl : z = z' := BitVec.eq_of_toNat_eq hz
  rfl

theorem pos_of_ne {x : BitVec 32} (h : x ≠ 0) : 0 < x.toNat :=
  Nat.pos_of_ne_zero fun h0 => h (BitVec.eq_of_toNat_eq h0)

theorem Positive.volume_pos (h : e.Positive) : 0 < e.volume :=
  Nat.mul_pos (Nat.mul_pos (pos_of_ne h.1) (pos_of_ne h.2.1)) (pos_of_ne h.2.2)

theorem atLeastOne_of_ne {x : BitVec 32} (h : x ≠ 0) : Bridge.atLeastOne x = x := by
  unfold Bridge.atLeastOne
  split_ifs with hlt
  · rfl
  · have hpos := pos_of_ne h
    exact BitVec.eq_of_toNat_eq (Nat.le_antisymm hpos (Nat.not_lt.1 hlt))

theorem Positive.atLeastOne_eq (h : e.Positive) : e.atLeastOne = e := by
  unfold Dim3.atLeastOne
  rw [atLeastOne_of_ne h.1, atLeastOne_of_ne h.2.1, atLeastOne_of_ne h.2.2]

/-- A face of the box is no larger than the box. -/
theorem Positive.face_toNat (h : e.Positive) (hvol : e.volume < 2 ^ 32) :
    (e.x * e.y).toNat = e.x.toNat * e.y.toNat := by
  have hle : e.x.toNat * e.y.toNat ≤ e.volume := Nat.le_mul_of_pos_right _ (pos_of_ne h.2.2)
  rw [BitVec.toNat_mul, Nat.mod_eq_of_lt (by omega)]

theorem Positive.product_toNat (h : e.Positive) (hvol : e.volume < 2 ^ 32) :
    e.product.toNat = e.volume := by
  unfold product
  rw [BitVec.toNat_mul, h.face_toNat hvol]
  exact Nat.mod_eq_of_lt hvol

theorem Positive.count_eq (h : e.Positive) (hvol : e.volume < 2 ^ 32) : e.count = e.product := by
  have hprod := h.product_toNat hvol
  have hpos := h.volume_pos
  have hne : e.product ≠ 0 := by
    intro h0
    rw [h0] at hprod
    exact absurd hprod (Nat.ne_of_lt hpos)
  unfold count
  rw [atLeastOne_of_ne h.2.1, atLeastOne_of_ne h.2.2]
  exact atLeastOne_of_ne hne

theorem Positive.face_ne_zero (h : e.Positive) (hvol : e.volume < 2 ^ 32) : e.x * e.y ≠ 0 := by
  intro h0
  have hface := h.face_toNat hvol
  rw [h0] at hface
  exact absurd hface (Nat.ne_of_lt (Nat.mul_pos (pos_of_ne h.1) (pos_of_ne h.2.1)))

theorem Positive.place_toCell (h : e.Positive) (hvol : e.volume < 2 ^ 32) (i : BitVec 32) :
    (e.place i).toCell = Grid.cell e.x.toNat e.y.toNat i.toNat := by
  unfold toCell place Grid.cell
  dsimp only
  rw [BitVec.toNat_umod, BitVec.toNat_umod, BitVec.toNat_udiv, BitVec.toNat_udiv,
    h.face_toNat hvol]

end Dim3

/-! ## Three lists of threads -/

/-- A thread's linear id, `ctaid` and `tid`. -/
abbrev ThreadId := BitVec 32 × Dim3 × Dim3

def ThreadContext.id (ctx : ThreadContext) : ThreadId := (ctx.globalId, ctx.ctaid, ctx.tid)

def Worker.id (w : Worker) : ThreadId := (w.unitId, w.cudaThreadCtx.ctaid, w.cudaThreadCtx.tid)

/-- The threads of the list have the ids below the thread count, and are every thread of the grid
once. -/
structure Covers (grid block : Dim3) (threads : List ThreadId) : Prop where
  ids : (threads.map fun t => t.1.toNat).Perm (List.range (grid.volume * block.volume))
  once : ∀ ctaid tid : Dim3, (threads.map Prod.snd).count (ctaid, tid) =
    if ctaid.Inside grid ∧ tid.Inside block then 1 else 0

/-- The same thread has the same id in both lists. -/
def Agree (ts us : List ThreadId) : Prop := ∀ t ∈ ts, ∀ u ∈ us, t.1 = u.1 ↔ t.2 = u.2

/-- The workers of a warp group are of one block. -/
def OneBlock (ws : List Worker) : Prop :=
  ∀ w ∈ ws, ∀ v ∈ ws, w.blockId = v.blockId ∧ w.cudaThreadCtx.ctaid = v.cudaThreadCtx.ctaid

/-- The three lists of threads of a launch are the same bijection. -/
structure ThreadMapping (C : Config) (L : Launch) : Prop where
  contexts : Covers L.grid L.block ((computeThreadContexts L.grid L.block).map ThreadContext.id)
  scalar : ∀ mem, ∃ ws mem', makeScalarWorkers C L mem = some (ws, mem') ∧
    Covers L.grid L.block (ws.map Worker.id) ∧
    Agree ((computeThreadContexts L.grid L.block).map ThreadContext.id) (ws.map Worker.id)
  warps : 1 < L.warpSize C → ∀ mem, ∃ groups mem', makeWarpGroups C L mem = some (groups, mem') ∧
    Covers L.grid L.block (groups.flatten.map Worker.id) ∧
    Agree ((computeThreadContexts L.grid L.block).map ThreadContext.id)
      (groups.flatten.map Worker.id) ∧
    ∀ g ∈ groups, OneBlock g

/-! ## The bijection -/

/-- The thread with a linear id. -/
def threadPlace (grid block : Dim3) (t : BitVec 32) : ThreadId :=
  (t, grid.place (t / block.product), block.place (t % block.product))

section Fits

variable {grid block : Dim3}

/-- Launches without an overflow. -/
structure Fits (grid block : Dim3) : Prop where
  grid_pos : grid.Positive
  block_pos : block.Positive
  lt : grid.volume * block.volume < 2 ^ 32

namespace Fits

variable (h : Fits grid block)

include h

theorem grid_lt : grid.volume < 2 ^ 32 :=
  lt_of_le_of_lt (Nat.le_mul_of_pos_right _ h.block_pos.volume_pos) h.lt

theorem block_lt : block.volume < 2 ^ 32 :=
  lt_of_le_of_lt (Nat.le_mul_of_pos_left _ h.grid_pos.volume_pos) h.lt

/-- The number of the thread of a place. -/
theorem threadPlace_toCell {t : ℕ} (ht : t < grid.volume * block.volume) :
    (threadPlace grid block (BitVec.ofNat 32 t)).2.1.toCell =
        Grid.cell grid.x.toNat grid.y.toNat (t / block.volume) ∧
      (threadPlace grid block (BitVec.ofNat 32 t)).2.2.toCell =
        Grid.cell block.x.toNat block.y.toNat (t % block.volume) := by
  have hlt := h.lt
  have hnat : (BitVec.ofNat 32 t).toNat = t := by
    rw [BitVec.toNat_ofNat, Nat.mod_eq_of_lt (by omega)]
  unfold threadPlace
  dsimp only
  rw [h.grid_pos.place_toCell h.grid_lt, h.block_pos.place_toCell h.block_lt, BitVec.toNat_udiv,
    BitVec.toNat_umod, h.block_pos.product_toNat h.block_lt, hnat]
  exact ⟨rfl, rfl⟩

/-- Different ids are different places. -/
theorem threadPlace_injOn {t u : ℕ} (ht : t < grid.volume * block.volume)
    (hu : u < grid.volume * block.volume)
    (heq : (threadPlace grid block (BitVec.ofNat 32 t)).2 =
      (threadPlace grid block (BitVec.ofNat 32 u)).2) : t = u := by
  obtain ⟨htg, htb⟩ := h.threadPlace_toCell ht
  obtain ⟨hug, hub⟩ := h.threadPlace_toCell hu
  rw [heq] at htg htb
  have hdiv : t / block.volume = u / block.volume := by
    rw [← Grid.index_cell grid.x.toNat grid.y.toNat (t / block.volume), ← htg, hug,
      Grid.index_cell]
  have hmod : t % block.volume = u % block.volume := by
    rw [← Grid.index_cell block.x.toNat block.y.toNat (t % block.volume), ← htb, hub,
      Grid.index_cell]
  rw [← Nat.div_add_mod t block.volume, ← Nat.div_add_mod u block.volume, hdiv, hmod]

theorem threadPlace_inside {t : ℕ} (ht : t < grid.volume * block.volume) :
    (threadPlace grid block (BitVec.ofNat 32 t)).2.1.Inside grid ∧
      (threadPlace grid block (BitVec.ofNat 32 t)).2.2.Inside block := by
  obtain ⟨hg, hb⟩ := h.threadPlace_toCell ht
  have hdiv : t / block.volume < grid.volume :=
    Nat.div_lt_of_lt_mul (by rwa [Nat.mul_comm])
  have hmod : t % block.volume < block.volume := Nat.mod_lt _ h.block_pos.volume_pos
  have hgcell := Grid.cell_lt hdiv
  have hbcell := Grid.cell_lt hmod
  rw [← hg] at hgcell
  rw [← hb] at hbcell
  exact ⟨hgcell, hbcell⟩

/-- Every place of the launch has a number. -/
theorem exists_threadPlace {ctaid tid : Dim3} (hc : ctaid.Inside grid) (ht : tid.Inside block) :
    ∃ t < grid.volume * block.volume,
      (threadPlace grid block (BitVec.ofNat 32 t)).2 = (ctaid, tid) := by
  obtain ⟨hcx, hcy, hcz⟩ := hc
  obtain ⟨htx, hty, htz⟩ := ht
  obtain ⟨b, hb⟩ : ∃ b, b = Grid.index grid.x.toNat grid.y.toNat ctaid.toCell := ⟨_, rfl⟩
  obtain ⟨r, hr⟩ : ∃ r, r = Grid.index block.x.toNat block.y.toNat tid.toCell := ⟨_, rfl⟩
  have hblk : b < grid.volume := by
    rw [hb]
    exact Grid.index_lt hcx hcy hcz
  have hthd : r < block.volume := by
    rw [hr]
    exact Grid.index_lt htx hty htz
  have hvol : 0 < block.volume := h.block_pos.volume_pos
  have hlt : b * block.volume + r < grid.volume * block.volume := by
    calc b * block.volume + r < b * block.volume + block.volume := Nat.add_lt_add_left hthd _
      _ = (b + 1) * block.volume := by ring
      _ ≤ grid.volume * block.volume := Nat.mul_le_mul_right _ hblk
  have hdiv : (b * block.volume + r) / block.volume = b := by
    rw [Nat.mul_comm, Nat.mul_add_div hvol, Nat.div_eq_of_lt hthd, Nat.add_zero]
  have hmod : (b * block.volume + r) % block.volume = r := by
    rw [Nat.mul_comm, Nat.mul_add_mod, Nat.mod_eq_of_lt hthd]
  refine ⟨b * block.volume + r, hlt, ?_⟩
  obtain ⟨hg, hbk⟩ := h.threadPlace_toCell hlt
  have hgc : Grid.cell grid.x.toNat grid.y.toNat b = ctaid.toCell := by
    rw [hb]
    exact Grid.cell_index hcx hcy
  have hbc : Grid.cell block.x.toNat block.y.toNat r = tid.toCell := by
    rw [hr]
    exact Grid.cell_index htx hty
  rw [hdiv] at hg
  rw [hmod] at hbk
  exact Prod.ext (Dim3.toCell_injective (hg.trans hgc)) (Dim3.toCell_injective (hbk.trans hbc))

/-- The threads in the order of their ids. -/
theorem covers : Covers grid block ((List.range (grid.volume * block.volume)).map fun t =>
    threadPlace grid block (BitVec.ofNat 32 t)) := by
  constructor
  · refine List.Perm.of_eq ?_
    rw [List.map_map]
    refine (List.map_congr_left fun t ht => ?_).trans (List.map_id _)
    have hlt := List.mem_range.1 ht
    have hfits := h.lt
    show (BitVec.ofNat 32 t).toNat = t
    rw [BitVec.toNat_ofNat, Nat.mod_eq_of_lt (by omega)]
  · intro ctaid tid
    rw [List.map_map]
    split_ifs with hin
    · obtain ⟨t, ht, heq⟩ := h.exists_threadPlace hin.1 hin.2
      refine List.count_eq_one_of_mem ?_ (List.mem_map.2 ⟨t, List.mem_range.2 ht, heq⟩)
      exact List.Nodup.map_on (fun t ht u hu => h.threadPlace_injOn (List.mem_range.1 ht)
        (List.mem_range.1 hu)) List.nodup_range
    · refine List.count_eq_zero_of_not_mem fun hmem => hin ?_
      obtain ⟨t, ht, heq⟩ := List.mem_map.1 hmem
      have hinside := h.threadPlace_inside (List.mem_range.1 ht)
      have heq' : (threadPlace grid block (BitVec.ofNat 32 t)).2 = (ctaid, tid) := heq
      rwa [heq'] at hinside

/-! ## The three lists -/

theorem contexts_eq : (computeThreadContexts grid block).map ThreadContext.id =
    (List.range (grid.volume * block.volume)).map fun t =>
      threadPlace grid block (BitVec.ofNat 32 t) := by
  have htotal : (grid.product * block.product).toNat = grid.volume * block.volume := by
    rw [BitVec.toNat_mul, h.grid_pos.product_toNat h.grid_lt, h.block_pos.product_toNat h.block_lt,
      Nat.mod_eq_of_lt h.lt]
  unfold computeThreadContexts
  dsimp only
  rw [h.grid_pos.atLeastOne_eq, h.block_pos.atLeastOne_eq, htotal, List.map_map]
  rfl

end Fits

end Fits

section Workers

variable {C : Config} {L : Launch} (h : Fits L.grid L.block)

include h

theorem worker_id (t : BitVec 32) : (worker C L t).id = threadPlace L.grid L.block t := by
  unfold worker Worker.id threadPlace Launch.threadsPerBlock
  dsimp only
  rw [h.block_pos.count_eq h.block_lt, h.block_pos.atLeastOne_eq, h.grid_pos.atLeastOne_eq]

theorem makeWorkers_eq (ids : List (BitVec 32)) (mem : MemoryHierarchy) :
    ∃ mem', makeWorkers C L ids mem = some (ids.map (worker C L), mem') := by
  induction ids generalizing mem with
  | nil => exact ⟨mem, rfl⟩
  | cons id ids ih =>
    have hone : ∃ mem', makeWorker C L id mem = some (worker C L id, mem') := by
      unfold makeWorker
      dsimp only
      rw [h.block_pos.atLeastOne_eq, h.grid_pos.atLeastOne_eq,
        if_neg (not_or.2 ⟨h.block_pos.face_ne_zero h.block_lt, h.grid_pos.face_ne_zero h.grid_lt⟩)]
      exact ⟨_, rfl⟩
    obtain ⟨mem₁, hone⟩ := hone
    obtain ⟨mem₂, hrest⟩ := ih mem₁
    refine ⟨mem₂, ?_⟩
    unfold makeWorkers
    rw [hone]
    show (makeWorkers C L ids mem₁).bind _ = _
    rw [hrest]
    rfl

theorem threadsPerBlock_toNat : L.threadsPerBlock.toNat = L.block.volume := by
  unfold Launch.threadsPerBlock
  rw [h.block_pos.count_eq h.block_lt, h.block_pos.product_toNat h.block_lt]

theorem totalBlocks_toNat : L.totalBlocks.toNat = L.grid.volume := by
  unfold Launch.totalBlocks
  rw [h.grid_pos.count_eq h.grid_lt, h.grid_pos.product_toNat h.grid_lt]

theorem totalThreads_toNat : L.totalThreads.toNat = L.grid.volume * L.block.volume := by
  unfold Launch.totalThreads
  rw [BitVec.toNat_mul, totalBlocks_toNat h, threadsPerBlock_toNat h, Nat.mod_eq_of_lt h.lt]

theorem makeScalarWorkers_eq (mem : MemoryHierarchy) : ∃ ws mem',
    makeScalarWorkers C L mem = some (ws, mem') ∧
      ws.map Worker.id = (List.range (L.grid.volume * L.block.volume)).map fun t =>
        threadPlace L.grid L.block (BitVec.ofNat 32 t) := by
  obtain ⟨mem', heq⟩ := makeWorkers_eq (C := C) h
    ((List.range L.totalThreads.toNat).map (BitVec.ofNat 32)) mem
  refine ⟨_, mem', heq, ?_⟩
  rw [List.map_map, List.map_map, totalThreads_toNat h]
  exact List.map_congr_left fun t _ => worker_id h _

/-! ## Warp groups -/

variable {warpSize : BitVec 32} (hpos : 0 < warpSize.toNat)
  (hwarp : L.block.volume + warpSize.toNat ≤ 2 ^ 32)

include hpos hwarp

theorem warpsPerBlock_toNat : (L.warpsPerBlock warpSize).toNat =
    (L.block.volume + warpSize.toNat - 1) / warpSize.toNat := by
  have hblock := threadsPerBlock_toNat h
  have hsum : (L.threadsPerBlock + warpSize - 1).toNat =
      L.block.volume + warpSize.toNat - 1 := by bv_omega
  unfold Launch.warpsPerBlock
  rw [BitVec.toNat_udiv, hsum]

/-- The warps of a block cover it, and the last one is not empty. -/
theorem warpsPerBlock_bounds :
    L.block.volume ≤ (L.warpsPerBlock warpSize).toNat * warpSize.toNat ∧
      (L.warpsPerBlock warpSize).toNat ≤ L.block.volume ∧
      ∀ j < (L.warpsPerBlock warpSize).toNat, j * warpSize.toNat < L.block.volume := by
  have hvol := h.block_pos.volume_pos
  rw [warpsPerBlock_toNat h hpos hwarp]
  generalize L.block.volume = B at hvol
  generalize warpSize.toNat = s at hpos
  have hceil := Nat.div_add_mod (B + s - 1) s
  have hrest := Nat.mod_lt (B + s - 1) hpos
  refine ⟨?_, ?_, fun j hj => ?_⟩
  · rw [Nat.mul_comm]
    omega
  · refine Nat.le_of_lt_succ ((Nat.div_lt_iff_lt_mul hpos).2 ?_)
    calc B + s - 1 < B * 1 + s := by omega
      _ ≤ B * s + s := Nat.add_le_add_right (Nat.mul_le_mul_left B hpos) s
      _ = (B + 1) * s := by ring
  · have hle : (j + 1) * s ≤ B + s - 1 :=
      (Nat.mul_le_mul_right s hj).trans (Nat.div_mul_le_self _ _)
    rw [Nat.add_mul, Nat.one_mul] at hle
    omega

theorem totalWarps_toNat : (L.totalWarps warpSize).toNat =
    L.grid.volume * (L.warpsPerBlock warpSize).toNat := by
  have hle := (warpsPerBlock_bounds h hpos hwarp).2.1
  unfold Launch.totalWarps
  rw [BitVec.toNat_mul, totalBlocks_toNat h, Nat.mod_eq_of_lt]
  exact lt_of_le_of_lt (Nat.mul_le_mul_left _ hle) h.lt

/-- The ids of the `i`-th warp are the numbers of its piece of its block. -/
theorem warpThreads_eq {i : ℕ} (hi : i < L.grid.volume * (L.warpsPerBlock warpSize).toNat) :
    L.warpThreads warpSize (BitVec.ofNat 32 i) =
      (List.range (min warpSize.toNat (L.block.volume -
        i % (L.warpsPerBlock warpSize).toNat * warpSize.toNat))).map fun t =>
          BitVec.ofNat 32 (i / (L.warpsPerBlock warpSize).toNat * L.block.volume +
            (i % (L.warpsPerBlock warpSize).toNat * warpSize.toNat + t)) := by
  have hblock := threadsPerBlock_toNat h
  have htotal := totalWarps_toNat h hpos hwarp
  obtain ⟨-, -, hlast⟩ := warpsPerBlock_bounds h hpos hwarp
  unfold Launch.warpThreads
  dsimp only
  generalize L.warpsPerBlock warpSize = k at *
  have hkpos : 0 < k.toNat := by
    rcases Nat.eq_zero_or_pos k.toNat with h0 | h0
    · rw [h0] at hi
      omega
    · exact h0
  have hnat : (BitVec.ofNat 32 i).toNat = i := by
    have hlt := (L.totalWarps warpSize).isLt
    rw [BitVec.toNat_ofNat, Nat.mod_eq_of_lt (by omega)]
  have hbase := hlast (i % k.toNat) (Nat.mod_lt _ hkpos)
  have hlocal : (BitVec.ofNat 32 i % k * warpSize).toNat = i % k.toNat * warpSize.toNat := by
    have hblt := h.block_lt
    rw [BitVec.toNat_mul, BitVec.toNat_umod, hnat, Nat.mod_eq_of_lt (by omega)]
  have hblk : (BitVec.ofNat 32 i / k).toNat = i / k.toNat := by
    rw [BitVec.toNat_udiv, hnat]
  have htake : ((List.range warpSize.toNat).takeWhile fun t =>
      BitVec.ofNat 32 i % k * warpSize + BitVec.ofNat 32 t < L.threadsPerBlock) =
        List.range (min warpSize.toNat (L.block.volume - i % k.toNat * warpSize.toNat)) := by
    refine Grid.takeWhile_range fun t ht => decide_eq_decide.2 ?_
    have hsum : (BitVec.ofNat 32 i % k * warpSize + BitVec.ofNat 32 t).toNat =
        i % k.toNat * warpSize.toNat + t := by
      rw [BitVec.toNat_add, hlocal, BitVec.toNat_ofNat,
        Nat.mod_eq_of_lt (show t < 2 ^ 32 by omega)]
      exact Nat.mod_eq_of_lt (by omega)
    rw [BitVec.lt_def, hsum, hblock]
    omega
  rw [htake]
  refine List.map_congr_left fun t _ => BitVec.eq_of_toNat_eq ?_
  rw [BitVec.toNat_add, BitVec.toNat_add, BitVec.toNat_mul, hblk, hlocal, hblock,
    BitVec.toNat_ofNat, BitVec.toNat_ofNat, Nat.add_mod_mod, Nat.mod_add_mod, Nat.add_assoc,
    Nat.mod_add_mod]

/-- The warps one behind the other have the ids in order. -/
theorem flatMap_warpThreads :
    (List.range (L.totalWarps warpSize).toNat).flatMap
        (fun i => L.warpThreads warpSize (BitVec.ofNat 32 i)) =
      (List.range (L.grid.volume * L.block.volume)).map (BitVec.ofNat 32) := by
  obtain ⟨hcover, -, -⟩ := warpsPerBlock_bounds h hpos hwarp
  have hwarps := fun i hi => warpThreads_eq (i := i) h hpos hwarp hi
  rw [totalWarps_toNat h hpos hwarp]
  generalize (L.warpsPerBlock warpSize).toNat = k at *
  calc (List.range (L.grid.volume * k)).flatMap
        (fun i => L.warpThreads warpSize (BitVec.ofNat 32 i))
      = (List.range (L.grid.volume * k)).flatMap (fun i =>
          (List.range (min warpSize.toNat (L.block.volume - i % k * warpSize.toNat))).map fun t =>
            BitVec.ofNat 32 (i / k * L.block.volume + (i % k * warpSize.toNat + t))) :=
        List.flatMap_congr fun i hi => hwarps i (List.mem_range.1 hi)
    _ = (List.range L.grid.volume).flatMap (fun b => (List.range k).flatMap fun j =>
          (List.range (min warpSize.toNat (L.block.volume - j * warpSize.toNat))).map fun t =>
            BitVec.ofNat 32 (b * L.block.volume + (j * warpSize.toNat + t))) :=
        Grid.flatMap_range_divMod L.grid.volume k fun b j =>
          (List.range (min warpSize.toNat (L.block.volume - j * warpSize.toNat))).map fun t =>
            BitVec.ofNat 32 (b * L.block.volume + (j * warpSize.toNat + t))
    _ = (List.range L.grid.volume).flatMap (fun b => (List.range L.block.volume).map fun r =>
          BitVec.ofNat 32 (b * L.block.volume + r)) := by
        refine List.flatMap_congr fun b _ => ?_
        have hchunks := Grid.flatMap_range_chunks k warpSize.toNat L.block.volume
        rw [min_eq_right hcover] at hchunks
        rw [← hchunks, List.map_flatMap]
        exact List.flatMap_congr fun j _ => by rw [List.map_map]; rfl
    _ = (List.range (L.grid.volume * L.block.volume)).map (BitVec.ofNat 32) := by
        rw [← Grid.flatMap_range_mul, List.map_flatMap]
        exact List.flatMap_congr fun b _ => by rw [List.map_map]; rfl

/-- The workers of a warp are of the block that its number says. -/
theorem warp_blockId {i : ℕ} (hi : i < L.grid.volume * (L.warpsPerBlock warpSize).toNat)
    {id : BitVec 32} (hid : id ∈ L.warpThreads warpSize (BitVec.ofNat 32 i)) :
    (id / L.threadsPerBlock).toNat = i / (L.warpsPerBlock warpSize).toNat := by
  have hcount := (warpsPerBlock_bounds h hpos hwarp).2.1
  rw [warpThreads_eq h hpos hwarp hi] at hid
  obtain ⟨t, ht, rfl⟩ := List.mem_map.1 hid
  have hlt := List.mem_range.1 ht
  generalize (L.warpsPerBlock warpSize).toNat = k at *
  have hblk : i / k < L.grid.volume := Nat.div_lt_of_lt_mul (by rwa [Nat.mul_comm])
  have hr : i % k * warpSize.toNat + t < L.block.volume := by omega
  generalize i % k * warpSize.toNat + t = r at hr
  have hsum : i / k * L.block.volume + r < 2 ^ 32 := by
    have hfits := h.lt
    have hle := Nat.mul_le_mul_right L.block.volume (Nat.succ_le_of_lt hblk)
    rw [Nat.succ_mul] at hle
    omega
  rw [BitVec.toNat_udiv, threadsPerBlock_toNat h, BitVec.toNat_ofNat, Nat.mod_eq_of_lt hsum,
    Nat.mul_comm, Nat.mul_add_div h.block_pos.volume_pos, Nat.div_eq_of_lt hr, Nat.add_zero]

omit hpos hwarp in
theorem makeWarpGroupsFrom_eq (is : List ℕ) (mem : MemoryHierarchy) : ∃ mem',
    makeWarpGroupsFrom C L warpSize is mem = some (is.map fun i =>
      (L.warpThreads warpSize (BitVec.ofNat 32 i)).map (worker C L), mem') := by
  induction is generalizing mem with
  | nil => exact ⟨mem, rfl⟩
  | cons i is ih =>
    obtain ⟨mem₁, hone⟩ := makeWorkers_eq (C := C) h
      (L.warpThreads warpSize (BitVec.ofNat 32 i)) mem
    obtain ⟨mem₂, hrest⟩ := ih mem₁
    refine ⟨mem₂, ?_⟩
    unfold makeWarpGroupsFrom
    rw [hone]
    show (makeWarpGroupsFrom C L warpSize is mem₁).bind _ = _
    rw [hrest]
    rfl

end Workers

/-- The groups of the lockstep loop, their threads in order, and each of one block. -/
theorem makeWarpGroups_eq {C : Config} {L : Launch} (h : Fits L.grid L.block)
    (hpos : 0 < (L.warpSize C).toNat)
    (hwarp : L.block.volume + (L.warpSize C).toNat ≤ 2 ^ 32) (mem : MemoryHierarchy) :
    ∃ groups mem', makeWarpGroups C L mem = some (groups, mem') ∧
      groups.flatten.map Worker.id = (List.range (L.grid.volume * L.block.volume)).map (fun t =>
        threadPlace L.grid L.block (BitVec.ofNat 32 t)) ∧
      ∀ g ∈ groups, OneBlock g := by
  obtain ⟨mem', heq⟩ := makeWarpGroupsFrom_eq (C := C) h
    (List.range (L.totalWarps (L.warpSize C)).toNat) mem
  refine ⟨_, mem', heq, ?_, ?_⟩
  · have hids := flatMap_warpThreads h hpos hwarp
    have hflat : ((List.range (L.totalWarps (L.warpSize C)).toNat).map fun i =>
        (L.warpThreads (L.warpSize C) (BitVec.ofNat 32 i)).map (worker C L)).flatten =
          ((List.range (L.totalWarps (L.warpSize C)).toNat).flatMap fun i =>
            L.warpThreads (L.warpSize C) (BitVec.ofNat 32 i)).map (worker C L) := by
      rw [List.map_flatMap]
      rfl
    rw [hflat, hids, List.map_map, List.map_map]
    exact List.map_congr_left fun t _ => worker_id h _
  · intro g hg w hw v hv
    obtain ⟨i, hi, rfl⟩ := List.mem_map.1 hg
    obtain ⟨a, ha, rfl⟩ := List.mem_map.1 hw
    obtain ⟨b, hb, rfl⟩ := List.mem_map.1 hv
    have hi' := List.mem_range.1 hi
    rw [totalWarps_toNat h hpos hwarp] at hi'
    have hsame : a / L.threadsPerBlock = b / L.threadsPerBlock := by
      apply BitVec.eq_of_toNat_eq
      rw [warp_blockId h hpos hwarp hi' ha, warp_blockId h hpos hwarp hi' hb]
    exact ⟨hsame, congrArg L.grid.atLeastOne.place hsame⟩

/-- The list of the threads in order agrees with itself. -/
theorem agree_threadPlace {grid block : Dim3} (h : Fits grid block) :
    Agree ((List.range (grid.volume * block.volume)).map fun t =>
        threadPlace grid block (BitVec.ofNat 32 t))
      ((List.range (grid.volume * block.volume)).map fun t =>
        threadPlace grid block (BitVec.ofNat 32 t)) := by
  intro a ha b hb
  obtain ⟨t, ht, rfl⟩ := List.mem_map.1 ha
  obtain ⟨u, hu, rfl⟩ := List.mem_map.1 hb
  constructor
  · intro heq
    have hid : BitVec.ofNat 32 t = BitVec.ofNat 32 u := heq
    rw [hid]
  · intro heq
    rw [h.threadPlace_injOn (List.mem_range.1 ht) (List.mem_range.1 hu) heq]

/-- The mapping of threads is a bijection, and the same one in all three places, exactly for the
launches whose thread count fits 32 bits, and whose warps are counted without an overflow. -/
theorem threadMapping_iff (C : Config) (L : Launch) (hgrid : L.grid.Positive)
    (hblock : L.block.Positive) :
    ThreadMapping C L ↔ L.grid.volume * L.block.volume < 2 ^ 32 ∧
      (1 < L.warpSize C → L.block.volume + (L.warpSize C).toNat ≤ 2 ^ 32) := by
  constructor
  · intro hmap
    have hlt : L.grid.volume * L.block.volume < 2 ^ 32 := by
      have hlen := hmap.contexts.ids.length_eq
      rw [List.length_range, List.length_map, List.length_map] at hlen
      rw [← hlen]
      unfold computeThreadContexts
      rw [List.length_map, List.length_range]
      exact BitVec.isLt _
    refine ⟨hlt, fun hsize => ?_⟩
    have h : Fits L.grid L.block := ⟨hgrid, hblock, hlt⟩
    by_contra hwarp
    -- the rounded count of warps in a block is zero
    have hnone : L.warpsPerBlock (L.warpSize C) = 0 := by
      have hsize' : 1 < (L.warpSize C).toNat := hsize
      have hcount := threadsPerBlock_toNat h
      have hblt := h.block_lt
      have hsum : (L.threadsPerBlock + L.warpSize C - 1).toNat < (L.warpSize C).toNat := by
        bv_omega
      apply BitVec.eq_of_toNat_eq
      unfold Launch.warpsPerBlock
      rw [BitVec.toNat_udiv, Nat.div_eq_of_lt hsum]
      rfl
    obtain ⟨groups, mem', heq, hcov, -⟩ := hmap.warps hsize (.init 0)
    have hempty : makeWarpGroups C L (.init 0) = some ([], .init 0) := by
      unfold makeWarpGroups Launch.totalWarps
      rw [hnone]
      simp [makeWarpGroupsFrom]
    rw [hempty] at heq
    obtain ⟨rfl, -⟩ := Prod.mk.inj (Option.some.inj heq)
    have hlen := hcov.ids.length_eq
    rw [List.length_range] at hlen
    exact absurd hlen (Nat.ne_of_lt (Nat.mul_pos hgrid.volume_pos hblock.volume_pos))
  · rintro ⟨hlt, hwarp⟩
    have h : Fits L.grid L.block := ⟨hgrid, hblock, hlt⟩
    have hagree := agree_threadPlace h
    refine ⟨?_, fun mem => ?_, fun hsize mem => ?_⟩
    · rw [h.contexts_eq]
      exact h.covers
    · obtain ⟨ws, mem', heq, hids⟩ := makeScalarWorkers_eq (C := C) h mem
      refine ⟨ws, mem', heq, ?_, ?_⟩
      · rw [hids]
        exact h.covers
      · rw [h.contexts_eq, hids]
        exact hagree
    · have hpos : 0 < (L.warpSize C).toNat := lt_trans Nat.zero_lt_one hsize
      obtain ⟨groups, mem', heq, hids, hone⟩ := makeWarpGroups_eq h hpos (hwarp hsize) mem
      refine ⟨groups, mem', heq, ?_, ?_, hone⟩
      · rw [hids]
        exact h.covers
      · rw [h.contexts_eq, hids]
        exact hagree

/-- A launch with no arguments, for an image that begins at zero. -/
def launchOf (grid block : Dim3) : Launch where
  grid := grid
  block := block
  entryPc := 0
  regs := fun _ => 0
  contextSymbol := none

/-- Four units, and two threads a warp. -/
def pairWarps : Config where
  numComputeUnits := 4
  threadsPerWarp := 2
  sharedMemSize := 49152
  maxSimCycles := 1000

/-- Two blocks of five threads each, with a last warp of one thread in each block. -/
theorem threadMapping_twoBlocks : ThreadMapping pairWarps (launchOf ⟨2, 1, 1⟩ ⟨5, 1, 1⟩) :=
  (threadMapping_iff pairWarps (launchOf ⟨2, 1, 1⟩ ⟨5, 1, 1⟩) (by decide) (by decide)).2
    ⟨by decide, by decide⟩

/-- A grid of 2^32 blocks has no contexts at all. -/
theorem not_threadMapping :
    ¬ ∀ C L, L.grid.Positive → L.block.Positive → ThreadMapping C L := by
  intro h
  have hmap := h pairWarps (launchOf ⟨65536, 65536, 1⟩ ⟨1, 1, 1⟩) (by decide) (by decide)
  have hlen := hmap.contexts.ids.length_eq
  rw [List.length_range] at hlen
  exact absurd hlen (by decide)

end RiscvGpgpu.Bridge
