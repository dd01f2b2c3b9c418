import RiscvGpgpu.Bridge.KernelBridge
import RiscvGpgpu.Bridge.ThreadMapping
import RiscvGpgpu.Golden.ByteMemory

/-!
# The context slots

`makeWorkers` writes a context for each thread. As long as the slots are apart and outside the
shared window, every slot holds its thread's context when all workers are made.
-/

namespace RiscvGpgpu.Bridge

open Golden (Address Byte BlockId MemoryHierarchy HostFloat)
open Golden.MemoryHierarchy (Coherent)
open Host (DeviceMemory KernelExecution)

/-! ## Byte writes -/

theorem writeBytes_frame {mem : MemoryHierarchy} (hc : mem.Coherent) (addr : Address)
    (data : List Byte) (blockId : BlockId) :
    (mem.writeBytes addr data blockId).Coherent ∧
      (mem.writeBytes addr data blockId).sharedMemSize = mem.sharedMemSize := by
  unfold MemoryHierarchy.writeBytes
  split_ifs
  · exact ⟨hc, rfl⟩
  · obtain ⟨shared, heq⟩ := MemoryHierarchy.setSharedRange_frame mem blockId addr data
    rw [heq]
    exact ⟨⟨hc.l1, hc.l2⟩, rfl⟩
  · exact ⟨hc.writeGlobalBytes addr data, (mem.writeGlobalBytes_frame addr data).2⟩

/-- A write that starts outside the window is a write to the global memory. -/
theorem globalByte_writeBytes {mem : MemoryHierarchy} {addr : Address} {data : List Byte}
    (hout : mem.isSharedMemoryAddress addr = false) (hlen : data.length ≤ 2 ^ 64)
    (blockId : BlockId) (a : Address) :
    (mem.writeBytes addr data blockId).globalByte a =
      data.getD (a - addr).toNat (mem.globalByte a) := by
  unfold MemoryHierarchy.writeBytes
  rw [hout, if_neg Bool.false_ne_true]
  exact Golden.ByteMemory.globalByte_writeGlobalBytes mem addr hlen a

/-- What the set-up does keeps the caches coherent, and the size of the window. -/
structure Sound (C : Config) (mem : MemoryHierarchy) : Prop where
  coherent : mem.Coherent
  size : mem.sharedMemSize = C.sharedMemSize

theorem Sound.writeBytes {C : Config} {mem : MemoryHierarchy} (h : Sound C mem) (addr : Address)
    (data : List Byte) (blockId : BlockId) : Sound C (mem.writeBytes addr data blockId) := by
  obtain ⟨hc, hsize⟩ := writeBytes_frame h.coherent addr data blockId
  exact ⟨hc, hsize.trans h.size⟩

section SetUp

variable {C : Config}

theorem Sound.foldl {α : Type} (f : MemoryHierarchy → α → MemoryHierarchy)
    (hf : ∀ mem a, Sound C mem → Sound C (f mem a)) {mem : MemoryHierarchy} (h : Sound C mem)
    (as : List α) : Sound C (as.foldl f mem) := by
  induction as generalizing mem with
  | nil => exact h
  | cons a as ih => exact ih (hf mem a h)

theorem Sound.loadSegment {mem : MemoryHierarchy} (h : Sound C mem) (image : List Byte)
    (ph : Host.Elf32ProgramHeader) : Sound C (ElfLoader.loadSegment image ph mem) := by
  unfold ElfLoader.loadSegment
  refine Sound.foldl _ (fun mem b hmem => hmem.writeBytes _ _ _) ?_ _
  split_ifs
  · exact h.writeBytes _ _ _
  · exact h

theorem Sound.loadSegments {mem mem' : MemoryHierarchy} (h : Sound C mem) {image : List Byte}
    {is : List ℕ} (hload : ElfLoader.loadSegments image is mem = some mem') : Sound C mem' := by
  induction is generalizing mem with
  | nil => exact Option.some.inj hload ▸ h
  | cons i is ih =>
    unfold ElfLoader.loadSegments at hload
    dsimp only at hload
    split_ifs at hload
    · exact Option.some.inj hload ▸ h
    · exact ih h hload
    · exact ih (h.loadSegment image _) hload

theorem Sound.load {mem : MemoryHierarchy} (h : Sound C mem) {image : List Byte}
    {r : ElfLoader × MemoryHierarchy} (hload : ElfLoader.load image mem = some r) :
    Sound C r.2 := by
  unfold ElfLoader.load at hload
  obtain ⟨mem', hsegs, hrest⟩ := Option.bind_eq_some_iff.1 hload
  have hmem := h.loadSegments hsegs
  split_ifs at hrest
  · obtain rfl := Option.some.inj hrest
    exact hmem
  · obtain ⟨shdrs, -, hrest⟩ := Option.bind_eq_some_iff.1 hrest
    obtain ⟨symbols, -, hrest⟩ := Option.bind_eq_some_iff.1 hrest
    obtain rfl := Option.some.inj hrest
    exact hmem

theorem Sound.mapBuffers {d : DeviceMemory} {devicePtrs : List Address}
    {mem mem' : MemoryHierarchy} (h : Sound C mem)
    (hmap : Bridge.mapBuffers d devicePtrs mem = .ok mem') : Sound C mem' := by
  induction devicePtrs generalizing mem with
  | nil => exact Except.ok.inj hmap ▸ h
  | cons p ps ih =>
    unfold Bridge.mapBuffers at hmap
    cases hp : d.getDeviceBufferContent p with
    | none =>
      rw [hp] at hmap
      exact absurd hmap (by simp)
    | some content =>
      rw [hp] at hmap
      exact ih (h.writeBytes _ _ _) hmap

theorem Sound.allocateBlocks {bytes : BitVec 32} {bs : List ℕ} {mem mem' : MemoryHierarchy}
    (h : Sound C mem) (halloc : Bridge.allocateBlocks bytes bs mem = .ok mem') :
    Sound C mem' := by
  induction bs generalizing mem with
  | nil => exact Except.ok.inj halloc ▸ h
  | cons b bs ih =>
    unfold Bridge.allocateBlocks MemoryHierarchy.allocateSharedMemory at halloc
    split_ifs at halloc
    have hnew : Sound C (mem.setShared (BitVec.ofNat 32 b) (List.replicate bytes.toNat 0)) :=
      ⟨⟨h.coherent.l1, h.coherent.l2⟩, h.size⟩
    exact ih hnew halloc

theorem sound_init (C : Config) : Sound C (.init C.sharedMemSize) :=
  ⟨(Golden.ByteMemory.represents_init C.sharedMemSize).coherent, rfl⟩

end SetUp

/-! ## Slots -/

/-- The slot of the thread is in the global memory, and no stack wraps around to it. -/
structure SlotOk (C : Config) (id : BitVec 32) : Prop where
  bound : id.toNat < 53280
  window : C.sharedMemSize.toNat = 0 ∨ id.toNat < 32768

/-- The 64-bit address of a slot. -/
def slotAddr (id : BitVec 32) : Address := (ctxBase id).setWidth 64

theorem ctxBase_toNat {id : BitVec 32} (h : id.toNat < 53280) :
    (ctxBase id).toNat = 0x00200000 + 64 * id.toNat := by
  unfold ctxBase threadCtxBase threadCtxStride
  bv_omega

theorem slotAddr_toNat {id : BitVec 32} (h : id.toNat < 53280) :
    (slotAddr id).toNat = 0x00200000 + 64 * id.toNat := by
  unfold slotAddr
  rw [BitVec.toNat_setWidth, ctxBase_toNat h]
  omega

theorem slotByte_toNat {id : BitVec 32} (h : id.toNat < 53280) {i : ℕ} (hi : i < 36) :
    (slotAddr id + BitVec.ofNat 64 i).toNat = 0x00200000 + 64 * id.toNat + i := by
  rw [BitVec.toNat_add, slotAddr_toNat h, BitVec.toNat_ofNat]
  omega

theorem SlotOk.global {C : Config} {id : BitVec 32} (h : SlotOk C id) {mem : MemoryHierarchy}
    (hmem : Sound C mem) {i : ℕ} (hi : i < 36) :
    mem.isSharedMemoryAddress (slotAddr id + BitVec.ofNat 64 i) = false := by
  have hbase : Golden.sharedMemBase = 0x00400000 := rfl
  have hnat := slotByte_toNat h.bound hi
  rw [← Bool.not_eq_true]
  unfold MemoryHierarchy.isSharedMemoryAddress
  rw [Bool.and_eq_true, decide_eq_true_iff, decide_eq_true_iff, hmem.size, hnat, hbase]
  rcases h.window with hw | hw <;> omega

/-- The bytes of one slot are far behind the start of another one. -/
theorem slots_apart {id id' : BitVec 32} (h : id.toNat < 53280) (h' : id'.toNat < 53280)
    (hne : id ≠ id') {i : ℕ} (hi : i < 36) :
    36 ≤ (slotAddr id + BitVec.ofNat 64 i - slotAddr id').toNat := by
  have hnat := slotByte_toNat h hi
  have hnat' := slotAddr_toNat h'
  have hids : id.toNat ≠ id'.toNat := fun heq => hne (BitVec.eq_of_toNat_eq heq)
  rw [BitVec.toNat_sub, hnat, hnat']
  omega

theorem length_threadCtx (ctx : CudaThreadCtx) : ctx.threadCtx.length = 36 := rfl

section Workers

variable {C : Config} {L : Launch}

/-- What one more worker leaves in the memory. -/
theorem makeWorker_mem {id : BitVec 32} (hid : SlotOk C id) {mem mem' : MemoryHierarchy}
    (hmem : Sound C mem) {w : Worker} (hmake : makeWorker C L id mem = some (w, mem')) :
    w = worker C L id ∧ Sound C mem' ∧ ∀ a, mem'.globalByte a =
      (worker C L id).cudaThreadCtx.threadCtx.getD (a - slotAddr id).toNat (mem.globalByte a) := by
  unfold makeWorker at hmake
  dsimp only at hmake
  split_ifs at hmake
  obtain ⟨rfl, rfl⟩ := Prod.mk.inj (Option.some.inj hmake)
  have hout := hid.global hmem (show 0 < 36 by decide)
  rw [BitVec.add_zero] at hout
  refine ⟨rfl, hmem.writeBytes _ _ _, fun a => ?_⟩
  exact globalByte_writeBytes hout (by rw [length_threadCtx]; decide) 0 a

/-- Every slot holds its thread's context, and nothing else has changed. -/
theorem makeWorkers_mem {ids : List (BitVec 32)} (hids : ∀ id ∈ ids, SlotOk C id)
    (hnodup : ids.Nodup) {mem mem' : MemoryHierarchy} (hmem : Sound C mem) {ws : List Worker}
    (hmake : makeWorkers C L ids mem = some (ws, mem')) :
    ws = ids.map (worker C L) ∧ Sound C mem' ∧
      (∀ a, (∀ id ∈ ids, 36 ≤ (a - slotAddr id).toNat) → mem'.globalByte a = mem.globalByte a) ∧
      ∀ id ∈ ids, ∀ i < 36, mem'.globalByte (slotAddr id + BitVec.ofNat 64 i) =
        (worker C L id).cudaThreadCtx.threadCtx.getD i 0 := by
  induction ids generalizing mem ws with
  | nil =>
    obtain ⟨rfl, rfl⟩ := Prod.mk.inj (Option.some.inj hmake)
    exact ⟨rfl, hmem, fun _ _ => rfl, fun id hid => absurd hid List.not_mem_nil⟩
  | cons id ids ih =>
    obtain ⟨⟨w, mem₁⟩, hone, hmake⟩ := Option.bind_eq_some_iff.1 hmake
    obtain ⟨⟨ws', mem₂⟩, hrest, hmake⟩ := Option.bind_eq_some_iff.1 hmake
    obtain ⟨rfl, rfl⟩ := Prod.mk.inj (Option.some.inj hmake)
    have hid := hids id List.mem_cons_self
    obtain ⟨rfl, hmem₁, hbytes⟩ := makeWorker_mem hid hmem hone
    obtain ⟨hnot, hnodup'⟩ := List.nodup_cons.1 hnodup
    obtain ⟨rfl, hmem₂, hsame, hslots⟩ := ih
      (fun id' hid' => hids id' (List.mem_cons_of_mem _ hid')) hnodup' hmem₁ hrest
    refine ⟨rfl, hmem₂, fun a ha => ?_, fun id' hid' i hi => ?_⟩
    · rw [hsame a fun id' hid' => ha id' (List.mem_cons_of_mem _ hid'), hbytes,
        List.getD_eq_default _ _ (by
          rw [length_threadCtx]
          exact ha id List.mem_cons_self)]
    · rcases List.mem_cons.1 hid' with rfl | hid'
      · rw [hsame _ fun id'' hid'' => slots_apart hid.bound
          (hids id'' (List.mem_cons_of_mem _ hid'')).bound
          (fun heq => hnot (heq ▸ hid'')) hi, hbytes]
        have hsub : (slotAddr id' + BitVec.ofNat 64 i - slotAddr id').toNat = i := by
          rw [BitVec.toNat_sub, slotByte_toNat hid.bound hi, slotAddr_toNat hid.bound]
          omega
        rw [hsub, List.getD_eq_getElem _ _ (by rwa [length_threadCtx]),
          List.getD_eq_getElem _ _ (by rwa [length_threadCtx])]
      · exact hslots id' hid' i hi

/-! ## Loads off `gp` -/

/-- The nine words of `thread_ctx`. -/
def CudaThreadCtx.words (ctx : CudaThreadCtx) : List Word :=
  [ctx.tid.x, ctx.tid.y, ctx.tid.z, ctx.ctaid.x, ctx.ctaid.y, ctx.ctaid.z, ctx.ntid.x, ctx.ntid.y,
    ctx.ntid.z]

theorem wordBytes_append (w : Word) : (w >>> 24).setWidth 8 ++ (w >>> 16).setWidth 8 ++
    (w >>> 8).setWidth 8 ++ w.setWidth 8 = (w : BitVec 32) := by
  apply BitVec.eq_of_getLsbD_eq
  intro i hi
  simp only [BitVec.getLsbD_append, BitVec.getLsbD_setWidth, BitVec.getLsbD_ushiftRight]
  interval_cases i <;> simp

/-- A word of a context from its bytes. -/
theorem threadCtx_word (ctx : CudaThreadCtx) {k : ℕ} (hk : k < 9) :
    ∃ word, ctx.words[k]? = some word ∧
      ctx.threadCtx.getD (4 * k + 3) 0 ++ ctx.threadCtx.getD (4 * k + 2) 0 ++
        ctx.threadCtx.getD (4 * k + 1) 0 ++ ctx.threadCtx.getD (4 * k) 0 = word := by
  interval_cases k <;> exact ⟨_, rfl, wordBytes_append _⟩

theorem worker_gp (C : Config) (L : Launch) (id : BitVec 32) :
    (worker C L id).cu.regs 3 = ctxBase id := rfl

/-- The address of word `k` off `gp`. -/
theorem signedAddress_gp {id : BitVec 32} (h : id.toNat < 53280) {k : ℕ} (hk : k < 9) :
    Golden.signedAddress (ctxBase id) (BitVec.ofNat 32 (4 * k)) =
      some (slotAddr id + BitVec.ofNat 64 (4 * k)) := by
  have hnat := ctxBase_toNat h
  have hbase : (ctxBase id).toInt = ((ctxBase id).toNat : ℤ) :=
    BitVec.toInt_eq_toNat_of_lt (by omega)
  have himm : (BitVec.ofNat 32 (4 * k)).toInt = ((4 * k : ℕ) : ℤ) := by
    have hk' : (BitVec.ofNat 32 (4 * k)).toNat = 4 * k := by
      rw [BitVec.toNat_ofNat]
      omega
    rw [BitVec.toInt_eq_toNat_of_lt (by omega), hk']
  have hsum : (ctxBase id).toInt + (BitVec.ofNat 32 (4 * k)).toInt =
      (((ctxBase id).toNat + 4 * k : ℕ) : ℤ) := by
    rw [hbase, himm, Nat.cast_add]
  unfold Golden.signedAddress
  dsimp only
  rw [hsum, if_pos (by omega)]
  refine congrArg some (BitVec.eq_of_toNat_eq ?_)
  rw [BitVec.ofInt_natCast, BitVec.toNat_ofNat, slotByte_toNat h (by omega), hnat]
  omega

/-- A load off `gp` finds the word of the context in the global memory. -/
theorem loadWord_context {id : BitVec 32} (hid : SlotOk C id) {mem : MemoryHierarchy}
    (hmem : Sound C mem) {ctx : CudaThreadCtx}
    (hbytes : ∀ i < 36, mem.globalByte (slotAddr id + BitVec.ofNat 64 i) = ctx.threadCtx.getD i 0)
    {k : ℕ} (hk : k < 9) (blockId : BlockId) :
    mem.isSharedMemoryAddress (slotAddr id + BitVec.ofNat 64 (4 * k)) = false ∧
      (mem.loadWord (slotAddr id + BitVec.ofNat 64 (4 * k)) blockId).1 = ctx.words[k]? := by
  have hglobal := hid.global hmem (show 4 * k < 36 by omega)
  have haligned : (slotAddr id + BitVec.ofNat 64 (4 * k)).toNat % 4 = 0 := by
    rw [slotByte_toNat hid.bound (by omega)]
    omega
  have hbyte : ∀ j : ℕ, j < 4 →
      mem.globalByte (slotAddr id + BitVec.ofNat 64 (4 * k) + BitVec.ofNat 64 j) =
        ctx.threadCtx.getD (4 * k + j) 0 := by
    intro j hj
    rw [BitVec.add_assoc, ← BitVec.ofNat_add]
    exact hbytes _ (by omega)
  have h0 := hbyte 0 (by decide)
  have h1 := hbyte 1 (by decide)
  have h2 := hbyte 2 (by decide)
  have h3 := hbyte 3 (by decide)
  rw [BitVec.add_zero] at h0
  obtain ⟨word, hword, happend⟩ := threadCtx_word ctx hk
  refine ⟨hglobal, ?_⟩
  rw [MemoryHierarchy.loadWord_global (by rwa [Golden.alignAddress_of_aligned haligned])
    hmem.coherent, Golden.alignAddress_of_aligned haligned,
    MemoryHierarchy.globalWord_eq_bytes mem haligned, hword, ← happend]
  refine congrArg some ?_
  rw [h0, ← h1, ← h2, ← h3]
  rfl

/-! ## All workers -/

theorem makeWorkers_append {ids ids' : List (BitVec 32)} {mem mem₁ mem₂ : MemoryHierarchy}
    {ws ws' : List Worker} (h : makeWorkers C L ids mem = some (ws, mem₁))
    (h' : makeWorkers C L ids' mem₁ = some (ws', mem₂)) :
    makeWorkers C L (ids ++ ids') mem = some (ws ++ ws', mem₂) := by
  induction ids generalizing mem ws with
  | nil =>
    obtain ⟨rfl, rfl⟩ := Prod.mk.inj (Option.some.inj h)
    exact h'
  | cons id ids ih =>
    obtain ⟨⟨w, mem₃⟩, hone, h⟩ := Option.bind_eq_some_iff.1 h
    obtain ⟨⟨ws₃, mem₄⟩, hrest, h⟩ := Option.bind_eq_some_iff.1 h
    obtain ⟨rfl, rfl⟩ := Prod.mk.inj (Option.some.inj h)
    refine Option.bind_eq_some_iff.2 ⟨(w, mem₃), hone, ?_⟩
    exact Option.bind_eq_some_iff.2 ⟨(ws₃ ++ ws', mem₂), ih hrest, rfl⟩

/-- The workers of the groups are made in the order of their ids. -/
theorem makeWarpGroupsFrom_flatten {warpSize : BitVec 32} {is : List ℕ}
    {mem mem' : MemoryHierarchy} {gs : List (List Worker)}
    (h : makeWarpGroupsFrom C L warpSize is mem = some (gs, mem')) :
    makeWorkers C L (is.flatMap fun i => L.warpThreads warpSize (BitVec.ofNat 32 i)) mem =
      some (gs.flatten, mem') := by
  induction is generalizing mem gs with
  | nil =>
    obtain ⟨rfl, rfl⟩ := Prod.mk.inj (Option.some.inj h)
    rfl
  | cons i is ih =>
    obtain ⟨⟨ws, mem₁⟩, hone, h⟩ := Option.bind_eq_some_iff.1 h
    obtain ⟨⟨gs', mem₂⟩, hrest, h⟩ := Option.bind_eq_some_iff.1 h
    obtain ⟨rfl, rfl⟩ := Prod.mk.inj (Option.some.inj h)
    exact makeWorkers_append hone (ih hrest)

end Workers

/-- The workers of the loop that `warp_size` asks for, and the memory with their contexts. -/
def allWorkers (C : Config) (L : Launch) (mem : MemoryHierarchy) :
    Option (List Worker × MemoryHierarchy) :=
  if 1 < L.warpSize C then
    (makeWarpGroups C L mem).map fun (groups, mem) => (groups.flatten, mem)
  else makeScalarWorkers C L mem

/-- Either way the workers are those of the ids below the thread count, in order. -/
theorem allWorkers_eq {C : Config} {L : Launch} (h : Fits L.grid L.block)
    (hwarp : 1 < L.warpSize C → L.block.volume + (L.warpSize C).toNat ≤ 2 ^ 32)
    {mem mem' : MemoryHierarchy} {ws : List Worker}
    (hall : allWorkers C L mem = some (ws, mem')) :
    makeWorkers C L ((List.range (L.grid.volume * L.block.volume)).map (BitVec.ofNat 32)) mem =
      some (ws, mem') := by
  unfold allWorkers at hall
  split_ifs at hall with hsize
  · obtain ⟨⟨gs, mem₁⟩, hgs, heq⟩ := Option.map_eq_some_iff.1 hall
    obtain ⟨rfl, rfl⟩ := Prod.mk.inj heq
    have hpos : 0 < (L.warpSize C).toNat := lt_trans Nat.zero_lt_one hsize
    rw [← flatMap_warpThreads h hpos (hwarp hsize)]
    exact makeWarpGroupsFrom_flatten hgs
  · rw [← totalThreads_toNat h]
    exact hall

end RiscvGpgpu.Bridge
