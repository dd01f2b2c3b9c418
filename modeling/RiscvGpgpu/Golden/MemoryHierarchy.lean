import RiscvGpgpu.Hls.Types

/-!
# The golden memory hierarchy

`memory_hierarchy.cpp`: word maps keyed by aligned 64-bit addresses, written through, and a byte
array of shared memory for each block. A key without an entry of `globalMemory` reads as zero.
`MemoryHierarchy.Coherent` says that the two caches hold nothing but the words behind them.
-/

namespace RiscvGpgpu.Golden

abbrev Address := BitVec 64
abbrev BlockId := BitVec 32
abbrev Byte := BitVec 8

/-- `SHARED_MEM_BASE`. -/
def sharedMemBase : ℕ := 0x00400000

def alignAddress (addr : Address) : Address := addr &&& ~~~3#64

/-- The byte of a word at the place an address has in it. -/
def wordByte (word : Word) (addr : Address) : Byte :=
  (word >>> ((addr &&& 3#64).toNat * 8)).setWidth 8

/-- A word with that byte replaced. -/
def setWordByte (word : Word) (addr : Address) (b : Byte) : Word :=
  let shift := (addr &&& 3#64).toNat * 8
  (word &&& ~~~(0xFF#32 <<< shift)) ||| (b.setWidth 32 <<< shift)

/-- A word from its bytes, the lowest first. -/
def wordOfBytes (b₀ b₁ b₂ b₃ : Byte) : Word :=
  b₀.setWidth 32 ||| (b₁.setWidth 32 <<< 8) ||| (b₂.setWidth 32 <<< 16) ||| (b₃.setWidth 32 <<< 24)

structure MemoryHierarchy where
  /-- `config_.shared_mem_size`. -/
  sharedMemSize : BitVec 32
  sharedMemory : BlockId → Option (List Byte)
  globalMemory : Address → Option Word
  l1Cache : Address → Option Word
  l2Cache : Address → Option Word
  l1Hits : BitVec 64
  l1Misses : BitVec 64
  l2Hits : BitVec 64
  l2Misses : BitVec 64

namespace MemoryHierarchy

/-- A memory hierarchy as it is constructed. -/
def init (sharedMemSize : BitVec 32) : MemoryHierarchy where
  sharedMemSize := sharedMemSize
  sharedMemory := fun _ => none
  globalMemory := fun _ => none
  l1Cache := fun _ => none
  l2Cache := fun _ => none
  l1Hits := 0
  l1Misses := 0
  l2Hits := 0
  l2Misses := 0

variable (h : MemoryHierarchy)

def isSharedMemoryAddress (addr : Address) : Bool :=
  sharedMemBase ≤ addr.toNat && addr.toNat < sharedMemBase + h.sharedMemSize.toNat

/-- The word that the global memory holds at a key. -/
def globalWord (addr : Address) : Word := (h.globalMemory addr).getD 0

/-! ## Shared memory -/

def setShared (blockId : BlockId) (bytes : List Byte) : MemoryHierarchy :=
  { h with sharedMemory := Function.update h.sharedMemory blockId (some bytes) }

def allocateSharedMemory (blockId : BlockId) (sizeBytes : BitVec 32) : Bool × MemoryHierarchy :=
  if h.sharedMemSize < sizeBytes then (false, h)
  else (true, h.setShared blockId (List.replicate sizeBytes.toNat 0))

def releaseSharedMemory (blockId : BlockId) : MemoryHierarchy :=
  { h with sharedMemory := Function.update h.sharedMemory blockId none }

/-- The block's bytes, if it has `len` of them from the address on. -/
def sharedRange (blockId : BlockId) (addr : Address) (len : ℕ) : Option (List Byte) :=
  match h.sharedMemory blockId with
  | some bytes =>
    if addr.toNat - sharedMemBase + len ≤ bytes.length then
      some ((bytes.drop (addr.toNat - sharedMemBase)).take len)
    else none
  | none => none

/-- Overwrite bytes of the block from the address on; out of range nothing happens. -/
def setSharedRange (blockId : BlockId) (addr : Address) (data : List Byte) : MemoryHierarchy :=
  match h.sharedMemory blockId with
  | some bytes =>
    let offset := addr.toNat - sharedMemBase
    if offset + data.length ≤ bytes.length then
      h.setShared blockId (bytes.take offset ++ data ++ bytes.drop (offset + data.length))
    else h
  | none => h

/-- The word read, or nothing where `loadSharedMemory` reports failure. -/
def loadSharedMemory (blockId : BlockId) (addr : Address) : Option Word :=
  if addr.toNat < sharedMemBase then none
  else match h.sharedRange blockId addr 4 with
    | some [b₀, b₁, b₂, b₃] => some (wordOfBytes b₀ b₁ b₂ b₃)
    | _ => none

def storeSharedMemory (blockId : BlockId) (addr : Address) (data : Word) : MemoryHierarchy :=
  if addr.toNat < sharedMemBase then h
  else h.setSharedRange blockId addr
    [data.setWidth 8, (data >>> 8).setWidth 8, (data >>> 16).setWidth 8, (data >>> 24).setWidth 8]

/-! ## Words -/

/-- `loadWord`: the word it writes through its reference argument, or nothing where it reports
failure. -/
def loadWord (addr : Address) (blockId : BlockId) : Option Word × MemoryHierarchy :=
  let aligned := alignAddress addr
  if h.isSharedMemoryAddress aligned then (h.loadSharedMemory blockId aligned, h)
  else match h.l1Cache aligned with
    | some data => (some data, { h with l1Hits := h.l1Hits + 1 })
    | none =>
      match h.l2Cache aligned with
      | some data =>
        (some data, { h with
          l1Cache := Function.update h.l1Cache aligned (some data)
          l1Misses := h.l1Misses + 1
          l2Hits := h.l2Hits + 1 })
      | none =>
        let data := h.globalWord aligned
        (some data, { h with
          l2Cache := Function.update h.l2Cache aligned (some data)
          l1Cache := Function.update h.l1Cache aligned (some data)
          l1Misses := h.l1Misses + 1
          l2Misses := h.l2Misses + 1 })

/-- Replace the word of a key that has one. -/
def updateIfPresent (cache : Address → Option Word) (addr : Address) (data : Word) :
    Address → Option Word :=
  if (cache addr).isSome then Function.update cache addr (some data) else cache

def storeWord (addr : Address) (data : Word) (blockId : BlockId) : MemoryHierarchy :=
  let aligned := alignAddress addr
  if h.isSharedMemoryAddress aligned then h.storeSharedMemory blockId aligned data
  else { h with
    l1Cache := updateIfPresent h.l1Cache aligned data
    l2Cache := updateIfPresent h.l2Cache aligned data
    globalMemory := Function.update h.globalMemory aligned (some data) }

def invalidateCache : MemoryHierarchy :=
  { h with
    l1Cache := fun _ => none
    l2Cache := fun _ => none }

/-! ## Bytes -/

/-- One turn of the loop of `writeBytes`. -/
def writeByte (addr : Address) (b : Byte) : MemoryHierarchy :=
  let wordAddr := alignAddress addr
  { h with
    globalMemory := Function.update h.globalMemory wordAddr
      (some (setWordByte (h.globalWord wordAddr) addr b))
    l1Cache := Function.update h.l1Cache wordAddr none
    l2Cache := Function.update h.l2Cache wordAddr none }

/-- The loop of `writeBytes`. -/
def writeGlobalBytes (h : MemoryHierarchy) (addr : Address) : List Byte → MemoryHierarchy
  | [] => h
  | b :: bs => writeGlobalBytes (h.writeByte addr b) (addr + 1) bs

/-- A request that starts in the window may not leave it. -/
def writeBytes (addr : Address) (data : List Byte) (blockId : BlockId) : MemoryHierarchy :=
  if h.isSharedMemoryAddress addr then
    if sharedMemBase + h.sharedMemSize.toNat < (addr + BitVec.ofNat 64 data.length).toNat then h
    else h.setSharedRange blockId addr data
  else h.writeGlobalBytes addr data

/-- A byte as `readBytes` reads it from the global memory. -/
def globalByte (addr : Address) : Byte := wordByte (h.globalWord (alignAddress addr)) addr

def readBytes (addr : Address) (len : ℕ) (blockId : BlockId) : List Byte :=
  if h.isSharedMemoryAddress addr then
    if sharedMemBase + h.sharedMemSize.toNat < (addr + BitVec.ofNat 64 len).toNat then
      List.replicate len 0
    else (h.sharedRange blockId addr len).getD (List.replicate len 0)
  else (List.range len).map fun i => h.globalByte (addr + BitVec.ofNat 64 i)

/-- A range of shared memory has the length asked for. -/
theorem length_sharedRange {blockId : BlockId} {addr : Address} {n : ℕ}
    {bytes : List Byte} (hr : h.sharedRange blockId addr n = some bytes) : bytes.length = n := by
  unfold sharedRange at hr
  split at hr
  · split_ifs at hr with hle
    obtain rfl := Option.some.inj hr
    rw [List.length_take, List.length_drop]
    omega
  · exact absurd hr (by simp)

theorem length_readBytes (h : MemoryHierarchy) (addr : Address) (n : ℕ) (blockId : BlockId) :
    (h.readBytes addr n blockId).length = n := by
  unfold readBytes
  split_ifs
  · exact List.length_replicate
  · cases hr : h.sharedRange blockId addr n with
    | none => exact List.length_replicate
    | some bytes => exact length_sharedRange h hr
  · rw [List.length_map, List.length_range]

/-! ## The caches hold what is behind them -/

/-- A cached word is the word of the global memory. -/
structure Coherent : Prop where
  l1 : ∀ addr data, h.l1Cache addr = some data → data = h.globalWord addr
  l2 : ∀ addr data, h.l2Cache addr = some data → data = h.globalWord addr

variable {h}

theorem coherent_invalidateCache (h : MemoryHierarchy) : h.invalidateCache.Coherent where
  l1 := fun _ _ hc => absurd hc (by simp [invalidateCache])
  l2 := fun _ _ hc => absurd hc (by simp [invalidateCache])

theorem loadWord_global {addr : Address} (hg : h.isSharedMemoryAddress (alignAddress addr) = false)
    (hc : h.Coherent) (blockId : BlockId) :
    (h.loadWord addr blockId).1 = some (h.globalWord (alignAddress addr)) := by
  unfold loadWord
  dsimp only
  rw [if_neg (by rw [hg]; exact Bool.false_ne_true)]
  cases h1 : h.l1Cache (alignAddress addr) with
  | some data => exact congrArg some (hc.l1 _ _ h1)
  | none =>
    cases h2 : h.l2Cache (alignAddress addr) with
    | some data => exact congrArg some (hc.l2 _ _ h2)
    | none => rfl

/-- A load changes no word and no byte. -/
theorem loadWord_frame (h : MemoryHierarchy) (addr : Address) (blockId : BlockId) :
    (h.loadWord addr blockId).2.globalMemory = h.globalMemory ∧
      (h.loadWord addr blockId).2.sharedMemory = h.sharedMemory ∧
      (h.loadWord addr blockId).2.sharedMemSize = h.sharedMemSize := by
  unfold loadWord
  dsimp only
  split
  · exact ⟨rfl, rfl, rfl⟩
  · split
    · exact ⟨rfl, rfl, rfl⟩
    · split <;> exact ⟨rfl, rfl, rfl⟩

theorem Coherent.loadWord (hc : h.Coherent) (addr : Address) (blockId : BlockId) :
    (h.loadWord addr blockId).2.Coherent := by
  unfold MemoryHierarchy.loadWord
  dsimp only
  split
  · exact hc
  · cases h1 : h.l1Cache (alignAddress addr) with
    | some data => exact ⟨hc.l1, hc.l2⟩
    | none =>
      cases h2 : h.l2Cache (alignAddress addr) with
      | some data =>
        refine ⟨fun a d hd => ?_, hc.l2⟩
        dsimp only at hd
        rw [Function.update_apply] at hd
        split at hd
        · next heq =>
          obtain rfl := Option.some.inj hd
          rw [heq]
          exact hc.l2 _ _ h2
        · exact hc.l1 a d hd
      | none =>
        refine ⟨fun a d hd => ?_, fun a d hd => ?_⟩
        all_goals
          dsimp only at hd
          rw [Function.update_apply] at hd
          split at hd
        · next heq =>
          obtain rfl := Option.some.inj hd
          rw [heq]
          rfl
        · exact hc.l1 a d hd
        · next heq =>
          obtain rfl := Option.some.inj hd
          rw [heq]
          rfl
        · exact hc.l2 a d hd

/-- A cache after a store through it holds what is behind it. -/
theorem updateIfPresent_spec {cache global : Address → Option Word} {key : Address} {data : Word}
    (hcache : ∀ addr v, cache addr = some v → v = (global addr).getD 0) (addr : Address) (v : Word)
    (hv : updateIfPresent cache key data addr = some v) :
    v = ((Function.update global key (some data)) addr).getD 0 := by
  unfold updateIfPresent at hv
  by_cases heq : addr = key
  · subst heq
    rw [Function.update_self]
    split at hv
    · rw [Function.update_self] at hv
      exact (Option.some.inj hv).symm
    · next hnone => exact absurd (by rw [hv]; rfl) hnone
  · rw [Function.update_of_ne heq]
    split at hv
    · rw [Function.update_of_ne heq] at hv
      exact hcache addr v hv
    · exact hcache addr v hv

theorem setSharedRange_frame (h : MemoryHierarchy) (blockId : BlockId) (addr : Address)
    (data : List Byte) : ∃ shared,
      h.setSharedRange blockId addr data = { h with sharedMemory := shared } := by
  unfold setSharedRange
  split
  · dsimp only
    split
    · exact ⟨_, rfl⟩
    · exact ⟨_, rfl⟩
  · exact ⟨_, rfl⟩

/-- A store into the window touches the shared memory only. -/
theorem storeWord_shared {addr : Address} (hs : h.isSharedMemoryAddress (alignAddress addr) = true)
    (data : Word) (blockId : BlockId) : ∃ shared,
      h.storeWord addr data blockId = { h with sharedMemory := shared } := by
  unfold storeWord storeSharedMemory
  dsimp only
  rw [if_pos hs]
  split
  · exact ⟨_, rfl⟩
  · exact setSharedRange_frame _ _ _ _

theorem storeWord_global {addr : Address}
    (hg : h.isSharedMemoryAddress (alignAddress addr) = false) (data : Word) (blockId : BlockId) :
    h.storeWord addr data blockId = { h with
      l1Cache := updateIfPresent h.l1Cache (alignAddress addr) data
      l2Cache := updateIfPresent h.l2Cache (alignAddress addr) data
      globalMemory := Function.update h.globalMemory (alignAddress addr) (some data) } := by
  unfold storeWord
  dsimp only
  rw [if_neg (by rw [hg]; exact Bool.false_ne_true)]

theorem Coherent.storeWord (hc : h.Coherent) (addr : Address) (data : Word) (blockId : BlockId) :
    (h.storeWord addr data blockId).Coherent := by
  cases hs : h.isSharedMemoryAddress (alignAddress addr) with
  | true =>
    obtain ⟨shared, heq⟩ := storeWord_shared hs data blockId
    rw [heq]
    exact ⟨hc.l1, hc.l2⟩
  | false =>
    rw [storeWord_global hs]
    exact ⟨updateIfPresent_spec hc.l1, updateIfPresent_spec hc.l2⟩

end MemoryHierarchy

end RiscvGpgpu.Golden
