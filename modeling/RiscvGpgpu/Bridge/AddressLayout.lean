import RiscvGpgpu.Bridge.ContextSlots
import RiscvGpgpu.Bridge.DeviceBuffers
import RiscvGpgpu.Lib.Calls
import RiscvGpgpu.Lib.Regions

/-!
# The address layout of a launch

Context slots, stacks, the shared window and the device buffers start at addresses that three files
choose. They are apart exactly for the launches, windows and buffers of `LayoutFits`
(`layout_iff`).
-/

namespace RiscvGpgpu.Bridge

open Golden (Address Byte BlockId MemoryHierarchy)
open Host (DeviceMemory KernelExecution)
open Regions

/-! ## Driver calls -/

/-- The calls that change the buffers. -/
inductive DeviceCall where
  | allocateDeviceBuffer (size : BitVec 64)
  | freeDeviceBuffer (devPtr : Address)
  | copyHostToDevice (dst : Address) (src : List Byte)
  | setDeviceBufferContent (devPtr : Address) (data : List Byte)

/-- A call with its result, which is false also where an allocation throws. -/
def DeviceCall.step : DeviceCall → DeviceMemory → Bool × DeviceMemory
  | .allocateDeviceBuffer size, d =>
    ((d.allocateDeviceBuffer size).1.any Option.isSome, (d.allocateDeviceBuffer size).2)
  | .freeDeviceBuffer devPtr, d => d.freeDeviceBuffer devPtr
  | .copyHostToDevice dst src, d => d.copyHostToDevice dst src
  | .setDeviceBufferContent devPtr data, d => d.setDeviceBufferContent devPtr data

/-- `g_next_dev_addr` does not wrap around. -/
def NoWrap (d : DeviceMemory) : DeviceCall → Prop
  | .allocateDeviceBuffer size => d.nextDevAddr.toNat + (size.toNat + 15) / 16 * 16 < 2 ^ 64
  | _ => True

/-- The buffer of this address and size is live. -/
def Live (d : DeviceMemory) (p : Address) (n : ℕ) : Prop :=
  ∃ bytes, d.buffers p = some bytes ∧ bytes.length = n

/-- The device buffers are a heap from the driver's base address on. -/
def BufferHeap (d : DeviceMemory) : Prop :=
  Heap BitVec.toNat (Live d) 0x10000000 d.nextDevAddr.toNat

theorem bufferHeap_init : BufferHeap .init :=
  (Heap.init BitVec.toNat 0x10000000).mono fun _ _ h => by
    obtain ⟨bytes, hb, -⟩ := h
    exact absurd hb (by simp [DeviceMemory.init])

/-- A call that puts other bytes of the same length in a buffer. -/
theorem BufferHeap.overwrite {d : DeviceMemory} (h : BufferHeap d) {p : Address}
    {old new : List Byte} (hold : d.buffers p = some old) (hlen : new.length = old.length) :
    BufferHeap { d with buffers := Function.update d.buffers p (some new) } := by
  refine Heap.mono h ?_
  rintro q n ⟨bytes, hb, hn⟩
  have hb : Function.update d.buffers p (some new) q = some bytes := hb
  by_cases heq : q = p
  · subst heq
    rw [Function.update_self] at hb
    obtain rfl := Option.some.inj hb
    exact ⟨old, hold, hlen.symm.trans hn⟩
  · rw [Function.update_of_ne heq] at hb
    exact ⟨bytes, hb, hn⟩

/-- The place of a new buffer, with all its bytes or with none. -/
theorem BufferHeap.allocate {d : DeviceMemory} (h : BufferHeap d) {size : BitVec 64}
    (hwrap : NoWrap d (.allocateDeviceBuffer size)) :
    BufferHeap (d.allocateDeviceBuffer size).2 := by
  have hwrap : d.nextDevAddr.toNat + (size.toNat + 15) / 16 * 16 < 2 ^ 64 := hwrap
  have haligned : (DeviceMemory.alignedSize size).toNat = (size.toNat + 15) / 16 * 16 := by
    have hsum : (size + 15).toNat = size.toNat + 15 := by
      rw [BitVec.toNat_add]
      exact Nat.mod_eq_of_lt (by show size.toNat + 15 < 2 ^ 64; omega)
    unfold DeviceMemory.alignedSize
    rw [BitVec.toNat_mul, BitVec.toNat_udiv, hsum]
    exact Nat.mod_eq_of_lt (by show (size.toNat + 15) / 16 * 16 < 2 ^ 64; omega)
  have hnext : (d.nextDevAddr + DeviceMemory.alignedSize size).toNat =
      d.nextDevAddr.toNat + (size.toNat + 15) / 16 * 16 := by
    rw [BitVec.toNat_add, haligned, Nat.mod_eq_of_lt hwrap]
  have hnew : ∀ bytes : List Byte, bytes.length ≤ size.toNat →
      BufferHeap ⟨Function.update d.buffers d.nextDevAddr (some bytes),
        d.nextDevAddr + DeviceMemory.alignedSize size⟩ := by
    intro bytes hlen
    have hkey : BitVec.toNat d.nextDevAddr = d.nextDevAddr.toNat := rfl
    have hend : d.nextDevAddr.toNat + bytes.length ≤
        (d.nextDevAddr + DeviceMemory.alignedSize size).toNat := by
      rw [hnext]
      omega
    refine Heap.allocate h hkey hend ?_
    rintro q n ⟨bytes', hb, hn⟩
    have hb : Function.update d.buffers d.nextDevAddr (some bytes) q = some bytes' := hb
    by_cases heq : q = d.nextDevAddr
    · subst heq
      rw [Function.update_self] at hb
      obtain rfl := Option.some.inj hb
      exact .inr ⟨rfl, hn.symm⟩
    · rw [Function.update_of_ne heq] at hb
      exact .inl ⟨bytes', hb, hn⟩
  unfold DeviceMemory.allocateDeviceBuffer
  split_ifs with hzero
  · exact h
  · refine hnew _ ?_
    -- an entry at the watermark itself is an empty one
    cases hb : d.buffers d.nextDevAddr with
    | none => exact Nat.zero_le _
    | some old =>
      have hbound := (Heap.bounds h d.nextDevAddr old.length ⟨old, hb, rfl⟩).2
      show old.length ≤ size.toNat
      omega
  · refine hnew _ ?_
    rw [List.length_replicate]

theorem BufferHeap.step {d : DeviceMemory} (h : BufferHeap d) {c : DeviceCall}
    (hwrap : NoWrap d c) : BufferHeap (c.step d).2 := by
  cases c with
  | allocateDeviceBuffer size => exact h.allocate hwrap
  | freeDeviceBuffer devPtr =>
    show BufferHeap (d.freeDeviceBuffer devPtr).2
    unfold DeviceMemory.freeDeviceBuffer
    cases d.buffers devPtr with
    | none => exact h
    | some _ =>
      refine Heap.mono h ?_
      rintro q n ⟨bytes, hb, hn⟩
      have hb : Function.update d.buffers devPtr none q = some bytes := hb
      by_cases heq : q = devPtr
      · subst heq
        rw [Function.update_self] at hb
        exact absurd hb (by simp)
      · rw [Function.update_of_ne heq] at hb
        exact ⟨bytes, hb, hn⟩
  | copyHostToDevice dst src =>
    show BufferHeap (d.copyHostToDevice dst src).2
    unfold DeviceMemory.copyHostToDevice
    cases hb : d.buffers dst with
    | none => exact h
    | some bytes =>
      dsimp only
      split_ifs with hlong
      · exact h
      · refine h.overwrite hb ?_
        rw [List.length_append, List.length_drop]
        omega
  | setDeviceBufferContent devPtr data =>
    show BufferHeap (d.setDeviceBufferContent devPtr data).2
    unfold DeviceMemory.setDeviceBufferContent
    cases hb : d.buffers devPtr with
    | none => exact h
    | some bytes =>
      dsimp only
      split_ifs with hlen
      · exact h
      · exact h.overwrite hb (not_not.1 hlen)

theorem bufferHeap_after {cs : List DeviceCall}
    (h : Calls.Each DeviceCall.step NoWrap .init cs) :
    BufferHeap (Calls.after DeviceCall.step .init cs) :=
  Calls.after_induction (fun _ d => BufferHeap d) bufferHeap_init
    (fun _ _ hwrap hheap => hheap.step hwrap) h

/-! ## The layout -/

/-- The regions of a launch, for the linear ids of its threads and the addresses of the buffers. -/
inductive Place where
  | context (t : ℕ)
  | stack (t : ℕ)
  | shared
  | buffer (p : Address)

section Layout

variable (C : Config) (L : Launch) (d : DeviceMemory)

/-- The number of threads. -/
def Launch.threads : ℕ := L.grid.volume * L.block.volume

/-- Start and length of a region. The stack pointer is 16 bytes below the end of the stack. -/
def Place.region : Place → ℕ × ℕ
  | .context t => ((ctxBase (BitVec.ofNat 32 t)).toNat, 36)
  | .stack t => ((stackPointer (BitVec.ofNat 32 t) - (stackStride - 16)).toNat, 0x10000)
  | .shared => (Golden.sharedMemBase, C.sharedMemSize.toNat)
  | .buffer p => (p.toNat, d.getDeviceBufferSize p)

/-- The region is one of the launch's. -/
def Place.Present : Place → Prop
  | .context t => t < L.threads
  | .stack t => t < L.threads
  | .shared => True
  | .buffer p => d.buffers p ≠ none

/-- The context words of every worker are in the global memory, where loads off `gp` find them. -/
def ContextsFound : Prop :=
  ∀ files execution req mem ws mem', setUp C files execution req d = some (.ok (L, mem)) →
    allWorkers C L mem = some (ws, mem') → ∀ w ∈ ws, ∀ k < 9,
      ∃ addr, Golden.signedAddress (w.cu.regs 3) (BitVec.ofNat 32 (4 * k)) = some addr ∧
        mem'.isSharedMemoryAddress addr = false ∧
        (mem'.loadWord addr w.blockId).1 = w.cudaThreadCtx.words[k]?

/-- The regions of a launch are apart in the 32-bit address space. -/
structure Layout : Prop where
  inside : ∀ r : Place, r.Present L d → ∀ x, Contains (r.region C d) x → x < 2 ^ 32
  apart : ∀ r s : Place, r.Present L d → s.Present L d → r ≠ s →
    Apart (r.region C d) (s.region C d)
  found : ContextsFound C L d

/-- 32768 slots are below the shared window, and 53248 stacks below 2^32; the next 32 stacks wrap
around to the 2 MiB below the slots. -/
structure LayoutFits : Prop where
  threads : L.threads ≤ 53280
  slots : C.sharedMemSize.toNat = 0 ∨ L.threads ≤ 32768
  window : C.sharedMemSize.toNat ≤ 0x2FC00000
  buffers : ∀ p n, Live d p n → 0 < n → p.toNat + n ≤ 2 ^ 32 ∧
    (C.sharedMemSize.toNat = 0 ∨ Golden.sharedMemBase + C.sharedMemSize.toNat ≤ p.toNat) ∧
    (p.toNat + n ≤ 0x30000000 ∨ 0x30000000 + 0x10000 * L.threads ≤ p.toNat)

end Layout

section Regions

variable {C : Config} {L : Launch} {d : DeviceMemory}

/-- A stack starts above 0x30000000, or it has wrapped around. -/
theorem stack_toNat {t : ℕ} (ht : t < 53280) :
    (stackPointer (BitVec.ofNat 32 t) - (stackStride - 16)).toNat =
      if t < 53248 then 0x30000000 + 0x10000 * t else 0x10000 * (t - 53248) := by
  unfold stackPointer stackBase stackStride
  have hnat : (BitVec.ofNat 32 t).toNat = t := by
    rw [BitVec.toNat_ofNat]
    omega
  split_ifs <;> bv_omega

theorem context_toNat {t : ℕ} (ht : t < 53280) :
    (ctxBase (BitVec.ofNat 32 t)).toNat = 0x00200000 + 64 * t := by
  have hnat : (BitVec.ofNat 32 t).toNat = t := by
    rw [BitVec.toNat_ofNat]
    omega
  rw [ctxBase_toNat (by omega), hnat]

/-- A live buffer is above the driver's base address. -/
theorem BufferHeap.base_le (h : BufferHeap d) {p : Address} {bytes : List Byte}
    (hb : d.buffers p = some bytes) : 0x10000000 ≤ p.toNat :=
  (Heap.bounds h p bytes.length ⟨bytes, hb, rfl⟩).1

theorem getDeviceBufferSize_eq {p : Address} {bytes : List Byte} (hb : d.buffers p = some bytes) :
    d.getDeviceBufferSize p = bytes.length := by
  unfold DeviceMemory.getDeviceBufferSize
  rw [hb]

/-- Two regions with no address in both, from either side. -/
theorem apart_cases {present : Place → Prop} {region : Place → ℕ × ℕ}
    (hcontexts : ∀ t u, present (.context t) → present (.context u) → t ≠ u →
      Apart (region (.context t)) (region (.context u)))
    (hstacks : ∀ t u, present (.stack t) → present (.stack u) → t ≠ u →
      Apart (region (.stack t)) (region (.stack u)))
    (hbuffers : ∀ p q, present (.buffer p) → present (.buffer q) → p ≠ q →
      Apart (region (.buffer p)) (region (.buffer q)))
    (hcontextStack : ∀ t u, present (.context t) → present (.stack u) →
      Apart (region (.context t)) (region (.stack u)))
    (hcontextShared : ∀ t, present (.context t) → Apart (region (.context t)) (region .shared))
    (hcontextBuffer : ∀ t p, present (.context t) → present (.buffer p) →
      Apart (region (.context t)) (region (.buffer p)))
    (hstackShared : ∀ t, present (.stack t) → Apart (region (.stack t)) (region .shared))
    (hstackBuffer : ∀ t p, present (.stack t) → present (.buffer p) →
      Apart (region (.stack t)) (region (.buffer p)))
    (hsharedBuffer : ∀ p, present (.buffer p) → Apart (region .shared) (region (.buffer p)))
    (r s : Place) (hr : present r) (hs : present s) (hne : r ≠ s) :
    Apart (region r) (region s) := by
  cases r with
  | context t =>
    cases s with
    | context u => exact hcontexts t u hr hs fun h => hne (congrArg Place.context h)
    | stack u => exact hcontextStack t u hr hs
    | shared => exact hcontextShared t hr
    | buffer p => exact hcontextBuffer t p hr hs
  | stack t =>
    cases s with
    | context u => exact (hcontextStack u t hs hr).symm
    | stack u => exact hstacks t u hr hs fun h => hne (congrArg Place.stack h)
    | shared => exact hstackShared t hr
    | buffer p => exact hstackBuffer t p hr hs
  | shared =>
    cases s with
    | context u => exact (hcontextShared u hs).symm
    | stack u => exact (hstackShared u hs).symm
    | shared => exact absurd rfl hne
    | buffer p => exact hsharedBuffer p hs
  | buffer p =>
    cases s with
    | context u => exact (hcontextBuffer u p hs hr).symm
    | stack u => exact (hstackBuffer u p hs hr).symm
    | shared => exact (hsharedBuffer p hr).symm
    | buffer q => exact hbuffers p q hr hs fun h => hne (congrArg Place.buffer h)

theorem LayoutFits.apart (h : LayoutFits C L d) (hheap : BufferHeap d) :
    ∀ r s : Place, r.Present L d → s.Present L d → r ≠ s →
      Apart (r.region C d) (s.region C d) := by
  have hbase : Golden.sharedMemBase = 0x00400000 := rfl
  have hthreads := h.threads
  have hcontext : ∀ t, (Place.context t).Present L d →
      (Place.context t).region C d = (0x00200000 + 64 * t, 36) := by
    intro t ht
    have ht : t < L.threads := ht
    exact Prod.ext (context_toNat (by omega)) rfl
  have hstack : ∀ t, (Place.stack t).Present L d → (Place.stack t).region C d =
      (if t < 53248 then 0x30000000 + 0x10000 * t else 0x10000 * (t - 53248), 0x10000) := by
    intro t ht
    have ht : t < L.threads := ht
    exact Prod.ext (stack_toNat (by omega)) rfl
  have hbuffer : ∀ p, (Place.buffer p).Present L d → ∃ n, Live d p n ∧
      (Place.buffer p).region C d = (p.toNat, n) ∧ 0x10000000 ≤ p.toNat := by
    intro p hp
    obtain ⟨bytes, hb⟩ := Option.ne_none_iff_exists'.1 hp
    exact ⟨bytes.length, ⟨bytes, hb, rfl⟩, Prod.ext rfl (getDeviceBufferSize_eq hb),
      hheap.base_le hb⟩
  have hshared : Place.shared.region C d = (Golden.sharedMemBase, C.sharedMemSize.toNat) := rfl
  apply apart_cases
  · intro t u ht hu hne
    rw [hcontext t ht, hcontext u hu]
    rintro x ⟨hlo, hhi⟩ ⟨hlo', hhi'⟩
    dsimp only at hlo hhi hlo' hhi'
    omega
  · intro t u ht hu hne
    have ht' : t < L.threads := ht
    have hu' : u < L.threads := hu
    rw [hstack t ht, hstack u hu]
    rintro x ⟨hlo, hhi⟩ ⟨hlo', hhi'⟩
    dsimp only at hlo hhi hlo' hhi'
    split_ifs at hlo hhi hlo' hhi' <;> omega
  · intro p q hp hq hne
    obtain ⟨n, hlive, hreg, -⟩ := hbuffer p hp
    obtain ⟨m, hlive', hreg', -⟩ := hbuffer q hq
    rw [hreg, hreg']
    exact Heap.apart hheap p q n m hlive hlive' hne
  · intro t u ht hu
    have ht' : t < L.threads := ht
    have hu' : u < L.threads := hu
    rw [hcontext t ht, hstack u hu]
    rintro x ⟨hlo, hhi⟩ ⟨hlo', hhi'⟩
    dsimp only at hlo hhi hlo' hhi'
    split_ifs at hlo' hhi' <;> omega
  · intro t ht
    have ht' : t < L.threads := ht
    rw [hcontext t ht, hshared, hbase]
    rintro x ⟨hlo, hhi⟩ ⟨hlo', hhi'⟩
    dsimp only at hlo hhi hlo' hhi'
    rcases h.slots with hnone | hfew <;> omega
  · intro t p ht hp
    have ht' : t < L.threads := ht
    obtain ⟨n, -, hreg, hlo⟩ := hbuffer p hp
    rw [hcontext t ht, hreg]
    apply apart_of_le
    dsimp only
    omega
  · intro t ht
    have hwindow := h.window
    have ht' : t < L.threads := ht
    rw [hstack t ht, hshared, hbase]
    rintro x ⟨hlo, hhi⟩ ⟨hlo', hhi'⟩
    dsimp only at hlo hhi hlo' hhi'
    split_ifs at hlo hhi <;> omega
  · intro t p ht hp
    have ht' : t < L.threads := ht
    obtain ⟨n, hlive, hreg, hlow⟩ := hbuffer p hp
    rw [hstack t ht, hreg]
    rintro x ⟨hlo, hhi⟩ ⟨hlo', hhi'⟩
    dsimp only at hlo hhi hlo' hhi'
    obtain ⟨hend, -, hside⟩ := h.buffers p n hlive (by omega)
    split_ifs at hlo hhi <;> rcases hside with hside | hside <;> omega
  · intro p hp
    obtain ⟨n, hlive, hreg, -⟩ := hbuffer p hp
    rw [hshared, hreg]
    rintro x ⟨hlo, hhi⟩ ⟨hlo', hhi'⟩
    dsimp only at hlo hhi hlo' hhi'
    obtain ⟨-, hside, -⟩ := h.buffers p n hlive (by omega)
    rcases hside with hside | hside <;> omega

theorem LayoutFits.inside (h : LayoutFits C L d) :
    ∀ r : Place, r.Present L d → ∀ x, Contains (r.region C d) x → x < 2 ^ 32 := by
  have hbase : Golden.sharedMemBase = 0x00400000 := rfl
  have hthreads := h.threads
  have hwindow := h.window
  rintro r hr x ⟨hlo, hhi⟩
  cases r with
  | context t =>
    have ht : t < L.threads := hr
    have hhi : x < (ctxBase (BitVec.ofNat 32 t)).toNat + 36 := hhi
    rw [context_toNat (by omega)] at hhi
    omega
  | stack t =>
    have ht : t < L.threads := hr
    have hhi : x < (stackPointer (BitVec.ofNat 32 t) - (stackStride - 16)).toNat + 0x10000 := hhi
    rw [stack_toNat (by omega)] at hhi
    split_ifs at hhi <;> omega
  | shared =>
    have hhi : x < Golden.sharedMemBase + C.sharedMemSize.toNat := hhi
    omega
  | buffer p =>
    obtain ⟨bytes, hb⟩ := Option.ne_none_iff_exists'.1 hr
    have hlo : p.toNat ≤ x := hlo
    have hhi : x < p.toNat + d.getDeviceBufferSize p := hhi
    rw [getDeviceBufferSize_eq hb] at hhi
    have hend := (h.buffers p bytes.length ⟨bytes, hb, rfl⟩ (by omega)).1
    omega

/-- The memory of a set-up that succeeds. -/
theorem sound_setUp {files : String → Option (List Byte)} {execution : KernelExecution}
    {req : Request} {mem : MemoryHierarchy}
    (h : setUp C files execution req d = some (.ok (L, mem))) : Sound C mem := by
  obtain ⟨image, elf, mem₀, mem₁, regs, -, hload, hmap, -, -, -, halloc⟩ := setUp_ok h
  exact (((sound_init C).load hload).mapBuffers hmap).allocateBlocks halloc

/-- A warp is not larger than its block. -/
theorem warpSize_le (hsize : 1 < L.warpSize C) :
    (L.warpSize C).toNat ≤ L.threadsPerBlock.toNat := by
  unfold Launch.warpSize at hsize ⊢
  split_ifs at hsize ⊢ with hwarps hsmall
  · exact Nat.le_refl _
  · exact BitVec.not_lt.1 hsmall
  · exact absurd hsize (by decide)

theorem LayoutFits.fits (h : LayoutFits C L d) (hgrid : L.grid.Positive)
    (hblock : L.block.Positive) : Fits L.grid L.block := by
  have hthreads : L.grid.volume * L.block.volume ≤ 53280 := h.threads
  exact ⟨hgrid, hblock, by omega⟩

theorem LayoutFits.slotOk (h : LayoutFits C L d) {t : ℕ} (ht : t < L.threads) :
    SlotOk C (BitVec.ofNat 32 t) := by
  have hthreads := h.threads
  have hnat : (BitVec.ofNat 32 t).toNat = t := by
    rw [BitVec.toNat_ofNat]
    omega
  constructor
  · rw [hnat]
    omega
  · rw [hnat]
    rcases h.slots with hnone | hfew
    · exact .inl hnone
    · exact .inr (by omega)

theorem LayoutFits.found (h : LayoutFits C L d) (hgrid : L.grid.Positive)
    (hblock : L.block.Positive) : ContextsFound C L d := by
  intro files execution req mem ws mem' hset hall w hw k hk
  have hfits := h.fits hgrid hblock
  have hthreads : L.grid.volume * L.block.volume ≤ 53280 := h.threads
  have hwarp : 1 < L.warpSize C → L.block.volume + (L.warpSize C).toNat ≤ 2 ^ 32 := by
    intro hsize
    have hle := warpSize_le hsize
    rw [threadsPerBlock_toNat hfits] at hle
    have hblk : L.block.volume ≤ L.grid.volume * L.block.volume :=
      Nat.le_mul_of_pos_left _ hgrid.volume_pos
    omega
  have hmake := allWorkers_eq hfits hwarp hall
  have hslots : ∀ id ∈ (List.range (L.grid.volume * L.block.volume)).map (BitVec.ofNat 32),
      SlotOk C id := by
    intro id hid
    obtain ⟨t, ht, rfl⟩ := List.mem_map.1 hid
    exact h.slotOk (List.mem_range.1 ht)
  have hnodup : ((List.range (L.grid.volume * L.block.volume)).map (BitVec.ofNat 32)).Nodup := by
    refine List.Nodup.map_on (fun t ht u hu heq => ?_) List.nodup_range
    have ht' := List.mem_range.1 ht
    have hu' := List.mem_range.1 hu
    have hnat := congrArg BitVec.toNat heq
    rw [BitVec.toNat_ofNat, BitVec.toNat_ofNat] at hnat
    omega
  obtain ⟨rfl, hsound, -, hbytes⟩ := makeWorkers_mem hslots hnodup (sound_setUp hset) hmake
  obtain ⟨id, hid, rfl⟩ := List.mem_map.1 hw
  have hslot := hslots id hid
  obtain ⟨hglobal, hword⟩ := loadWord_context hslot hsound (hbytes id hid) hk
    (worker C L id).blockId
  refine ⟨slotAddr id + BitVec.ofNat 64 (4 * k), ?_, hglobal, hword⟩
  rw [worker_gp]
  exact signedAddress_gp hslot.bound hk

/-! ## Where regions meet -/

theorem contains_of_start {r : ℕ × ℕ} {x : ℕ} (hstart : r.1 = x) (hlen : 0 < r.2) :
    Contains r x := ⟨hstart.le, by omega⟩

/-- No address is in two regions. -/
theorem Layout.not_both (h : Layout C L d) {r s : Place} (hr : r.Present L d)
    (hs : s.Present L d) (hne : r ≠ s) {x : ℕ} (hx : Contains (r.region C d) x) :
    ¬ Contains (s.region C d) x := h.apart r s hr hs hne x hx

/-- The slots begin at 0x200000, where the stack of thread 53280 has wrapped around to. -/
theorem Layout.threads_le (h : Layout C L d) : L.threads ≤ 53280 := by
  by_contra hmany
  have hcontext : (Place.context 0).Present L d := by
    show 0 < L.threads
    omega
  have hstack : (Place.stack 53280).Present L d := by
    show 53280 < L.threads
    omega
  have hslot : ((Place.context 0).region C d).1 = 0x200000 := by
    show (ctxBase (BitVec.ofNat 32 0)).toNat = 0x200000
    decide
  have hwrapped : ((Place.stack 53280).region C d).1 = 0x200000 := by
    show (stackPointer (BitVec.ofNat 32 53280) - (stackStride - 16)).toNat = 0x200000
    decide
  exact h.not_both hcontext hstack (by simp) (contains_of_start hslot (show 0 < 36 by decide))
    (contains_of_start hwrapped (show 0 < 0x10000 by decide))

/-- The slot of thread 32768 is where the shared window begins. -/
theorem Layout.slots (h : Layout C L d) :
    C.sharedMemSize.toNat = 0 ∨ L.threads ≤ 32768 := by
  by_contra hmany
  obtain ⟨hsome, hmany⟩ := not_or.1 hmany
  have hcontext : (Place.context 32768).Present L d := by
    show 32768 < L.threads
    omega
  have hslot : ((Place.context 32768).region C d).1 = Golden.sharedMemBase := by
    show (ctxBase (BitVec.ofNat 32 32768)).toNat = Golden.sharedMemBase
    decide
  exact h.not_both (s := .shared) hcontext trivial (by simp)
    (contains_of_start hslot (show 0 < 36 by decide))
    (contains_of_start rfl (Nat.pos_of_ne_zero hsome))

/-- The first stack begins at 0x30000000. -/
theorem Layout.window (h : Layout C L d) (hsome : 0 < L.threads) :
    C.sharedMemSize.toNat ≤ 0x2FC00000 := by
  by_contra hlarge
  have hstack : (Place.stack 0).Present L d := hsome
  have hfirst : ((Place.stack 0).region C d).1 = 0x30000000 := by
    show (stackPointer (BitVec.ofNat 32 0) - (stackStride - 16)).toNat = 0x30000000
    decide
  refine h.not_both (s := .shared) hstack trivial (by simp)
    (contains_of_start hfirst (show 0 < 0x10000 by decide)) ⟨?_, ?_⟩
  · show Golden.sharedMemBase ≤ 0x30000000
    decide
  · have hbase : Golden.sharedMemBase = 0x00400000 := rfl
    show 0x30000000 < Golden.sharedMemBase + C.sharedMemSize.toNat
    omega

/-- A buffer with bytes ends below 2^32, begins behind the window, and is before or behind all
stacks. -/
theorem Layout.buffers (h : Layout C L d) (hheap : BufferHeap d) (hsome : 0 < L.threads)
    {p : Address} {n : ℕ} (hlive : Live d p n) (hn : 0 < n) : p.toNat + n ≤ 2 ^ 32 ∧
      (C.sharedMemSize.toNat = 0 ∨ Golden.sharedMemBase + C.sharedMemSize.toNat ≤ p.toNat) ∧
      (p.toNat + n ≤ 0x30000000 ∨ 0x30000000 + 0x10000 * L.threads ≤ p.toNat) := by
  have hthreads := h.threads_le
  have hbase : Golden.sharedMemBase = 0x00400000 := rfl
  obtain ⟨bytes, hb, hlen⟩ := hlive
  have hlow := hheap.base_le hb
  have hpresent : (Place.buffer p).Present L d := by
    show d.buffers p ≠ none
    rw [hb]
    exact Option.some_ne_none bytes
  have hregion : (Place.buffer p).region C d = (p.toNat, n) :=
    Prod.ext rfl ((getDeviceBufferSize_eq hb).trans hlen)
  have hcontains : ∀ x, p.toNat ≤ x → x < p.toNat + n →
      Contains ((Place.buffer p).region C d) x := by
    intro x hlo hhi
    rw [hregion]
    exact ⟨hlo, hhi⟩
  refine ⟨?_, ?_, ?_⟩
  · have hlast := h.inside _ hpresent _ (hcontains (p.toNat + n - 1) (by omega) (by omega))
    omega
  · by_contra hmeet
    refine h.not_both (s := .shared) hpresent trivial (by simp)
      (hcontains p.toNat (by omega) (by omega)) ⟨?_, ?_⟩
    · show Golden.sharedMemBase ≤ p.toNat
      omega
    · show p.toNat < Golden.sharedMemBase + C.sharedMemSize.toNat
      omega
  · by_contra hmeet
    -- the first address of the buffer at which a stack can be
    obtain ⟨x, hx⟩ : ∃ x, x = max p.toNat 0x30000000 := ⟨_, rfl⟩
    obtain ⟨t, ht⟩ : ∃ t, t = (x - 0x30000000) / 0x10000 := ⟨_, rfl⟩
    have hlast := h.inside _ hpresent _ (hcontains x (by omega) (by omega))
    have hstack : (Place.stack t).Present L d := by
      show t < L.threads
      omega
    refine h.not_both hpresent hstack (by simp) (hcontains x (by omega) (by omega)) ?_
    have hstart := stack_toNat (show t < 53280 by omega)
    rw [if_pos (by omega)] at hstart
    constructor
    · show (stackPointer (BitVec.ofNat 32 t) - (stackStride - 16)).toNat ≤ x
      omega
    · show x < (stackPointer (BitVec.ofNat 32 t) - (stackStride - 16)).toNat + 0x10000
      omega

/-- After any driver calls that keep the allocator's counter below 2^64, the regions of a launch are
apart exactly if its threads, its window and the buffers fit. -/
theorem layout_iff (C : Config) (L : Launch) (hgrid : L.grid.Positive) (hblock : L.block.Positive)
    {cs : List DeviceCall} (hcs : Calls.Each DeviceCall.step NoWrap .init cs) :
    Layout C L (Calls.after DeviceCall.step .init cs) ↔
      LayoutFits C L (Calls.after DeviceCall.step .init cs) := by
  have hheap := bufferHeap_after hcs
  constructor
  · intro h
    have hsome : 0 < L.threads := Nat.mul_pos hgrid.volume_pos hblock.volume_pos
    exact ⟨h.threads_le, h.slots, h.window hsome,
      fun p n hlive hn => h.buffers hheap hsome hlive hn⟩
  · intro h
    exact ⟨h.inside, h.apart hheap, h.found hgrid hblock⟩

end Regions

/-- Two blocks of five threads, and a buffer of 64 bytes. -/
theorem layout_twoBlocks : Layout pairWarps (launchOf ⟨2, 1, 1⟩ ⟨5, 1, 1⟩)
    (Calls.after DeviceCall.step .init [.allocateDeviceBuffer 64]) := by
  have hcalls : Calls.Each DeviceCall.step NoWrap .init [.allocateDeviceBuffer 64] := by
    refine Calls.each_cons.2 ⟨?_, Calls.each_nil⟩
    show (0x10000000 : BitVec 64).toNat + ((64 : BitVec 64).toNat + 15) / 16 * 16 < 2 ^ 64
    decide
  refine (layout_iff pairWarps (launchOf ⟨2, 1, 1⟩ ⟨5, 1, 1⟩) (by decide) (by decide) hcalls).2
    ⟨by decide, .inr (by decide), by decide, ?_⟩
  rintro p n ⟨bytes, hb, rfl⟩ -
  have hb : Function.update (fun _ : Address => none) 0x10000000
      (some (List.replicate 64 (0 : Byte))) p = some bytes := hb
  by_cases hp : p = 0x10000000
  · subst hp
    rw [Function.update_self] at hb
    obtain rfl := Option.some.inj hb
    decide
  · rw [Function.update_of_ne hp] at hb
    exact absurd hb (by simp)

/-- With 32769 blocks of one thread, the last context is in the shared window. -/
theorem not_layout : ¬ ∀ C L cs, L.grid.Positive → L.block.Positive →
    Layout C L (Calls.after DeviceCall.step .init cs) := by
  intro h
  have hlayout := h pairWarps (launchOf ⟨32769, 1, 1⟩ ⟨1, 1, 1⟩) [] (by decide) (by decide)
  rcases hlayout.slots with hnone | hfew
  · exact absurd hnone (by decide)
  · exact absurd hfew (by decide)

end RiscvGpgpu.Bridge
