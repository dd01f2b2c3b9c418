import RiscvGpgpu.Hls.CacheBank

/-!
# The memory subsystem

`memory_pipeline.h`: private L1 caches, a shared L2, the scratchpad of each CU and the backing
memory. Stores are written through and allocate nothing; a store reaches the L1 of its own CU only,
so a line of another CU's L1 may go stale. `Coherent` follows which words may be stale.
-/

namespace RiscvGpgpu.Hls

/-- `SHARED_MEM_SIZE_BYTES`. -/
def sharedMemSizeBytes : ℕ := 32 * 1024

structure MemorySubsystem where
  l1Caches : CuId → L1Cache
  l2Cache : L2Cache
  sharedMem : CuId → BitVec 32 → Word
  l1Hits : BitVec 64
  l1Misses : BitVec 64
  l2Hits : BitVec 64
  l2Misses : BitVec 64
  globalWrites : BitVec 64

/-- A subsystem with nothing in it. -/
def emptySubsystem : MemorySubsystem where
  l1Caches := fun _ => ⟨fun _ _ => false, fun _ _ => 0, fun _ _ _ => 0, fun _ => 0⟩
  l2Cache := ⟨fun _ _ => false, fun _ _ => 0, fun _ _ _ => 0, fun _ => 0⟩
  sharedMem := fun _ _ => 0
  l1Hits := 0
  l1Misses := 0
  l2Hits := 0
  l2Misses := 0
  globalWrites := 0

/-- The subsystem and the memory behind its `m_axi` pointer. -/
abbrev MemState := MemorySubsystem × GlobalMem

def alignAddress (addr : Addr) : Addr := addr &&& ~~~3#32

def isSharedMemoryAddress (addr : Addr) : Bool := addr.toNat < sharedMemSizeBytes

namespace MemorySubsystem

def reset (m : MemorySubsystem) : MemorySubsystem where
  l1Caches := fun c => (m.l1Caches c).reset
  l2Cache := m.l2Cache.reset
  sharedMem := fun _ _ => 0
  l1Hits := 0
  l1Misses := 0
  l2Hits := 0
  l2Misses := 0
  globalWrites := 0

def invalidateCache (m : MemorySubsystem) : MemorySubsystem :=
  { m with
    l1Caches := fun c => (m.l1Caches c).reset
    l2Cache := m.l2Cache.reset }

def setL1 (m : MemorySubsystem) (cuId : CuId) (l1 : L1Cache) : MemorySubsystem :=
  { m with l1Caches := Function.update m.l1Caches cuId l1 }

/-- The line that holds an address, as the burst reads it. -/
def fetchLine (globalMem : GlobalMem) (aligned : Addr) (i : BitVec 5) : Word :=
  globalMem (wordIndex (lineBaseAddr aligned) + i.setWidth 32)

def loadWord (m : MemorySubsystem) (aligned : Addr) (cuId : CuId) (globalMem : GlobalMem) :
    Word × MemorySubsystem :=
  let l1 := m.l1Caches cuId
  match SetAssocCache.lookup l1 aligned with
  | some way =>
    (SetAssocCache.lookupData l1 way aligned, { m with l1Hits := m.l1Hits + 1 })
  | none =>
    match SetAssocCache.lookup m.l2Cache aligned with
    | some way =>
      let line := SetAssocCache.readLine m.l2Cache way aligned
      (SetAssocCache.lookupData m.l2Cache way aligned,
        { m.setL1 cuId (SetAssocCache.fillLine l1 (lineBaseAddr aligned) line) with
          l1Misses := m.l1Misses + 1
          l2Hits := m.l2Hits + 1 })
    | none =>
      let line := fetchLine globalMem aligned
      (line (lineWordIndex aligned),
        { m.setL1 cuId (SetAssocCache.fillLine l1 (lineBaseAddr aligned) line) with
          l2Cache := SetAssocCache.fillLine m.l2Cache (lineBaseAddr aligned) line
          l1Misses := m.l1Misses + 1
          l2Misses := m.l2Misses + 1 })

/-- Update a word where it is resident. -/
def writeIfHit {ways setBits : ℕ} (c : SetAssocCache ways setBits) (aligned : Addr) (data : Word) :
    SetAssocCache ways setBits :=
  match SetAssocCache.lookup c aligned with
  | some way => SetAssocCache.writeWord c way aligned data
  | none => c

def storeWord (m : MemorySubsystem) (aligned : Addr) (data : Word) (cuId : CuId)
    (globalMem : GlobalMem) : MemState :=
  ({ m.setL1 cuId (writeIfHit (m.l1Caches cuId) aligned data) with
      l2Cache := writeIfHit m.l2Cache aligned data
      globalWrites := m.globalWrites + 1 },
    Function.update globalMem (wordIndex aligned) data)

def setShared (m : MemorySubsystem) (cuId : CuId) (wordIdx : BitVec 32) (data : Word) :
    MemorySubsystem :=
  { m with sharedMem :=
      Function.update m.sharedMem cuId (Function.update (m.sharedMem cuId) wordIdx data) }

end MemorySubsystem

/-- The response to a request, with the given data. -/
def respond (req : MemReq) (data : Word) : MemResp where
  cuId := req.cuId
  warpId := req.warpId
  laneId := req.laneId
  data := data

def handleRequest (σ : MemState) (req : MemReq) : MemResp × MemState :=
  let aligned := alignAddress req.address
  if isSharedMemoryAddress aligned then
    if req.isWrite then
      (respond req 0, (σ.1.setShared req.cuId (wordIndex aligned) req.writeData, σ.2))
    else (respond req (σ.1.sharedMem req.cuId (wordIndex aligned)), σ)
  else if req.isWrite then
    (respond req 0, σ.1.storeWord aligned req.writeData req.cuId σ.2)
  else
    let r := σ.1.loadWord aligned req.cuId σ.2
    (respond req r.1, (r.2, σ.2))

/-- The responses to a sequence of requests, and the state it leaves. -/
def handleRequests (σ : MemState) : List MemReq → List MemResp × MemState
  | [] => ([], σ)
  | req :: reqs =>
    let r := handleRequest σ req
    let rs := handleRequests r.2 reqs
    (r.1 :: rs.1, rs.2)

/-- The state a sequence of requests leaves. -/
def stateAfter (σ : MemState) (reqs : List MemReq) : MemState := (handleRequests σ reqs).2

/-! ## Requests -/

/-- A request to the global memory, not to the scratchpad. -/
def isGlobal (req : MemReq) : Bool := !isSharedMemoryAddress (alignAddress req.address)

/-- The word a request is about. -/
def reqWord (req : MemReq) : BitVec 32 := wordIndex (alignAddress req.address)

/-- Whether a request makes the L1 of its CU fetch a line. -/
def fillsL1 (σ : MemState) (req : MemReq) : Bool :=
  isGlobal req && !req.isWrite &&
    (SetAssocCache.lookup (σ.1.l1Caches req.cuId) (alignAddress req.address)).isNone

/-- The line a word is in. -/
def lineOf (word : BitVec 32) : BitVec 32 := word >>> 5

/-- The words that may be stale in the L1 of each CU: stored by another CU since the CU fetched
their line or stored them itself. -/
def nextStale (σ : MemState) (req : MemReq) (stale : CuId → BitVec 32 → Bool) :
    CuId → BitVec 32 → Bool := fun c word =>
  if isGlobal req && req.isWrite && reqWord req == word then c != req.cuId
  else if fillsL1 σ req && c == req.cuId && lineOf (reqWord req) == lineOf word then false
  else stale c word

/-- The possibly stale words after a sequence of requests. -/
def staleAfter (σ : MemState) (stale : CuId → BitVec 32 → Bool) :
    List MemReq → CuId → BitVec 32 → Bool
  | [] => stale
  | req :: reqs => staleAfter (handleRequest σ req).2 (nextStale σ req stale) reqs

/-- No word is stale. -/
def noneStale : CuId → BitVec 32 → Bool := fun _ _ => false

/-! ## The invariant -/

/-- The backing memory as the caches of `2 ^ setBits` sets see it. -/
def memView (setBits : ℕ) (mem : GlobalMem) :
    BitVec setBits → BitVec (25 - setBits) → BitVec 5 → Word :=
  fun set tag i => mem (wordAddr set tag i)

/-- The stale words as an L1 sees them. -/
def staleView (stale : BitVec 32 → Bool) : BitVec 6 → BitVec (25 - 6) → BitVec 5 → Prop :=
  fun set tag i => stale (wordAddr set tag i) = true

/-- No tag is held twice, and the valid words are those of the backing memory, in the L1s but for
the stale ones. -/
structure Coherent (σ : MemState) (stale : CuId → BitVec 32 → Bool) : Prop where
  l1Unique : ∀ c, (σ.1.l1Caches c).Unique
  l2Unique : σ.1.l2Cache.Unique
  l1Agrees : ∀ c, (σ.1.l1Caches c).Agrees (memView 6 σ.2) (staleView (stale c))
  l2Agrees : σ.1.l2Cache.Agrees (memView 9 σ.2) fun _ _ _ => False

theorem coherent_reset (m : MemorySubsystem) (mem : GlobalMem)
    (stale : CuId → BitVec 32 → Bool) : Coherent (m.reset, mem) stale where
  l1Unique := fun _ => SetAssoc.unique_clear _ _
  l2Unique := SetAssoc.unique_clear _ _
  l1Agrees := fun _ => SetAssoc.agrees_clear _ _ _ _
  l2Agrees := SetAssoc.agrees_clear _ _ _ _

section Step

variable {setBits ways : ℕ}

/-- A word of the backing memory replaced, as the caches see it. -/
theorem memView_update (h : setBits ≤ 25) (mem : GlobalMem) (addr : Addr) (v : Word) :
    memView setBits (Function.update mem (wordIndex addr) v) =
      SetAssoc.setWord (memView setBits mem) (setIndex setBits addr) (tagOf setBits addr)
        (lineWordIndex addr) v := by
  funext set tag i
  unfold memView SetAssoc.setWord
  rw [← wordAddr_of_addr h addr]
  by_cases heq : set = setIndex setBits addr ∧ tag = tagOf setBits addr ∧ i = lineWordIndex addr
  · rw [if_pos heq, (wordAddr_inj h).2 heq, Function.update_self]
  · rw [if_neg heq, Function.update_of_ne fun hw => heq ((wordAddr_inj h).1 hw)]

theorem fetchLine_eq (h : setBits ≤ 25) (mem : GlobalMem) (addr : Addr) (i : BitVec 5) :
    MemorySubsystem.fetchLine mem addr i =
      memView setBits mem (setIndex setBits addr) (tagOf setBits addr) i := by
  rw [MemorySubsystem.fetchLine, wordIndex_lineBaseAddr_add h, memView]

theorem lineOf_wordAddr (h : setBits ≤ 25) {set set' : BitVec setBits}
    {tag tag' : BitVec (25 - setBits)} {i i' : BitVec 5} :
    lineOf (wordAddr set tag i) = lineOf (wordAddr set' tag' i') ↔ set = set' ∧ tag = tag' := by
  have hline (set : BitVec setBits) (tag : BitVec (25 - setBits)) (i : BitVec 5) :
      lineOf (wordAddr set tag i) = lineOf (wordAddr set tag 0) := by
    refine BitVec.eq_of_toNat_eq ?_
    have hi := i.isLt
    rw [lineOf, lineOf, BitVec.toNat_ushiftRight, BitVec.toNat_ushiftRight, toNat_wordAddr h,
      toNat_wordAddr h, Nat.shiftRight_eq_div_pow, Nat.shiftRight_eq_div_pow]
    simp only [BitVec.ofNat_eq_ofNat, BitVec.toNat_ofNat]
    omega
  rw [hline, hline set' tag' i']
  constructor
  · intro heq
    have hn := congrArg BitVec.toNat heq
    rw [lineOf, lineOf, BitVec.toNat_ushiftRight, BitVec.toNat_ushiftRight, toNat_wordAddr h,
      toNat_wordAddr h, Nat.shiftRight_eq_div_pow, Nat.shiftRight_eq_div_pow] at hn
    have hw : wordAddr set tag 0 = wordAddr set' tag' 0 := by
      refine BitVec.eq_of_toNat_eq ?_
      rw [toNat_wordAddr h, toNat_wordAddr h]
      simp only [BitVec.ofNat_eq_ofNat, BitVec.toNat_ofNat] at hn ⊢
      omega
    have := (wordAddr_inj h).1 hw
    exact ⟨this.1, this.2.1⟩
  · rintro ⟨rfl, rfl⟩
    rfl

theorem fillLine_lineBaseAddr [NeZero ways] (h : setBits ≤ 25) (c : SetAssocCache ways setBits)
    (addr : Addr) (line : BitVec 5 → Word) :
    ∃ next, SetAssocCache.fillLine c (lineBaseAddr addr) line =
      c.fill (setIndex setBits addr) (tagOf setBits addr) line next := by
  obtain ⟨hset, htag⟩ := lineBaseAddr_parts h addr
  unfold SetAssocCache.fillLine
  rw [hset, htag]
  exact ⟨_, rfl⟩

/-- Filling a missed line with the memory's words keeps a cache right and refreshes the line. -/
theorem agrees_fillLine [NeZero ways] (h : setBits ≤ 25) {c : SetAssocCache ways setBits}
    {mem : GlobalMem} {stale : BitVec setBits → BitVec (25 - setBits) → BitVec 5 → Prop}
    (hc : c.Agrees (memView setBits mem) stale) (hu : c.Unique) {addr : Addr}
    (hmiss : SetAssocCache.lookup c addr = none) {line : BitVec 5 → Word}
    (hline : ∀ i, line i = memView setBits mem (setIndex setBits addr) (tagOf setBits addr) i) :
    (SetAssocCache.fillLine c (lineBaseAddr addr) line).Unique ∧
      (SetAssocCache.fillLine c (lineBaseAddr addr) line).Agrees (memView setBits mem)
        fun set tag i => stale set tag i ∧
          ¬ (set = setIndex setBits addr ∧ tag = tagOf setBits addr) := by
  obtain ⟨next, hfill⟩ := fillLine_lineBaseAddr h c addr line
  rw [hfill]
  exact ⟨hu.fill hmiss line next, hc.fill hmiss hline next⟩

end Step

section Handle

variable {σ : MemState} {stale : CuId → BitVec 32 → Bool} {req : MemReq}

variable (σ) in
theorem handleRequest_shared (h : isGlobal req = false) :
    (handleRequest σ req).2.1.l1Caches = σ.1.l1Caches ∧
      (handleRequest σ req).2.1.l2Cache = σ.1.l2Cache ∧ (handleRequest σ req).2.2 = σ.2 := by
  have hs : isSharedMemoryAddress (alignAddress req.address) = true := by
    simpa [isGlobal] using h
  unfold handleRequest
  dsimp only
  rw [if_pos hs]
  split <;> exact ⟨rfl, rfl, rfl⟩

theorem handleRequest_store (h : isGlobal req = true) (hw : req.isWrite = true) :
    handleRequest σ req =
      (respond req 0, σ.1.storeWord (alignAddress req.address) req.writeData req.cuId σ.2) := by
  have hs : isSharedMemoryAddress (alignAddress req.address) = false := by
    simpa [isGlobal] using h
  unfold handleRequest
  dsimp only
  rw [if_neg (by rw [hs]; exact Bool.false_ne_true), if_pos hw]

theorem handleRequest_load (h : isGlobal req = true) (hw : req.isWrite = false) :
    handleRequest σ req =
      (respond req (σ.1.loadWord (alignAddress req.address) req.cuId σ.2).1,
        (σ.1.loadWord (alignAddress req.address) req.cuId σ.2).2, σ.2) := by
  have hs : isSharedMemoryAddress (alignAddress req.address) = false := by
    simpa [isGlobal] using h
  unfold handleRequest
  dsimp only
  rw [if_neg (by rw [hs]; exact Bool.false_ne_true), if_neg (by rw [hw]; exact Bool.false_ne_true)]

theorem reqWord_eq_wordAddr (setBits : ℕ) (h : setBits ≤ 25) (req : MemReq) :
    reqWord req = wordAddr (setIndex setBits (alignAddress req.address))
      (tagOf setBits (alignAddress req.address)) (lineWordIndex (alignAddress req.address)) :=
  (wordAddr_of_addr h _).symm

theorem Coherent.store (h : Coherent σ stale) (hg : isGlobal req = true)
    (hw : req.isWrite = true) : Coherent (handleRequest σ req).2 (nextStale σ req stale) := by
  rw [handleRequest_store hg hw]
  set a := alignAddress req.address with ha
  have hstale (c : CuId) (word : BitVec 32) : nextStale σ req stale c word =
      if reqWord req = word then c != req.cuId else stale c word := by
    simp [nextStale, fillsL1, hg, hw]
  refine ⟨fun c => ?_, h.l2Unique.store _ _ _ _, fun c => ?_, ?_⟩
  · by_cases hc : c = req.cuId
    · subst hc
      simp only [MemorySubsystem.storeWord, MemorySubsystem.setL1, Function.update_self]
      exact (h.l1Unique _).store _ _ _ _
    · simp only [MemorySubsystem.storeWord, MemorySubsystem.setL1, Function.update_of_ne hc]
      exact h.l1Unique c
  · have hmem : ((σ.1.storeWord a req.writeData req.cuId σ.2).2) =
        Function.update σ.2 (wordIndex a) req.writeData := rfl
    dsimp only
    rw [hmem, memView_update (by decide)]
    by_cases hc : c = req.cuId
    · subst hc
      simp only [MemorySubsystem.storeWord, MemorySubsystem.setL1, Function.update_self]
      refine ((h.l1Agrees _).store (h.l1Unique _)).mono fun set tag i hs => ?_
      obtain ⟨hs, hne⟩ := hs
      rw [staleView, hstale, if_neg]
      · exact hs
      · rw [reqWord_eq_wordAddr 6 (by decide), wordAddr_inj (by decide)]
        exact fun heq => hne ⟨heq.1.symm, heq.2.1.symm, heq.2.2.symm⟩
    · simp only [MemorySubsystem.storeWord, MemorySubsystem.setL1, Function.update_of_ne hc]
      refine (h.l1Agrees c).store_past.mono fun set tag i hs => ?_
      rw [staleView, hstale]
      split
      · simpa using hc
      · next hne =>
        obtain hs | ⟨rfl, rfl, rfl⟩ := hs
        · exact hs
        · exact absurd (reqWord_eq_wordAddr 6 (by decide) req) hne
  · have hmem : ((σ.1.storeWord a req.writeData req.cuId σ.2).2) =
        Function.update σ.2 (wordIndex a) req.writeData := rfl
    dsimp only
    rw [hmem, memView_update (by decide)]
    exact (h.l2Agrees.store h.l2Unique).mono fun _ _ _ hs => hs.1

theorem nextStale_load (hg : isGlobal req = true) (hw : req.isWrite = false) :
    nextStale σ req stale =
      if SetAssocCache.lookup (σ.1.l1Caches req.cuId) (alignAddress req.address) = none then
        fun c word => if c = req.cuId ∧ lineOf (reqWord req) = lineOf word then false
          else stale c word
      else stale := by
  funext c word
  unfold nextStale fillsL1
  rw [hg, hw]
  cases SetAssocCache.lookup (σ.1.l1Caches req.cuId) (alignAddress req.address) with
  | none => by_cases hc : c = req.cuId <;> simp [hc]
  | some way => simp

/-- The stale words of the filled line are fresh again. -/
theorem staleView_filled (stale : BitVec 32 → Bool) (req : MemReq) {set : BitVec 6}
    {tag : BitVec (25 - 6)} {i : BitVec 5}
    (hs : staleView stale set tag i ∧ ¬ (set = setIndex 6 (alignAddress req.address) ∧
      tag = tagOf 6 (alignAddress req.address))) :
    staleView (fun word => if lineOf (reqWord req) = lineOf word then false else stale word)
      set tag i := by
  obtain ⟨hs, hne⟩ := hs
  rw [staleView, reqWord_eq_wordAddr 6 (by decide), if_neg]
  · exact hs
  · rw [lineOf_wordAddr (by decide)]
    exact fun heq => hne ⟨heq.1.symm, heq.2.symm⟩

/-- The L1 of the requesting CU after a fill, and the other L1s. -/
theorem Coherent.fill_l1 (h : Coherent σ stale) (req : MemReq)
    (hmiss : SetAssocCache.lookup (σ.1.l1Caches req.cuId) (alignAddress req.address) = none)
    {line : BitVec 5 → Word}
    (hline : ∀ i, line i = memView 6 σ.2 (setIndex 6 (alignAddress req.address))
      (tagOf 6 (alignAddress req.address)) i) (c : CuId) :
    let l1 := Function.update σ.1.l1Caches req.cuId
      (SetAssocCache.fillLine (σ.1.l1Caches req.cuId)
        (lineBaseAddr (alignAddress req.address)) line) c
    l1.Unique ∧ l1.Agrees (memView 6 σ.2) (staleView fun word =>
      if c = req.cuId ∧ lineOf (reqWord req) = lineOf word then false else stale c word) := by
  by_cases hc : c = req.cuId
  · subst hc
    rw [Function.update_self]
    obtain ⟨hu, hag⟩ := agrees_fillLine (by decide) (h.l1Agrees _) (h.l1Unique _) hmiss hline
    refine ⟨hu, hag.mono fun set tag i hs => ?_⟩
    simp only [true_and]
    exact staleView_filled _ req hs
  · rw [Function.update_of_ne hc]
    refine ⟨h.l1Unique c, (h.l1Agrees c).mono fun set tag i hs => ?_⟩
    rw [staleView, if_neg (fun heq => hc heq.1)]
    exact hs

theorem Coherent.load (h : Coherent σ stale) (hg : isGlobal req = true)
    (hw : req.isWrite = false) : Coherent (handleRequest σ req).2 (nextStale σ req stale) := by
  rw [handleRequest_load hg hw, nextStale_load hg hw]
  set a := alignAddress req.address with ha
  cases h1 : SetAssocCache.lookup (σ.1.l1Caches req.cuId) a with
  | some way =>
    rw [if_neg (by simp)]
    simp only [MemorySubsystem.loadWord, h1]
    exact ⟨h.l1Unique, h.l2Unique, h.l1Agrees, h.l2Agrees⟩
  | none =>
    rw [if_pos rfl]
    cases h2 : SetAssocCache.lookup σ.1.l2Cache a with
    | some way =>
      have hline : ∀ i, SetAssocCache.readLine σ.1.l2Cache way a i =
          memView 6 σ.2 (setIndex 6 a) (tagOf 6 a) i := by
        intro i
        have := h.l2Agrees.of_lookup (i := i) h2 not_false
        rw [SetAssocCache.readLine, this, ← fetchLine_eq (by decide), ← fetchLine_eq (by decide)]
      have hl1 := h.fill_l1 req h1 hline
      simp only [MemorySubsystem.loadWord, h1, h2]
      exact ⟨fun c => (hl1 c).1, h.l2Unique, fun c => (hl1 c).2, h.l2Agrees⟩
    | none =>
      have hl1 := h.fill_l1 req h1 (fetchLine_eq (by decide) σ.2 a)
      obtain ⟨hu2, hag2⟩ := agrees_fillLine (by decide) h.l2Agrees h.l2Unique h2
        (fetchLine_eq (by decide) σ.2 a)
      simp only [MemorySubsystem.loadWord, h1, h2]
      exact ⟨fun c => (hl1 c).1, hu2, fun c => (hl1 c).2, hag2.mono fun _ _ _ hs => hs.1⟩

/-- Every request keeps the caches coherent. -/
theorem Coherent.handleRequest (h : Coherent σ stale) (req : MemReq) :
    Coherent (handleRequest σ req).2 (nextStale σ req stale) := by
  cases hg : isGlobal req with
  | false =>
    obtain ⟨h1, h2, hm⟩ := handleRequest_shared σ hg
    have hstale : nextStale σ req stale = stale := by
      funext c word
      simp [nextStale, fillsL1, hg]
    rw [hstale]
    refine ⟨?_, ?_, ?_, ?_⟩
    · rw [h1]; exact h.l1Unique
    · rw [h2]; exact h.l2Unique
    · rw [h1, hm]; exact h.l1Agrees
    · rw [h2, hm]; exact h.l2Agrees
  | true =>
    cases hw : req.isWrite with
    | true => exact h.store hg hw
    | false => exact h.load hg hw

/-- A load reads the backing memory, unless it hits a stale word of its own L1. -/
theorem Coherent.loadWord_eq (h : Coherent σ stale) (req : MemReq)
    (hfresh : (SetAssocCache.lookup (σ.1.l1Caches req.cuId)
      (alignAddress req.address)).isSome = true → stale req.cuId (reqWord req) = false) :
    (σ.1.loadWord (alignAddress req.address) req.cuId σ.2).1 = σ.2 (reqWord req) := by
  set a := alignAddress req.address with ha
  unfold MemorySubsystem.loadWord
  dsimp only
  cases h1 : SetAssocCache.lookup (σ.1.l1Caches req.cuId) a with
  | some way =>
    have hs := hfresh (by rw [h1]; rfl)
    have hword : memView 6 σ.2 (setIndex 6 a) (tagOf 6 a) (lineWordIndex a) =
      σ.2 (reqWord req) := by
      rw [memView, ← reqWord_eq_wordAddr _ (by decide)]
    rw [← hword]
    refine (h.l1Agrees req.cuId).of_lookup h1 ?_
    rw [staleView, ← reqWord_eq_wordAddr _ (by decide), hs]
    exact Bool.false_ne_true
  | none =>
    have hword : memView 9 σ.2 (setIndex 9 a) (tagOf 9 a) (lineWordIndex a) =
      σ.2 (reqWord req) := by
      rw [memView, ← reqWord_eq_wordAddr _ (by decide)]
    cases h2 : SetAssocCache.lookup σ.1.l2Cache a with
    | some way =>
      rw [← hword]
      exact h.l2Agrees.of_lookup h2 not_false
    | none =>
      rw [← hword]
      exact fetchLine_eq (by decide) σ.2 a _

end Handle

end RiscvGpgpu.Hls
