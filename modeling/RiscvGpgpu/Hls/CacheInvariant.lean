import RiscvGpgpu.Lib.Transition
import RiscvGpgpu.Hls.MemoryPipeline

/-!
# What the caches hold

The invariant of the memory subsystem over every sequence of requests from reset, and flat memory:
a sequence in which no word is stored by one CU and accessed by another is answered as by a single
word array.
-/

namespace RiscvGpgpu.Hls

/-! ## Runs -/

section Runs

variable (σ : MemState) (stale : CuId → BitVec 32 → Bool)

@[simp] theorem stateAfter_nil : stateAfter σ [] = σ := rfl

@[simp] theorem stateAfter_cons (req : MemReq) (reqs : List MemReq) :
    stateAfter σ (req :: reqs) = stateAfter (handleRequest σ req).2 reqs := rfl

theorem stateAfter_append (pre reqs : List MemReq) :
    stateAfter σ (pre ++ reqs) = stateAfter (stateAfter σ pre) reqs := by
  induction pre generalizing σ with
  | nil => rfl
  | cons req pre ih => exact ih _

theorem staleAfter_append (pre reqs : List MemReq) :
    staleAfter σ stale (pre ++ reqs) =
      staleAfter (stateAfter σ pre) (staleAfter σ stale pre) reqs := by
  induction pre generalizing σ stale with
  | nil => rfl
  | cons req pre ih => exact ih _ _

variable {σ stale} in
/-- The run lemma of `Coherent.handleRequest`. -/
theorem Coherent.stateAfter (h : Coherent σ stale) (reqs : List MemReq) :
    Coherent (stateAfter σ reqs) (staleAfter σ stale reqs) := by
  induction reqs generalizing σ stale with
  | nil => exact h
  | cons req reqs ih => exact ih (h.handleRequest req)

end Runs

/-! ## Stores by other CUs -/

/-- The request stores to a word of the global memory. -/
def storesTo (req : MemReq) (word : BitVec 32) : Prop :=
  isGlobal req = true ∧ req.isWrite = true ∧ reqWord req = word

/-- The request makes the L1 of CU `c` fetch the line of a word. -/
def fillsLine (σ : MemState) (req : MemReq) (c : CuId) (word : BitVec 32) : Prop :=
  fillsL1 σ req = true ∧ req.cuId = c ∧ lineOf (reqWord req) = lineOf word

/-- Another CU has stored to the word, and CU `c` has not fetched the word's line since. -/
def StoredSinceFill (σ : MemState) (reqs : List MemReq) (c : CuId) (word : BitVec 32) : Prop :=
  ∃ pre req post, reqs = pre ++ req :: post ∧ storesTo req word ∧ req.cuId ≠ c ∧
    ∀ pre' req' post', post = pre' ++ req' :: post' →
      ¬ fillsLine (stateAfter σ (pre ++ req :: pre')) req' c word

section Since

variable {σ : MemState} {c : CuId} {word : BitVec 32}

/-- A word becomes stale by a store of another CU and stays so at most until the line is fetched. -/
theorem nextStale_cases {req : MemReq} {stale : CuId → BitVec 32 → Bool}
    (h : nextStale σ req stale c word = true) :
    (storesTo req word ∧ req.cuId ≠ c) ∨ (¬ fillsLine σ req c word ∧ stale c word = true) := by
  unfold nextStale at h
  split at h
  · next hstore =>
    simp only [Bool.and_eq_true, beq_iff_eq, bne_iff_ne] at hstore h
    exact .inl ⟨⟨hstore.1.1, hstore.1.2, hstore.2⟩, Ne.symm h⟩
  · split at h
    · exact absurd h Bool.false_ne_true
    · next hfill =>
      refine .inr ⟨fun hf => hfill ?_, h⟩
      simp only [Bool.and_eq_true, beq_iff_eq]
      exact ⟨⟨hf.1, hf.2.1.symm⟩, hf.2.2⟩

/-- A request that does not fetch the line leaves an earlier store behind it. -/
theorem StoredSinceFill.concat {reqs : List MemReq} {req : MemReq}
    (h : StoredSinceFill σ reqs c word) (hfill : ¬ fillsLine (stateAfter σ reqs) req c word) :
    StoredSinceFill σ (reqs ++ [req]) c word := by
  obtain ⟨pre, r, post, rfl, hr, hc, hpost⟩ := h
  refine ⟨pre, r, post ++ [req], by simp, hr, hc, fun pre' req' post' heq => ?_⟩
  obtain ⟨rfl, rfl⟩ | ⟨post'', hsplit⟩ := List.append_singleton_split heq
  · exact hfill
  · exact hpost pre' req' post'' hsplit

theorem storedSinceFill_of_stale (reqs : List MemReq)
    (h : staleAfter σ noneStale reqs c word = true) : StoredSinceFill σ reqs c word := by
  induction reqs using List.reverseRecOn generalizing c word with
  | nil => exact absurd h Bool.false_ne_true
  | append_singleton reqs req ih =>
    rw [staleAfter_append] at h
    obtain ⟨hstore, hc⟩ | ⟨hfill, hs⟩ := nextStale_cases h
    · refine ⟨reqs, req, [], rfl, hstore, hc, fun pre' req' post' heq => ?_⟩
      exact absurd heq (by simp)
    · exact (ih hs).concat hfill

end Since

/-! ## The representation invariant -/

/-- After `reqs` from state `σ`: no set holds a tag twice, the valid L2 words are those of the
backing memory, and so are those of each L1 but for the words another CU has stored to since. -/
structure CacheInvariant (σ : MemState) (reqs : List MemReq) : Prop where
  l1_tags : ∀ c, ((stateAfter σ reqs).1.l1Caches c).Unique
  l2_tags : (stateAfter σ reqs).1.l2Cache.Unique
  l2_words : ∀ way set i, (stateAfter σ reqs).1.l2Cache.valid way set = true →
    (stateAfter σ reqs).1.l2Cache.data way set i =
      (stateAfter σ reqs).2 (wordAddr set ((stateAfter σ reqs).1.l2Cache.tag way set) i)
  l1_words : ∀ c way set i, ((stateAfter σ reqs).1.l1Caches c).valid way set = true →
    ((stateAfter σ reqs).1.l1Caches c).data way set i =
        (stateAfter σ reqs).2 (wordAddr set (((stateAfter σ reqs).1.l1Caches c).tag way set) i) ∨
      StoredSinceFill σ reqs c
        (wordAddr set (((stateAfter σ reqs).1.l1Caches c).tag way set) i)

theorem Coherent.cacheInvariant {σ : MemState} (h : Coherent σ noneStale) (reqs : List MemReq) :
    CacheInvariant σ reqs := by
  have hrun := h.stateAfter reqs
  refine ⟨hrun.l1Unique, hrun.l2Unique, fun way set i hv => ?_, fun c way set i hv => ?_⟩
  · exact hrun.l2Agrees way set i hv not_false
  · set word := wordAddr set (((Hls.stateAfter σ reqs).1.l1Caches c).tag way set) i with hword
    cases hs : staleAfter σ noneStale reqs c word with
    | true => exact .inr (storedSinceFill_of_stale reqs hs)
    | false =>
      refine .inl (hrun.l1Agrees c way set i hv ?_)
      rw [staleView, ← hword, hs]
      exact Bool.false_ne_true

/-! ## Flat memory -/

/-- No word is stored by one CU and accessed by another. -/
def RaceFree (reqs : List MemReq) : Prop :=
  ∀ store ∈ reqs, ∀ req ∈ reqs, store.isWrite = true → reqWord store = reqWord req →
    store.cuId = req.cuId

instance (reqs : List MemReq) : Decidable (RaceFree reqs) :=
  inferInstanceAs (Decidable (∀ store ∈ reqs, ∀ req ∈ reqs, _))

/-- A request served by a single word array. -/
def flatRequest (mem : GlobalMem) (req : MemReq) : MemResp × GlobalMem :=
  if req.isWrite then (respond req 0, Function.update mem (reqWord req) req.writeData)
  else (respond req (mem (reqWord req)), mem)

/-- The responses of flat memory. -/
def flatResponses (mem : GlobalMem) : List MemReq → List MemResp
  | [] => []
  | req :: reqs => (flatRequest mem req).1 :: flatResponses (flatRequest mem req).2 reqs

/-- The initial words: those of the backing memory, and zero in the scratchpad. -/
def flatInit (mem : GlobalMem) : GlobalMem := fun word =>
  if word.toNat * 4 < sharedMemSizeBytes then 0 else mem word

/-- What the requests still to come read is what flat memory holds. -/
def ServesFlat (σ : MemState) (stale : CuId → BitVec 32 → Bool) (flat : GlobalMem)
    (reqs : List MemReq) : Prop :=
  ∀ req ∈ reqs, stale req.cuId (reqWord req) = false ∧
    (if isGlobal req then σ.2 (reqWord req) else σ.1.sharedMem req.cuId (reqWord req)) =
      flat (reqWord req)

section Flat

variable {σ : MemState} {stale : CuId → BitVec 32 → Bool} {flat : GlobalMem} {req : MemReq}
  {reqs : List MemReq}

theorem reqWord_mul_four (req : MemReq) :
    (reqWord req).toNat * 4 = (alignAddress req.address).toNat := by
  rw [reqWord, wordIndex, BitVec.toNat_ushiftRight, Nat.shiftRight_eq_div_pow, alignAddress,
    toNat_and_not_three]
  omega

theorem flatInit_reqWord (mem : GlobalMem) (req : MemReq) :
    flatInit mem (reqWord req) = if isGlobal req then mem (reqWord req) else 0 := by
  unfold flatInit isGlobal isSharedMemoryAddress
  rw [reqWord_mul_four]
  by_cases h : (alignAddress req.address).toNat < sharedMemSizeBytes <;> simp [h]

/-- From reset every sequence is served as by flat memory. -/
theorem servesFlat_reset (m : MemorySubsystem) (mem : GlobalMem) (reqs : List MemReq) :
    ServesFlat (m.reset, mem) noneStale (flatInit mem) reqs := by
  intro req _
  refine ⟨rfl, ?_⟩
  rw [flatInit_reqWord]
  rfl

/-- Whether a request goes to the global memory depends on its word only. -/
theorem isGlobal_congr {req req' : MemReq} (h : reqWord req = reqWord req') :
    isGlobal req = isGlobal req' := by
  unfold isGlobal isSharedMemoryAddress
  rw [← reqWord_mul_four, ← reqWord_mul_four, h]

/-- The response is flat memory's. -/
theorem ServesFlat.response (hc : Coherent σ stale) (h : ServesFlat σ stale flat (req :: reqs)) :
    (handleRequest σ req).1 = (flatRequest flat req).1 := by
  obtain ⟨hfresh, hword⟩ := h req List.mem_cons_self
  unfold flatRequest
  cases hg : isGlobal req with
  | true =>
    rw [if_pos hg] at hword
    cases hw : req.isWrite with
    | true => rw [handleRequest_store hg hw, if_pos rfl]
    | false =>
      rw [handleRequest_load hg hw, if_neg Bool.false_ne_true]
      dsimp only
      rw [hc.loadWord_eq req fun _ => hfresh, hword]
  | false =>
    have hs : isSharedMemoryAddress (alignAddress req.address) = true := by
      simpa [isGlobal] using hg
    rw [hg, if_neg Bool.false_ne_true] at hword
    unfold handleRequest
    dsimp only
    rw [if_pos hs]
    split
    · rfl
    · rw [← hword, reqWord]

/-- A load leaves no word staler. -/
theorem nextStale_le_load {σ : MemState} (hw : req.isWrite = false) {c : CuId} {word : BitVec 32}
    (h : stale c word = false) : nextStale σ req stale c word = false := by
  unfold nextStale
  rw [hw, if_neg (by simp)]
  split
  · rfl
  · exact h

theorem loadWord_sharedMem (m : MemorySubsystem) (aligned : Addr) (c : CuId) (mem : GlobalMem) :
    (m.loadWord aligned c mem).2.sharedMem = m.sharedMem := by
  unfold MemorySubsystem.loadWord
  dsimp only
  split
  · rfl
  · split <;> rfl

/-- The backing memory after a request. -/
theorem handleRequest_mem (σ : MemState) (req : MemReq) :
    (handleRequest σ req).2.2 = if isGlobal req && req.isWrite then
      Function.update σ.2 (reqWord req) req.writeData else σ.2 := by
  cases hg : isGlobal req with
  | false => rw [(handleRequest_shared σ hg).2.2]; rfl
  | true =>
    cases hw : req.isWrite with
    | true => rw [handleRequest_store hg hw]; rfl
    | false => rw [handleRequest_load hg hw]; rfl

/-- The scratchpads after a request. -/
theorem handleRequest_sharedMem (σ : MemState) (req : MemReq) :
    (handleRequest σ req).2.1.sharedMem = if !isGlobal req && req.isWrite then
      Function.update σ.1.sharedMem req.cuId
        (Function.update (σ.1.sharedMem req.cuId) (reqWord req) req.writeData)
      else σ.1.sharedMem := by
  cases hg : isGlobal req with
  | false =>
    have hs : isSharedMemoryAddress (alignAddress req.address) = true := by
      simpa [isGlobal] using hg
    unfold handleRequest
    dsimp only
    rw [if_pos hs]
    cases hw : req.isWrite <;> rfl
  | true =>
    cases hw : req.isWrite with
    | true => rw [handleRequest_store hg hw]; rfl
    | false => rw [handleRequest_load hg hw]; exact loadWord_sharedMem ..

/-- A request keeps the rest served as by flat memory, if it races with none of them. -/
theorem ServesFlat.step (h : ServesFlat σ stale flat (req :: reqs))
    (hrace : RaceFree (req :: reqs)) :
    ServesFlat (handleRequest σ req).2 (nextStale σ req stale) (flatRequest flat req).2 reqs := by
  intro r hr
  obtain ⟨hfresh, hword⟩ := h r (List.mem_cons_of_mem _ hr)
  rw [handleRequest_mem, handleRequest_sharedMem]
  cases hw : req.isWrite with
  | false =>
    refine ⟨nextStale_le_load hw hfresh, ?_⟩
    simpa [flatRequest, hw] using hword
  | true =>
    by_cases heq : reqWord req = reqWord r
    · have hcu := hrace req List.mem_cons_self r (List.mem_cons_of_mem _ hr) hw heq
      rw [← isGlobal_congr heq, ← heq, ← hcu]
      cases hg : isGlobal req with
      | false =>
        rw [isGlobal_congr heq] at hg
        simp [nextStale, fillsL1, flatRequest, heq, hw, hg, hcu, isGlobal_congr heq, hfresh]
      | true => simp [nextStale, flatRequest, hw, hg]
    · have hstale : nextStale σ req stale r.cuId (reqWord r) = false := by
        simp [nextStale, fillsL1, hw, heq, hfresh]
      refine ⟨hstale, ?_⟩
      have hflat : (flatRequest flat req).2 (reqWord r) = flat (reqWord r) := by
        simp [flatRequest, hw, Function.update_of_ne (Ne.symm heq)]
      rw [hflat, ← hword]
      cases hg : isGlobal req with
      | true => simp [Function.update_of_ne (Ne.symm heq)]
      | false =>
        have hcell : Function.update σ.1.sharedMem req.cuId
            (Function.update (σ.1.sharedMem req.cuId) (reqWord req) req.writeData) r.cuId
              (reqWord r) = σ.1.sharedMem r.cuId (reqWord r) := by
          by_cases hcu : r.cuId = req.cuId
          · rw [hcu, Function.update_self, Function.update_of_ne (Ne.symm heq)]
          · rw [Function.update_of_ne hcu]
        simp [hcell]

theorem RaceFree.tail (h : RaceFree (req :: reqs)) : RaceFree reqs :=
  fun store hs r hr => h store (List.mem_cons_of_mem _ hs) r (List.mem_cons_of_mem _ hr)

/-- The run lemma of `ServesFlat.response` and `ServesFlat.step`. -/
theorem ServesFlat.responses (hc : Coherent σ stale) (h : ServesFlat σ stale flat reqs)
    (hrace : RaceFree reqs) : (handleRequests σ reqs).1 = flatResponses flat reqs := by
  induction reqs generalizing σ stale flat with
  | nil => rfl
  | cons req reqs ih =>
    unfold handleRequests flatResponses
    dsimp only
    rw [h.response hc, ih (hc.handleRequest req) (h.step hrace) hrace.tail]

end Flat

/-! ## Main result -/

/-- From reset, every sequence of requests keeps the cache invariant, and a sequence without races
is answered as by flat memory. -/
theorem cacheInvariant_and_flat (m : MemorySubsystem) (mem : GlobalMem) (reqs : List MemReq) :
    CacheInvariant (m.reset, mem) reqs ∧
      (RaceFree reqs →
        (handleRequests (m.reset, mem) reqs).1 = flatResponses (flatInit mem) reqs) :=
  ⟨(coherent_reset m mem noneStale).cacheInvariant reqs,
    (servesFlat_reset m mem reqs).responses (coherent_reset m mem noneStale)⟩

def loadOf (c : CuId) (addr : Addr) : MemReq := ⟨c, 0, 0, addr, false, 0⟩
def storeOf (c : CuId) (addr : Addr) (data : Word) : MemReq := ⟨c, 0, 0, addr, true, data⟩

theorem cacheInvariant_and_flat_storeLoad :
    RaceFree [loadOf 0 0x10000, storeOf 0 0x10000 7, loadOf 0 0x10000, loadOf 1 0x10004] ∧
      (handleRequests (emptySubsystem.reset, fun _ => 5)
        [loadOf 0 0x10000, storeOf 0 0x10000 7, loadOf 0 0x10000, loadOf 1 0x10004]).1 =
        [⟨0, 0, 0, 5⟩, ⟨0, 0, 0, 0⟩, ⟨0, 0, 0, 7⟩, ⟨1, 0, 0, 5⟩] :=
  ⟨by decide, ((cacheInvariant_and_flat emptySubsystem (fun _ => 5) _).2 (by decide)).trans
    (by decide)⟩

end RiscvGpgpu.Hls
