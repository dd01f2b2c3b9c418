import RiscvGpgpu.Hls.CacheInvariant
import RiscvGpgpu.Golden.MemoryHierarchy

/-!
# The two memories on one sequence of requests

The HLS subsystem answers a load with the last word stored to its address, as the golden hierarchy
does, unless the load hits its own L1 on a word that another CU has stored to since.
-/

namespace RiscvGpgpu.Parity

open Hls (MemState MemorySubsystem GlobalMem handleRequest stateAfter staleAfter noneStale isGlobal
  reqWord alignAddress wordIndex SetAssocCache)
open Golden (MemoryHierarchy)

/-- The last word stored to an address before, or the initial one. -/
def lastStored (mem : GlobalMem) (reqs : List MemReq) (word : BitVec 32) : Word :=
  reqs.foldl (fun v req => if req.isWrite && reqWord req == word then req.writeData else v)
    (mem word)

@[simp] theorem lastStored_concat (mem : GlobalMem) (reqs : List MemReq) (req : MemReq)
    (word : BitVec 32) : lastStored mem (reqs ++ [req]) word =
      if req.isWrite && reqWord req == word then req.writeData else lastStored mem reqs word := by
  rw [lastStored, List.foldl_append, List.foldl_cons, List.foldl_nil, lastStored]

/-! ## The golden hierarchy -/

/-- The request as the golden unit makes it. -/
def hierarchyRequest (h : MemoryHierarchy) (req : MemReq) : Option Word × MemoryHierarchy :=
  if req.isWrite then (none, h.storeWord (req.address.setWidth 64) req.writeData 0)
  else h.loadWord (req.address.setWidth 64) 0

def hierarchyAfter (h : MemoryHierarchy) (reqs : List MemReq) : MemoryHierarchy :=
  reqs.foldl (fun h req => (hierarchyRequest h req).2) h

/-- The key of a word. -/
def wordKey (word : BitVec 32) : Golden.Address := word.setWidth 64 <<< 2

/-- The word is not in the golden window. -/
def outsideWindow (h : MemoryHierarchy) (word : BitVec 32) : Prop :=
  h.isSharedMemoryAddress (wordKey word) = false

/-- The hierarchy holds a word array, outside its window. -/
structure Mirrors (h : MemoryHierarchy) (mem : GlobalMem) : Prop where
  coherent : h.Coherent
  words : ∀ word, outsideWindow h word → h.globalWord (wordKey word) = mem word

theorem wordKey_inj {word word' : BitVec 32} : wordKey word = wordKey word' ↔ word = word' := by
  unfold wordKey
  constructor
  · intro heq
    bv_omega
  · rintro rfl
    rfl

theorem alignAddress_setWidth (req : MemReq) :
    Golden.alignAddress (req.address.setWidth 64) = wordKey (reqWord req) := by
  have haddr := req.address.isLt
  refine BitVec.eq_of_toNat_eq ?_
  rw [Golden.alignAddress, toNat_and_not_three, wordKey, BitVec.toNat_shiftLeft, Nat.shiftLeft_eq,
    BitVec.toNat_setWidth, BitVec.toNat_setWidth,
    Nat.mod_eq_of_lt (a := (reqWord req).toNat) (by omega),
    Hls.reqWord_mul_four, alignAddress, toNat_and_not_three]
  omega

section Golden

variable {h : MemoryHierarchy} {mem : GlobalMem}

/-- The word a request stores, as the hierarchy holds it afterwards. -/
theorem Mirrors.step (hm : Mirrors h mem) (req : MemReq) :
    Mirrors (hierarchyRequest h req).2
        (if req.isWrite then Function.update mem (reqWord req) req.writeData else mem) ∧
      (hierarchyRequest h req).2.sharedMemSize = h.sharedMemSize := by
  unfold hierarchyRequest
  cases hw : req.isWrite with
  | false =>
    obtain ⟨hglobal, -, hsize⟩ := h.loadWord_frame (req.address.setWidth 64) 0
    simp only [Bool.false_eq_true, if_false]
    refine ⟨⟨hm.coherent.loadWord _ _, fun word hout => ?_⟩, hsize⟩
    rw [MemoryHierarchy.globalWord, hglobal]
    refine hm.words word ?_
    unfold outsideWindow MemoryHierarchy.isSharedMemoryAddress at hout ⊢
    rwa [hsize] at hout
  | true =>
    simp only [if_true]
    cases hs : h.isSharedMemoryAddress (Golden.alignAddress (req.address.setWidth 64)) with
    | true =>
      have hc := hm.coherent.storeWord (req.address.setWidth 64) req.writeData 0
      obtain ⟨shared, heq⟩ := MemoryHierarchy.storeWord_shared hs req.writeData 0
      rw [heq] at hc ⊢
      refine ⟨⟨hc, fun word hout => ?_⟩, rfl⟩
      rw [Function.update_of_ne]
      · exact hm.words word hout
      · rintro rfl
        rw [alignAddress_setWidth] at hs
        exact Bool.false_ne_true (hout.symm.trans hs)
    | false =>
      have hc := hm.coherent.storeWord (req.address.setWidth 64) req.writeData 0
      rw [MemoryHierarchy.storeWord_global hs] at hc ⊢
      refine ⟨⟨hc, fun word hout => ?_⟩, rfl⟩
      rw [MemoryHierarchy.globalWord, alignAddress_setWidth]
      dsimp only
      by_cases heq : word = reqWord req
      · rw [heq, Function.update_self, Function.update_self]
        rfl
      · rw [Function.update_of_ne heq, Function.update_of_ne fun hk => heq (wordKey_inj.1 hk)]
        exact hm.words word hout

/-- After any requests the hierarchy holds the words last stored. -/
theorem Mirrors.after (hm : Mirrors h mem) (reqs : List MemReq) :
    Mirrors (hierarchyAfter h reqs) (lastStored mem reqs) ∧
      (hierarchyAfter h reqs).sharedMemSize = h.sharedMemSize := by
  induction reqs using List.reverseRecOn with
  | nil => exact ⟨hm, rfl⟩
  | append_singleton reqs req ih =>
    obtain ⟨hreqs, hsize⟩ := ih
    obtain ⟨hstep, hsize'⟩ := hreqs.step req
    have hafter : hierarchyAfter h (reqs ++ [req]) =
      (hierarchyRequest (hierarchyAfter h reqs) req).2 := by
      rw [hierarchyAfter, List.foldl_append]
      rfl
    rw [hafter]
    refine ⟨?_, hsize'.trans hsize⟩
    have hlast : lastStored mem (reqs ++ [req]) = if req.isWrite then
        Function.update (lastStored mem reqs) (reqWord req) req.writeData
        else lastStored mem reqs := by
      funext word
      rw [lastStored_concat]
      cases req.isWrite with
      | false => rfl
      | true =>
        by_cases heq : reqWord req = word
        · simp [heq]
        · simp [heq, Function.update_of_ne (Ne.symm heq)]
    rw [hlast]
    exact hstep

end Golden

/-! ## The HLS subsystem -/

/-- The backing memory holds the words last stored, outside the scratchpad. -/
theorem stateAfter_mem (σ : MemState) (reqs : List MemReq) {req : MemReq}
    (hg : isGlobal req = true) :
    (stateAfter σ reqs).2 (reqWord req) = lastStored σ.2 reqs (reqWord req) := by
  induction reqs using List.reverseRecOn with
  | nil => rfl
  | append_singleton reqs last ih =>
    rw [Hls.stateAfter_append, lastStored_concat, ← ih, Hls.stateAfter_cons, Hls.stateAfter_nil,
      Hls.handleRequest_mem]
    by_cases heq : reqWord last = reqWord req
    · rw [Hls.isGlobal_congr heq, hg, heq]
      cases last.isWrite <;> simp
    · split
      · rw [Function.update_of_ne (Ne.symm heq)]
        simp [heq]
      · simp [heq]

/-- A load of the global memory that hits its own L1 on a stale word. -/
def staleHit (σ : MemState) (stale : CuId → BitVec 32 → Bool) (req : MemReq) : Bool :=
  isGlobal req && !req.isWrite &&
    (SetAssocCache.lookup (σ.1.l1Caches req.cuId) (alignAddress req.address)).isSome &&
      stale req.cuId (reqWord req)

/-- No load hits its own L1 on a word that another CU has stored to since. -/
def NoStaleHit (σ : MemState) (reqs : List MemReq) : Prop :=
  ∀ k (hk : k < reqs.length), staleHit (stateAfter σ (reqs.take k))
    (staleAfter σ noneStale (reqs.take k)) reqs[k] = false

instance (σ : MemState) (reqs : List MemReq) : Decidable (NoStaleHit σ reqs) :=
  inferInstanceAs (Decidable (∀ k (_ : k < reqs.length), _))

/-- From reset, each load outside the scratchpad is answered with the word last stored to its
address, or the initial one; the golden hierarchy answers the same outside its window. -/
def MemoryParity (m : MemorySubsystem) (mem : GlobalMem) (reqs : List MemReq) : Prop :=
  ∀ k (hk : k < reqs.length), isGlobal reqs[k] = true → reqs[k].isWrite = false →
    (handleRequest (stateAfter (m.reset, mem) (reqs.take k)) reqs[k]).1.data =
        lastStored mem (reqs.take k) (reqWord reqs[k]) ∧
      ∀ h : MemoryHierarchy, Mirrors h mem → outsideWindow h (reqWord reqs[k]) →
        (hierarchyRequest (hierarchyAfter h (reqs.take k)) reqs[k]).1 =
          some (handleRequest (stateAfter (m.reset, mem) (reqs.take k)) reqs[k]).1.data

/-! ## Main result -/

/-- The two memories agree in every run without a stale hit. -/
theorem memoryParity_of_noStaleHit (m : MemorySubsystem) (mem : GlobalMem) (reqs : List MemReq)
    (hfresh : NoStaleHit (m.reset, mem) reqs) : MemoryParity m mem reqs := by
  intro k hk hg hw
  set pre := reqs.take k with hpre
  set req := reqs[k] with hreq
  have hcoh := (Hls.coherent_reset m mem noneStale).stateAfter pre
  have hdata : (handleRequest (stateAfter (m.reset, mem) pre) req).1.data =
      lastStored mem pre (reqWord req) := by
    rw [Hls.handleRequest_load hg hw]
    refine (hcoh.loadWord_eq req fun hhit => ?_).trans (stateAfter_mem _ pre hg)
    have hnot := hfresh k hk
    rw [staleHit, ← hreq, ← hpre, hg, hw, hhit] at hnot
    simpa using hnot
  refine ⟨hdata, fun h hm hout => ?_⟩
  obtain ⟨hafter, hsize⟩ := hm.after pre
  have hout' : outsideWindow (hierarchyAfter h pre) (reqWord req) := by
    unfold outsideWindow MemoryHierarchy.isSharedMemoryAddress at hout ⊢
    rwa [hsize]
  rw [hdata, hierarchyRequest, hw, if_neg Bool.false_ne_true, ← hafter.words _ hout',
    ← alignAddress_setWidth]
  refine MemoryHierarchy.loadWord_global ?_ hafter.coherent 0
  rw [alignAddress_setWidth]
  exact hout'

theorem memoryParity_of_noStaleHit_storeLoad :
    MemoryParity Hls.emptySubsystem (fun _ => 5)
      [Hls.loadOf 0 0x10000, Hls.storeOf 1 0x10004 7, Hls.loadOf 0 0x10000, Hls.loadOf 2 0x10004] :=
  memoryParity_of_noStaleHit _ _ _ (by decide)

/-- CU 0 keeps its copy of a word that CU 1 stores to. -/
theorem not_memoryParity_staleLine :
    ¬ MemoryParity Hls.emptySubsystem (fun _ => 0)
      [Hls.loadOf 0 0x10000, Hls.storeOf 1 0x10000 7, Hls.loadOf 0 0x10000] := by
  intro h
  have hlast := (h 2 (by decide) rfl rfl).1
  revert hlast
  decide

end RiscvGpgpu.Parity
