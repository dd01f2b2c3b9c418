import RiscvGpgpu.Hls.CacheInvariant

/-!
# Each CU alone with its memory

Requests of several CUs, of which none stores to a global word that another one accesses, are
answered as if every CU had a flat memory of its own (`ServesOwn.run`), and the words that a CU has
stored are those of its flat memory in the end.
-/

namespace RiscvGpgpu.Hls

/-- Flat memory after some requests. -/
def flatAfter (mem : GlobalMem) (reqs : List MemReq) : GlobalMem :=
  reqs.foldl (fun mem req => (flatRequest mem req).2) mem

@[simp] theorem flatAfter_nil (mem : GlobalMem) : flatAfter mem [] = mem := rfl

@[simp] theorem flatAfter_cons (mem : GlobalMem) (req : MemReq) (reqs : List MemReq) :
    flatAfter mem (req :: reqs) = flatAfter (flatRequest mem req).2 reqs := rfl

theorem flatAfter_concat (mem : GlobalMem) (reqs : List MemReq) (req : MemReq) :
    flatAfter mem (reqs ++ [req]) = (flatRequest (flatAfter mem reqs) req).2 := by
  unfold flatAfter
  rw [List.foldl_append]
  rfl

theorem flatResponses_concat (mem : GlobalMem) (reqs : List MemReq) (req : MemReq) :
    flatResponses mem (reqs ++ [req]) =
      flatResponses mem reqs ++ [(flatRequest (flatAfter mem reqs) req).1] := by
  induction reqs generalizing mem with
  | nil => rfl
  | cons r reqs ih => exact congrArg (_ :: ·) (ih _)

/-- The requests with the responses that the subsystem gives them. -/
def answered (σ : MemState) : List MemReq → List (MemReq × MemResp)
  | [] => []
  | req :: reqs => (req, (handleRequest σ req).1) :: answered (handleRequest σ req).2 reqs

theorem answered_concat (σ : MemState) (reqs : List MemReq) (req : MemReq) :
    answered σ (reqs ++ [req]) =
      answered σ reqs ++ [(req, (handleRequest (stateAfter σ reqs) req).1)] := by
  induction reqs generalizing σ with
  | nil => rfl
  | cons r reqs ih => exact congrArg (_ :: ·) (ih _)

/-! ## One CU and the others -/

/-- No global word is stored by one CU and accessed by another. Each has a scratchpad of its own. -/
def Isolated (reqs : List MemReq) : Prop :=
  ∀ store ∈ reqs, ∀ req ∈ reqs, store.isWrite = true → isGlobal store = true →
    reqWord store = reqWord req → store.cuId = req.cuId

instance (reqs : List MemReq) : Decidable (Isolated reqs) :=
  inferInstanceAs (Decidable (∀ store ∈ reqs, ∀ req ∈ reqs, _))

theorem Isolated.subset {reqs reqs' : List MemReq} (h : Isolated reqs') (hsub : reqs ⊆ reqs') :
    Isolated reqs := fun store hs req hr => h store (hsub hs) req (hsub hr)

/-- The requests of one CU. -/
def requestsOf (id : CuId) (reqs : List MemReq) : List MemReq :=
  reqs.filter fun req => req.cuId = id

@[simp] theorem requestsOf_nil (id : CuId) : requestsOf id [] = [] := rfl

theorem requestsOf_cons (id : CuId) (req : MemReq) (reqs : List MemReq) :
    requestsOf id (req :: reqs) =
      if req.cuId = id then req :: requestsOf id reqs else requestsOf id reqs := by
  simp [requestsOf, List.filter_cons]

/-- What the requests still to come read is what the flat memory of their CU holds. -/
def ServesOwn (σ : MemState) (stale : CuId → BitVec 32 → Bool) (own : CuId → GlobalMem)
    (reqs : List MemReq) : Prop :=
  ∀ req ∈ reqs, stale req.cuId (reqWord req) = false ∧
    (if isGlobal req then σ.2 (reqWord req) else σ.1.sharedMem req.cuId (reqWord req)) =
      own req.cuId (reqWord req)

/-- The flat memories after a request. -/
def ownAfter (own : CuId → GlobalMem) (req : MemReq) : CuId → GlobalMem :=
  Function.update own req.cuId (flatRequest (own req.cuId) req).2

section Own

variable {σ : MemState} {stale : CuId → BitVec 32 → Bool} {own : CuId → GlobalMem} {req : MemReq}
  {reqs pre post : List MemReq}

/-- From reset every sequence is served as by the flat memories. -/
theorem servesOwn_reset (m : MemorySubsystem) (mem : GlobalMem) (reqs : List MemReq) :
    ServesOwn (m.reset, mem) noneStale (fun _ => flatInit mem) reqs :=
  servesFlat_reset m mem reqs

theorem ServesOwn.response (hc : Coherent σ stale) (h : ServesOwn σ stale own (req :: reqs)) :
    (handleRequest σ req).1 = (flatRequest (own req.cuId) req).1 := by
  have hone : ServesFlat σ stale (own req.cuId) [req] := fun r hr => by
    obtain rfl := List.mem_singleton.1 hr
    exact h _ List.mem_cons_self
  exact hone.response hc

/-- A request keeps the rest served, if it is isolated from them. -/
theorem ServesOwn.step (h : ServesOwn σ stale own (req :: reqs)) (hiso : Isolated (req :: reqs)) :
    ServesOwn (handleRequest σ req).2 (nextStale σ req stale) (ownAfter own req) reqs := by
  intro r hr
  have hmem := List.mem_cons_of_mem req hr
  obtain ⟨hfresh, hword⟩ := h r hmem
  by_cases hcu : req.cuId = r.cuId
  · -- the flat memory of this CU is the one of `ServesFlat.step`
    have hpair : ServesFlat σ stale (own r.cuId) [req, r] := fun q hq => by
      obtain rfl | rfl : q = req ∨ q = r := by simpa using hq
      · rw [← hcu]
        exact h _ List.mem_cons_self
      · exact ⟨hfresh, hword⟩
    have hrace : RaceFree [req, r] := fun s hs q hq _ _ => by
      have hid : ∀ x ∈ [req, r], x.cuId = r.cuId := by simp [hcu]
      rw [hid s hs, hid q hq]
    have hstep := hpair.step hrace r (by simp)
    rwa [ownAfter, hcu, Function.update_self]
  · rw [ownAfter, Function.update_of_ne (Ne.symm hcu), handleRequest_mem, handleRequest_sharedMem]
    cases hw : req.isWrite with
    | false => exact ⟨nextStale_le_load hw hfresh, by simpa using hword⟩
    | true =>
      cases hg : isGlobal req with
      | false =>
        refine ⟨by simp [nextStale, fillsL1, hw, hg, hfresh], ?_⟩
        simpa [Function.update_of_ne (Ne.symm hcu)] using hword
      | true =>
        have hne : reqWord req ≠ reqWord r := fun heq =>
          hcu (hiso req List.mem_cons_self r hmem hw hg heq)
        refine ⟨by simp [nextStale, fillsL1, hw, hne, hfresh], ?_⟩
        simpa [Function.update_of_ne (Ne.symm hne)] using hword

/-- The run lemma of `ServesOwn.response` and `ServesOwn.step`. -/
theorem ServesOwn.run (hc : Coherent σ stale) (h : ServesOwn σ stale own (pre ++ post))
    (hiso : Isolated (pre ++ post)) :
    ServesOwn (stateAfter σ pre) (staleAfter σ stale pre)
        (fun id => flatAfter (own id) (requestsOf id pre)) post ∧
      ∀ id, ((answered σ pre).filter fun p => p.1.cuId = id).map Prod.snd =
        flatResponses (own id) (requestsOf id pre) := by
  induction pre generalizing σ stale own with
  | nil => exact ⟨h, fun _ => rfl⟩
  | cons req pre ih =>
    rw [List.cons_append] at h hiso
    obtain ⟨hrest, hresps⟩ := ih (hc.handleRequest req) (h.step hiso)
      (hiso.subset (List.subset_cons_self _ _))
    have hown (id : CuId) : flatAfter (own id) (requestsOf id (req :: pre)) =
        flatAfter (ownAfter own req id) (requestsOf id pre) := by
      rw [requestsOf_cons, ownAfter]
      by_cases hid : req.cuId = id
      · subst hid
        rw [if_pos rfl, Function.update_self, flatAfter_cons]
      · rw [if_neg hid, Function.update_of_ne (Ne.symm hid)]
    refine ⟨?_, fun id => ?_⟩
    · simp only [hown]
      exact hrest
    · rw [answered, requestsOf_cons, List.filter_cons]
      have hrespond := h.response hc
      have htail := hresps id
      by_cases hid : req.cuId = id
      · subst hid
        rw [ownAfter, Function.update_self] at htail
        simp only [decide_true, if_true, List.map_cons, flatResponses, hrespond, htail]
      · rw [ownAfter, Function.update_of_ne (Ne.symm hid)] at htail
        simp only [hid, decide_false, Bool.false_eq_true, if_false, htail]

end Own

/-! ## What is left in the end -/

/-- The request stores to the word. -/
def writesWord (req : MemReq) (word : BitVec 32) : Prop :=
  req.isWrite = true ∧ reqWord req = word

instance (req : MemReq) (word : BitVec 32) : Decidable (writesWord req word) :=
  inferInstanceAs (Decidable (_ ∧ _))

section Final

variable {σ : MemState} {word : BitVec 32} {reqs : List MemReq}

theorem flatAfter_frame {mem : GlobalMem} (h : ∀ req ∈ reqs, ¬ writesWord req word) :
    flatAfter mem reqs word = mem word := by
  induction reqs using List.reverseRecOn with
  | nil => rfl
  | append_singleton reqs req ih =>
    rw [flatAfter_concat, flatRequest]
    have hreq := h req (by simp)
    have ih := ih fun r hr => h r (List.mem_append_left _ hr)
    split
    · next hw => exact (Function.update_of_ne (fun heq => hreq ⟨hw, heq.symm⟩) _ _).trans ih
    · exact ih

theorem stateAfter_frame (h : ∀ req ∈ reqs, isGlobal req = true → ¬ writesWord req word) :
    (stateAfter σ reqs).2 word = σ.2 word := by
  induction reqs generalizing σ with
  | nil => rfl
  | cons req reqs ih =>
    rw [stateAfter_cons, ih fun r hr => h r (List.mem_cons_of_mem _ hr), handleRequest_mem]
    split
    · next hstore =>
      rw [Bool.and_eq_true] at hstore
      exact Function.update_of_ne
        (fun heq => h req List.mem_cons_self hstore.1 ⟨hstore.2, heq.symm⟩) _ _
    · rfl

theorem sharedMem_frame {id : CuId}
    (h : ∀ req ∈ reqs, req.cuId = id → ¬ writesWord req word) :
    (stateAfter σ reqs).1.sharedMem id word = σ.1.sharedMem id word := by
  induction reqs generalizing σ with
  | nil => rfl
  | cons req reqs ih =>
    rw [stateAfter_cons, ih fun r hr => h r (List.mem_cons_of_mem _ hr), handleRequest_sharedMem]
    split
    · next hstore =>
      rw [Bool.and_eq_true] at hstore
      by_cases hid : req.cuId = id
      · have hne : word ≠ reqWord req := fun heq =>
          h req List.mem_cons_self hid ⟨hstore.2, heq.symm⟩
        rw [hid, Function.update_self, Function.update_of_ne hne]
      · rw [Function.update_of_ne (Ne.symm hid)]
    · rfl

/-- A word that a CU accesses is in the end that of its flat memory. -/
theorem stateAfter_accessed (m : MemorySubsystem) (mem : GlobalMem) {req : MemReq}
    (hiso : Isolated reqs) (hmem : req ∈ reqs) :
    (if isGlobal req then (stateAfter (m.reset, mem) reqs).2 (reqWord req)
      else (stateAfter (m.reset, mem) reqs).1.sharedMem req.cuId (reqWord req)) =
      flatAfter (flatInit mem) (requestsOf req.cuId reqs) (reqWord req) := by
  -- a load that comes last would read the word
  set load : MemReq := { req with isWrite := false } with hload
  have hlast : Isolated (reqs ++ [load]) := by
    intro s hs r hr hw hg heq
    obtain hs | hs := List.mem_append.1 hs
    · obtain hr | hr := List.mem_append.1 hr
      · exact hiso s hs r hr hw hg heq
      · obtain rfl := List.mem_singleton.1 hr
        exact hiso s hs req hmem hw hg heq
    · obtain rfl := List.mem_singleton.1 hs
      exact absurd hw Bool.false_ne_true
  exact (((servesOwn_reset m mem _).run (coherent_reset m mem noneStale) hlast).1 load (by simp)).2

end Final

end RiscvGpgpu.Hls
