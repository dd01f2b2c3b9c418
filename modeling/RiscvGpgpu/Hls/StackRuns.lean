import RiscvGpgpu.Hls.DivergenceStack

/-!
# Runs of the divergence stack

The lanes of the initial mask under any sequence of branches and joins. The active mask and the
entries of the stack never share a lane. They lose one exactly where a branch on a full stack masks
it: the overflow flag is set, but the mask is narrowed all the same.
-/

namespace RiscvGpgpu.Hls

/-- The calls on a stack after `initializeWarp`. -/
inductive StackCall where
  | handleBranch (conditions : Lane → Bool)
  | handleJoin

namespace DivergenceStack

def call (s : DivergenceStack) : StackCall → DivergenceStack
  | .handleBranch conditions => s.handleBranch conditions
  | .handleJoin => s.handleJoin

def calls (s : DivergenceStack) (cs : List StackCall) : DivergenceStack := cs.foldl call s

@[simp] theorem calls_nil (s : DivergenceStack) : s.calls [] = s := rfl

theorem calls_append (s : DivergenceStack) (cs ds : List StackCall) :
    s.calls (cs ++ ds) = (s.calls cs).calls ds := List.foldl_append

theorem calls_concat (s : DivergenceStack) (cs : List StackCall) (c : StackCall) :
    s.calls (cs ++ [c]) = (s.calls cs).call c := calls_append s cs [c]

/-- Joins until the stack is empty. -/
def popAll (s : DivergenceStack) : DivergenceStack :=
  s.calls (List.replicate s.notTakenStack.length .handleJoin)

/-! ## Where the lanes are -/

/-- The active mask and the masks that wait. -/
def masks (s : DivergenceStack) : List ThreadMask := s.activeMask :: s.notTakenStack

/-- The lane is active or waits. -/
def Has (s : DivergenceStack) (t : Lane) : Prop := ∃ m ∈ s.masks, m.active t = true

instance (s : DivergenceStack) (t : Lane) : Decidable (s.Has t) :=
  inferInstanceAs (Decidable (∃ m ∈ s.masks, m.active t = true))

/-- No lane of the initial mask is lost, and all of them come back. -/
structure KeepsLanes (mask : ThreadMask) (s : DivergenceStack) : Prop where
  has : ∀ t, mask.active t = true → s.Has t
  back : ∀ t, mask.active t = true → s.popAll.activeMask.active t = true

/-- Two masks share no lane. -/
def Apart (m m' : ThreadMask) : Prop := ∀ t, ¬ (m.active t = true ∧ m'.active t = true)

/-- The masks of a stack are parts of the initial mask. -/
structure Parts (mask : ThreadMask) (s : DivergenceStack) : Prop where
  apart : s.masks.Pairwise Apart
  inside : ∀ t, s.Has t → mask.active t = true

variable {s : DivergenceStack} {mask : ThreadMask} {conditions : Lane → Bool} {t : Lane}

theorem has_iff :
    s.Has t ↔ s.activeMask.active t = true ∨ ∃ m ∈ s.notTakenStack, m.active t = true :=
  List.exists_mem_cons_iff _ _ _

/-- A branch finds room for the lanes that it masks, if it masks any. -/
def Pushes (s : DivergenceStack) (conditions : Lane → Bool) : Prop :=
  s.notTakenStack.length < maxDivergenceDepth ∨ s.notTaken conditions = 0#32

/-! ## One call -/

theorem masks_of_full (hfull : ¬ s.notTakenStack.length < maxDivergenceDepth) :
    (s.handleBranch conditions).masks = s.taken conditions :: s.notTakenStack := by
  rw [masks, handleBranch_activeMask]
  by_cases h : s.notTaken conditions = 0#32
  · rw [s.handleBranch_of_notTaken_eq_zero conditions h]
  · rw [(s.handleBranch_of_notTaken conditions h).2.1, pushDivergence, if_pos (not_lt.1 hfull)]

theorem masks_of_room (hroom : s.notTakenStack.length < maxDivergenceDepth)
    (h : s.notTaken conditions ≠ 0#32) : (s.handleBranch conditions).masks =
      s.taken conditions :: s.notTaken conditions :: s.notTakenStack := by
  rw [masks, handleBranch_activeMask, (s.handleBranch_of_notTaken conditions h).2.1,
    pushDivergence, if_neg (not_le.2 hroom)]

/-- A branch keeps every lane if it finds room. -/
theorem has_handleBranch (h : s.Pushes conditions) :
    (s.handleBranch conditions).Has t ↔ s.Has t := by
  by_cases hzero : s.notTaken conditions = 0#32
  · rw [s.handleBranch_of_notTaken_eq_zero conditions hzero]
  · have hroom := h.resolve_right hzero
    rw [Has, masks_of_room hroom hzero, has_iff, List.exists_mem_cons_iff, List.exists_mem_cons_iff,
      ← or_assoc, active_taken, active_notTaken]
    cases s.activeMask.active t <;> cases conditions t <;> simp

/-- A branch brings no lane. -/
theorem has_of_has_handleBranch (h : (s.handleBranch conditions).Has t) : s.Has t := by
  by_cases hroom : s.notTakenStack.length < maxDivergenceDepth
  · exact (has_handleBranch (.inl hroom)).1 h
  · rw [Has, masks_of_full hroom, List.exists_mem_cons_iff, active_taken, Bool.and_eq_true] at h
    exact has_iff.2 (h.imp_left And.left)

theorem masks_handleJoin {m : ThreadMask} {st : List ThreadMask} (h : s.notTakenStack = m :: st) :
    s.handleJoin.masks = (s.activeMask ||| m) :: st := by
  rw [masks, handleJoin, h]

theorem handleJoin_of_empty (h : s.notTakenStack = []) : s.handleJoin = s := by
  rw [handleJoin, h]

theorem has_handleJoin : s.handleJoin.Has t ↔ s.Has t := by
  cases hst : s.notTakenStack with
  | nil => rw [handleJoin_of_empty hst]
  | cons m st =>
    rw [Has, masks_handleJoin hst, has_iff, hst, List.exists_mem_cons_iff,
      List.exists_mem_cons_iff, ThreadMask.active_or, Bool.or_eq_true, or_assoc]

theorem Parts.handleBranch (h : Parts mask s) (conditions : Lane → Bool) :
    Parts mask (s.handleBranch conditions) := by
  refine ⟨?_, fun t ht => h.inside t (has_of_has_handleBranch ht)⟩
  obtain ⟨hactive, hstack⟩ := List.pairwise_cons.1 h.apart
  have hsub : ∀ m, (∀ t, m.active t = true → s.activeMask.active t = true) →
      ∀ m' ∈ s.notTakenStack, Apart m m' :=
    fun m hm m' hm' t ht => hactive m' hm' t ⟨hm t ht.1, ht.2⟩
  have htaken : ∀ m ∈ s.notTakenStack, Apart (s.taken conditions) m := by
    apply hsub
    intro t ht
    rw [active_taken, Bool.and_eq_true] at ht
    exact ht.1
  by_cases hroom : s.notTakenStack.length < maxDivergenceDepth
  · by_cases hzero : s.notTaken conditions = 0#32
    · rw [s.handleBranch_of_notTaken_eq_zero conditions hzero]
      exact h.apart
    · have hnotTaken : ∀ m ∈ s.notTakenStack, Apart (s.notTaken conditions) m := by
        apply hsub
        intro t ht
        rw [active_notTaken, Bool.and_eq_true] at ht
        exact ht.1
      have hboth : Apart (s.taken conditions) (s.notTaken conditions) := by
        intro t ht
        rw [active_taken, active_notTaken] at ht
        cases hc : conditions t <;> simp [hc] at ht
      rw [masks_of_room hroom hzero]
      refine List.pairwise_cons.2 ⟨?_, List.pairwise_cons.2 ⟨hnotTaken, hstack⟩⟩
      intro m hm
      rcases List.mem_cons.1 hm with rfl | hm
      · exact hboth
      · exact htaken m hm
  · rw [masks_of_full hroom]
    exact List.pairwise_cons.2 ⟨htaken, hstack⟩

theorem Parts.handleJoin (h : Parts mask s) : Parts mask s.handleJoin := by
  refine ⟨?_, fun t ht => h.inside t (has_handleJoin.1 ht)⟩
  cases hst : s.notTakenStack with
  | nil =>
    rw [handleJoin_of_empty hst]
    exact h.apart
  | cons m st =>
    have hapart := h.apart
    rw [masks, hst] at hapart
    obtain ⟨hactive, hstack⟩ := List.pairwise_cons.1 hapart
    obtain ⟨hm, hst'⟩ := List.pairwise_cons.1 hstack
    rw [masks_handleJoin hst]
    refine List.pairwise_cons.2 ⟨?_, hst'⟩
    intro m' hm' t ht
    rw [ThreadMask.active_or, Bool.or_eq_true] at ht
    rcases ht.1 with hs | hs
    · exact hactive m' (List.mem_cons_of_mem m hm') t ⟨hs, ht.2⟩
    · exact hm m' hm' t ⟨hs, ht.2⟩

/-! ## Runs -/

theorem parts_initializeWarp (mask : ThreadMask) : Parts mask (initializeWarp mask) where
  apart := List.pairwise_singleton _ _
  inside t ht := by
    rcases has_iff.1 ht with hactive | ⟨m, hm, -⟩
    · exact hactive
    · exact absurd hm List.not_mem_nil

theorem parts_calls (mask : ThreadMask) (cs : List StackCall) :
    Parts mask ((initializeWarp mask).calls cs) := by
  induction cs using List.reverseRecOn with
  | nil => exact parts_initializeWarp mask
  | append_singleton cs c ih =>
    rw [calls_concat]
    cases c with
    | handleBranch conditions => exact ih.handleBranch conditions
    | handleJoin => exact ih.handleJoin

/-- Joins alone lose no lane, and in the end all of them are active. -/
theorem active_popAll : s.popAll.activeMask.active t = true ↔ s.Has t := by
  unfold popAll
  induction hn : s.notTakenStack generalizing s with
  | nil =>
    rw [has_iff, hn]
    simp
  | cons m st ih =>
    have hst : s.handleJoin.notTakenStack = st := by rw [handleJoin, hn]
    rw [← has_handleJoin, ← ih hst]
    rfl

theorem keepsLanes_iff : KeepsLanes mask s ↔ ∀ t, mask.active t = true → s.Has t :=
  ⟨KeepsLanes.has, fun h => ⟨h, fun t ht => active_popAll.2 (h t ht)⟩⟩

/-- Every branch of the calls finds room. -/
def AllPush (mask : ThreadMask) (cs : List StackCall) : Prop :=
  ∀ pre conditions, pre ++ [.handleBranch conditions] <+: cs →
    ((initializeWarp mask).calls pre).Pushes conditions

theorem keepsLanes_of_allPush {cs : List StackCall} (h : AllPush mask cs) :
    KeepsLanes mask ((initializeWarp mask).calls cs) := by
  rw [keepsLanes_iff]
  intro t ht
  induction cs using List.reverseRecOn with
  | nil => exact has_iff.2 (.inl ht)
  | append_singleton cs c ih =>
    have hcs := ih fun pre conditions hpre => h pre conditions (hpre.trans (List.prefix_append _ _))
    rw [calls_concat]
    cases c with
    | handleBranch conditions => exact (has_handleBranch (h cs conditions List.prefix_rfl)).2 hcs
    | handleJoin => exact has_handleJoin.2 hcs

/-- A branch that finds no room for a lane loses it. -/
theorem not_has_of_not_pushes (hparts : Parts mask s) (h : ¬ s.Pushes conditions) :
    ∃ t, mask.active t = true ∧ ¬ (s.handleBranch conditions).Has t := by
  obtain ⟨hroom, hsome⟩ := not_or.1 h
  obtain ⟨t, hactive, hfalse⟩ := (s.notTaken_ne_zero_iff conditions).1 hsome
  refine ⟨t, hparts.inside t (has_iff.2 (.inl hactive)), ?_⟩
  rw [Has, masks_of_full hroom, List.exists_mem_cons_iff, active_taken, hfalse, Bool.and_false]
  rintro (hfalse | ⟨m, hm, ht⟩)
  · exact Bool.false_ne_true hfalse
  · exact (List.pairwise_cons.1 hparts.apart).1 m hm t ⟨hactive, ht⟩

/-- No lane is ever lost if and only if no branch masks a lane while the stack is full. -/
theorem keepsLanes_iff_allPush (mask : ThreadMask) (cs : List StackCall) :
    (∀ pre, pre <+: cs → KeepsLanes mask ((initializeWarp mask).calls pre)) ↔ AllPush mask cs := by
  constructor
  · intro h pre conditions hpre
    apply by_contra
    intro hpush
    obtain ⟨t, ht, hlost⟩ := not_has_of_not_pushes (parts_calls mask pre) hpush
    have hkeeps := (h _ hpre).has t ht
    rw [calls_concat] at hkeeps
    exact hlost hkeeps
  · intro h pre hpre
    exact keepsLanes_of_allPush fun pre' conditions hpre' => h pre' conditions (hpre'.trans hpre)

/-! ## Runs without an overflow -/

theorem overflow_handleBranch_iff : (s.handleBranch conditions).overflow = false ↔
    s.overflow = false ∧ s.Pushes conditions := by
  by_cases hzero : s.notTaken conditions = 0#32
  · rw [s.handleBranch_of_notTaken_eq_zero conditions hzero]
    exact (and_iff_left (.inr hzero)).symm
  · rw [(s.handleBranch_of_notTaken conditions hzero).2.2, pushDivergence]
    by_cases hroom : s.notTakenStack.length < maxDivergenceDepth
    · rw [if_neg (not_le.2 hroom)]
      exact (and_iff_left (.inl hroom)).symm
    · rw [if_pos (not_lt.1 hroom)]
      refine iff_of_false (fun h => Bool.false_ne_true h.symm) ?_
      rintro ⟨-, h | h⟩
      · exact hroom h
      · exact hzero h

/-- The flag tells whether every branch so far found room. -/
theorem overflow_calls_iff (mask : ThreadMask) (cs : List StackCall) :
    ((initializeWarp mask).calls cs).overflow = false ↔ AllPush mask cs := by
  induction cs using List.reverseRecOn with
  | nil =>
    refine iff_of_true rfl ?_
    intro pre conditions hpre
    exact absurd (List.prefix_nil.1 hpre) (List.append_ne_nil_of_right_ne_nil _ (by simp))
  | append_singleton cs c ih =>
    rw [calls_concat]
    cases c with
    | handleBranch conditions =>
      rw [call, overflow_handleBranch_iff, ih]
      constructor
      · rintro ⟨hall, hpush⟩ pre conditions' hpre
        rcases List.prefix_concat_iff.1 hpre with heq | hpre
        · obtain ⟨rfl, hlast⟩ := List.append_inj' heq rfl
          cases hlast
          exact hpush
        · exact hall pre conditions' hpre
      · intro hall
        refine ⟨?_, hall cs conditions List.prefix_rfl⟩
        intro pre conditions' hpre
        exact hall pre conditions' (hpre.trans (List.prefix_append _ _))
    | handleJoin =>
      rw [call, overflow_handleJoin, ih]
      constructor
      · intro hall pre conditions' hpre
        rcases List.prefix_concat_iff.1 hpre with heq | hpre
        · cases (List.append_inj' heq rfl).2
        · exact hall pre conditions' hpre
      · intro hall pre conditions' hpre
        exact hall pre conditions' (hpre.trans (List.prefix_append _ _))

/-- The lanes of all masks. -/
def union (s : DivergenceStack) : ThreadMask := s.masks.foldr (· ||| ·) 0#32

theorem active_foldr_or (ms : List ThreadMask) :
    ThreadMask.active (ms.foldr (· ||| ·) 0#32) t = true ↔ ∃ m ∈ ms, m.active t = true := by
  induction ms with
  | nil => simp
  | cons m ms ih =>
    rw [List.foldr_cons, ThreadMask.active_or, Bool.or_eq_true, ih, List.exists_mem_cons_iff]

theorem popAll_notTakenStack : s.popAll.notTakenStack = [] := by
  unfold popAll
  induction hn : s.notTakenStack generalizing s with
  | nil => exact hn
  | cons m st ih =>
    have hst : s.handleJoin.notTakenStack = st := by rw [handleJoin, hn]
    exact ih hst

/-- The masks are a partition of the initial mask, and the joins that empty the stack bring it
back. -/
structure Partitions (mask : ThreadMask) (s : DivergenceStack) : Prop where
  apart : s.masks.Pairwise Apart
  union_eq : s.union = mask
  emptied : s.popAll.notTakenStack = []
  restored : s.popAll.activeMask = mask

theorem partitions_of_keepsLanes (hparts : Parts mask s) (hkeeps : KeepsLanes mask s) :
    Partitions mask s := by
  have hhas : ∀ t, s.Has t ↔ mask.active t = true := fun t => ⟨hparts.inside t, hkeeps.has t⟩
  refine ⟨hparts.apart, ?_, popAll_notTakenStack, ?_⟩
  · apply ThreadMask.ext
    intro t
    rw [Bool.eq_iff_iff, union, active_foldr_or]
    exact hhas t
  · apply ThreadMask.ext
    intro t
    rw [Bool.eq_iff_iff, active_popAll, hhas]

/-- Without an overflow the masks are a partition of the initial mask. -/
theorem partitions_calls (mask : ThreadMask) (cs : List StackCall)
    (h : ((initializeWarp mask).calls cs).overflow = false) :
    Partitions mask ((initializeWarp mask).calls cs) :=
  partitions_of_keepsLanes (parts_calls mask cs)
    (keepsLanes_of_allPush ((overflow_calls_iff mask cs).1 h))

/-- Two branches, and a join too many. -/
theorem partitions_calls_joins : Partitions 0xFF#32 ((initializeWarp 0xFF#32).calls
    [.handleJoin, .handleBranch fun t => t.val < 4, .handleBranch fun _ => false]) :=
  partitions_calls _ _ (by decide +kernel)

/-! ## An overflow -/

/-- Branches that mask the lanes one after the other. -/
def peel (n : ℕ) : List StackCall := (List.range n).map fun i => .handleBranch fun t => t.val ≠ i

theorem peel_succ (n : ℕ) : peel (n + 1) = peel n ++ [.handleBranch fun t => t.val ≠ n] := by
  rw [peel, List.range_succ, List.map_append]
  rfl

theorem peel_fills {n : ℕ} (hn : n ≤ maxDivergenceDepth) :
    ((initializeWarp (BitVec.allOnes 32)).calls (peel n)).notTakenStack.length = n ∧
      ∀ t : Lane, ((initializeWarp (BitVec.allOnes 32)).calls (peel n)).activeMask.active t =
        decide (n ≤ t.val) := by
  induction n with
  | zero =>
    refine ⟨rfl, ?_⟩
    intro t
    rw [decide_eq_true (Nat.zero_le t.val)]
    exact ThreadMask.active_allOnes t
  | succ n ih =>
    obtain ⟨hlength, hactive⟩ := ih (Nat.le_of_succ_le hn)
    rw [peel_succ, calls_concat, call]
    generalize (initializeWarp (BitVec.allOnes 32)).calls (peel n) = s at hlength hactive
    have hroom : s.notTakenStack.length < maxDivergenceDepth := by omega
    have hlt : n < 32 := Nat.lt_of_lt_of_le hn (by decide)
    have hsome : s.notTaken (fun t => t.val ≠ n) ≠ 0#32 := by
      refine (s.notTaken_ne_zero_iff _).2 ⟨⟨n, hlt⟩, ?_, ?_⟩
      · rw [hactive, decide_eq_true (Nat.le_refl n)]
      · exact decide_eq_false (not_not.2 rfl)
    refine ⟨?_, ?_⟩
    · have hmasks := congrArg List.length (masks_of_room hroom hsome)
      rw [masks, List.length_cons, List.length_cons, List.length_cons] at hmasks
      omega
    · intro t
      rw [handleBranch_activeMask, active_taken, hactive, Bool.eq_iff_iff]
      simp only [Bool.and_eq_true, decide_eq_true_eq]
      omega

/-- The ninth of them loses lane 8. -/
theorem not_keepsLanes_peel :
    ¬ ∀ pre, pre <+: peel 9 →
      KeepsLanes (BitVec.allOnes 32) ((initializeWarp (BitVec.allOnes 32)).calls pre) := by
  intro h
  obtain ⟨hlength, hactive⟩ := peel_fills (n := 8) (by decide)
  have hfull : ¬ ((initializeWarp (BitVec.allOnes 32)).calls (peel 8)).Pushes
      fun t => t.val ≠ 8 := by
    refine not_or.2 ⟨by rw [hlength]; decide, ?_⟩
    exact (notTaken_ne_zero_iff _ _).2 ⟨8, by rw [hactive]; rfl, rfl⟩
  obtain ⟨t, ht, hlost⟩ := not_has_of_not_pushes (parts_calls _ (peel 8)) hfull
  have hkeeps := (h (peel 9) List.prefix_rfl).has t ht
  rw [peel_succ, calls_concat] at hkeeps
  exact hlost hkeeps

end DivergenceStack

end RiscvGpgpu.Hls
