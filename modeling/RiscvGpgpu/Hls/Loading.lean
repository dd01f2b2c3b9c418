import RiscvGpgpu.Hls.ProgramLoader

/-!
# A pass of the loader

What `programLoader` has done for the launch at hand: `sent` says which CUs have been sent their
token. A loader that has not seen `start` low since the launch before does nothing more.
-/

namespace RiscvGpgpu.Hls

/-- The store holds the first `n` words of the program of a launch. -/
def HoldsTo (a : LaunchArgs) (n : ℕ) (store : ProgramStore) : Prop :=
  ∀ i, ∀ h : i < maxProgramLen, i < n → i < a.programLen.toNat → store[i] = a.program i

section HoldsTo

variable {a : LaunchArgs} {n m : ℕ} {store : ProgramStore}

theorem HoldsTo.of_le (h : HoldsTo a n store) (hm : m ≤ n) : HoldsTo a m store :=
  fun i hi him => h i hi (lt_of_lt_of_le him hm)

/-- The next word of the program. -/
theorem HoldsTo.set (h : HoldsTo a n store) (hn : n < maxProgramLen) :
    HoldsTo a (n + 1) (store.set n (a.program n) hn) := by
  intro i hi hin hlen
  by_cases heq : n = i
  · subst heq
    rw [Vector.getElem_set_self]
  · rw [Vector.getElem_set_ne hn hi heq]
    exact h i hi (by omega) hlen

/-- Words behind the end of the program are not loaded. -/
theorem HoldsTo.skip (h : HoldsTo a n store) (hlen : a.programLen.toNat ≤ n) :
    HoldsTo a m store := fun i hi _ hil => h i hi (by omega) hil

end HoldsTo

namespace ProgramLoader

variable {B : Build} {a : LaunchArgs} {start : Bool} {ld ld' : ProgramLoader}
  {p p' : Ports B.numCus} {sent : Fin B.numCus → Bool} {ev : List FlatEvent}

/-- Nothing is loaded for the launch yet, or only words of the program. -/
structure Unseeded (ld : ProgramLoader) : Prop where
  regsDone : ld.regsDone = false
  seedC : ld.seedC = 0
  seedSlot : ld.seedSlot = 0
  seedI : ld.seedI = 0

/-- How far the loader is with a launch. -/
inductive Stage (B : Build) (a : LaunchArgs) (start : Bool) (stores : Fin B.numCus → ProgramStore)
    (sent : Fin B.numCus → Bool) (ld : ProgramLoader) : Prop where
  | pass
      (hsent : ∀ c, sent c = true ↔
        ld.loaded = true ∧ (ld.regsDone = true ∨ (c : ℕ) < ld.seedC))
      (hunseeded : ld.loaded = false → ld.Unseeded)
      (htoken : ld.pc = .token → ld.loaded = true ∧ ld.regsDone = false ∧
        ld.seedSlot = 0 ∧ ld.seedI = 0)
      (hstores : ∀ c, HoldsTo a ld.loadIdx (stores c))
      (hloaded : ld.loaded = true → maxProgramLen ≤ ld.loadIdx)
  /-- The loader has seen `start` low. -/
  | over (hstart : start = false) (hld : ld = {})
  /-- The loader is done with an earlier launch and has not seen `start` low since. -/
  | stale (hfin : ld.Finished B) (hsent : ∀ c, sent c = false)

@[simp] theorem advance_loaded : (ld.advance B).loaded = ld.loaded := by
  unfold advance
  split_ifs <;> rfl

@[simp] theorem advance_loadIdx : (ld.advance B).loadIdx = ld.loadIdx := by
  unfold advance
  split_ifs <;> rfl

@[simp] theorem advance_regsDone : (ld.advance B).regsDone = ld.regsDone := by
  unfold advance
  split_ifs <;> rfl

@[simp] theorem advance_seedC : (ld.advance B).seedC = ld.seedC := by
  unfold advance
  split_ifs <;> rfl

theorem advance_token (h : (ld.advance B).pc = .token) :
    (ld.advance B).seedSlot = 0 ∧ (ld.advance B).seedI = 0 := by
  unfold advance at h ⊢
  split_ifs at h ⊢
  exact ⟨rfl, rfl⟩

/-- What a step of the loader does: it sends at most a token. -/
structure Moves (B : Build) (a : LaunchArgs) (start : Bool) (p p' : Ports B.numCus)
    (sent sent' : Fin B.numCus → Bool) (ld' : ProgramLoader) : Prop where
  stage : Stage B a start p'.stores sent' ld'
  tokens : ∀ c, p'.loaded c + (sent c).toNat = p.loaded c + (sent' c).toNat
  mono : ∀ c, sent c = true → sent' c = true
  stores : ∀ c, sent c = true → p'.stores c = p.stores c
  fresh : ∀ c, sent c = false → sent' c = true → HoldsTo a maxProgramLen (p'.stores c)

/-- A step that sends no token and leaves the stores that are in use. -/
theorem Moves.of_stage (h : Stage B a start p'.stores sent ld') (hl : p'.loaded = p.loaded)
    (hs : ∀ c, sent c = true → p'.stores c = p.stores c) : Moves B a start p p' sent sent ld' where
  stage := h
  tokens := fun c => by rw [hl]
  mono := fun _ => id
  stores := hs
  fresh := fun c h0 h1 => absurd (h0.symm.trans h1) (by simp)

theorem Stage.head (h : Stage B a start p.stores sent ld) (hpc : ld.pc = .head)
    (hs : ld.step B a start p = some (ld', p', ev)) : Moves B a start p p' sent sent ld' := by
  unfold step at hs
  rw [hpc] at hs
  obtain ⟨rfl, rfl, -⟩ : _ ∧ _ ∧ _ := by simpa using hs
  refine .of_stage ?_ rfl fun _ _ => rfl
  by_cases hstart : start = true
  · rw [if_pos hstart]
    obtain ⟨hsent, hunseeded, -, hstores, hloaded⟩ | ⟨hlow, -⟩ | ⟨⟨-, hfin⟩, hsent⟩ := h
    · exact .pass hsent (fun hl => ⟨(hunseeded hl).1, (hunseeded hl).2, (hunseeded hl).3,
        (hunseeded hl).4⟩) (by simp) hstores hloaded
    · exact absurd (hlow.symm.trans hstart) (by simp)
    · exact .stale ⟨by simp, hfin⟩ hsent
  · rw [if_neg hstart]
    exact .over (Bool.not_eq_true _ ▸ hstart) rfl

theorem Stage.loadStep (h : Stage B a start p.stores sent ld) (hpc : ld.pc = .work)
    (hload : ld.loaded = false) (hs : ld.step B a start p = some (ld', p', ev)) :
    Moves B a start p p' sent sent ld' := by
  unfold step at hs
  rw [hpc] at hs
  dsimp only at hs
  rw [if_pos hload] at hs
  obtain ⟨hsent, hunseeded, -, hstores, -⟩ | ⟨-, rfl⟩ | ⟨⟨-, hfin, -⟩, -⟩ := h
  · obtain ⟨hregs, hc, hslot, hi⟩ := hunseeded hload
    have hnone (c : Fin B.numCus) : sent c = false := by
      rw [← Bool.not_eq_true, hsent, hload]
      simp
    have hunused (c : Fin B.numCus) (hsent : sent c = true) : p'.stores c = p.stores c :=
      absurd ((hnone c).symm.trans hsent) (by simp)
    split at hs
    · next hlt =>
      obtain ⟨rfl, hp, -⟩ : _ ∧ _ ∧ _ := by simpa using hs
      have hl : p'.loaded = p.loaded := by
        rw [← hp]
        split <;> rfl
      refine .of_stage (.pass (fun c => ?_) (fun _ => ⟨hregs, hc, hslot, hi⟩) (by simp)
        (fun c => ?_) (by simp [hload])) hl hunused
      · rw [hsent, hload]
      · rw [← hp]
        split
        · exact (hstores c).set hlt
        · next hlen => exact (hstores c).skip (by omega)
    · next hge =>
      obtain ⟨rfl, rfl, -⟩ : _ ∧ _ ∧ _ := by simpa using hs
      refine .of_stage (.pass (fun c => ?_) (by simp) (by simp) hstores fun _ => not_lt.1 hge) rfl
        fun _ _ => rfl
      rw [hnone, hregs, hc]
      simp
  · exact absurd hpc (by simp)
  · exact absurd (hload.symm.trans hfin) (by simp)

theorem Stage.seedStep (h : Stage B a start p.stores sent ld) (hpc : ld.pc = .work)
    (hload : ld.loaded = true) (hs : ld.step B a start p = some (ld', p', ev)) :
    Moves B a start p p' sent sent ld' := by
  unfold step at hs
  rw [hpc] at hs
  dsimp only at hs
  rw [if_neg (by rw [hload]; simp)] at hs
  -- the steps of a pass behind the program
  have hpass {ld₂ : ProgramLoader} (hl : ld₂.loaded = true) (hidx : ld₂.loadIdx = ld.loadIdx)
      (hseed : ∀ c : Fin B.numCus, ((ld₂.regsDone = true ∨ (c : ℕ) < ld₂.seedC) ↔
        (ld.regsDone = true ∨ (c : ℕ) < ld.seedC)))
      (htoken : ld₂.pc = .token → ld₂.regsDone = false ∧ ld₂.seedSlot = 0 ∧ ld₂.seedI = 0)
      (hfin : ld.Finished B → ld₂.Finished B) : Stage B a start p.stores sent ld₂ := by
    obtain ⟨hsent, -, -, hstores, hloaded⟩ | ⟨-, rfl⟩ | ⟨hf, hsent⟩ := h
    · refine .pass (fun c => ?_) (fun hnot => absurd (hnot.symm.trans hl) (by simp))
        (fun ht => ⟨hl, htoken ht⟩) (fun c => ?_) fun _ => ?_
      · rw [hsent, hload, hl, hseed]
      · rw [hidx]
        exact hstores c
      · rw [hidx]
        exact hloaded hload
    · exact absurd hpc (by simp)
    · exact .stale (hfin hf) hsent
  split at hs
  · next hregs =>
    split at hs
    · next hlt =>
      -- a finished loader does not get here
      have hadv : Stage B a start p.stores sent (ld.advance B) := by
        refine hpass (by simpa using hload) (by simp) (fun c => by simp)
          (fun ht => ⟨by simpa using hregs, advance_token ht⟩) fun hfin => ?_
        obtain hr | hr := hfin.2.2
        · exact absurd (hregs.symm.trans hr) (by simp)
        · omega
      split at hs
      · obtain ⟨rfl, rfl, -⟩ : _ ∧ _ ∧ _ := by simpa using hs
        exact .of_stage hadv rfl fun _ _ => rfl
      · obtain ⟨queue, -, heq⟩ := Option.map_eq_some_iff.1 hs
        obtain ⟨rfl, rfl, -⟩ : _ ∧ _ ∧ _ := by simpa using heq
        exact .of_stage hadv rfl fun _ _ => rfl
    · next hge =>
      obtain ⟨rfl, rfl, -⟩ : _ ∧ _ ∧ _ := by simpa using hs
      refine .of_stage (hpass hload rfl (fun c => ?_) (by simp) fun _ => ⟨by simp, hload, .inl rfl⟩)
        rfl fun _ _ => rfl
      have hc := c.isLt
      simp only [true_or, true_iff]
      exact .inr (by omega)
  · next hregs =>
    obtain ⟨rfl, rfl, -⟩ : _ ∧ _ ∧ _ := by simpa using hs
    exact .of_stage (hpass hload rfl (fun c => Iff.rfl) (by simp) fun hf => ⟨by simp, hf.2⟩) rfl
      fun _ _ => rfl

/-- The write of a token. -/
theorem Stage.tokenStep (h : Stage B a start p.stores sent ld) (hpc : ld.pc = .token)
    (hs : ld.step B a start p = some (ld', p', ev)) :
    ∃ sent', Moves B a start p p' sent sent' ld' := by
  unfold step at hs
  rw [hpc] at hs
  dsimp only at hs
  split at hs
  · next hlt =>
    split at hs
    · obtain ⟨rfl, rfl, -⟩ : _ ∧ _ ∧ _ := by simpa using hs
      obtain ⟨hsent, -, htoken, hstores, hloaded⟩ | ⟨-, rfl⟩ | ⟨hf, -⟩ := h
      · obtain ⟨hload, hregs, hslot, hi⟩ := htoken hpc
        set c₀ : Fin B.numCus := ⟨ld.seedC, hlt⟩ with hc₀
        have hold : sent c₀ = false := by
          rw [← Bool.not_eq_true, hsent, hregs]
          simp [hc₀]
        refine ⟨Function.update sent c₀ true, .pass (fun c => ?_)
          (fun hnot => absurd (hnot.symm.trans hload) (by simp)) (by simp) hstores hloaded,
          fun c => ?_, fun c hc => ?_, fun _ _ => rfl,
          fun c _ _ => (hstores c).of_le (hloaded hload)⟩
        · by_cases hc : c = c₀
          · subst hc
            simp [hload, hc₀]
          · have hne : (c : ℕ) ≠ ld.seedC := fun heq => hc (Fin.ext heq)
            rw [Function.update_of_ne hc, hsent, hload, hregs]
            dsimp only
            constructor
            · rintro ⟨-, hr | hr⟩
              · exact absurd hr (by simp)
              · exact ⟨rfl, .inr (by omega)⟩
            · rintro ⟨-, hr | hr⟩
              · exact absurd hr (by simp)
              · exact ⟨rfl, .inr (by omega)⟩
        · by_cases hc : c = c₀
          · subst hc
            simp [hold]
          · simp [hc]
        · by_cases hc' : c = c₀
          · subst hc'
            simp
          · simpa [hc'] using hc
      · exact absurd hpc (by simp)
      · exact absurd hpc hf.1
    · exact absurd hs (by simp)
  · exact absurd hs (by simp)

/-- Every step of the loader. -/
theorem Stage.step (h : Stage B a start p.stores sent ld)
    (hs : ld.step B a start p = some (ld', p', ev)) :
    ∃ sent', Moves B a start p p' sent sent' ld' := by
  cases hpc : ld.pc with
  | head => exact ⟨sent, h.head hpc hs⟩
  | work =>
    by_cases hload : ld.loaded = true
    · exact ⟨sent, h.seedStep hpc hload hs⟩
    · exact ⟨sent, h.loadStep hpc (by simpa using hload) hs⟩
  | token => exact h.tokenStep hpc hs

end ProgramLoader

end RiscvGpgpu.Hls
