import RiscvGpgpu.Hls.Pulses
import RiscvGpgpu.Hls.SeedStreams

/-!
# Loading, launch after launch

What a warp finds when it begins, over any sequence of launches. `programLoader` loads a launch that
`schedulerCore` rejects, gives up when `start` drops, and knows of a drop only if it looks at the
right time; `compute_pipeline` tests its two streams one after the other. `loadingCorrect` names the
steps under which the program and the registers are still those of the launch.
-/

namespace RiscvGpgpu.Hls

open Launch

/-- What an event of a launch must find behind the earlier events of the launch: a fresh warp the
program and its 1024 register words, a seed no warp that has begun. -/
def EventRight (a : LaunchArgs) (pre : List FlatEvent) : FlatEvent → Prop
  | .began c d program regs => d.freshLaunch = true →
      HoldsTo a maxProgramLen program ∧
      (∀ i < 1024, FlatEvent.seedApplied c
        ⟨d.slotId, BitVec.ofNat 10 i, a.initialRegs (d.warpId.toNat * 1024 + i)⟩ ∈ pre) ∧
      ∀ (lane : Lane) (r : Reg),
        regs lane r = a.initialRegs (d.warpId.toNat * 1024 + (lane * 32 + r.toNat))
  | .seedApplied c seed => ∀ d program regs, FlatEvent.began c d program regs ∈ pre →
      d.slotId ≠ seed.slotId
  | _ => True

def EventsRight (a : LaunchArgs) (ev : List FlatEvent) : Prop :=
  ∀ pre e post, ev = pre ++ e :: post → EventRight a pre e

/-- Every warp begins with its program and its registers, and no token and no seed of a launch is
left for the next one. -/
structure LoadingCorrect (B : Build) (tr : List FlatEvent) : Prop where
  events : ∀ p ∈ pulses tr, EventsRight p.args p.events
  current : ∀ p ∈ pulses tr, ∀ c : Fin B.numCus,
    seedsApplied c p.events <+: seedsSent c p.events ∧
      tokensTaken c p.events ≤ tokensSent c p.events
  drained : ∀ p ∈ (pulses tr).tail, ∀ c : Fin B.numCus,
    seedsApplied c p.events = seedsSent c p.events ∧
      tokensTaken c p.events = tokensSent c p.events

/-- A host that drops `start` at any time after it has seen `busy` or `fault`. -/
def loadingHost : HostProtocol where
  mayDrop h := h.sawBusy || h.sawFault
  mayRaise _ := true

/-- The dispatch that the next step of a pipeline begins. -/
def Top.takes {B : Build} (s : Top B) (c : Fin B.numCus) : Option WarpDispatch :=
  match (s.cus c).pipeline, s.polled c, (s.cus c).dispatch with
  | .idle, true, d :: _ => some d
  | _, _, _ => none

/-- The loader is at its reset state, or done. -/
def ProgramLoader.Ready (B : Build) (ld : ProgramLoader) : Prop :=
  ld = {} ∨ ld = { pc := .work } ∨ ld.Finished B

instance (B : Build) (ld : ProgramLoader) : Decidable (ld.Ready B) :=
  inferInstanceAs (Decidable (_ ∨ _ ∨ _))

/-- `start` rises behind the end of the launch before, when the loader knows of it; it drops before
the loader seeds, or when the CUs of an accepted launch have taken their tokens; and no seed for the
slot of a dispatch comes between the two tests of the pipeline. -/
def LoadStep {B : Build} (s : Top B) : TopAction B.numCus → Prop
  | .raise _ => s.core.busy = false ∧ s.loader.Ready B
  | .drop => s.loader.loaded = false ∨
      (s.loader.Finished B ∧ (∀ c, (s.cus c).loaded = 0) ∧ s.host.sawBusy = true)
  | .pipeline c => ∀ d ∈ s.takes c, ∀ seed ∈ s.seeds c, seed.slotId ≠ d.slotId
  | _ => True

instance {B : Build} (s : Top B) (a : TopAction B.numCus) : Decidable (LoadStep s a) :=
  match a with
  | .raise _ => inferInstanceAs (Decidable (_ ∧ _))
  | .drop => inferInstanceAs (Decidable (_ ∨ (_ ∧ _ ∧ _)))
  | .pipeline c => inferInstanceAs (Decidable (∀ d ∈ s.takes c, ∀ seed ∈ s.seeds c, _))
  | .sample | .loader | .scheduler _ | .barrier | .arbiter | .memory =>
    inferInstanceAs (Decidable True)

/-! ## Events -/

section Events

variable {a : LaunchArgs} {ev ev' : List FlatEvent}

theorem EventsRight.nil : EventsRight a [] := by
  rintro pre e post h
  exact absurd h (by simp)

theorem EventsRight.append (h : EventsRight a ev) {e : FlatEvent} (he : EventRight a ev e) :
    EventsRight a (ev ++ [e]) := by
  rintro pre x post heq
  obtain ⟨rfl, rfl⟩ | ⟨post', rfl⟩ := List.append_singleton_split heq
  · exact he
  · exact h pre x post' rfl

/-- Events about which nothing is asked. -/
theorem EventsRight.append_free (h : EventsRight a ev)
    (hfree : ∀ e ∈ ev', ∀ pre, EventRight a pre e) : EventsRight a (ev ++ ev') := by
  induction ev' using List.reverseRecOn with
  | nil => rwa [List.append_nil]
  | append_singleton ev' e ih =>
    rw [← List.append_assoc]
    exact (ih fun x hx => hfree x (List.mem_append_left _ hx)).append
      (hfree e (List.mem_append_right _ (List.mem_singleton_self _)) _)

end Events

/-! ## The loader -/

namespace ProgramLoader

variable {B : Build} {a : LaunchArgs} {start : Bool} {ld ld' : ProgramLoader}
  {p p' : Ports B.numCus} {ev : List FlatEvent}

/-- A step of the loader writes at most one seed or one token. -/
inductive Writes (B : Build) (a : LaunchArgs) (ld ld' : ProgramLoader) (p p' : Ports B.numCus) :
    List FlatEvent → Prop where
  | nothing (hs : p'.seeds = p.seeds) (hl : p'.loaded = p.loaded) : Writes B a ld ld' p p' []
  | seed {c : Fin B.numCus} {seed : RegSeed} (hpc : ld.pc = .work) (hload : ld.loaded = true)
      (hregs : ld.regsDone = false) (hc : ld.seedC = c)
      (hseed : seedOf B a c ld.seedSlot ld.seedI = some seed)
      (hs : p'.seeds = Function.update p.seeds c (p.seeds c ++ [seed]))
      (hl : p'.loaded = p.loaded) :
      Writes B a ld ld' p p' [.seedSent c seed]
  | token {c : Fin B.numCus} (hpc : ld.pc = .token) (hc : ld.seedC = c) (hs : p'.seeds = p.seeds)
      (hl : p'.loaded = Function.update p.loaded c (p.loaded c + 1)) :
      Writes B a ld ld' p p' [.tokenSent c]

theorem step_writes (hs : ld.step B a start p = some (ld', p', ev)) :
    Writes B a ld ld' p p' ev := by
  cases step_turns hs with
  | store => exact .nothing (by split <;> rfl) (by split <;> rfl)
  | seed hpc hload hregs hc hseed => exact .seed hpc hload hregs hc hseed rfl rfl
  | token hpc hc => exact .token hpc hc rfl rfl
  | enter | reset | stored | skip | seeded | rest => exact .nothing rfl rfl

/-- The counters of the loader. -/
structure Bounded (B : Build) (ld : ProgramLoader) : Prop where
  seedI : ld.seedI < 1024
  seedSlot : ld.seedSlot < 16

theorem Bounded.step (h : ld.Bounded B) (hs : ld.step B a start p = some (ld', p', ev)) :
    ld'.Bounded B := by
  have hM := B.maxWarpsPerCu_lt
  have hadv : (ld.advance B).Bounded B := by
    unfold advance
    split_ifs with h1 h2
    · exact ⟨by simpa using h1, h.seedSlot⟩
    · exact ⟨by simp, by simp; omega⟩
    · exact ⟨by simp, by simp⟩
  cases step_turns hs with
  | skip => exact hadv
  | seed => exact hadv
  | reset => exact ⟨by simp, by simp⟩
  | seeded => exact ⟨by simp, by simp⟩
  | enter | store | stored | rest | token => exact ⟨h.seedI, h.seedSlot⟩

/-- The iteration for a register word is behind the loader, and the token of its CU is not. -/
def Behind (ld : ProgramLoader) (c slot i : ℕ) : Prop :=
  ld.loaded = true ∧ ld.regsDone = false ∧ ld.seedC = c ∧
    (ld.pc = .token ∨ slot < ld.seedSlot ∨ slot = ld.seedSlot ∧ i < ld.seedI)

theorem behind_advance {c slot i : ℕ} (hb : ld.Bounded B) (hi : i < 1024)
    (hslot : slot < B.maxWarpsPerCu) (h : (ld.advance B).Behind c slot i) :
    ld.Behind c slot i ∨ (slot = ld.seedSlot ∧ i = ld.seedI) := by
  obtain ⟨h1, h2, h3, h4⟩ := h
  rw [advance_loaded] at h1
  rw [advance_regsDone] at h2
  rw [advance_seedC] at h3
  have hb := hb.seedI
  suffices hpos : slot < ld.seedSlot ∨ slot = ld.seedSlot ∧ i ≤ ld.seedI by
    obtain hlt | ⟨heq, hle⟩ := hpos
    · exact .inl ⟨h1, h2, h3, .inr (.inl hlt)⟩
    · obtain hlt | heq' := lt_or_eq_of_le hle
      · exact .inl ⟨h1, h2, h3, .inr (.inr ⟨heq, hlt⟩)⟩
      · exact .inr ⟨heq, heq'⟩
  unfold advance at h4
  split_ifs at h4 with hI hS
  · simp only [false_or] at h4
    omega
  · simp only [false_or] at h4
    omega
  · omega

/-- What a step puts behind the loader is the iteration at hand. -/
theorem Stage.behind_step {sent : Fin B.numCus → Bool} (h : Stage B a start p.stores sent ld)
    (hb : ld.Bounded B) (hs : ld.step B a start p = some (ld', p', ev)) {c slot i : ℕ}
    (hi : i < 1024) (hslot : slot < B.maxWarpsPerCu) (hbehind : ld'.Behind c slot i) :
    ld.Behind c slot i ∨ (ld.seedC = c ∧ slot = ld.seedSlot ∧ i = ld.seedI ∧
      ∀ seed, seedOf B a c slot i = some seed → ev = [.seedSent c seed]) := by
  obtain ⟨h1, h2, h3, h4⟩ := hbehind
  cases step_turns hs with
  | enter => exact .inl ⟨h1, h2, h3, .inr (by simpa using h4)⟩
  | reset => exact absurd h1 (by simp)
  | store _ hload => exact absurd (hload.symm.trans h1) (by simp)
  | stored hpc hload =>
    -- the loader begins to seed
    have hunseeded : ld.Unseeded := by
      obtain ⟨-, hun, -⟩ | ⟨-, rfl⟩ | ⟨hfin, -⟩ := h
      · exact hun hload
      · exact absurd hpc (by simp)
      · exact absurd (hload.symm.trans hfin.2.1) (by simp)
    simp [hunseeded.seedSlot, hunseeded.seedI] at h4
  | skip _ _ _ hc hnone =>
    obtain hold | ⟨rfl, rfl⟩ := behind_advance hb hi hslot ⟨h1, h2, h3, h4⟩
    · exact .inl hold
    · rw [advance_seedC] at h3
      refine .inr ⟨h3, rfl, rfl, fun seed hseed => ?_⟩
      rw [← h3, hc, hnone] at hseed
      exact absurd hseed (by simp)
  | seed _ _ _ hc hsome =>
    obtain hold | ⟨rfl, rfl⟩ := behind_advance hb hi hslot ⟨h1, h2, h3, h4⟩
    · exact .inl hold
    · rw [advance_seedC] at h3
      refine .inr ⟨h3, rfl, rfl, fun seed hseed => ?_⟩
      rw [← h3, hc, hsome] at hseed
      rw [Option.some.inj hseed, ← hc, h3]
  | seeded => exact absurd h2 (by simp)
  | rest _ _ hregs => exact absurd (hregs.symm.trans h2) (by simp)
  | token hpc =>
    have hzero : ld.seedSlot = 0 ∧ ld.seedI = 0 := by
      obtain ⟨-, -, htoken, -⟩ | ⟨-, rfl⟩ | ⟨hfin, -⟩ := h
      · exact (htoken hpc).2.2
      · exact absurd hpc (by simp)
      · exact absurd hpc hfin.1
    simp [hzero.1, hzero.2] at h4

end ProgramLoader

/-! ## The seeds of a launch -/

/-- What the events `ev` of the launch say about seeds and tokens. -/
structure SeedInv {B : Build} (s : Top B) (ev : List FlatEvent) (taken sent : Fin B.numCus → Bool) :
    Prop where
  cus : ∀ c, CuSeeds B s.args c (taken c) (s.cus c) (s.seeds c) ev
  bounded : s.loader.Bounded B
  part : ∀ (c : Fin B.numCus) slot, ∀ i < 1024, s.loader.Behind c slot.toNat i →
    (B.plain s.args).Resident c slot → seedAt B s.args c slot i ∈ seedsSent c ev
  full : ∀ c, sent c = true → ∀ slot, ∀ i < 1024, (B.plain s.args).Resident c slot →
    seedAt B s.args c slot i ∈ seedsSent c ev
  unsent : ∀ c, sent c = false → seedsSent c ev = [] ∨
    (s.loader.loaded = true ∧ s.loader.regsDone = false ∧ s.loader.seedC = c)
  tokensTaken : ∀ c, tokensTaken c ev = (taken c).toNat
  tokensSent : ∀ c, tokensSent c ev = (sent c).toNat
  events : EventsRight s.args ev

section SeedInv

variable {B : Build} {s : Top B} {tr : List Event} {ev e : List FlatEvent}
  {taken sent sent' : Fin B.numCus → Bool} {seen : Fin B.numCus → ℕ} {ld : ProgramLoader}
  {p : ProgramLoader.Ports B.numCus}

/-- The loader leaves the CU it is at behind only with its token, or at a reset. -/
theorem ProgramLoader.seeding_step {a : LaunchArgs} {start : Bool} {ld ld' : ProgramLoader}
    {p p' : Ports B.numCus} (hs : ld.step B a start p = some (ld', p', e)) {c : Fin B.numCus}
    (h : ld.loaded = true ∧ ld.regsDone = false ∧ ld.seedC = c) :
    (ld'.loaded = true ∧ ld'.regsDone = false ∧ ld'.seedC = c) ∨
      (ld.pc = .head ∧ start = false) ∨ ld.pc = .token := by
  cases ProgramLoader.step_turns hs with
  | enter => exact .inl h
  | reset hpc hstart => exact .inr (.inl ⟨hpc, hstart⟩)
  | store _ hload | stored _ hload => exact absurd (hload.symm.trans h.1) (by simp)
  | skip | seed => exact .inl ⟨by simpa using h.1, by simpa using h.2.1, by simpa using h.2.2⟩
  | seeded _ _ _ hge =>
    have hlt := c.isLt
    rw [← h.2.2] at hlt
    omega
  | rest _ _ hregs => exact absurd (hregs.symm.trans h.2.1) (by simp)
  | token hpc => exact .inr (.inr hpc)

theorem eq_of_toNat {b b' : Bool} (h : b.toNat = b'.toNat) : b = b' := by
  cases b <;> cases b' <;> first | rfl | exact absurd h (by decide)

theorem Progress.tokens_loader (hp : Progress s tr taken sent seen)
    (hp' : Progress (s.withLoader ld p) tr taken sent' seen) (c : Fin B.numCus) :
    p.loaded c + (sent c).toNat = (s.cus c).loaded + (sent' c).toNat := by
  have h1 := hp.tokens c
  have h2 : p.loaded c + (taken c).toNat = (sent' c).toNat := hp'.tokens c
  omega

theorem Progress.sent_loader (hp : Progress s tr taken sent seen)
    (hp' : Progress (s.withLoader ld p) tr taken sent' seen)
    (hl : p.loaded = s.loaderPorts.loaded) : sent' = sent := by
  funext c
  have htokens := hp.tokens_loader hp' c
  rw [hl] at htokens
  have heq : (sent c).toNat = (sent' c).toNat := Nat.add_left_cancel htokens
  exact (eq_of_toNat heq).symm

/-- What the loader has behind it after a step has been sent. -/
theorem SeedInv.part_loader (h : SeedInv s ev taken sent) (hp : Progress s tr taken sent seen)
    (hs : s.loader.step B s.args s.start s.loaderPorts = some (ld, p, e)) (c : Fin B.numCus)
    (slot : SlotId) (i : ℕ) (hi : i < 1024) (hbehind : ld.Behind c slot.toNat i)
    (hres : (B.plain s.args).Resident c slot) :
    seedAt B s.args c slot i ∈ seedsSent c (ev ++ e) := by
  rw [seedsSent_append]
  obtain hold | ⟨-, -, -, hseed⟩ := hp.loader.behind_step (p := s.loaderPorts) h.bounded hs hi
    hres.1 hbehind
  · exact List.mem_append_left _ (h.part c slot i hi hold hres)
  · have hsome := seedOf_eq (B := B) (a := s.args) (i := i) slot.isLt c
    rw [BitVec.ofNat_toNat, BitVec.setWidth_eq, if_pos hres.2] at hsome
    rw [hseed _ hsome]
    exact List.mem_append_right _ (by simp [seedsSent, FlatEvent.seedSentTo])

/-- A CU without its token has no seeds, unless the loader is at it. -/
theorem SeedInv.unsent_loader (h : SeedInv s ev taken sent)
    (hlow : s.start = false → ∀ c, sent c = false → seedsSent c ev = [])
    (hs : s.loader.step B s.args s.start s.loaderPorts = some (ld, p, e)) {c : Fin B.numCus}
    (hpc : s.loader.pc ≠ .token) (hc : sent c = false) :
    seedsSent c ev = [] ∨ (ld.loaded = true ∧ ld.regsDone = false ∧ ld.seedC = c) := by
  obtain hnil | hseeding := h.unsent c hc
  · exact .inl hnil
  · obtain hkeep | ⟨-, hstart⟩ | hpc' := ProgramLoader.seeding_step hs hseeding
    · exact .inr hkeep
    · exact .inl (hlow hstart c hc)
    · exact absurd hpc' hpc

/-- Without a token to write the loader is not at the write of one. -/
theorem ProgramLoader.step_quiet {a : LaunchArgs} {start : Bool} {ld ld' : ProgramLoader}
    {p p' : Ports B.numCus} (hs : ld.step B a start p = some (ld', p', [])) : ld.pc ≠ .token := by
  cases ProgramLoader.step_turns hs with
  | enter hpc | reset hpc | store hpc | stored hpc | skip hpc | seeded hpc | rest hpc => simp [hpc]

theorem SeedInv.loader_nothing (h : SeedInv s ev taken sent) (hp : Progress s tr taken sent seen)
    (hlow : s.start = false → ∀ c, sent c = false → seedsSent c ev = [])
    (hs : s.loader.step B s.args s.start s.loaderPorts = some (ld, p, []))
    (hseeds : p.seeds = s.loaderPorts.seeds) : SeedInv (s.withLoader ld p) ev taken sent := by
  have hpart := h.part_loader hp hs
  rw [List.append_nil] at hpart
  refine ⟨fun c => ?_, h.bounded.step hs, hpart, h.full,
    fun c hc => h.unsent_loader hlow hs (ProgramLoader.step_quiet hs) hc, h.tokensTaken,
    h.tokensSent, h.events⟩
  have := (h.cus c).setLoaded (p.loaded c)
  simpa [Top.withLoader, hseeds, Top.loaderPorts] using this

/-- The CU that the loader is at has no token yet. -/
theorem Progress.seeding (hp : Progress s tr taken sent seen) {c : Fin B.numCus}
    (hpc : s.loader.pc = .work) (hregs : s.loader.regsDone = false) (hc : s.loader.seedC = c) :
    sent c = false ∧ taken c = false := by
  have hsent : sent c = false := by
    obtain ⟨hsent, -⟩ | ⟨-, hld⟩ | ⟨-, hsent⟩ := hp.loader
    · rw [← Bool.not_eq_true, hsent, hregs, hc]
      simp
    · rw [hld] at hpc
      exact absurd hpc (by simp)
    · exact hsent c
  have htokens := hp.tokens c
  rw [hsent] at htokens
  refine ⟨hsent, ?_⟩
  cases ht : taken c with
  | false => rfl
  | true =>
    rw [ht] at htokens
    simp at htokens

theorem SeedInv.loader_seed (h : SeedInv s ev taken sent) (hp : Progress s tr taken sent seen)
    (hlow : s.start = false → ∀ c, sent c = false → seedsSent c ev = []) {c : Fin B.numCus}
    {seed : RegSeed}
    (hs : s.loader.step B s.args s.start s.loaderPorts = some (ld, p, [.seedSent c seed]))
    (hpc : s.loader.pc = .work) (hload : s.loader.loaded = true)
    (hregs : s.loader.regsDone = false) (hc : s.loader.seedC = c)
    (hseed : ProgramLoader.seedOf B s.args c s.loader.seedSlot s.loader.seedI = some seed)
    (hseeds : p.seeds = Function.update s.loaderPorts.seeds c (s.loaderPorts.seeds c ++ [seed])) :
    SeedInv (s.withLoader ld p) (ev ++ [.seedSent c seed]) taken sent := by
  have hnot : sent c = false ∧ taken c = false := hp.seeding hpc hregs hc
  have hisSeed : IsSeed B s.args c seed := by
    rw [seedOf_eq h.bounded.seedSlot c] at hseed
    split at hseed
    · next hlt =>
      rw [← Option.some.inj hseed]
      exact isSeed_seedAt hlt h.bounded.seedI
    · exact absurd hseed (by simp)
  refine ⟨fun c' => ?_, h.bounded.step hs, h.part_loader hp hs, fun c' hc' slot i hi hres => ?_,
    fun c' hc' => ?_, fun c' => ?_, fun c' => ?_, h.events.append trivial⟩
  · by_cases hcc : c' = c
    · rw [hcc, hnot.2]
      have := ((h.cus c).send hisSeed hnot.2).setLoaded (p.loaded c)
      rw [hnot.2] at this
      simpa [Top.withLoader, hseeds, Top.loaderPorts] using this
    · have hne : ¬ (c : ℕ) = c' := fun heq => hcc (Fin.ext heq.symm)
      have hother : Unseeding c' [.seedSent c seed] :=
        ⟨by simp [seedsSent, FlatEvent.seedSentTo, hne],
          by simp [seedsApplied, FlatEvent.seedAppliedAt],
          by simp [begunSlots, FlatEvent.beganSlot]⟩
      have := ((h.cus c').append hother).setLoaded (p.loaded c')
      simpa [Top.withLoader, hseeds, Top.loaderPorts, hcc] using this
  · rw [seedsSent_append]
    exact List.mem_append_left _ (h.full c' hc' slot i hi hres)
  · obtain hnil | hseeding := h.unsent_loader hlow hs (by simp [hpc]) hc'
    · by_cases hcc : c' = c
      · refine .inr ?_
        obtain hkeep | ⟨hpc', -⟩ | hpc' := ProgramLoader.seeding_step hs ⟨hload, hregs, hc⟩
        · rw [hcc]
          exact hkeep
        · exact absurd (hpc.symm.trans hpc') (by simp)
        · exact absurd (hpc.symm.trans hpc') (by simp)
      · have hne : ¬ (c : ℕ) = c' := fun heq => hcc (Fin.ext heq.symm)
        refine .inl ?_
        rw [seedsSent_append, hnil]
        simp [seedsSent, FlatEvent.seedSentTo, hne]
    · exact .inr hseeding
  · rw [tokensTaken_append, h.tokensTaken]
    rfl
  · rw [tokensSent_append, h.tokensSent]
    rfl

/-- A token counts for the CU it is sent to. -/
theorem Progress.sent_token (hp : Progress s tr taken sent seen)
    (hp' : Progress (s.withLoader ld p) tr taken sent' seen) {c : Fin B.numCus}
    (hl : p.loaded =
      Function.update s.loaderPorts.loaded c (s.loaderPorts.loaded c + 1)) (c' : Fin B.numCus) :
    (sent' c').toNat = (sent c').toNat + if (c : ℕ) = c' then 1 else 0 := by
  have htokens := hp.tokens_loader hp' c'
  rw [hl] at htokens
  by_cases hcc : c' = c
  · subst hcc
    simp only [Top.loaderPorts, Function.update_self] at htokens
    simp
    omega
  · have hne : ¬ (c : ℕ) = c' := fun heq => hcc (Fin.ext heq.symm)
    simp only [Top.loaderPorts, Function.update_of_ne hcc] at htokens
    simp only [hne, if_false]
    omega

theorem SeedInv.loader_token (h : SeedInv s ev taken sent) (hp : Progress s tr taken sent seen)
    (hp' : Progress (s.withLoader ld p) tr taken sent' seen) {c : Fin B.numCus}
    (hs : s.loader.step B s.args s.start s.loaderPorts = some (ld, p, [.tokenSent c]))
    (hpc : s.loader.pc = .token) (hc : s.loader.seedC = c)
    (hseeds : p.seeds = s.loaderPorts.seeds)
    (hl : p.loaded = Function.update s.loaderPorts.loaded c (s.loaderPorts.loaded c + 1)) :
    SeedInv (s.withLoader ld p) (ev ++ [.tokenSent c]) taken sent' := by
  have hstage : s.loader.loaded = true ∧ s.loader.regsDone = false := by
    obtain ⟨-, -, htoken, -⟩ | ⟨-, hld⟩ | ⟨hfin, -⟩ := hp.loader
    · exact ⟨(htoken hpc).1, (htoken hpc).2.1⟩
    · rw [hld] at hpc
      exact absurd hpc (by simp)
    · exact absurd hpc hfin.1
  have hcount (c' : Fin B.numCus) : Hls.tokensSent c' [FlatEvent.tokenSent c] =
      if (c : ℕ) = c' then 1 else 0 := by
    by_cases hcc : (c : ℕ) = c' <;> simp [Hls.tokensSent, FlatEvent.isTokenSent, hcc]
  have hsent := hp.sent_token hp' hl
  have hnosend (c' : Fin B.numCus) : seedsSent c' (ev ++ [.tokenSent c]) = seedsSent c' ev := by
    rw [seedsSent_append]
    simp [seedsSent, FlatEvent.seedSentTo]
  refine ⟨fun c' => ?_, h.bounded.step hs, h.part_loader hp hs, fun c' hc' slot i hi hres => ?_,
    fun c' hc' => ?_, fun c' => ?_, fun c' => ?_, h.events.append trivial⟩
  · have htoken : Unseeding c' [.tokenSent c] :=
      ⟨by simp [seedsSent, FlatEvent.seedSentTo], by simp [seedsApplied, FlatEvent.seedAppliedAt],
        by simp [begunSlots, FlatEvent.beganSlot]⟩
    have := ((h.cus c').append htoken).setLoaded (p.loaded c')
    simpa [Top.withLoader, hseeds, Top.loaderPorts] using this
  · rw [hnosend]
    by_cases hcc : c' = c
    · subst hcc
      exact h.part c' slot i hi ⟨hstage.1, hstage.2, hc, .inl hpc⟩ hres
    · have hne : ¬ (c : ℕ) = c' := fun heq => hcc (Fin.ext heq.symm)
      refine h.full c' ?_ slot i hi hres
      have := hsent c'
      rw [if_neg hne, hc', Nat.add_zero] at this
      exact (eq_of_toNat this).symm
  · rw [hnosend]
    have hcc : (c : ℕ) ≠ c' := by
      intro hcc
      have := hsent c'
      rw [if_pos hcc, hc'] at this
      simp at this
    have hold : sent c' = false := by
      have := hsent c'
      rw [if_neg hcc, hc', Nat.add_zero] at this
      exact (eq_of_toNat this).symm
    obtain hnil | ⟨-, -, hc''⟩ := h.unsent c' hold
    · exact .inl hnil
    · exact absurd (hc.symm.trans hc'') hcc
  · rw [tokensTaken_append, h.tokensTaken]
    rfl
  · rw [tokensSent_append, h.tokensSent, hcount, hsent]

theorem SeedInv.loader (h : SeedInv s ev taken sent) (hp : Progress s tr taken sent seen)
    (hp' : Progress (s.withLoader ld p) tr taken sent' seen)
    (hlow : s.start = false → ∀ c, sent c = false → seedsSent c ev = [])
    (hs : s.loader.step B s.args s.start s.loaderPorts = some (ld, p, e)) :
    SeedInv (s.withLoader ld p) (ev ++ e) taken sent' := by
  cases ProgramLoader.step_writes hs with
  | nothing hseeds hl =>
    rw [hp.sent_loader hp' hl, List.append_nil]
    exact h.loader_nothing hp hlow hs hseeds
  | seed hpc hload hregs hc hseed hseeds hl =>
    rw [hp.sent_loader hp' hl]
    exact h.loader_seed hp hlow hs hpc hload hregs hc hseed hseeds
  | token hpc hc hseeds hl => exact h.loader_token hp hp' hs hpc hc hseeds hl

theorem free_warp {a : LaunchArgs} (e : List Event) :
    ∀ x ∈ e.map FlatEvent.warp, ∀ pre, EventRight a pre x := fun x hx pre => by
  obtain ⟨e', -, rfl⟩ := List.mem_map.1 hx
  trivial

theorem free_mem {a : LaunchArgs} (e : List MemEvent) :
    ∀ x ∈ e.map FlatEvent.mem, ∀ pre, EventRight a pre x := fun x hx pre => by
  obtain ⟨e', -, rfl⟩ := List.mem_map.1 hx
  trivial

/-- One CU changes. -/
theorem SeedInv.setCu {s' : Top B} {c : Fin B.numCus} {t : Bool} (h : SeedInv s ev taken sent)
    (hargs : s'.args = s.args) (hloader : s'.loader = s.loader)
    (hcus : ∀ c', c' ≠ c → s'.cus c' = s.cus c' ∧ s'.seeds c' = s.seeds c')
    (hcu : CuSeeds B s.args c t (s'.cus c) (s'.seeds c) (ev ++ e))
    (hfree : ∀ c', c' ≠ c → Unloading c' e) (hsent : seedsSent c e = [] ∧ Hls.tokensSent c e = 0)
    (htaken : Hls.tokensTaken c e + (taken c).toNat = t.toNat)
    (hevents : EventsRight s.args (ev ++ e)) :
    SeedInv s' (ev ++ e) (Function.update taken c t) sent := by
  have hnosend (c' : Fin B.numCus) : seedsSent c' (ev ++ e) = seedsSent c' ev := by
    rw [seedsSent_append]
    by_cases hc : c' = c
    · rw [hc, hsent.1, List.append_nil]
    · rw [(hfree c' hc).sent, List.append_nil]
  refine ⟨fun c' => ?_, by rw [hloader]; exact h.bounded, fun c' slot i hi hbehind hres => ?_,
    fun c' hc slot i hi hres => ?_, fun c' hc => ?_, fun c' => ?_, fun c' => ?_, by rwa [hargs]⟩
  · rw [hargs]
    by_cases hc : c' = c
    · rw [hc, Function.update_self]
      exact hcu
    · rw [Function.update_of_ne hc, (hcus c' hc).1, (hcus c' hc).2]
      exact (h.cus c').append (hfree c' hc).toUnseeding
  · rw [hnosend, hargs]
    rw [hloader] at hbehind
    rw [hargs] at hres
    exact h.part c' slot i hi hbehind hres
  · rw [hnosend, hargs]
    rw [hargs] at hres
    exact h.full c' hc slot i hi hres
  · rw [hnosend, hloader]
    exact h.unsent c' hc
  · rw [tokensTaken_append, h.tokensTaken]
    by_cases hc : c' = c
    · rw [hc, Function.update_self]
      omega
    · rw [Function.update_of_ne hc, (hfree c' hc).tokensTaken, Nat.add_zero]
  · rw [tokensSent_append, h.tokensSent]
    by_cases hc : c' = c
    · rw [hc, hsent.2, Nat.add_zero]
    · rw [(hfree c' hc).tokensSent, Nat.add_zero]

/-- What `SeedInv` does not look at. -/
theorem SeedInv.congr {s' : Top B} (h : SeedInv s ev taken sent) (hargs : s'.args = s.args)
    (hloader : s'.loader = s.loader) (hseeds : s'.seeds = s.seeds)
    (hcus : ∀ c, (s'.cus c).regs = (s.cus c).regs ∧ (s'.cus c).pipeline = (s.cus c).pipeline ∧
      (s'.cus c).status = (s.cus c).status ∧ (s'.cus c).scheduler = (s.cus c).scheduler ∧
      (s'.cus c).dispatch = (s.cus c).dispatch)
    (hfree : ∀ c : Fin B.numCus, Unloading c e)
    (hevents : ∀ x ∈ e, ∀ pre, EventRight s.args pre x) :
    SeedInv s' (ev ++ e) taken sent := by
  have hnosend (c : Fin B.numCus) : seedsSent c (ev ++ e) = seedsSent c ev := by
    rw [seedsSent_append, (hfree c).sent, List.append_nil]
  refine ⟨fun c => ?_, by rw [hloader]; exact h.bounded, fun c slot i hi hbehind hres => ?_,
    fun c hc slot i hi hres => ?_, fun c hc => ?_, fun c => ?_, fun c => ?_,
    by rw [hargs]; exact h.events.append_free hevents⟩
  · rw [hargs, hseeds]
    obtain ⟨h1, h2, h3, h4, h5⟩ := hcus c
    exact ((h.cus c).append (hfree c).toUnseeding).congr h1 (by rw [h2]) h3 (by rw [h4]) h5
  · rw [hnosend, hargs]
    rw [hloader] at hbehind
    rw [hargs] at hres
    exact h.part c slot i hi hbehind hres
  · rw [hnosend, hargs]
    rw [hargs] at hres
    exact h.full c hc slot i hi hres
  · rw [hnosend, hloader]
    exact h.unsent c hc
  · rw [tokensTaken_append, h.tokensTaken, (hfree c).tokensTaken, Nat.add_zero]
  · rw [tokensSent_append, h.tokensSent, (hfree c).tokensSent, Nat.add_zero]

theorem SeedInv.scheduler {s' : Top B} {c : Fin B.numCus} (h : SeedInv s ev taken sent)
    (hp : Progress s tr taken sent seen) (hs : s.schedulerStep c = some (s', e)) :
    ∃ taken', Progress s' (tr ++ warpEvents e) taken' sent seen ∧
      SeedInv s' (ev ++ e) taken' sent := by
  obtain ⟨⟨cu, e'⟩, hstep, heq⟩ := Option.map_eq_some_iff.1 hs
  obtain ⟨rfl, rfl⟩ := Prod.mk.inj heq
  have hne (c' : Fin B.numCus) (hc : c' ≠ c) : ¬ (c : ℕ) = c' := fun h => hc (Fin.ext h.symm)
  have hcus {cu : Cu} (c' : Fin B.numCus) (hc : c' ≠ c) :
      (s.setCu c cu).cus c' = s.cus c' ∧ (s.setCu c cu).seeds c' = s.seeds c' :=
    ⟨by simp [Top.setCu, hc], rfl⟩
  obtain ⟨job, hjob⟩ := hp.cus c
  have hseeds := (h.cus c).scheduler hjob (fun hpos => (hp.token hpos).1) hstep
  dsimp only
  obtain ⟨hl, hp'⟩ | ⟨hl, rfl, hp'⟩ := hp.scheduler hstep
  · obtain ⟨-, hcu⟩ | ⟨hl', -⟩ := hseeds
    · rw [if_neg (by omega), List.nil_append, warpEvents_warp]
      refine ⟨taken, hp', ?_⟩
      have hset : SeedInv (s.setCu c cu) (ev ++ e'.map .warp)
          (Function.update taken c (taken c)) sent := h.setCu rfl rfl hcus
        (by simpa [Top.setCu] using hcu.append (Unloading.warp c e').toUnseeding)
        (fun c' _ => .warp c' e') ⟨(Unloading.warp c e').sent, (Unloading.warp c e').tokensSent⟩
        (by rw [(Unloading.warp c e').tokensTaken, Nat.zero_add])
        (h.events.append_free (free_warp e'))
      rwa [Function.update_eq_self] at hset
    · omega
  · obtain ⟨hl', -⟩ | ⟨-, hcu⟩ := hseeds
    · omega
    · rw [if_pos (by omega), List.map_nil, List.append_nil,
        show warpEvents [.tokenTaken c] = [] from rfl, List.append_nil]
      refine ⟨_, hp', h.setCu rfl rfl hcus ?_ (fun c' hc => ?_) ⟨rfl, rfl⟩ ?_
        (h.events.append trivial)⟩
      · have htoken : Unseeding c [.tokenTaken c] := ⟨rfl, rfl, rfl⟩
        simpa [Top.setCu] using hcu.append htoken
      · exact ⟨⟨rfl, rfl, rfl⟩, rfl, by simp [Hls.tokensTaken, FlatEvent.isTokenTaken, hne c' hc]⟩
      · have ht := (hp.token (c := c) (by omega)).1
        simp [Hls.tokensTaken, FlatEvent.isTokenTaken, ht]

/-- A fresh warp begins right. -/
theorem SeedInv.began_right {c : Fin B.numCus} {d : WarpDispatch} {rest : List WarpDispatch}
    (h : SeedInv s ev taken sent) (hp : Progress s tr taken sent seen)
    (hd : (s.cus c).dispatch = d :: rest)
    (hok : ∀ seed ∈ s.seeds c, seed.slotId ≠ d.slotId) :
    rest = [] ∧ taken c = true ∧
      EventRight s.args ev (.began c d (s.stores c) ((s.cus c).regs d.slotId)) := by
  obtain ⟨job, hjob⟩ := hp.cus c
  have hcu := h.cus c
  obtain ⟨rfl, hid, rfl⟩ : job = some d.slotId ∧ d.warpId = (B.plain s.args).warpIdOf c d.slotId ∧
      rest = [] := by
    cases hjob.flight with
    | nothing hd' => exact absurd (hd.symm.trans hd') (by simp)
    | queued hid hd' =>
      obtain ⟨rfl, hrest⟩ := List.cons.inj (hd.symm.trans hd')
      exact ⟨rfl, hid, hrest⟩
    | running _ hd' => exact absurd (hd.symm.trans hd') (by simp)
    | waiting _ hd' => exact absurd (hd.symm.trans hd') (by simp)
    | reported hd' => exact absurd (hd.symm.trans hd') (by simp)
  obtain ⟨ht, hres, -⟩ := hjob.jobReady _ rfl
  have hsent : sent c = true := by
    have := hp.tokens c
    rw [ht] at this
    cases hs : sent c with
    | true => rfl
    | false => rw [hs] at this; simp at this
  have happlied (i : ℕ) (hi : i < 1024) :
      seedAt B s.args c d.slotId i ∈ seedsApplied c ev := by
    have hmem := h.full c hsent d.slotId i hi hres
    rw [hcu.queue] at hmem
    obtain hmem | hmem := List.mem_append.1 hmem
    · exact hmem
    · exact absurd rfl (hok _ hmem)
  refine ⟨rfl, ht, fun hfresh => ⟨hp.holds c hsent, fun i hi => ?_, fun lane r => ?_⟩⟩
  · have := mem_of_seedsApplied c (happlied i hi)
    rwa [seedAt, ← hid] at this
  · have hlane := lane.isLt
    have hr := r.isLt
    have hword := hcu.regs _ (happlied (lane * 32 + r.toNat) (by omega))
      ((hcu.dispatch d (by rw [hd]; exact List.mem_cons_self)).2 hfresh)
    obtain ⟨h1, h2⟩ := seedAt_word (B := B) (a := s.args) (c := c) d.slotId lane r
    rw [h1, h2] at hword
    rw [hid]
    exact hword

theorem SeedInv.pipeline {s' : Top B} {c : Fin B.numCus} (h : SeedInv s ev taken sent)
    (hp : Progress s tr taken sent seen)
    (hok : ∀ d ∈ s.takes c, ∀ seed ∈ s.seeds c, seed.slotId ≠ d.slotId)
    (hs : s.pipelineStep c = some (s', e)) : SeedInv s' (ev ++ e) taken sent := by
  have hne (c' : Fin B.numCus) (hc : c' ≠ c) : ¬ (c : ℕ) = c' := fun h => hc (Fin.ext h.symm)
  have hset {s' : Top B} (hargs : s'.args = s.args) (hloader : s'.loader = s.loader)
      (hcus : ∀ c', c' ≠ c → s'.cus c' = s.cus c' ∧ s'.seeds c' = s.seeds c')
      (hcu : CuSeeds B s.args c (taken c) (s'.cus c) (s'.seeds c) (ev ++ e))
      (hfree : ∀ c', c' ≠ c → Unloading c' e)
      (hsent : seedsSent c e = [] ∧ Hls.tokensSent c e = 0 ∧ Hls.tokensTaken c e = 0)
      (hevents : EventsRight s.args (ev ++ e)) : SeedInv s' (ev ++ e) taken sent := by
    have := h.setCu hargs hloader hcus hcu hfree ⟨hsent.1, hsent.2.1⟩
      (by rw [hsent.2.2, Nat.zero_add]) hevents
    rwa [Function.update_eq_self] at this
  -- a pipeline that works on a warp, or has none
  have hwork {cu : Cu} {e₁ : List MemEvent} {e₂ : List Event}
      (hidle : (s.cus c).pipeline = .idle → (s.cus c).dispatch = [])
      (hstep : (s.cus c).pipelineStep (B.launch s.args (s.stores c)) c = some (cu, e₂))
      (he : e = e₁.map .mem ++ e₂.map .warp)
      (heq : s' = ({ s with polled := Function.update s.polled c false }).setCu c cu) :
      SeedInv s' (ev ++ e) taken sent := by
    have hfree (c' : Fin B.numCus) : Unloading c' e := by
      rw [he]
      exact (Unloading.mem c' e₁).append c' (Unloading.warp c' e₂)
    subst heq
    refine hset rfl rfl (fun c' hc => ⟨by simp [Top.setCu, hc], rfl⟩) ?_ (fun c' _ => hfree c')
      ⟨(hfree c).sent, (hfree c).tokensSent, (hfree c).tokensTaken⟩ ?_
    · simpa [Top.setCu] using ((h.cus c).work hidle hstep).append (hfree c).toUnseeding
    · rw [he, ← List.append_assoc]
      exact (h.events.append_free (free_mem e₁)).append_free (free_warp e₂)
  have hexec (hpoll : (s.cus c).pipeline = .idle → s.polled c = true)
      (hs : s.execStep c = some (s', e)) : SeedInv s' (ev ++ e) taken sent := by
    obtain ⟨⟨cu, e'⟩, hstep, heq⟩ := Option.map_eq_some_iff.1 hs
    obtain ⟨rfl, he⟩ := Prod.mk.inj heq
    unfold Top.pipelineEvents at he
    split at he
    · next d rest hidle hd =>
      have hfree := hok d (by simp [Top.takes, hidle, hpoll hidle, hd])
      obtain ⟨rfl, ht, hright⟩ := h.began_right hp hd hfree
      unfold Cu.pipelineStep at hstep
      rw [hidle] at hstep
      dsimp only at hstep
      rw [hd] at hstep
      obtain ⟨rfl, rfl⟩ := Prod.mk.inj (Option.some.inj hstep)
      subst he
      refine hset rfl rfl (fun c' hc => ⟨by simp [Top.setCu, hc], rfl⟩) ?_
        (fun c' hc => ⟨⟨rfl, rfl, by simp [begunSlots, FlatEvent.beganSlot, hne c' hc]⟩, rfl, rfl⟩)
        ⟨rfl, rfl, rfl⟩ (h.events.append hright)
      have := (h.cus c).begin (p := (B.launch s.args (s.stores c)).execute c d
        ((s.cus c).regs d.slotId)) hd ht hfree (s.stores c) ((s.cus c).regs d.slotId)
      simpa [Top.setCu] using this
    · next hnot =>
      have hnone : (s.cus c).pipeline = .idle → (s.cus c).dispatch = [] := by
        intro hidle
        cases hd : (s.cus c).dispatch with
        | nil => rfl
        | cons d rest => exact absurd hd (hnot d rest hidle)
      exact hwork hnone hstep he.symm rfl
  unfold Top.pipelineStep at hs
  split at hs
  · obtain ⟨rfl, rfl⟩ := Prod.mk.inj (Option.some.inj hs)
    exact h.congr rfl rfl rfl (fun _ => ⟨rfl, rfl, rfl, rfl, rfl⟩) (fun c' => .nil c') (by simp)
  · next seed rest hidle hpolled hseeds =>
    obtain ⟨rfl, rfl⟩ := Prod.mk.inj (Option.some.inj hs)
    have hcu := h.cus c
    rw [hseeds] at hcu
    refine hset rfl rfl (fun c' hc => ⟨by simp [Top.setCu, hc], by simp [Top.setCu, hc]⟩) ?_
      (fun c' hc => ⟨⟨rfl, by simp [seedsApplied, FlatEvent.seedAppliedAt, hne c' hc], rfl⟩, rfl,
        rfl⟩) ⟨rfl, rfl, rfl⟩ (h.events.append fun d program regs hmem => ?_)
    · simpa [Top.setCu] using hcu.apply
    · exact fun heq => hcu.noSeed _ (mem_begunSlots c hmem) seed List.mem_cons_self heq.symm
  · next hnot1 hnot2 =>
    refine hexec (fun hidle => ?_) hs
    by_contra hpoll
    rw [Bool.not_eq_true] at hpoll
    cases hseeds : s.seeds c with
    | nil => exact hnot1 hidle hpoll hseeds
    | cons seed rest => exact hnot2 seed rest hidle hpoll hseeds

end SeedInv

/-! ## A launch -/

/-- Where a launch is whose `start` is low: nothing has been seeded, or the loader is done and the
tokens are taken. -/
inductive Dropped {B : Build} (s : Top B) (ev : List FlatEvent) (sent : Fin B.numCus → Bool) :
    Prop where
  | unsent (hsent : ∀ c, sent c = false) (hseeds : ∀ c : Fin B.numCus, seedsSent c ev = [])
      (hld : s.loader.loaded = false ∨ s.loader.pc = .head)
  | settled (hld : s.loader.Finished B ∨ s.loader = {}) (hloaded : ∀ c, (s.cus c).loaded = 0)
      (hbusy : s.host.sawBusy = true)

/-- The launch at hand, whose events are `ev`. -/
structure LoadState {B : Build} (s : Top B) (ev : List FlatEvent) (taken sent : Fin B.numCus → Bool)
    (seen : Fin B.numCus → ℕ) : Prop where
  progress : Progress s (warpEvents ev) taken sent seen
  seeds : SeedInv s ev taken sent
  busy : s.core.busy = true → s.args.totalWarps.toNat ≤ B.capacity
  sawBusy : s.host.sawBusy = true → s.core.busy = true ∨
    AllSeen (B.plain s.args) seen ∧ s.args.totalWarps.toNat ≤ B.capacity
  low : s.start = false → Dropped s ev sent

section LoadState

variable {B : Build} {s s' : Top B} {ev e : List FlatEvent} {taken sent : Fin B.numCus → Bool}
  {seen : Fin B.numCus → ℕ}

/-- A CU that has not been sent its token is not seeded when `start` is low. -/
theorem Dropped.unseeded (h : Dropped s ev sent) (hs : SeedInv s ev taken sent) {c : Fin B.numCus}
    (hc : sent c = false) : seedsSent c ev = [] := by
  obtain ⟨-, hseeds, -⟩ | ⟨hld, -, -⟩ := h
  · exact hseeds c
  · obtain hnil | ⟨hload, hregs, hc'⟩ := hs.unsent c hc
    · exact hnil
    · obtain ⟨-, -, hfin⟩ | hld := hld
      · obtain hr | hr := hfin
        · exact absurd (hregs.symm.trans hr) (by simp)
        · have := c.isLt
          omega
      · rw [hld] at hload
        exact absurd hload (by simp)

theorem Dropped.not_token (h : Dropped s ev sent)
    (hp : Progress s (warpEvents ev) taken sent seen) :
    s.loader.pc ≠ .token := by
  intro hpc
  obtain ⟨-, -, hload | hpc'⟩ | ⟨hfin | hld, -, -⟩ := h
  · obtain ⟨-, -, htoken, -⟩ | ⟨-, hld⟩ | ⟨hfin, -⟩ := hp.loader
    · exact absurd ((htoken hpc).1.symm.trans hload) (by simp)
    · rw [hld] at hpc
      exact absurd hpc (by simp)
    · exact absurd hpc hfin.1
  · exact absurd (hpc.symm.trans hpc') (by simp)
  · exact absurd hpc hfin.1
  · rw [hld] at hpc
    exact absurd hpc (by simp)

/-- The loader writes nothing when `start` is low. -/
theorem Dropped.loader {ld : ProgramLoader} {p : ProgramLoader.Ports B.numCus}
    (h : Dropped s ev sent) (hp : Progress s (warpEvents ev) taken sent seen)
    (hlow : s.start = false)
    (hs : s.loader.step B s.args s.start s.loaderPorts = some (ld, p, e)) :
    e = [] ∧ p.seeds = s.seeds ∧ p.loaded = s.loaderPorts.loaded ∧
      Dropped (s.withLoader ld p) ev sent := by
  have hnone : e = [] ∧ p.seeds = s.seeds ∧ p.loaded = s.loaderPorts.loaded := by
    cases ProgramLoader.step_writes hs with
    | nothing hseeds hl => exact ⟨rfl, hseeds, hl⟩
    | @seed c _ hpc hload hregs hc =>
      obtain ⟨-, -, hload' | hpc'⟩ | ⟨hfin | hld, -, -⟩ := h
      · exact absurd (hload.symm.trans hload') (by simp)
      · exact absurd (hpc.symm.trans hpc') (by simp)
      · obtain hr | hr := hfin.2.2
        · exact absurd (hregs.symm.trans hr) (by simp)
        · have := c.isLt
          omega
      · rw [hld] at hpc
        exact absurd hpc (by simp)
    | token hpc => exact absurd hpc (h.not_token hp)
  have hnot : s.loader.pc ≠ .token := h.not_token hp
  refine ⟨hnone.1, hnone.2.1, hnone.2.2, ?_⟩
  obtain ⟨hsent, hseeds, hld⟩ | ⟨hld, hloaded, hbusy⟩ := h
  · refine .unsent hsent hseeds ?_
    have hunloaded (hpc : s.loader.pc = .work) : s.loader.loaded = false :=
      hld.resolve_right fun hhead => absurd (hpc.symm.trans hhead) (by simp)
    cases ProgramLoader.step_turns hs with
    | enter _ hstart => exact absurd (hlow.symm.trans hstart) (by simp)
    | store _ hload => exact .inl hload
    | skip hpc hload => exact absurd ((hunloaded hpc).symm.trans hload) (by simp)
    | seed hpc hload => exact absurd ((hunloaded hpc).symm.trans hload) (by simp)
    | reset | stored | seeded | rest | token => exact .inr rfl
  · have hl (c : Fin B.numCus) : p.loaded c = 0 := by
      rw [hnone.2.2]
      exact hloaded c
    refine .settled ?_ hl hbusy
    have hfin (hpc : s.loader.pc = .work) : s.loader.Finished B :=
      hld.resolve_right fun hreset => by
        rw [hreset] at hpc
        exact absurd hpc (by simp)
    cases ProgramLoader.step_turns hs with
    | enter _ hstart => exact absurd (hlow.symm.trans hstart) (by simp)
    | reset => exact .inr rfl
    | store hpc hload => exact absurd (hload.symm.trans (hfin hpc).2.1) (by simp)
    | stored hpc hload => exact absurd (hload.symm.trans (hfin hpc).2.1) (by simp)
    | @skip c hpc _ hregs hc =>
      have hlt := c.isLt
      obtain hr | hr := (hfin hpc).2.2
      · exact absurd (hregs.symm.trans hr) (by simp)
      · omega
    | seed => exact absurd hnone.1 (by simp)
    | seeded hpc hload => exact .inl ⟨by simp [Top.withLoader], hload, .inl rfl⟩
    | rest hpc hload hregs => exact .inl ⟨by simp [Top.withLoader], hload, .inl hregs⟩
    | token hpc => exact absurd hpc hnot

/-- A step that leaves the loader and sends nothing. -/
theorem Dropped.keep (h : Dropped s ev sent) (hloader : s'.loader = s.loader)
    (hsaw : s.host.sawBusy = true → s'.host.sawBusy = true)
    (hloaded : ∀ c, (s'.cus c).loaded ≤ (s.cus c).loaded)
    (hsent : ∀ c : Fin B.numCus, seedsSent c e = []) : Dropped s' (ev ++ e) sent := by
  obtain ⟨h1, h2, h3⟩ | ⟨h1, h2, h3⟩ := h
  · refine .unsent h1 (fun c => ?_) (by rwa [hloader])
    rw [seedsSent_append, h2, hsent, List.append_nil]
  · refine .settled (by rwa [hloader]) (fun c => ?_) (hsaw h3)
    have := hloaded c
    rw [h2] at this
    omega

theorem scheduler_unsent {H : HostProtocol} {c : Fin B.numCus}
    (hs : s.step H (.scheduler c) = some (s', e)) :
    s'.loader = s.loader ∧ ∀ c' : Fin B.numCus, seedsSent c' e = [] := by
  obtain ⟨⟨cu, e'⟩, -, heq⟩ := Option.map_eq_some_iff.1 hs
  obtain ⟨rfl, rfl⟩ := Prod.mk.inj heq
  refine ⟨rfl, fun c' => ?_⟩
  rw [seedsSent_append, (Unloading.warp c' _).sent, List.append_nil]
  split <;> rfl

theorem pipeline_unsent {H : HostProtocol} {c : Fin B.numCus}
    (hs : s.step H (.pipeline c) = some (s', e)) :
    s'.loader = s.loader ∧ ∀ c' : Fin B.numCus, seedsSent c' e = [] := by
  dsimp only [Top.step, Top.pipelineStep] at hs
  split at hs
  · obtain ⟨rfl, rfl⟩ := Prod.mk.inj (Option.some.inj hs)
    exact ⟨rfl, fun _ => rfl⟩
  · obtain ⟨rfl, rfl⟩ := Prod.mk.inj (Option.some.inj hs)
    exact ⟨rfl, fun _ => rfl⟩
  · obtain ⟨⟨cu, e'⟩, -, heq⟩ := Option.map_eq_some_iff.1 hs
    obtain ⟨rfl, rfl⟩ := Prod.mk.inj heq
    refine ⟨rfl, fun c' => ?_⟩
    rw [seedsSent_append, (Unloading.warp c' _).sent, List.append_nil]
    unfold Top.pipelineEvents
    split
    · rfl
    · exact (Unloading.mem c' _).sent

/-- A step of a launch without the host and `barrierCoreN`. -/
theorem LoadState.inner {H : HostProtocol} {a : TopAction B.numCus}
    (h : LoadState s ev taken sent seen) (ha : a.isInner = true) (hok : LoadStep s a)
    (hs : s.step H a = some (s', e)) :
    ∃ taken' sent', LoadState s' (ev ++ e) taken' sent' seen := by
  obtain ⟨⟨hcore, hhost, hargs, hstart⟩, -⟩ := step_inner ha hs
  have hmk {taken' sent' : Fin B.numCus → Bool}
      (hp : Progress s' (warpEvents ev ++ warpEvents e) taken' sent' seen)
      (hseeds : SeedInv s' (ev ++ e) taken' sent')
      (hlow : s.start = false → Dropped s' (ev ++ e) sent') :
      LoadState s' (ev ++ e) taken' sent' seen :=
    ⟨by rwa [warpEvents_append], hseeds, by rw [hcore, hargs]; exact h.busy,
      by rw [hhost, hcore, hargs]; exact h.sawBusy, by rwa [hstart]⟩
  cases a with
  | raise => exact absurd ha (by simp [TopAction.isInner])
  | drop => exact absurd ha (by simp [TopAction.isInner])
  | sample => exact absurd ha (by simp [TopAction.isInner])
  | barrier => exact absurd ha (by simp [TopAction.isInner])
  | loader =>
    obtain ⟨⟨ld, p, e'⟩, hstep, heq⟩ := Option.map_eq_some_iff.1 hs
    obtain ⟨rfl, rfl⟩ := Prod.mk.inj heq
    obtain ⟨sent', hp, -⟩ := h.progress.loaderStep hstep
    have hseeds := h.seeds.loader h.progress hp (fun hlow c hc => (h.low hlow).unseeded h.seeds hc)
      hstep
    refine ⟨taken, sent', hmk ?_ hseeds fun hlow => ?_⟩
    · rwa [(ProgramLoader.step_events hstep).1, List.append_nil]
    · obtain ⟨rfl, -, hl, hdropped⟩ := (h.low hlow).loader h.progress hlow hstep
      have hsame : sent' = sent := by
        funext c
        have h1 := hseeds.tokensSent c
        rw [List.append_nil, h.seeds.tokensSent c] at h1
        exact (eq_of_toNat h1).symm
      rw [List.append_nil, hsame]
      exact hdropped
  | scheduler c =>
    obtain ⟨taken', hp, hseeds⟩ := h.seeds.scheduler h.progress hs
    refine ⟨taken', sent, hmk hp hseeds fun hlow => ?_⟩
    obtain ⟨hloader, hsent⟩ := scheduler_unsent hs
    refine (h.low hlow).keep hloader (by rw [hhost]; exact id) (fun c' => ?_) hsent
    have h1 := h.progress.tokens c'
    have h2 := hp.tokens c'
    have h3 := hseeds.tokensTaken c'
    rw [tokensTaken_append, h.seeds.tokensTaken] at h3
    omega
  | pipeline c =>
    have hp := h.progress.pipelineStep hs
    have hseeds := h.seeds.pipeline h.progress hok hs
    refine ⟨taken, sent, hmk hp hseeds fun hlow => ?_⟩
    obtain ⟨hloader, hsent⟩ := pipeline_unsent hs
    refine (h.low hlow).keep hloader (by rw [hhost]; exact id) (fun c' => ?_) hsent
    have h1 := h.progress.tokens c'
    have h2 := hp.tokens c'
    omega
  | arbiter =>
    obtain ⟨⟨arbiter, p, e'⟩, -, heq⟩ := Option.map_eq_some_iff.1 hs
    obtain ⟨rfl, rfl⟩ := Prod.mk.inj heq
    refine ⟨taken, sent, hmk ?_ ?_ fun hlow => ?_⟩
    · rw [warpEvents_mem, List.append_nil]
      exact h.progress.congr rfl (fun _ => ⟨rfl, rfl, rfl, rfl, rfl, rfl⟩) rfl rfl rfl rfl
    · exact h.seeds.congr rfl rfl rfl (fun _ => ⟨rfl, rfl, rfl, rfl, rfl⟩) (fun c => .mem c e')
        (free_mem e')
    · exact (h.low hlow).keep rfl id (fun _ => le_refl _) fun c => (Unloading.mem c e').sent
  | memory =>
    obtain ⟨⟨side, e'⟩, -, heq⟩ := Option.map_eq_some_iff.1 hs
    obtain ⟨rfl, rfl⟩ := Prod.mk.inj heq
    refine ⟨taken, sent, hmk ?_ ?_ fun hlow => ?_⟩
    · rw [warpEvents_mem, List.append_nil]
      exact h.progress.congr rfl (fun _ => ⟨rfl, rfl, rfl, rfl, rfl, rfl⟩) rfl rfl rfl rfl
    · exact h.seeds.congr rfl rfl rfl (fun _ => ⟨rfl, rfl, rfl, rfl, rfl⟩) (fun c => .mem c e')
        (free_mem e')
    · exact (h.low hlow).keep rfl id (fun _ => le_refl _) fun c => (Unloading.mem c e').sent

theorem LoadState.sample (h : LoadState s ev taken sent seen) :
    LoadState s.sample ev taken sent seen where
  progress := h.progress.congr rfl (fun _ => ⟨rfl, rfl, rfl, rfl, rfl, rfl⟩) rfl rfl rfl rfl
  seeds := by
    have hsame : SeedInv s.sample (ev ++ []) taken sent :=
      h.seeds.congr rfl rfl rfl (fun _ => ⟨rfl, rfl, rfl, rfl, rfl⟩) (fun c => .nil c) (by simp)
    rwa [List.append_nil] at hsame
  busy := h.busy
  sawBusy := by
    simp only [Top.sample, Bool.or_eq_true]
    rintro (hsaw | hb)
    · exact h.sawBusy hsaw
    · exact .inl hb
  low hlow := by
    have hdropped : Dropped s.sample (ev ++ []) sent :=
      (h.low hlow).keep rfl (by simp +contextual [Top.sample]) (fun _ => le_refl _) fun _ => rfl
    rwa [List.append_nil] at hdropped

theorem LoadState.drop (h : LoadState s ev taken sent seen) (hok : LoadStep s .drop)
    (hs : s.drop loadingHost = some (s', e)) : LoadState s' (ev ++ e) taken sent seen := by
  unfold Top.drop at hs
  split at hs
  · next hhigh =>
    obtain ⟨rfl, rfl⟩ := Prod.mk.inj (Option.some.inj hs)
    have hnosend (c : Fin B.numCus) : seedsSent c (ev ++ [.dropped]) = seedsSent c ev := by
      rw [seedsSent_append, show seedsSent c [.dropped] = [] from rfl, List.append_nil]
    refine ⟨?_, ?_, h.busy, h.sawBusy, fun _ => ?_⟩
    · rw [warpEvents_append, show warpEvents [.dropped] = [] from rfl, List.append_nil]
      exact h.progress.drop
    · exact h.seeds.congr rfl rfl rfl (fun _ => ⟨rfl, rfl, rfl, rfl, rfl⟩)
        (fun c => ⟨⟨rfl, rfl, rfl⟩, rfl, rfl⟩) (by simp [EventRight])
    · obtain hload | ⟨hfin, hloaded, hsaw⟩ := hok
      · have hsent (c : Fin B.numCus) : sent c = false := by
          obtain ⟨hsent, -⟩ | ⟨hlow, -⟩ | ⟨hfin, -⟩ := h.progress.loader
          · rw [← Bool.not_eq_true, hsent, hload]
            simp
          · exact absurd (hlow.symm.trans hhigh.1) (by simp)
          · exact absurd (hload.symm.trans hfin.2.1) (by simp)
        refine .unsent hsent (fun c => ?_) (.inl hload)
        rw [hnosend]
        obtain hnil | ⟨hload', -⟩ := h.seeds.unsent c (hsent c)
        · exact hnil
        · exact absurd (hload.symm.trans hload') (by simp)
      · exact .settled (.inl hfin) hloaded hsaw
  · exact absurd hs (by simp)

/-- A step of `barrierCoreN`. -/
theorem LoadState.barrier (h : LoadState s ev taken sent seen) (hs : s.barrierStep = some (s', e)) :
    ∃ seen', LoadState s' (ev ++ e) taken sent seen' := by
  obtain ⟨⟨core, ports⟩, hstep, heq⟩ := Option.map_eq_some_iff.1 hs
  obtain ⟨seen', hp, hall, hover⟩ := h.progress.barrier hstep
  have hbusy : core.busy = true → s.args.totalWarps.toNat ≤ B.capacity := by
    obtain ⟨-, -, -, hacc⟩ | ⟨-, -, hb, -⟩ := barrierStep_status hstep
    · split_ifs at hacc with hcap
      · exact fun hb => absurd (hacc.1.symm.trans hb) (by simp)
      · exact fun _ => not_lt.1 hcap
    · exact fun hb' => h.busy (hb hb')
  have hsaw (hsaw : s.host.sawBusy = true) : core.busy = true ∨
      AllSeen (B.plain s.args) seen' ∧ s.args.totalWarps.toNat ≤ B.capacity := by
    obtain hb | ⟨hseen, hcap⟩ := h.sawBusy hsaw
    · by_cases hb' : core.busy = true
      · exact .inl hb'
      · exact .inr ⟨hover (.inl ⟨hb, by simpa using hb'⟩), h.busy hb⟩
    · exact .inr ⟨hall hseen, hcap⟩
  have hfree : (∀ c : Fin B.numCus, Unloading c e) ∧ (∀ x ∈ e, ∀ pre, EventRight s.args pre x) ∧
      warpEvents e = [] := by
    split_ifs at heq <;> obtain ⟨-, rfl⟩ := Prod.mk.inj heq
    · exact ⟨fun c => ⟨⟨rfl, rfl, rfl⟩, rfl, rfl⟩, by simp [EventRight], rfl⟩
    · exact ⟨fun c => .nil c, by simp, rfl⟩
  refine ⟨seen', ?_⟩
  have hstate (hargs : s'.args = s.args) (hcore : s'.core = core) (hstart : s'.start = s.start)
      (hhost : s'.host.sawBusy = s.host.sawBusy) (hloader : s'.loader = s.loader)
      (hstores : s'.stores = s.stores) (hseeds : s'.seeds = s.seeds)
      (hcus : ∀ c, s'.cus c = { s.cus c with port := ports c }) :
      LoadState s' (ev ++ e) taken sent seen' := by
    refine ⟨?_, ?_, by rwa [hcore, hargs], by rwa [hhost, hcore, hargs], fun hlow => ?_⟩
    · rw [warpEvents_append, hfree.2.2, List.append_nil]
      exact hp.congr hargs (fun c => by rw [hcus c]; exact ⟨rfl, rfl, rfl, rfl, rfl, rfl⟩) hstart
        hloader hstores hcore
    · exact h.seeds.congr hargs hloader hseeds
        (fun c => by rw [hcus c]; exact ⟨rfl, rfl, rfl, rfl, rfl⟩) hfree.1 hfree.2.1
    · exact (h.low (hstart.symm.trans hlow)).keep hloader (by rw [hhost]; exact id)
        (fun c => by rw [hcus c]) fun c => (hfree.1 c).sent
  split_ifs at heq <;> obtain ⟨rfl, rfl⟩ := Prod.mk.inj heq
  · exact hstate rfl rfl rfl rfl rfl rfl rfl fun _ => rfl
  · exact hstate rfl rfl rfl rfl rfl rfl rfl fun _ => rfl

/-! ## The next launch -/

/-- A launch is raised on CUs without work. -/
theorem LoadState.fresh (hstart : s'.start = true) (hsaw : s'.host.sawBusy = false)
    (hcus : ∀ c, CuLaunch (B.plain s'.args) c false 0 none [] (s'.cus c))
    (hloaded : ∀ c, (s'.cus c).loaded = 0) (hseeds : ∀ c, s'.seeds c = [])
    (hld : s'.loader.Ready B) (hbounded : s'.loader.Bounded B) (hb : s'.core.busy = false)
    (hpc : s'.core.pc = .head ∨ ∃ i, s'.core.pc = .signalDone i) :
    LoadState s' [] (fun _ => false) (fun _ => false) (fun _ => 0) where
  progress :=
    { cus := fun c => ⟨none, hcus c⟩
      tokens := fun c => by rw [hloaded c]; rfl
      loader := by
        obtain hld | hld | hfin := hld
        · rw [hld]
          exact .pass (fun c => by simp) (fun _ => ⟨rfl, rfl, rfl, rfl⟩) (by simp)
            (fun c i _ hi => absurd hi (by simp)) (by simp)
        · rw [hld]
          exact .pass (fun c => by simp) (fun _ => ⟨rfl, rfl, rfl, rfl⟩) (by simp)
            (fun c i _ hi => absurd hi (by simp)) (by simp)
        · exact .stale hfin fun _ => rfl
      holds := by simp
      core := .waiting hb hpc fun _ => rfl }
  seeds :=
    { cus := fun c => by
        obtain ⟨hd, hp, hs⟩ : (s'.cus c).dispatch = [] ∧ (s'.cus c).pipeline = .idle ∧
            (s'.cus c).status = [] := by
          cases (hcus c).flight with
          | nothing hd hp hs => exact ⟨hd, hp, hs⟩
        rw [hseeds c]
        exact ⟨rfl, by simp [seedsSent], by simp [seedsApplied], by simp [begunSlots],
          by simp [begunSlots], by simp [hp, Pipeline.current], by simp [hs], by simp, by simp,
          by simp [hd]⟩
      bounded := hbounded
      part := fun c slot i _ hbehind => by
        obtain ⟨h1, h2, h3, -⟩ := hbehind
        obtain hld | hld | ⟨-, -, hfin⟩ := hld
        · rw [hld] at h1
          exact absurd h1 (by simp)
        · rw [hld] at h1
          exact absurd h1 (by simp)
        · have := c.isLt
          obtain hr | hr := hfin
          · exact absurd (h2.symm.trans hr) (by simp)
          · omega
      full := by simp
      unsent := fun c _ => .inl rfl
      tokensTaken := fun _ => rfl
      tokensSent := fun _ => rfl
      events := .nil }
  busy h := absurd (hb.symm.trans h) (by simp)
  sawBusy h := absurd (hsaw.symm.trans h) (by simp)
  low h := absurd (hstart.symm.trans h) (by simp)

/-- Nothing is left of a launch that is not busy and whose `start` is low. -/
theorem LoadState.over (h : LoadState s ev taken sent seen) (hlow : s.start = false)
    (hb : s.core.busy = false) (c : Fin B.numCus) :
    s.seeds c = [] ∧ (s.cus c).loaded = 0 ∧ taken c = sent c ∧
      (taken c = false ∨ seen c = ((B.plain s.args).residents c).card) := by
  have htokens := h.progress.tokens c
  have hcu := h.seeds.cus c
  obtain ⟨hsent, hseeds, -⟩ | ⟨hld, hloaded, hsaw⟩ := h.low hlow
  · have ht : (s.cus c).loaded = 0 ∧ taken c = false := by
      rw [hsent c] at htokens
      cases ht : taken c with
      | false => rw [ht] at htokens; simpa using htokens
      | true => rw [ht] at htokens; simp at htokens
    refine ⟨?_, ht.1, by rw [ht.2, hsent c], .inl ht.2⟩
    have hqueue := hcu.queue
    rw [hseeds c] at hqueue
    exact (List.append_eq_nil_iff.1 hqueue.symm).2
  · have ht : taken c = sent c := by
      rw [hloaded c, Nat.zero_add] at htokens
      exact eq_of_toNat htokens
    obtain hb' | ⟨hall, hcap⟩ := h.sawBusy hsaw
    · exact absurd (hb.symm.trans hb') (by simp)
    refine ⟨?_, hloaded c, ht, .inr (hall c)⟩
    by_contra hne
    obtain ⟨seed, hseed⟩ := List.exists_mem_of_ne_nil _ hne
    have hmem : seed ∈ seedsSent c ev := by
      rw [hcu.queue]
      exact List.mem_append_right _ hseed
    have htaken : taken c = true := by
      cases htc : taken c with
      | true => rfl
      | false =>
        rw [(h.low hlow).unseeded h.seeds (ht.symm.trans htc)] at hmem
        exact absurd hmem (by simp)
    have hwarp := (hcu.right seed hmem).1
    -- the seed is for a resident, which is done and has begun
    have hres : (B.plain s.args).Resident c seed.slotId := by
      refine ⟨?_, hwarp⟩
      have hlt : (c : ℕ) + seed.slotId.toNat * B.numCus < B.numCus * B.maxWarpsPerCu :=
        lt_of_lt_of_le hwarp hcap
      have hmul : B.numCus * seed.slotId.toNat < B.numCus * B.maxWarpsPerCu := by
        rw [Nat.mul_comm B.numCus seed.slotId.toNat]
        omega
      exact Nat.lt_of_mul_lt_mul_left hmul
    obtain ⟨job, hjob⟩ := h.progress.cus c
    have hdone := (hjob.all_done (hall c) hres).2
    exact hcu.noSeed _ (hcu.done htaken _ hres hdone) seed hseed rfl

/-! ## Every run -/

/-- A launch that is over. -/
structure PulseOver (B : Build) (p : Pulse) : Prop where
  events : EventsRight p.args p.events
  drained : ∀ c : Fin B.numCus, seedsApplied c p.events = seedsSent c p.events ∧
    tokensTaken c p.events = tokensSent c p.events

/-- The launches so far. -/
inductive LoadInv (s : Top B) : List Pulse → Prop where
  | quiet (hq : Quiet s) (hsaw : s.host.sawBusy = false) : LoadInv s []
  | launch {p : Pulse} {older : List Pulse} {taken sent : Fin B.numCus → Bool}
      {seen : Fin B.numCus → ℕ} (hargs : p.args = s.args)
      (h : LoadState s p.events taken sent seen) (holder : ∀ q ∈ older, PulseOver B q) :
      LoadInv s (p :: older)

theorem LoadState.pulseOver {p : Pulse} (h : LoadState s p.events taken sent seen)
    (hargs : p.args = s.args) (hlow : s.start = false) (hb : s.core.busy = false) :
    PulseOver B p := by
  refine ⟨by rw [hargs]; exact h.seeds.events, fun c => ?_⟩
  obtain ⟨hseeds, -, ht, -⟩ := h.over hlow hb c
  have hqueue := (h.seeds.cus c).queue
  rw [hseeds, List.append_nil] at hqueue
  exact ⟨hqueue.symm, by rw [h.seeds.tokensTaken, h.seeds.tokensSent, ht]⟩

theorem LoadInv.raise {ps : List Pulse} {a : LaunchArgs} (h : LoadInv s ps)
    (hok : LoadStep s (.raise a)) (hs : s.raise loadingHost a = some (s', e)) :
    LoadInv s' (e.foldl addEvent ps) := by
  unfold Top.raise at hs
  split at hs
  · next hlow =>
    obtain ⟨rfl, rfl⟩ := Prod.mk.inj (Option.some.inj hs)
    show LoadInv _ (⟨a, []⟩ :: ps)
    cases h with
    | quiet hq =>
      refine .launch rfl (LoadState.fresh rfl rfl (fun c => (hq.cus c).cuLaunch _ c)
        (fun c => (hq.cus c).loaded) hq.seeds hok.2 ?_ hok.1 (.inl ?_)) (by simp)
      · show s.loader.Bounded B
        rw [hq.loader]
        exact ⟨by simp, by simp⟩
      · show s.core.pc = .head
        rw [hq.core]
    | @launch p older taken sent seen hargs h holder =>
      refine .launch rfl (LoadState.fresh rfl rfl (fun c => ?_)
        (fun c => (h.over hlow.1 hok.1 c).2.1) (fun c => (h.over hlow.1 hok.1 c).1) hok.2
        h.seeds.bounded hok.1 (h.progress.idle hok.1)) fun q hq => ?_
      · obtain ⟨job, hjob⟩ := h.progress.cus c
        exact hjob.next (h.over hlow.1 hok.1 c).2.2.2
      · obtain rfl | hq := List.mem_cons.1 hq
        · exact h.pulseOver hargs hlow.1 hok.1
        · exact holder q hq
  · exact absurd hs (by simp)

theorem LoadInv.step {ps : List Pulse} {a : TopAction B.numCus} (h : LoadInv s ps)
    (hok : LoadStep s a) (hs : s.step loadingHost a = some (s', e)) :
    LoadInv s' (e.foldl addEvent ps) := by
  -- a step within the launch
  have hkeep {p : Pulse} {older : List Pulse} {taken sent : Fin B.numCus → Bool}
      {seen : Fin B.numCus → ℕ} (hraised : ∀ x ∈ e, x.isRaised = false) (hargs : p.args = s'.args)
      (h : LoadState s' (p.events ++ e) taken sent seen) (holder : ∀ q ∈ older, PulseOver B q) :
      LoadInv s' (e.foldl addEvent (p :: older)) := by
    rw [foldl_addEvent hraised]
    exact .launch hargs h holder
  have hquiet (hq : Quiet s) (hsaw : s.host.sawBusy = false) (ha : ∀ args, a ≠ .raise args)
      (hraised : ∀ x ∈ e, x.isRaised = false) (hsaw' : s'.host.sawBusy = false) :
      LoadInv s' (e.foldl addEvent []) := by
    rw [foldl_addEvent_nil hraised]
    exact .quiet (hq.step ha hs) hsaw'
  have hinner (ha : a.isInner = true) : LoadInv s' (e.foldl addEvent ps) := by
    obtain ⟨⟨-, hhost, hargs, -⟩, hev⟩ := step_inner ha hs
    have hraised : ∀ x ∈ e, x.isRaised = false := fun x hx => by
      have := hev x hx
      cases x <;> first | rfl | exact absurd this (by simp [FlatEvent.isInner])
    cases h with
    | quiet hq hsaw =>
      refine hquiet hq hsaw ?_ hraised (by rwa [hhost])
      rintro args rfl
      exact absurd ha (by simp [TopAction.isInner])
    | launch hargs' h holder =>
      obtain ⟨taken', sent', h'⟩ := h.inner ha hok hs
      exact hkeep hraised (hargs'.trans hargs.symm) h' holder
  cases a with
  | raise a => exact h.raise hok hs
  | drop =>
    cases h with
    | quiet hq =>
      dsimp only [Top.step, Top.drop] at hs
      rw [if_neg (by simp [hq.start])] at hs
      exact absurd hs (by simp)
    | launch hargs h holder =>
      have hdrop := h.drop hok hs
      dsimp only [Top.step, Top.drop] at hs
      split at hs
      · obtain ⟨rfl, rfl⟩ := Prod.mk.inj (Option.some.inj hs)
        exact hkeep (by simp [FlatEvent.isRaised]) hargs hdrop holder
      · exact absurd hs (by simp)
  | sample =>
    obtain ⟨rfl, rfl⟩ := Prod.mk.inj (Option.some.inj hs)
    cases h with
    | quiet hq hsaw =>
      exact .quiet ⟨hq.start, hq.core, hq.loader, hq.seeds, hq.cus⟩
        (by simp [Top.sample, hsaw, hq.core])
    | launch hargs h holder => exact .launch hargs h.sample holder
  | barrier =>
    have hs : s.barrierStep = some (s', e) := hs
    have hframe : s'.args = s.args ∧ (∀ x ∈ e, x.isRaised = false) ∧
        s'.host.sawBusy = s.host.sawBusy := by
      obtain ⟨⟨core, ports⟩, -, heq⟩ := Option.map_eq_some_iff.1 hs
      split_ifs at heq <;> obtain ⟨rfl, rfl⟩ := Prod.mk.inj heq
      · exact ⟨rfl, by simp [FlatEvent.isRaised], rfl⟩
      · exact ⟨rfl, by simp, rfl⟩
    cases h with
    | quiet hq hsaw => exact hquiet hq hsaw (by simp) hframe.2.1 (hframe.2.2.trans hsaw)
    | launch hargs h holder =>
      obtain ⟨seen', h'⟩ := h.barrier hs
      exact hkeep hframe.2.1 (hargs.trans hframe.1.symm) h' holder
  | loader => exact hinner rfl
  | scheduler c => exact hinner rfl
  | pipeline c => exact hinner rfl
  | arbiter => exact hinner rfl
  | memory => exact hinner rfl

theorem LoadInv.correct {tr : List FlatEvent} (h : LoadInv s (pulses tr)) :
    LoadingCorrect B tr := by
  suffices hall : (∀ p ∈ pulses tr, EventsRight p.args p.events) ∧
      (∀ p ∈ pulses tr, ∀ c : Fin B.numCus, seedsApplied c p.events <+: seedsSent c p.events ∧
        tokensTaken c p.events ≤ tokensSent c p.events) ∧
      ∀ p ∈ (pulses tr).tail, PulseOver B p from
    ⟨hall.1, hall.2.1, fun p hp => (hall.2.2 p hp).drained⟩
  generalize pulses tr = ps at h ⊢
  cases h with
  | quiet => exact ⟨by simp, by simp, by simp⟩
  | @launch p older taken sent seen hargs h holder =>
    refine ⟨fun q hq => ?_, fun q hq c => ?_, holder⟩
    · obtain rfl | hq := List.mem_cons.1 hq
      · rw [hargs]
        exact h.seeds.events
      · exact (holder q hq).events
    · obtain rfl | hq := List.mem_cons.1 hq
      · refine ⟨⟨s.seeds c, (h.seeds.cus c).queue.symm⟩, ?_⟩
        have := h.progress.tokens c
        rw [h.seeds.tokensTaken, h.seeds.tokensSent]
        omega
      · obtain ⟨h1, h2⟩ := (holder q hq).drained c
        rw [h1, h2]
        exact ⟨List.prefix_rfl, le_refl _⟩

end LoadState

/-- In every run whose steps load cleanly, every warp begins with its program and its registers, and
no token and no seed is left for the next launch. -/
theorem loadingCorrect {B : Build} {s : Top B} {tr : List FlatEvent}
    (h : ((topSystem B loadingHost).filter LoadStep).Run (fun _ => True) s tr) :
    LoadingCorrect B tr := by
  refine LoadInv.correct (s := s) (h.invariant (fun s tr => LoadInv s (pulses tr))
    (fun s hs _ => .quiet (Quiet.reset hs) ?_) ?_)
  · rw [hs.2.1]
  · intro s tr a s' ev _ hinv hs _
    obtain ⟨hok, hs⟩ := Transition.filter_step hs
    rw [pulses_append]
    exact hinv.step hok hs

/-- A fresh warp begins. -/
def FlatEvent.beginsFresh : FlatEvent → Bool
  | .began _ d _ _ => d.freshLaunch
  | _ => false

/-- A warp that begins with its 1024 register words, and the next launch. -/
theorem loadingCorrect_oneSlot : ∃ (s : Top oneSlot) (tr : List FlatEvent),
    ((topSystem oneSlot loadingHost).filter LoadStep).Run (fun _ => True) s tr ∧
      s.host.launches = 2 ∧ s.host.accepted = 1 ∧ tr.any FlatEvent.beginsFresh = true ∧
      LoadingCorrect oneSlot tr := by
  have hinit : ((topSystem oneSlot loadingHost).filter LoadStep).Run (fun _ => True)
    (Top.zeroed oneSlot) [] := .init (Top.zeroed_isReset _) trivial
  have hrun := hinit.follow (haltThen 1)
  rw [List.nil_append] at hrun
  have hof (r : Top oneSlot × List FlatEvent)
      (hrun : ((topSystem oneSlot loadingHost).filter LoadStep).Run (fun _ => True) r.1 r.2)
      (hreached : (r.1.host.launches == 2 && r.1.host.accepted == 1 &&
        r.2.any FlatEvent.beginsFresh) = true) :
      ∃ (s : Top oneSlot) (tr : List FlatEvent),
        ((topSystem oneSlot loadingHost).filter LoadStep).Run (fun _ => True) s tr ∧
          s.host.launches = 2 ∧ s.host.accepted = 1 ∧ tr.any FlatEvent.beginsFresh = true ∧
          LoadingCorrect oneSlot tr := by
    simp only [Bool.and_eq_true, beq_iff_eq] at hreached
    obtain ⟨⟨hlaunches, haccepted⟩, hbegan⟩ := hreached
    exact ⟨_, _, hrun, hlaunches, haccepted, hbegan, loadingCorrect hrun⟩
  exact hof _ hrun (by decide +kernel)

/-- An over-capacity launch that is held until the loader has written a seed, and the next
launch. -/
def staleSeed : List (TopAction 1) :=
  [.raise (haltArgs 2), .barrier, .sample] ++ List.replicate 516 .loader ++
    [.drop, .raise (haltArgs 1)]

theorem not_loadingCorrect : ¬ ∀ (B : Build) (s : Top B) (tr : List FlatEvent),
    (topSystem B loadingHost).Run (fun _ => True) s tr → LoadingCorrect B tr := by
  intro h
  have hrun : ((topSystem oneSlot loadingHost).exec (fun _ => True) (Top.zeroed oneSlot)
      staleSeed).any (fun r => (pulses r.2).tail.any fun p =>
        decide (seedsApplied (0 : Fin 1) p.events ≠ seedsSent (0 : Fin 1) p.events)) = true := by
    decide +kernel
  obtain ⟨r, hr, hstale⟩ := (Option.any_eq_true _ _).1 hrun
  obtain ⟨p, hp, hne⟩ := List.any_eq_true.1 hstale
  have hinit : (topSystem oneSlot loadingHost).Run (fun _ => True) (Top.zeroed oneSlot) [] :=
    .init (Top.zeroed_isReset _) trivial
  have hcorrect := h oneSlot _ _ (hinit.exec _ hr)
  rw [List.nil_append] at hcorrect
  exact of_decide_eq_true hne ((hcorrect.drained p hp (0 : Fin 1)).1)

end RiscvGpgpu.Hls
