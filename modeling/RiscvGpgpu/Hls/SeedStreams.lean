import RiscvGpgpu.Hls.LaunchProgress

/-!
# Seeds on their way

The seeds and the tokens of one launch, by CU: what the events of the launch say of them, and
`CuSeeds`, which ties the events to the seed stream, the registers and the slots of a CU. The words
of a warp that has not begun are the words of the seeds applied.
-/

namespace RiscvGpgpu.Hls

open Launch

/-! ## Seeds -/

namespace RegSeed

variable (seed seed' : RegSeed)

def lane : Lane := ⟨(seed.flatI >>> 5).toNat, seed.flatI_lane_lt⟩

def reg : Reg := (seed.flatI &&& 31).setWidth 5

theorem flatI_toNat : seed.flatI.toNat = seed.lane * 32 + seed.reg.toNat := by
  have hand : (seed.flatI &&& 31).toNat = seed.flatI.toNat % 32 := by
    rw [BitVec.toNat_and]
    exact Nat.and_two_pow_sub_one_eq_mod seed.flatI.toNat 5
  have hlane : (seed.lane : ℕ) = seed.flatI.toNat / 32 := by
    rw [show (seed.lane : ℕ) = (seed.flatI >>> 5).toNat from rfl, BitVec.toNat_ushiftRight,
      Nat.shiftRight_eq_div_pow]
  unfold reg
  rw [BitVec.toNat_setWidth, hand, hlane]
  omega

/-- A seed writes no word but its own. -/
theorem flatI_inj (hlane : seed.lane = seed'.lane) (hreg : seed.reg = seed'.reg) :
    seed.flatI = seed'.flatI := by
  apply BitVec.eq_of_toNat_eq
  rw [flatI_toNat, flatI_toNat, hlane, hreg]

end RegSeed

theorem applySeed_eq (regs : SlotId → RegFile) (seed : RegSeed) :
    Top.applySeed regs seed = Function.update regs seed.slotId
      (Function.update (regs seed.slotId) seed.lane
        (Function.update (regs seed.slotId seed.lane) seed.reg seed.value)) := rfl

theorem applySeed_self (regs : SlotId → RegFile) (seed : RegSeed) :
    Top.applySeed regs seed seed.slotId seed.lane seed.reg = seed.value := by
  simp [applySeed_eq]

theorem applySeed_of_ne (regs : SlotId → RegFile) {seed seed' : RegSeed}
    (h : seed'.slotId = seed.slotId → seed'.flatI ≠ seed.flatI) :
    Top.applySeed regs seed seed'.slotId seed'.lane seed'.reg =
      regs seed'.slotId seed'.lane seed'.reg := by
  rw [applySeed_eq]
  by_cases hs : seed'.slotId = seed.slotId
  · rw [hs, Function.update_self]
    by_cases hl : seed'.lane = seed.lane
    · rw [hl, Function.update_self]
      by_cases hr : seed'.reg = seed.reg
      · exact absurd (RegSeed.flatI_inj _ _ hl hr) (h hs)
      · rw [Function.update_of_ne hr]
    · rw [Function.update_of_ne hl]
  · rw [Function.update_of_ne hs]

section Seeds

variable {B : Build} {a : LaunchArgs} {c : Fin B.numCus}

/-- The seed of a word of the warp in a slot. -/
def seedAt (B : Build) (a : LaunchArgs) (c : Fin B.numCus) (slot : SlotId) (i : ℕ) : RegSeed where
  slotId := slot
  flatI := BitVec.ofNat 10 i
  value := a.initialRegs (((B.plain a).warpIdOf c slot).toNat * 1024 + i)

/-- The slot gets a warp of the launch, if there is such a slot. -/
def HasWarp (B : Build) (a : LaunchArgs) (c : Fin B.numCus) (slot : SlotId) : Prop :=
  (B.plain a).localWarp c slot < a.totalWarps.toNat

/-- A seed of the launch. -/
def IsSeed (B : Build) (a : LaunchArgs) (c : Fin B.numCus) (seed : RegSeed) : Prop :=
  HasWarp B a c seed.slotId ∧ seed = seedAt B a c seed.slotId seed.flatI.toNat

theorem isSeed_seedAt {slot : SlotId} (h : HasWarp B a c slot) {i : ℕ} (hi : i < 1024) :
    IsSeed B a c (seedAt B a c slot i) := by
  refine ⟨h, ?_⟩
  have : (BitVec.ofNat 10 i).toNat = i := by rw [BitVec.toNat_ofNat, Nat.mod_eq_of_lt hi]
  simp only [seedAt, this]

/-- The seed of a word writes this word. -/
theorem seedAt_word (slot : SlotId) (lane : Lane) (r : Reg) :
    (seedAt B a c slot (lane * 32 + r.toNat)).lane = lane ∧
      (seedAt B a c slot (lane * 32 + r.toNat)).reg = r := by
  have hr := r.isLt
  have hlane := lane.isLt
  set seed := seedAt B a c slot (lane * 32 + r.toNat) with hseed
  have hflat : seed.flatI.toNat = lane * 32 + r.toNat := by
    rw [hseed, seedAt, BitVec.toNat_ofNat, Nat.mod_eq_of_lt (by omega)]
  have hword := seed.flatI_toNat
  have hreg := seed.reg.isLt
  refine ⟨Fin.ext (by omega), BitVec.eq_of_toNat_eq (by omega)⟩

theorem IsSeed.value_eq {seed seed' : RegSeed} (h : IsSeed B a c seed) (h' : IsSeed B a c seed')
    (hs : seed'.slotId = seed.slotId) (hi : seed'.flatI = seed.flatI) :
    seed'.value = seed.value := by
  rw [h.2, h'.2, hs, hi]

/-- The seed of an iteration of the loader. -/
theorem seedOf_eq {slot i : ℕ} (hslot : slot < 16) (c : Fin B.numCus) :
    ProgramLoader.seedOf B a c slot i =
      if (B.plain a).localWarp c (BitVec.ofNat 4 slot) < a.totalWarps.toNat then
        some (seedAt B a c (BitVec.ofNat 4 slot) i)
      else none := by
  have hs : (BitVec.ofNat 4 slot).toNat = slot := by rw [BitVec.toNat_ofNat, Nat.mod_eq_of_lt hslot]
  have hN := B.numCus_le
  have hc := c.isLt
  have hle : slot * B.numCus ≤ 15 * 8 := Nat.mul_le_mul (by omega) hN
  have hlocal : BitVec.ofNat 32 c + BitVec.ofNat 32 slot * BitVec.ofNat 32 B.numCus =
      BitVec.ofNat 32 ((B.plain a).localWarp c (BitVec.ofNat 4 slot)) := by
    rw [localWarp, hs]
    apply BitVec.eq_of_toNat_eq
    simp only [BitVec.toNat_add, BitVec.toNat_mul, BitVec.toNat_ofNat]
    rw [Nat.mod_eq_of_lt (a := slot) (by omega), Nat.mod_eq_of_lt (a := B.numCus) (by omega),
      Nat.mod_eq_of_lt (a := (c : ℕ)) (by omega),
      Nat.mod_eq_of_lt (a := slot * B.numCus) (by omega)]
  have hlt : (BitVec.ofNat 32 ((B.plain a).localWarp c (BitVec.ofNat 4 slot)) < a.totalWarps) =
      ((B.plain a).localWarp c (BitVec.ofNat 4 slot) < a.totalWarps.toNat) := by
    have := (B.plain a).localWarp_lt c (BitVec.ofNat 4 slot)
    rw [BitVec.lt_def, BitVec.toNat_ofNat, Nat.mod_eq_of_lt (by omega)]
  unfold ProgramLoader.seedOf
  dsimp only
  rw [hlocal]
  simp only [hlt]
  split
  · rw [seedAt, warpIdOf, Nat.mul_assoc]
  · rfl

end Seeds

/-! ## Events -/

section Events

variable {N : ℕ} (c : Fin N)

def FlatEvent.seedSentTo : FlatEvent → Option RegSeed
  | seedSent c' seed => if c' = c then some seed else none
  | _ => none

def FlatEvent.seedAppliedAt : FlatEvent → Option RegSeed
  | seedApplied c' seed => if c' = c then some seed else none
  | _ => none

def FlatEvent.isTokenSent : FlatEvent → Bool
  | tokenSent c' => decide (c' = c)
  | _ => false

def FlatEvent.isTokenTaken : FlatEvent → Bool
  | tokenTaken c' => decide (c' = c)
  | _ => false

def FlatEvent.beganSlot : FlatEvent → Option SlotId
  | began c' d _ _ => if c' = c then some d.slotId else none
  | _ => none

def seedsSent (ev : List FlatEvent) : List RegSeed := ev.filterMap (FlatEvent.seedSentTo c)
def seedsApplied (ev : List FlatEvent) : List RegSeed := ev.filterMap (FlatEvent.seedAppliedAt c)
def tokensSent (ev : List FlatEvent) : ℕ := ev.countP (FlatEvent.isTokenSent c)
def tokensTaken (ev : List FlatEvent) : ℕ := ev.countP (FlatEvent.isTokenTaken c)

/-- The slots of the warps that have begun, one for each dispatch. -/
def begunSlots (ev : List FlatEvent) : List SlotId := ev.filterMap (FlatEvent.beganSlot c)

@[simp] theorem seedsSent_append (ev ev' : List FlatEvent) :
    seedsSent c (ev ++ ev') = seedsSent c ev ++ seedsSent c ev' := List.filterMap_append

@[simp] theorem seedsApplied_append (ev ev' : List FlatEvent) :
    seedsApplied c (ev ++ ev') = seedsApplied c ev ++ seedsApplied c ev' := List.filterMap_append

@[simp] theorem tokensSent_append (ev ev' : List FlatEvent) :
    tokensSent c (ev ++ ev') = tokensSent c ev + tokensSent c ev' := List.countP_append

@[simp] theorem tokensTaken_append (ev ev' : List FlatEvent) :
    tokensTaken c (ev ++ ev') = tokensTaken c ev + tokensTaken c ev' := List.countP_append

@[simp] theorem begunSlots_append (ev ev' : List FlatEvent) :
    begunSlots c (ev ++ ev') = begunSlots c ev ++ begunSlots c ev' := List.filterMap_append

theorem mem_begunSlots {d : WarpDispatch} {program : ProgramStore} {regs : RegFile}
    {ev : List FlatEvent} (h : FlatEvent.began c d program regs ∈ ev) :
    d.slotId ∈ begunSlots c ev :=
  List.mem_filterMap.2 ⟨_, h, by simp [FlatEvent.beganSlot]⟩

theorem mem_of_seedsApplied {seed : RegSeed} {ev : List FlatEvent} (h : seed ∈ seedsApplied c ev) :
    FlatEvent.seedApplied c seed ∈ ev := by
  obtain ⟨e, he, hseed⟩ := List.mem_filterMap.1 h
  cases e with
  | seedApplied c' seed' =>
    simp only [FlatEvent.seedAppliedAt, Option.ite_none_right_eq_some, Option.some.injEq] at hseed
    obtain ⟨rfl, rfl⟩ := hseed
    exact he
  | _ => exact absurd hseed (by simp [FlatEvent.seedAppliedAt])

/-- Events that the seeds of a CU are not about. -/
structure Unseeding (ev : List FlatEvent) : Prop where
  sent : seedsSent c ev = []
  applied : seedsApplied c ev = []
  begun : begunSlots c ev = []

/-- Events that neither send nor take a seed or a token of the CU. -/
structure Unloading (ev : List FlatEvent) : Prop extends Unseeding c ev where
  tokensSent : tokensSent c ev = 0
  tokensTaken : tokensTaken c ev = 0

theorem Unloading.append {ev ev' : List FlatEvent} (h : Unloading c ev) (h' : Unloading c ev') :
    Unloading c (ev ++ ev') where
  sent := by rw [seedsSent_append, h.sent, h'.sent, List.append_nil]
  applied := by rw [seedsApplied_append, h.applied, h'.applied, List.append_nil]
  begun := by rw [begunSlots_append, h.begun, h'.begun, List.append_nil]
  tokensSent := by rw [tokensSent_append, h.tokensSent, h'.tokensSent]
  tokensTaken := by rw [tokensTaken_append, h.tokensTaken, h'.tokensTaken]

theorem Unloading.nil : Unloading c [] := ⟨⟨rfl, rfl, rfl⟩, rfl, rfl⟩

theorem Unloading.warp (ev : List Event) : Unloading c (ev.map .warp) := by
  induction ev with
  | nil => exact .nil c
  | cons e ev ih =>
    have he : Unloading c [.warp e] := ⟨⟨rfl, rfl, rfl⟩, rfl, rfl⟩
    exact he.append c ih

theorem Unloading.mem (ev : List MemEvent) : Unloading c (ev.map .mem) := by
  induction ev with
  | nil => exact .nil c
  | cons e ev ih =>
    have he : Unloading c [.mem e] := ⟨⟨rfl, rfl, rfl⟩, rfl, rfl⟩
    exact he.append c ih

end Events

/-! ## The seeds of a CU -/

/-- The warp the pipeline has begun. -/
def Pipeline.current : Pipeline → Option WarpDispatch
  | idle => none
  | running d _ => some d
  | waiting d _ => some d

/-- The seed stream `seeds` of a CU, its slots and its registers in a launch with events `ev`. -/
structure CuSeeds (B : Build) (a : LaunchArgs) (c : Fin B.numCus) (taken : Bool) (cu : Cu)
    (seeds : List RegSeed) (ev : List FlatEvent) : Prop where
  queue : seedsSent c ev = seedsApplied c ev ++ seeds
  right : ∀ seed ∈ seedsSent c ev, IsSeed B a c seed
  regs : ∀ seed ∈ seedsApplied c ev, seed.slotId ∉ begunSlots c ev →
    cu.regs seed.slotId seed.lane seed.reg = seed.value
  begunTaken : ∀ slot ∈ begunSlots c ev, taken = true
  noSeed : ∀ slot ∈ begunSlots c ev, ∀ seed ∈ seeds, seed.slotId ≠ slot
  current : ∀ d, cu.pipeline.current = some d → d.slotId ∈ begunSlots c ev
  status : ∀ st ∈ cu.status, st.slotId ∈ begunSlots c ev
  done : taken = true → ∀ slot, (B.plain a).Resident c slot →
    (cu.scheduler.slots slot).state = .done → slot ∈ begunSlots c ev
  fresh : taken = true → ∀ slot, (B.plain a).Resident c slot →
    (cu.scheduler.slots slot).fresh = true → slot ∉ begunSlots c ev
  dispatch : ∀ d ∈ cu.dispatch, (cu.scheduler.slots d.slotId).fresh = false ∧
    (d.freshLaunch = true → d.slotId ∉ begunSlots c ev)

section CuSeeds

variable {B : Build} {a : LaunchArgs} {c : Fin B.numCus} {taken : Bool} {cu cu' : Cu}
  {seeds : List RegSeed} {ev ev' : List FlatEvent}

theorem CuSeeds.append (h : CuSeeds B a c taken cu seeds ev) (hev : Unseeding c ev') :
    CuSeeds B a c taken cu seeds (ev ++ ev') := by
  obtain ⟨h1, h2, h3⟩ := hev
  have hs : seedsSent c (ev ++ ev') = seedsSent c ev := by
    rw [seedsSent_append, h1, List.append_nil]
  have ha : seedsApplied c (ev ++ ev') = seedsApplied c ev := by
    rw [seedsApplied_append, h2, List.append_nil]
  have hb : begunSlots c (ev ++ ev') = begunSlots c ev := by
    rw [begunSlots_append, h3, List.append_nil]
  exact ⟨by rw [hs, ha]; exact h.queue, by rw [hs]; exact h.right, by rw [ha, hb]; exact h.regs,
    by rw [hb]; exact h.begunTaken, by rw [hb]; exact h.noSeed, by rw [hb]; exact h.current,
    by rw [hb]; exact h.status, by rw [hb]; exact h.done, by rw [hb]; exact h.fresh,
    by rw [hb]; exact h.dispatch⟩

/-- Tokens, events, signals and memory streams do not matter. -/
theorem CuSeeds.congr (h : CuSeeds B a c taken cu seeds ev) (hr : cu'.regs = cu.regs)
    (hp : cu'.pipeline.current = cu.pipeline.current) (hs : cu'.status = cu.status)
    (hslots : cu'.scheduler.slots = cu.scheduler.slots) (hd : cu'.dispatch = cu.dispatch) :
    CuSeeds B a c taken cu' seeds ev where
  queue := h.queue
  right := h.right
  regs := by rw [hr]; exact h.regs
  begunTaken := h.begunTaken
  noSeed := h.noSeed
  current := by rw [hp]; exact h.current
  status := by rw [hs]; exact h.status
  done := by rw [hslots]; exact h.done
  fresh := by rw [hslots]; exact h.fresh
  dispatch := by rw [hd, hslots]; exact h.dispatch

theorem CuSeeds.setLoaded (h : CuSeeds B a c taken cu seeds ev) (loaded : ℕ) :
    CuSeeds B a c taken { cu with loaded := loaded } seeds ev := h.congr rfl rfl rfl rfl rfl

/-- The loader writes a seed, before the CU has its token. -/
theorem CuSeeds.send (h : CuSeeds B a c taken cu seeds ev) {seed : RegSeed}
    (hseed : IsSeed B a c seed) (ht : taken = false) :
    CuSeeds B a c taken cu (seeds ++ [seed]) (ev ++ [.seedSent c seed]) := by
  have hs : seedsSent c (ev ++ [.seedSent c seed]) = seedsSent c ev ++ [seed] := by
    simp [seedsSent, FlatEvent.seedSentTo]
  have ha : seedsApplied c (ev ++ [.seedSent c seed]) = seedsApplied c ev := by
    simp [seedsApplied, FlatEvent.seedAppliedAt]
  have hb : begunSlots c (ev ++ [.seedSent c seed]) = begunSlots c ev := by
    simp [begunSlots, FlatEvent.beganSlot]
  have hnone (slot : SlotId) : slot ∉ begunSlots c ev := fun hmem =>
    absurd (ht.symm.trans (h.begunTaken slot hmem)) (by simp)
  refine ⟨by rw [hs, ha, h.queue, List.append_assoc], fun seed' hmem => ?_,
    by rw [ha, hb]; exact h.regs, by rw [hb]; exact h.begunTaken, fun slot hmem => ?_,
    by rw [hb]; exact h.current, by rw [hb]; exact h.status, by rw [hb]; exact h.done,
    by rw [hb]; exact h.fresh, by rw [hb]; exact h.dispatch⟩
  · rw [hs] at hmem
    obtain hmem | hmem := List.mem_append.1 hmem
    · exact h.right seed' hmem
    · rwa [List.mem_singleton.1 hmem]
  · rw [hb] at hmem
    exact absurd hmem (hnone slot)

/-- The pipeline applies the next seed. -/
theorem CuSeeds.apply {seed : RegSeed} (h : CuSeeds B a c taken cu (seed :: seeds) ev) :
    CuSeeds B a c taken { cu with regs := Top.applySeed cu.regs seed } seeds
      (ev ++ [.seedApplied c seed]) := by
  have hs : seedsSent c (ev ++ [.seedApplied c seed]) = seedsSent c ev := by
    simp [seedsSent, FlatEvent.seedSentTo]
  have ha : seedsApplied c (ev ++ [.seedApplied c seed]) = seedsApplied c ev ++ [seed] := by
    simp [seedsApplied, FlatEvent.seedAppliedAt]
  have hb : begunSlots c (ev ++ [.seedApplied c seed]) = begunSlots c ev := by
    simp [begunSlots, FlatEvent.beganSlot]
  have hmem (seed' : RegSeed) (h' : seed' ∈ seedsApplied c ev ++ [seed]) :
      IsSeed B a c seed' := by
    refine h.right seed' ?_
    rw [h.queue]
    obtain h' | h' := List.mem_append.1 h'
    · exact List.mem_append_left _ h'
    · rw [List.mem_singleton.1 h']
      exact List.mem_append_right _ List.mem_cons_self
  refine ⟨by rw [hs, ha, h.queue, List.append_assoc, List.singleton_append],
    by rw [hs]; exact h.right,
    fun seed' hseed' hnot => ?_, by rw [hb]; exact h.begunTaken, fun slot hslot seed' hseed' => ?_,
    by rw [hb]; exact h.current, by rw [hb]; exact h.status, by rw [hb]; exact h.done,
    by rw [hb]; exact h.fresh, by rw [hb]; exact h.dispatch⟩
  · rw [ha] at hseed'
    rw [hb] at hnot
    dsimp only
    by_cases hsame : seed'.slotId = seed.slotId ∧ seed'.flatI = seed.flatI
    · -- both are the seed of this word
      have hv := (hmem seed (by simp)).value_eq (hmem seed' hseed') hsame.1 hsame.2
      have heq : seed' = seed := by
        cases seed
        cases seed'
        simp only at hsame hv
        rw [hsame.1, hsame.2, hv]
      rw [heq]
      exact applySeed_self _ _
    · rw [applySeed_of_ne _ fun h1 h2 => hsame ⟨h1, h2⟩]
      obtain hseed' | hseed' := List.mem_append.1 hseed'
      · exact h.regs seed' hseed' hnot
      · exact absurd (List.mem_singleton.1 hseed') fun heq => hsame ⟨by rw [heq], by rw [heq]⟩
  · rw [hb] at hslot
    exact h.noSeed slot hslot seed' (List.mem_cons_of_mem _ hseed')

/-- The pipeline begins the dispatch of the stream. -/
theorem CuSeeds.begin (h : CuSeeds B a c taken cu seeds ev) {d : WarpDispatch}
    {p : Interact MemReq MemResp WarpResult} (hd : cu.dispatch = [d]) (ht : taken = true)
    (hfree : ∀ seed ∈ seeds, seed.slotId ≠ d.slotId) (program : ProgramStore) (regs : RegFile) :
    CuSeeds B a c taken { cu with dispatch := [], pipeline := .running d p } seeds
      (ev ++ [.began c d program regs]) := by
  have hs : seedsSent c (ev ++ [.began c d program regs]) = seedsSent c ev := by
    simp [seedsSent, FlatEvent.seedSentTo]
  have ha : seedsApplied c (ev ++ [.began c d program regs]) = seedsApplied c ev := by
    simp [seedsApplied, FlatEvent.seedAppliedAt]
  have hb (slot : SlotId) : slot ∈ begunSlots c (ev ++ [.began c d program regs]) ↔
      slot ∈ begunSlots c ev ∨ slot = d.slotId := by
    simp [begunSlots, FlatEvent.beganSlot]
  have hold := (h.dispatch d (by rw [hd]; exact List.mem_singleton_self _)).1
  refine ⟨by rw [hs, ha]; exact h.queue, by rw [hs]; exact h.right, fun seed hmem hnot => ?_,
    fun _ _ => ht, fun slot hslot seed hseed => ?_, fun d' hd' => ?_, fun st hst => ?_,
    fun ht slot hres hdone => ?_, fun ht slot hres hfresh hslot => ?_, by simp⟩
  · rw [ha] at hmem
    exact h.regs seed hmem fun h' => hnot ((hb _).2 (.inl h'))
  · obtain hslot | rfl := (hb slot).1 hslot
    · exact h.noSeed slot hslot seed hseed
    · exact hfree seed hseed
  · obtain rfl := Option.some.inj hd'
    exact (hb _).2 (.inr rfl)
  · exact (hb _).2 (.inl (h.status st hst))
  · exact (hb _).2 (.inl (h.done ht slot hres hdone))
  · obtain hslot | rfl := (hb slot).1 hslot
    · exact h.fresh ht slot hres hfresh hslot
    · exact absurd (hold.symm.trans hfresh) (by simp)

/-- The slots change, but no other warp is done and none is fresh again. -/
theorem CuSeeds.setSlots (h : CuSeeds B a c taken cu seeds ev) (hr : cu'.regs = cu.regs)
    (hp : cu'.pipeline.current = cu.pipeline.current) (hs : ∀ st ∈ cu'.status, st ∈ cu.status)
    (hd : cu'.dispatch = cu.dispatch)
    (hdone : ∀ slot, (cu'.scheduler.slots slot).state = .done →
      (cu.scheduler.slots slot).state = .done ∨ slot ∈ begunSlots c ev)
    (hfresh : ∀ slot, (cu'.scheduler.slots slot).fresh = (cu.scheduler.slots slot).fresh) :
    CuSeeds B a c taken cu' seeds ev where
  queue := h.queue
  right := h.right
  regs := by rw [hr]; exact h.regs
  begunTaken := h.begunTaken
  noSeed := h.noSeed
  current := by rw [hp]; exact h.current
  status st hst := h.status st (hs st hst)
  done ht slot hres hst := by
    obtain hst | hmem := hdone slot hst
    · exact h.done ht slot hres hst
    · exact hmem
  fresh ht slot hres hf := h.fresh ht slot hres ((hfresh slot).symm.trans hf)
  dispatch d hmem := by
    rw [hd] at hmem
    rw [hfresh]
    exact h.dispatch d hmem

theorem CuSeeds.dispatchRound {store : ProgramStore} {e : List Event}
    {seen : ℕ} {job : Option SlotId} {tr : List Event} (h : CuSeeds B a c taken cu seeds ev)
    (hl : CuLaunch (B.plain a) c taken seen job tr cu)
    (hs : cu.dispatchRound (B.launch a store) = some (cu', e)) :
    CuSeeds B a c taken cu' seeds ev := by
  unfold Cu.dispatchRound at hs
  dsimp only at hs
  split at hs
  · next hgo =>
    simp only [Bool.and_eq_true, Bool.not_eq_true', bne_iff_ne] at hgo
    obtain ⟨queue, hq, heq⟩ := Option.map_eq_some_iff.1 hs
    obtain ⟨rfl, rfl⟩ := Prod.mk.inj heq
    obtain rfl := push_eq_some hq
    obtain ⟨hlt, hready⟩ := nextReadySlot_ready hgo.2
    set slot := nextReadySlot B.toGpuSize cu.scheduler.slots with hslot
    have hres : taken = true ∧ (B.plain a).Resident c slot := by
      by_contra hnot
      refine (hl.others slot hlt ?_).1 hready
      rw [not_and_or, Bool.not_eq_true] at hnot
      exact hnot
    have hslots (s : SlotId) (hs : s ≠ slot) :
        (buildDispatch cu.scheduler.slots slot).2 s = cu.scheduler.slots s := by
      simp [buildDispatch, hs]
    have hself : ((buildDispatch cu.scheduler.slots slot).2 slot).fresh = false ∧
        ((buildDispatch cu.scheduler.slots slot).2 slot).state = .ready := by
      simp [buildDispatch, hready]
    refine ⟨h.queue, h.right, h.regs, h.begunTaken, h.noSeed, h.current, h.status,
      fun ht s hr hdone => ?_, fun ht s hr hfresh => ?_, fun d hd => ?_⟩
    · by_cases hs : s = slot
      · rw [hs] at hdone
        exact absurd (hself.2.symm.trans hdone) (by decide)
      · dsimp only at hdone
        rw [hslots s hs] at hdone
        exact h.done ht s hr hdone
    · by_cases hs : s = slot
      · rw [hs] at hfresh
        exact absurd (hself.1.symm.trans hfresh) (by decide)
      · dsimp only at hfresh
        rw [hslots s hs] at hfresh
        exact h.fresh ht s hr hfresh
    · obtain hd | hd := List.mem_append.1 hd
      · refine ⟨?_, (h.dispatch d hd).2⟩
        by_cases hs : d.slotId = slot
        · rw [hs]
          exact hself.1
        · dsimp only
          rw [hslots _ hs]
          exact (h.dispatch d hd).1
      · obtain rfl := List.mem_singleton.1 hd
        exact ⟨hself.1, fun hf => h.fresh hres.1 slot hres.2 hf⟩
  · obtain ⟨rfl, -⟩ := Prod.mk.inj (Option.some.inj hs)
    exact h.congr rfl rfl rfl rfl rfl

theorem CuSeeds.readStatus (h : CuSeeds B a c taken cu seeds ev) :
    CuSeeds B a c taken cu.readStatus seeds ev := by
  unfold Cu.readStatus
  split
  · exact h.congr rfl rfl rfl rfl rfl
  · next st rest hst =>
    have hmem : st ∈ cu.status := by rw [hst]; exact List.mem_cons_self
    refine h.setSlots rfl rfl (fun st' h' => ?_) rfl (fun slot hdone => ?_) fun slot => ?_
    · rw [hst]
      exact List.mem_cons_of_mem _ h'
    · by_cases hs : slot = st.slotId
      · rw [hs]
        exact .inr (h.status st hmem)
      · simp only [recordResult, Function.update_of_ne hs] at hdone
        exact .inl hdone
    · by_cases hs : slot = st.slotId
      · subst hs
        simp only [recordResult, Function.update_self]
        unfold slotWithResult
        split <;> rfl
      · simp [recordResult, hs]

theorem releaseBarrierSlots_slot (G : GpuSize) (slots : Slots) (slot : SlotId) :
    ((releaseBarrierSlots G slots slot).state = .done → (slots slot).state = .done) ∧
      (releaseBarrierSlots G slots slot).fresh = (slots slot).fresh := by
  unfold releaseBarrierSlots releasedSlot
  split
  · split
    · exact ⟨fun h => absurd h (by simp), rfl⟩
    · exact ⟨id, rfl⟩
  · exact ⟨id, rfl⟩

theorem CuSeeds.readSignal {L : Launch} (h : CuSeeds B a c taken cu seeds ev) :
    CuSeeds B a c taken (cu.readSignal L) seeds ev := by
  unfold Cu.readSignal
  split
  · exact h.congr rfl rfl rfl rfl rfl
  · refine h.setSlots rfl rfl (fun _ => id) rfl (fun slot hdone => ?_) fun slot => ?_
    · dsimp only at hdone
      split at hdone
      · exact .inl ((releaseBarrierSlots_slot _ _ _).1 hdone)
      · exact .inl hdone
    · dsimp only
      split
      · exact (releaseBarrierSlots_slot _ _ _).2
      · rfl

/-- The CU takes its token and fills its slots. -/
theorem CuSeeds.launch {n : ℕ} {seen : ℕ} {job : Option SlotId} {tr : List Event}
    (h : CuSeeds B a c false cu seeds ev) (hl : CuLaunch (B.plain a) c false seen job tr cu) :
    CuSeeds B a c true { cu with
      loaded := n
      scheduler := ⟨.head, launchSlots B.toGpuSize cu.scheduler.slots (cuId (L := B.plain a) c)
        a.totalWarps a.warpIdOffset, true, false⟩ } seeds ev := by
  have hnone (slot : SlotId) : slot ∉ begunSlots c ev := fun hmem =>
    absurd (h.begunTaken slot hmem) (by simp)
  have hdisp : cu.dispatch = [] := by
    cases hl.flight with
    | nothing hd => exact hd
    | queued => exact absurd (hl.jobReady _ rfl).1 (by simp)
    | running => exact absurd (hl.jobReady _ rfl).1 (by simp)
    | waiting => exact absurd (hl.jobReady _ rfl).1 (by simp)
    | reported => exact absurd (hl.jobReady _ rfl).1 (by simp)
  refine ⟨h.queue, h.right, h.regs, fun _ _ => rfl, h.noSeed, h.current, h.status,
    fun _ slot hres hdone => ?_, fun _ slot _ _ => hnone slot, by simp [hdisp]⟩
  have hslot := launchSlots_eq (L := B.plain a) c cu.scheduler.slots slot
  rw [if_pos hres.1, if_pos hres] at hslot
  dsimp only at hdone
  rw [hslot] at hdone
  exact absurd hdone (by simp)

/-- A step of the scheduler. -/
theorem CuSeeds.scheduler {start : Bool} {store : ProgramStore} {seen : ℕ} {job : Option SlotId}
    {tr e : List Event} (h : CuSeeds B a c taken cu seeds ev)
    (hl : CuLaunch (B.plain a) c taken seen job tr cu) (htoken : 0 < cu.loaded → taken = false)
    (hs : cu.schedulerStep (B.launch a store) c start = some (cu', e)) :
    (cu'.loaded = cu.loaded ∧ CuSeeds B a c taken cu' seeds ev) ∨
      (cu'.loaded + 1 = cu.loaded ∧ CuSeeds B a c true cu' seeds ev) := by
  unfold Cu.schedulerStep at hs
  dsimp only at hs
  split at hs
  · split at hs
    · refine .inl ⟨?_, h.dispatchRound hl hs⟩
      unfold Cu.dispatchRound at hs
      dsimp only at hs
      split at hs
      · obtain ⟨queue, -, heq⟩ := Option.map_eq_some_iff.1 hs
        obtain ⟨rfl, -⟩ := Prod.mk.inj heq
        rfl
      · obtain ⟨rfl, -⟩ := Prod.mk.inj (Option.some.inj hs)
        rfl
    · split at hs <;> obtain ⟨rfl, -⟩ := Prod.mk.inj (Option.some.inj hs)
      · exact .inl ⟨rfl, h.congr rfl rfl rfl rfl rfl⟩
      · exact .inl ⟨rfl, h⟩
  · split at hs
    · obtain ⟨rfl, -⟩ := Prod.mk.inj (Option.some.inj hs)
      exact .inl ⟨rfl, h.congr rfl rfl rfl rfl rfl⟩
    · next n hn =>
      obtain ⟨rfl, -⟩ := Prod.mk.inj (Option.some.inj hs)
      obtain rfl := htoken (by omega)
      exact .inr ⟨hn.symm, h.launch hl⟩
  · obtain ⟨rfl, -⟩ := Prod.mk.inj (Option.some.inj hs)
    refine .inl ⟨?_, h.readStatus⟩
    unfold Cu.readStatus
    split <;> rfl
  · obtain ⟨queue, -, heq⟩ := Option.map_eq_some_iff.1 hs
    obtain ⟨rfl, -⟩ := Prod.mk.inj heq
    exact .inl ⟨rfl, h.congr rfl rfl rfl rfl rfl⟩
  · obtain ⟨rfl, -⟩ := Prod.mk.inj (Option.some.inj hs)
    refine .inl ⟨?_, h.readSignal⟩
    unfold Cu.readSignal
    split <;> rfl

/-- A step of the pipeline on a warp, or without one. -/
theorem CuSeeds.work {L : Launch} {c' : L.Cus} {e : List Event}
    (h : CuSeeds B a c taken cu seeds ev)
    (hidle : cu.pipeline = .idle → cu.dispatch = []) (hs : cu.pipelineStep L c' = some (cu', e)) :
    CuSeeds B a c taken cu' seeds ev := by
  unfold Cu.pipelineStep at hs
  split at hs
  · next hp =>
    rw [hidle hp] at hs
    obtain ⟨rfl, -⟩ := Prod.mk.inj (Option.some.inj hs)
    exact h
  · next d req k hp =>
    obtain ⟨queue, -, heq⟩ := Option.map_eq_some_iff.1 hs
    obtain ⟨rfl, -⟩ := Prod.mk.inj heq
    exact h.congr rfl (by rw [hp]; rfl) rfl rfl rfl
  · next d result hp =>
    obtain ⟨queue, hq, heq⟩ := Option.map_eq_some_iff.1 hs
    obtain ⟨rfl, -⟩ := Prod.mk.inj heq
    obtain rfl := push_eq_some hq
    have hbegun : d.slotId ∈ begunSlots c ev := h.current d (by rw [hp]; rfl)
    refine ⟨h.queue, h.right, fun seed hmem hnot => ?_, h.begunTaken, h.noSeed,
      by simp [Pipeline.current],
      fun st hst => ?_, h.done, h.fresh, h.dispatch⟩
    · -- only the registers of a warp that has begun are written
      have hne : seed.slotId ≠ d.slotId := fun heq => hnot (heq ▸ hbegun)
      dsimp only [Cu.setRegs]
      rw [Function.update_of_ne hne]
      exact h.regs seed hmem hnot
    · obtain hst | hst := List.mem_append.1 hst
      · exact h.status st hst
      · rw [List.mem_singleton.1 hst]
        exact hbegun
  · next d k hp =>
    split at hs
    · exact absurd hs (by simp)
    · obtain ⟨rfl, -⟩ := Prod.mk.inj (Option.some.inj hs)
      exact h.congr rfl (by rw [hp]; rfl) rfl rfl rfl

end CuSeeds

end RiscvGpgpu.Hls
