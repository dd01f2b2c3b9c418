import RiscvGpgpu.Golden.Rv32Values

/-!
# Byte memory

What the memory hierarchy holds as a byte memory over the 32-bit address space
(`MemoryHierarchy.Represents`). The host and the instruction fetch extend an address by zeros, the
loads and stores of the unit by its sign, so below `2^31` they meet at one key and from there on
they do not: a load then finds zeros, and a store is seen by loads only.
-/

namespace RiscvGpgpu.Golden

/-! ## Words and their bytes -/

theorem toNat_and_three {w : ℕ} (hw : 2 ≤ w) (a : BitVec w) : (a &&& 3#w).toNat = a.toNat % 4 := by
  have hlt : 3 < 2 ^ w := lt_of_lt_of_le (by decide : 3 < 2 ^ 2)
    (Nat.pow_le_pow_right (by decide) hw)
  rw [BitVec.toNat_and, BitVec.toNat_ofNat, Nat.mod_eq_of_lt hlt]
  exact Nat.and_two_pow_sub_one_eq_mod a.toNat 2

theorem getLsbD_ff (i : ℕ) : (0xFF#32).getLsbD i = decide (i < 8) := by
  have h : (0xFF#32) = (BitVec.allOnes 8).setWidth 32 := rfl
  rw [h, BitVec.getLsbD_setWidth, BitVec.getLsbD_allOnes]
  by_cases hi : i < 8
  · simp [hi, show i < 32 by omega]
  · simp [hi]

/-- Replacing one byte of a word changes that byte only. -/
theorem wordByte_setWordByte (w : Word) (a a' : Address) (b : Byte) :
    wordByte (setWordByte w a b) a' = if a'.toNat % 4 = a.toNat % 4 then b else wordByte w a' := by
  have hlt : a.toNat % 4 < 4 := Nat.mod_lt _ (by decide)
  have hlt' : a'.toNat % 4 < 4 := Nat.mod_lt _ (by decide)
  unfold wordByte setWordByte
  rw [toNat_and_three (by decide), toNat_and_three (by decide)]
  generalize a.toNat % 4 = k at *
  generalize a'.toNat % 4 = k' at *
  refine BitVec.eq_of_getLsbD_eq fun i hi => ?_
  simp only [BitVec.getLsbD_setWidth, BitVec.getLsbD_ushiftRight, BitVec.getLsbD_or,
    BitVec.getLsbD_and, BitVec.getLsbD_not, BitVec.getLsbD_shiftLeft, getLsbD_ff]
  by_cases hk : k' = k
  · subst hk
    simp [hi, show i < 32 by omega, show k' * 8 + i < 32 by omega]
  · rw [if_neg hk, BitVec.getLsbD_setWidth, BitVec.getLsbD_ushiftRight]
    have hout : (!decide (k' * 8 + i < k * 8) && decide (k' * 8 + i - k * 8 < 8)) = false := by
      simp only [Bool.and_eq_false_imp, Bool.not_eq_true', decide_eq_false_iff_not]
      omega
    have hbyte : (!decide (k' * 8 + i < k * 8) &&
        (decide (k' * 8 + i - k * 8 < 32) && b.getLsbD (k' * 8 + i - k * 8))) = false := by
      by_cases hlow : k' * 8 + i < k * 8
      · simp [hlow]
      · rw [BitVec.getLsbD_of_ge b (k' * 8 + i - k * 8) (by omega), Bool.and_false, Bool.and_false]
    rw [decide_eq_true (by omega : k' * 8 + i < 32), Bool.true_and, Bool.true_and, hbyte, hout,
      Bool.not_false, Bool.and_true, Bool.or_false]

theorem wordOfBytes_eq_append (b₀ b₁ b₂ b₃ : Byte) :
    wordOfBytes b₀ b₁ b₂ b₃ = b₃ ++ b₂ ++ b₁ ++ b₀ := by
  refine BitVec.eq_of_getLsbD_eq fun i hi => ?_
  unfold wordOfBytes
  simp only [BitVec.getLsbD_or, BitVec.getLsbD_shiftLeft, BitVec.getLsbD_setWidth,
    BitVec.getLsbD_append]
  interval_cases i <;> simp

/-- A word is its four bytes, at any aligned address. -/
theorem append_wordByte (w : Word) {a : Address} (ha : a.toNat % 4 = 0) :
    wordByte w (a + 3) ++ wordByte w (a + 2) ++ wordByte w (a + 1) ++ wordByte w a = w := by
  have hk : ∀ k : ℕ, k < 4 → ((a + BitVec.ofNat 64 k) &&& 3#64).toNat = k := by
    intro k hk
    rw [toNat_and_three (by decide), BitVec.toNat_add, BitVec.toNat_ofNat]
    omega
  have h0 : (a &&& 3#64).toNat = 0 := by rw [toNat_and_three (by decide), ha]
  unfold wordByte
  rw [show a + 3 = a + BitVec.ofNat 64 3 from rfl, show a + 2 = a + BitVec.ofNat 64 2 from rfl,
    show a + 1 = a + BitVec.ofNat 64 1 from rfl, hk 3 (by decide), hk 2 (by decide),
    hk 1 (by decide), h0]
  refine BitVec.eq_of_getLsbD_eq fun i hi => ?_
  simp only [BitVec.getLsbD_append, BitVec.getLsbD_setWidth, BitVec.getLsbD_ushiftRight]
  interval_cases i <;> simp

theorem toNat_alignAddress (a : Address) : (alignAddress a).toNat = a.toNat / 4 * 4 :=
  toNat_and_not_three a

theorem alignAddress_of_aligned {a : Address} (ha : a.toNat % 4 = 0) : alignAddress a = a := by
  apply BitVec.eq_of_toNat_eq
  rw [toNat_alignAddress]
  omega

namespace MemoryHierarchy

variable {h : MemoryHierarchy}

/-- One byte of the global memory is written. -/
theorem globalByte_writeByte (h : MemoryHierarchy) (a a' : Address) (b : Byte) :
    (h.writeByte a b).globalByte a' = if a' = a then b else h.globalByte a' := by
  have hiff : a' = a ↔ alignAddress a' = alignAddress a ∧ a'.toNat % 4 = a.toNat % 4 := by
    constructor
    · rintro rfl
      exact ⟨rfl, rfl⟩
    · rintro ⟨halign, hlow⟩
      have hnat := congrArg BitVec.toNat halign
      rw [toNat_alignAddress, toNat_alignAddress] at hnat
      exact BitVec.eq_of_toNat_eq (by omega)
  unfold globalByte globalWord writeByte
  dsimp only
  rw [Function.update_apply]
  by_cases halign : alignAddress a' = alignAddress a
  · rw [if_pos halign, Option.getD_some, wordByte_setWordByte, halign]
    exact if_congr (by simp [hiff, halign]) rfl rfl
  · rw [if_neg halign, if_neg fun heq => halign (hiff.1 heq).1]

/-- A word of the global memory is written. -/
theorem globalByte_update {a : Address} (ha : a.toNat % 4 = 0) (data : Word) (a' : Address) :
    wordByte (((Function.update h.globalMemory a (some data)) (alignAddress a')).getD 0) a' =
      ([data.extractLsb' 0 8, data.extractLsb' 8 8, data.extractLsb' 16 8,
        data.extractLsb' 24 8] : List Byte).getD (a' - a).toNat (h.globalByte a') := by
  have hsub : (a' - a).toNat = (2 ^ 64 - a.toNat + a'.toNat) % 2 ^ 64 := BitVec.toNat_sub _ _
  have hnat := toNat_alignAddress a'
  rw [Function.update_apply]
  by_cases halign : alignAddress a' = a
  · have hlow : (a' - a).toNat = a'.toNat % 4 := by
      rw [halign] at hnat
      omega
    rw [if_pos halign, Option.getD_some, hlow]
    unfold wordByte
    rw [toNat_and_three (by decide)]
    have hlt : a'.toNat % 4 < 4 := Nat.mod_lt _ (by decide)
    generalize a'.toNat % 4 = k at hlt
    interval_cases k <;>
    · refine BitVec.eq_of_getLsbD_eq fun i hi => ?_
      simp [hi]
  · have hfar : 4 ≤ (a' - a).toNat := by
      by_contra hlt
      refine halign (BitVec.eq_of_toNat_eq ?_)
      omega
    rw [if_neg halign, List.getD_eq_default _ _ (by simpa using hfar)]
    rfl

/-! ## The 32-bit address space -/

/-- The shared window, in the 32-bit address space. -/
def InWindow (h : MemoryHierarchy) (a : Word) : Prop :=
  sharedMemBase ≤ a.toNat ∧ a.toNat < sharedMemBase + h.sharedMemSize.toNat

instance (h : MemoryHierarchy) (a : Word) : Decidable (h.InWindow a) :=
  inferInstanceAs (Decidable (_ ∧ _))

/-- The byte that the host and the instruction fetch read. -/
def hostByte (h : MemoryHierarchy) (blockId : BlockId) (a : Word) : Byte :=
  (h.readBytes (a.setWidth 64) 1 blockId).getD 0 0

/-- The byte that a load of the unit reads at an effective address. -/
def loadByte (h : MemoryHierarchy) (blockId : BlockId) (a : Word) : Byte :=
  (h.readBytes (a.signExtend 64) 1 blockId).getD 0 0

/-- The hierarchy holds a byte memory over the 32-bit address space, for the host to see. -/
structure Represents (h : MemoryHierarchy) (blockId : BlockId) (m : Rv32.Mem) : Prop where
  coherent : h.Coherent
  bytes : ∀ a, ¬ h.InWindow a → h.hostByte blockId a = m a
  above : ∀ addr : Address, 2 ^ 32 ≤ addr.toNat → h.globalWord addr = 0

theorem toNat_signExtend (a : Word) : (a.signExtend 64).toNat =
    if a.toNat < 2 ^ 31 then a.toNat else a.toNat + (2 ^ 64 - 2 ^ 32) := by
  rw [BitVec.toNat_signExtend, BitVec.toNat_setWidth, BitVec.msb_eq_decide,
    Nat.mod_eq_of_lt (a.isLt.trans (by decide))]
  by_cases h : a.toNat < 2 ^ 31
  · rw [if_pos h, if_neg (by simpa using h), Nat.add_zero]
  · rw [if_neg h, if_pos (by simpa using h)]

theorem toNat_zeroExtend (a : Word) : (a.setWidth 64).toNat = a.toNat := by
  rw [BitVec.toNat_setWidth, Nat.mod_eq_of_lt (a.isLt.trans (by decide))]

theorem isShared_setWidth (h : MemoryHierarchy) {a : Word} (ha : ¬ h.InWindow a) :
    h.isSharedMemoryAddress (a.setWidth 64) = false := by
  unfold isSharedMemoryAddress
  rw [toNat_zeroExtend]
  simpa [InWindow] using ha

theorem isShared_signExtend (h : MemoryHierarchy) {a : Word} (ha : ¬ h.InWindow a) :
    h.isSharedMemoryAddress (a.signExtend 64) = false := by
  have hsize := h.sharedMemSize.isLt
  unfold isSharedMemoryAddress
  rw [toNat_signExtend]
  split
  · simpa [InWindow] using ha
  · next hlt =>
    rw [Bool.and_eq_false_iff]
    right
    rw [decide_eq_false_iff_not, sharedMemBase]
    omega

/-- A read that starts outside the window reads the global memory. -/
theorem readBytes_global {addr : Address} (hs : h.isSharedMemoryAddress addr = false) (n : ℕ)
    (blockId : BlockId) : h.readBytes addr n blockId =
      (List.range n).map fun k => h.globalByte (addr + BitVec.ofNat 64 k) := by
  unfold readBytes
  rw [if_neg (by rw [hs]; exact Bool.false_ne_true)]

theorem hostByte_eq {a : Word} (ha : ¬ h.InWindow a) (blockId : BlockId) :
    h.hostByte blockId a = h.globalByte (a.setWidth 64) := by
  unfold hostByte
  rw [readBytes_global (isShared_setWidth h ha)]
  exact congrArg h.globalByte (BitVec.add_zero _)

theorem loadByte_eq {a : Word} (ha : ¬ h.InWindow a) (blockId : BlockId) :
    h.loadByte blockId a = h.globalByte (a.signExtend 64) := by
  unfold loadByte
  rw [readBytes_global (isShared_signExtend h ha)]
  exact congrArg h.globalByte (BitVec.add_zero _)

/-- Above the address space there are zeros. -/
theorem Represents.globalByte_above {blockId : BlockId} {m : Rv32.Mem}
    (hrep : h.Represents blockId m) {addr : Address} (ha : 2 ^ 32 ≤ addr.toNat) :
    h.globalByte addr = 0 := by
  have habove : 2 ^ 32 ≤ (alignAddress addr).toNat := by
    rw [toNat_alignAddress]
    omega
  unfold globalByte
  rw [hrep.above _ habove]
  show BitVec.setWidth 8 (0#32 >>> ((addr &&& 3#64).toNat * 8)) = 0
  rw [BitVec.zero_ushiftRight]
  rfl

/-- Byte `k` of an access at effective address `ea` lies in the upper half of the address space,
below its end. -/
def Negative (ea : Word) (k : ℕ) : Prop := 2 ^ 31 ≤ ea.toNat ∧ ea.toNat + k < 2 ^ 32

instance (ea : Word) (k : ℕ) : Decidable (Negative ea k) := inferInstanceAs (Decidable (_ ∧ _))

theorem toNat_key (ea : Word) {k : ℕ} (hk : k < 4) : (ea.signExtend 64 + BitVec.ofNat 64 k).toNat =
    if Negative ea k then ea.toNat + k + (2 ^ 64 - 2 ^ 32)
    else if ea.toNat < 2 ^ 31 then ea.toNat + k else ea.toNat + k - 2 ^ 32 := by
  have hea := ea.isLt
  rw [BitVec.toNat_add, BitVec.toNat_ofNat, toNat_signExtend]
  unfold Negative
  split <;> split <;> omega

/-- A byte the unit reads: in the upper half it finds zero. -/
theorem Represents.globalByte_key {blockId : BlockId} {m : Rv32.Mem} (hrep : h.Represents blockId m)
    {ea : Word} {k : ℕ} (hk : k < 4) (ha : ¬ h.InWindow (ea + BitVec.ofNat 32 k)) :
    h.globalByte (ea.signExtend 64 + BitVec.ofNat 64 k) =
      if Negative ea k then 0 else m (ea + BitVec.ofNat 32 k) := by
  have hkey := toNat_key ea hk
  by_cases hneg : Negative ea k
  · rw [if_pos hneg] at hkey ⊢
    exact hrep.globalByte_above (by rw [hkey]; omega)
  · rw [if_neg hneg] at hkey ⊢
    rw [← hrep.bytes _ ha, hostByte_eq ha]
    congr 1
    apply BitVec.eq_of_toNat_eq
    rw [hkey, toNat_zeroExtend, BitVec.toNat_add, BitVec.toNat_ofNat]
    unfold Negative at hneg
    have hea := ea.isLt
    split <;> omega

/-- How far behind `b` an address lies. -/
theorem toNat_sub_eq_iff {w : ℕ} (a b : BitVec w) {k : ℕ} (hk : k < 2 ^ w) :
    (a - b).toNat = k ↔ a = b + BitVec.ofNat w k := by
  constructor
  · rintro rfl
    rw [BitVec.ofNat_toNat, BitVec.setWidth_eq]
    grind
  · rintro rfl
    have hsub : b + BitVec.ofNat w k - b = BitVec.ofNat w k := by grind
    rw [hsub, BitVec.toNat_ofNat, Nat.mod_eq_of_lt hk]

/-- The bytes written from `b` on, at one of them. -/
theorem getD_sub_hit {w : ℕ} (bs : List Byte) (b : BitVec w) {k : ℕ} (hk : k < bs.length)
    (hlt : k < 2 ^ w) (old : Byte) :
    bs.getD (b + BitVec.ofNat w k - b).toNat old = bs.getD k 0 := by
  rw [(toNat_sub_eq_iff _ b hlt).2 rfl, List.getD_eq_getElem _ _ hk, List.getD_eq_getElem _ _ hk]

theorem getD_sub_miss {w : ℕ} {bs : List Byte} {a b : BitVec w}
    (h : ∀ k < bs.length, a ≠ b + BitVec.ofNat w k) (old : Byte) :
    bs.getD (a - b).toNat old = old := by
  refine List.getD_eq_default _ _ ?_
  by_contra hlt
  exact h _ (not_le.1 hlt) ((toNat_sub_eq_iff a b (a - b).isLt).1 rfl)

/-! ## Loads -/

theorem halfword_eq (b₀ b₁ : Byte) : b₀.setWidth 16 ||| (b₁.setWidth 16 <<< 8) = b₁ ++ b₀ := by
  refine BitVec.eq_of_getLsbD_eq fun i hi => ?_
  simp only [BitVec.getLsbD_or, BitVec.getLsbD_shiftLeft, BitVec.getLsbD_setWidth,
    BitVec.getLsbD_append]
  interval_cases i <;> simp

theorem halfword_setWidth (b₀ b₁ : Byte) :
    b₀.setWidth 32 ||| (b₁.setWidth 32 <<< 8) = (b₁ ++ b₀).setWidth 32 := by
  refine BitVec.eq_of_getLsbD_eq fun i hi => ?_
  simp only [BitVec.getLsbD_or, BitVec.getLsbD_shiftLeft, BitVec.getLsbD_setWidth,
    BitVec.getLsbD_append]
  interval_cases i <;> simp

theorem toNat_signExtend_mod (ea : Word) : (ea.signExtend 64).toNat % 4 = ea.toNat % 4 := by
  rw [toNat_signExtend]
  split <;> omega

/-- An aligned word of the global memory is its bytes. -/
theorem globalWord_eq_bytes (h : MemoryHierarchy) {addr : Address} (ha : addr.toNat % 4 = 0) :
    h.globalWord addr = h.globalByte (addr + 3) ++ h.globalByte (addr + 2) ++
      h.globalByte (addr + 1) ++ h.globalByte addr := by
  have halign : ∀ k : ℕ, k < 4 → alignAddress (addr + BitVec.ofNat 64 k) = addr := by
    intro k hk
    apply BitVec.eq_of_toNat_eq
    rw [toNat_alignAddress, BitVec.toNat_add, BitVec.toNat_ofNat]
    omega
  unfold globalByte
  rw [show addr + 3 = addr + BitVec.ofNat 64 3 from rfl, halign 3 (by decide),
    show addr + 2 = addr + BitVec.ofNat 64 2 from rfl, halign 2 (by decide),
    show addr + 1 = addr + BitVec.ofNat 64 1 from rfl, halign 1 (by decide),
    alignAddress_of_aligned ha]
  exact (append_wordByte _ ha).symm

/-- A load computes its value from the bytes it finds under the sign-extended address. -/
theorem loadValue_eq (hc : h.Coherent) (blockId : BlockId) (op : Rv32.LoadOp) {ea : Word}
    (ha : ¬ h.InWindow ea) (hal : op = .lw → ea.toNat % 4 = 0) :
    (loadValue h blockId (ea.signExtend 64) (loadOp op)).1 =
      op.eval (h.globalByte (ea.signExtend 64)) (h.globalByte (ea.signExtend 64 + 1))
        (h.globalByte (ea.signExtend 64 + 2)) (h.globalByte (ea.signExtend 64 + 3)) := by
  have hs := isShared_signExtend h ha
  have h0 : ea.signExtend 64 + BitVec.ofNat 64 0 = ea.signExtend 64 := BitVec.add_zero _
  cases op with
  | lb =>
    show ((h.readBytes _ 1 blockId).getD 0 0).signExtend 32 = _
    rw [readBytes_global hs]
    exact congrArg (fun a => (h.globalByte a).signExtend 32) h0
  | lbu =>
    show ((h.readBytes _ 1 blockId).getD 0 0).setWidth 32 = _
    rw [readBytes_global hs]
    exact congrArg (fun a => (h.globalByte a).setWidth 32) h0
  | lh =>
    show (((h.readBytes _ 2 blockId).getD 0 0).setWidth 16 |||
      (((h.readBytes _ 2 blockId).getD 1 0).setWidth 16 <<< 8)).signExtend 32 = _
    rw [readBytes_global hs, halfword_eq]
    exact congrArg
      (fun a => (h.globalByte (ea.signExtend 64 + 1) ++ h.globalByte a).signExtend 32) h0
  | lhu =>
    show ((h.readBytes _ 2 blockId).getD 0 0).setWidth 32 |||
      (((h.readBytes _ 2 blockId).getD 1 0).setWidth 32 <<< 8) = _
    rw [readBytes_global hs, halfword_setWidth]
    exact congrArg (fun a => (h.globalByte (ea.signExtend 64 + 1) ++ h.globalByte a).setWidth 32) h0
  | lw =>
    have haligned : (ea.signExtend 64).toNat % 4 = 0 := by rw [toNat_signExtend_mod, hal rfl]
    show (h.loadWord (ea.signExtend 64) blockId).1.getD 0 = _
    rw [loadWord_global (by rwa [alignAddress_of_aligned haligned]) hc, Option.getD_some,
      alignAddress_of_aligned haligned]
    exact globalWord_eq_bytes h haligned

/-- A load changes the caches only. -/
theorem loadValue_frame (h : MemoryHierarchy) (blockId : BlockId) (addr : Address)
    (op : RV32Instr.Op) :
    (loadValue h blockId addr op).2.globalMemory = h.globalMemory ∧
      (loadValue h blockId addr op).2.sharedMemory = h.sharedMemory ∧
      (loadValue h blockId addr op).2.sharedMemSize = h.sharedMemSize := by
  unfold loadValue
  split
  · exact loadWord_frame h addr blockId
  all_goals exact ⟨rfl, rfl, rfl⟩

theorem Coherent.loadValue (hc : h.Coherent) (blockId : BlockId) (addr : Address)
    (op : RV32Instr.Op) : (Golden.loadValue h blockId addr op).2.Coherent := by
  unfold Golden.loadValue
  split
  · exact hc.loadWord addr blockId
  all_goals exact hc

/-! ## A hierarchy for every byte memory -/

/-- A byte memory in the words of a hierarchy with empty caches. -/
def ofBytes (sharedMemSize : BitVec 32) (m : Rv32.Mem) : MemoryHierarchy where
  sharedMemSize := sharedMemSize
  sharedMemory := fun _ => none
  globalMemory := fun addr =>
    if addr.toNat < 2 ^ 32 then
      some (m (addr.setWidth 32 + 3) ++ m (addr.setWidth 32 + 2) ++ m (addr.setWidth 32 + 1) ++
        m (addr.setWidth 32))
    else none
  l1Cache := fun _ => none
  l2Cache := fun _ => none
  l1Hits := 0
  l1Misses := 0
  l2Hits := 0
  l2Misses := 0

theorem globalByte_ofBytes (sharedMemSize : BitVec 32) (m : Rv32.Mem) (a : Word) :
    (ofBytes sharedMemSize m).globalByte (a.setWidth 64) = m a := by
  have hlt := a.isLt
  have halign : (alignAddress (a.setWidth 64)).toNat = a.toNat / 4 * 4 := by
    rw [toNat_alignAddress, toNat_zeroExtend]
  have hlow : (a.setWidth 64 &&& 3#64).toNat = a.toNat % 4 := by
    rw [toNat_and_three (by decide), toNat_zeroExtend]
  unfold globalByte globalWord ofBytes
  dsimp only
  rw [if_pos (by omega), Option.getD_some]
  have hbase : ∀ k : ℕ, a.toNat % 4 = k →
      (alignAddress (a.setWidth 64)).setWidth 32 + BitVec.ofNat 32 k = a := by
    intro k hk
    apply BitVec.eq_of_toNat_eq
    rw [BitVec.toNat_add, BitVec.toNat_setWidth, BitVec.toNat_ofNat, halign]
    omega
  generalize (alignAddress (a.setWidth 64)).setWidth 32 = b at hbase ⊢
  unfold wordByte
  rw [hlow]
  have hk : a.toNat % 4 < 4 := Nat.mod_lt _ (by decide)
  generalize a.toNat % 4 = k at hbase hk
  rw [← hbase k rfl]
  interval_cases k
  all_goals
    refine BitVec.eq_of_getLsbD_eq fun i hi => ?_
    simp only [BitVec.getLsbD_setWidth, BitVec.getLsbD_ushiftRight, BitVec.getLsbD_append, hi,
      decide_true, Bool.true_and]
  · simp [hi]
  · simp [show ¬ 8 + i < 8 by omega, show 8 + i - 8 = i by omega, hi]
  · simp [show ¬ 16 + i < 8 by omega, show ¬ 16 + i - 8 < 8 by omega,
      show 16 + i - 8 - 8 = i by omega, hi]
  · simp [show ¬ 24 + i < 8 by omega, show ¬ 24 + i - 8 < 8 by omega,
      show ¬ 24 + i - 8 - 8 < 8 by omega, show 24 + i - 8 - 8 - 8 = i by omega]

/-- Every byte memory is held by some hierarchy. -/
theorem represents_ofBytes (sharedMemSize : BitVec 32) (m : Rv32.Mem) (blockId : BlockId) :
    (ofBytes sharedMemSize m).Represents blockId m where
  coherent := coherent_invalidateCache (ofBytes sharedMemSize m)
  bytes := fun a ha => by rw [hostByte_eq ha, globalByte_ofBytes]
  above := fun addr ha => by
    unfold globalWord ofBytes
    dsimp only
    rw [if_neg (by omega)]
    rfl

/-! ## Stores -/

/-- A byte write takes the word out of the caches. -/
theorem Coherent.writeByte (hc : h.Coherent) (addr : Address) (b : Byte) :
    (h.writeByte addr b).Coherent := by
  constructor
  · intro a data hd
    simp only [MemoryHierarchy.writeByte, globalWord, Function.update_apply] at hd ⊢
    split at hd
    · exact absurd hd (by simp)
    · next hne =>
      rw [if_neg hne]
      exact hc.l1 a data hd
  · intro a data hd
    simp only [MemoryHierarchy.writeByte, globalWord, Function.update_apply] at hd ⊢
    split at hd
    · exact absurd hd (by simp)
    · next hne =>
      rw [if_neg hne]
      exact hc.l2 a data hd

theorem Coherent.writeGlobalBytes (hc : h.Coherent) (addr : Address) (bs : List Byte) :
    (h.writeGlobalBytes addr bs).Coherent := by
  induction bs generalizing h addr with
  | nil => exact hc
  | cons b bs ih => exact ih (hc.writeByte addr b) (addr + 1)

theorem writeGlobalBytes_frame (h : MemoryHierarchy) (addr : Address) (bs : List Byte) :
    (h.writeGlobalBytes addr bs).sharedMemory = h.sharedMemory ∧
      (h.writeGlobalBytes addr bs).sharedMemSize = h.sharedMemSize := by
  induction bs generalizing h addr with
  | nil => exact ⟨rfl, rfl⟩
  | cons b bs ih => exact ih (h.writeByte addr b) (addr + 1)

/-- The bytes of a store outside the window land from its sign-extended address on. -/
theorem globalByte_storeValue (h : MemoryHierarchy) (blockId : BlockId) (op : Rv32.StoreOp)
    (v ea : Word) (ha : ¬ h.InWindow ea) (hal : op = .sw → ea.toNat % 4 = 0) (addr : Address) :
    (storeValue h blockId (ea.signExtend 64) (storeOp op) v).globalByte addr =
      (op.bytes v).getD (addr - ea.signExtend 64).toNat (h.globalByte addr) := by
  have hs := isShared_signExtend h ha
  have hb0 : v.setWidth 8 = v.extractLsb' 0 8 := by
    refine BitVec.eq_of_getLsbD_eq fun i hi => ?_
    simp [hi]
  have hb1 : (v >>> 8).setWidth 8 = v.extractLsb' 8 8 := by
    refine BitVec.eq_of_getLsbD_eq fun i hi => ?_
    simp [hi]
  generalize hA : ea.signExtend 64 = A at hs ⊢
  have h0 : (addr - A).toNat = 0 ↔ addr = A + BitVec.ofNat 64 0 :=
    toNat_sub_eq_iff addr A (by decide)
  have h1 : (addr - A).toNat = 1 ↔ addr = A + 1 := toNat_sub_eq_iff addr A (by decide)
  rw [BitVec.add_zero] at h0
  cases op with
  | sb =>
    show (h.writeBytes A [v.setWidth 8] blockId).globalByte addr = [v.extractLsb' 0 8].getD _ _
    unfold writeBytes
    rw [if_neg (by rw [hs]; exact Bool.false_ne_true), hb0]
    show (h.writeByte A _).globalByte addr = _
    rw [globalByte_writeByte]
    by_cases heq : addr = A
    · rw [if_pos heq, h0.2 heq]
      rfl
    · have hne : (addr - A).toNat ≠ 0 := fun hz => heq (h0.1 hz)
      rw [if_neg heq, List.getD_eq_default _ _ (by rw [List.length_singleton]; omega)]
  | sh =>
    show (h.writeBytes A [v.setWidth 8, (v >>> 8).setWidth 8] blockId).globalByte addr =
      [v.extractLsb' 0 8, v.extractLsb' 8 8].getD _ _
    unfold writeBytes
    rw [if_neg (by rw [hs]; exact Bool.false_ne_true), hb0, hb1]
    show ((h.writeByte A _).writeByte (A + 1) _).globalByte addr = _
    rw [globalByte_writeByte, globalByte_writeByte]
    by_cases heq1 : addr = A + 1
    · rw [if_pos heq1, h1.2 heq1]
      rfl
    · rw [if_neg heq1]
      by_cases heq : addr = A
      · rw [if_pos heq, h0.2 heq]
        rfl
      · have hne : (addr - A).toNat ≠ 0 := fun hz => heq (h0.1 hz)
        have hne1 : (addr - A).toNat ≠ 1 := fun hz => heq1 (h1.1 hz)
        have hlen : [v.extractLsb' 0 8, v.extractLsb' 8 8].length ≤ (addr - A).toNat := by
          show 2 ≤ _
          omega
        rw [if_neg heq, List.getD_eq_default _ _ hlen]
  | sw =>
    have haligned : A.toNat % 4 = 0 := by rw [← hA, toNat_signExtend_mod, hal rfl]
    show (h.storeWord A v blockId).globalByte addr = _
    rw [storeWord_global (by rwa [alignAddress_of_aligned haligned]),
      alignAddress_of_aligned haligned]
    exact globalByte_update haligned v addr

theorem Coherent.storeValue (hc : h.Coherent) (blockId : BlockId) (op : Rv32.StoreOp)
    {addr : Address} (hs : h.isSharedMemoryAddress addr = false) (v : Word) :
    (Golden.storeValue h blockId addr (storeOp op) v).Coherent := by
  have hbytes : ∀ bs, (h.writeBytes addr bs blockId).Coherent := by
    intro bs
    unfold writeBytes
    rw [if_neg (by rw [hs]; exact Bool.false_ne_true)]
    exact hc.writeGlobalBytes addr bs
  cases op with
  | sb => exact hbytes _
  | sh => exact hbytes _
  | sw => exact hc.storeWord addr v blockId

theorem storeValue_frame (h : MemoryHierarchy) (blockId : BlockId) (op : Rv32.StoreOp)
    {addr : Address} (hs : h.isSharedMemoryAddress addr = false)
    (hal : op = .sw → h.isSharedMemoryAddress (alignAddress addr) = false) (v : Word) :
    (storeValue h blockId addr (storeOp op) v).sharedMemory = h.sharedMemory ∧
      (storeValue h blockId addr (storeOp op) v).sharedMemSize = h.sharedMemSize := by
  have hbytes : ∀ bs, (h.writeBytes addr bs blockId).sharedMemory = h.sharedMemory ∧
      (h.writeBytes addr bs blockId).sharedMemSize = h.sharedMemSize := by
    intro bs
    unfold writeBytes
    rw [if_neg (by rw [hs]; exact Bool.false_ne_true)]
    exact writeGlobalBytes_frame h addr bs
  cases op with
  | sb => exact hbytes _
  | sh => exact hbytes _
  | sw =>
    show (h.storeWord addr v blockId).sharedMemory = _ ∧
      (h.storeWord addr v blockId).sharedMemSize = _
    rw [storeWord_global (hal rfl)]
    exact ⟨rfl, rfl⟩

end MemoryHierarchy

end RiscvGpgpu.Golden
