import RiscvGpgpu.Ptx.MemoryAccess

/-!
# When the memory accesses are right

The emitter knows one width and one place for all variables in shared memory. So the accesses of a
kernel are right exactly for words in the registers of their class, at offsets that can be encoded,
and with one shared variable at most.
-/

namespace RiscvGpgpu.Ptx

open Asm (Line Machine Fpu run accessed)
open RvEmitter

/-- An access to a word in a register of its class, at an offset that can be encoded. -/
structure MemInstr.Fits (i : MemInstr) : Prop where
  word : i.type.isWord = true
  float : i.float = decide (i.type = .f32)
  offset : Asm.fitsImm12 i.offset = true

section Instruction

variable {s s' : RvEmitter} {fpu : Fpu} {m : Machine} {place : List Char → Rv32.Word} {i : MemInstr}

/-- A machine on which registers of the two classes, and memory, differ. -/
def probe : Machine := ⟨fun _ => 0, fun _ => 1, fun _ => 1, .rne⟩

theorem probe_get (r : Rv32.Reg) : probe.get r = 0 := by
  unfold Machine.get
  split_ifs <;> rfl

theorem encodable_accessLine {access : Access} {float : Bool} {value base : Rv32.Reg} {offset : ℤ} :
    (MemInstr.accessLine access float value base offset).encodable = Asm.fitsImm12 offset := by
  cases access <;> cases float <;> rfl

theorem encodable_lines (h : Asm.fitsImm12 i.offset = true) :
    ∀ l ∈ i.lines s, l.encodable = true := by
  intro l hl
  rcases List.mem_append.1 hl with hbase | haccess
  · cases haddress : i.address with
    | global base =>
      rw [haddress] at hbase
      exact absurd hbase List.not_mem_nil
    | shared base =>
      rw [haddress] at hbase
      rcases List.mem_pair.1 hbase with rfl | rfl <;> rfl
    | symbol name =>
      rw [haddress] at hbase
      rw [List.mem_singleton.1 hbase]
      rfl
  · rw [List.mem_singleton.1 haccess, encodable_accessLine]
    exact h

theorem fitsImm12_of_encodable (h : ∀ l ∈ i.lines s, l.encodable = true) :
    Asm.fitsImm12 i.offset = true := by
  have hlast := h _ (List.mem_append_right _ (List.mem_singleton_self _))
  rwa [encodable_accessLine] at hlast

/-- The variables lie where the emitter looks for them. -/
theorem value_home (h : ∀ name, i.address = .symbol name → place name = 0x00400000) :
    i.address.value place s m = i.address.value home s m := by
  cases haddress : i.address with
  | global base => rfl
  | shared base => rfl
  | symbol name => exact h name haddress

theorem start_home (h : ∀ name, i.address = .symbol name → place name = 0x00400000) :
    i.start place s m = i.start home s m := by
  rw [MemInstr.start, value_home h]
  rfl

theorem correct_of_fits (hs : s.Allocated) (heq : emitInstr i.instr s = some s')
    (herr : s'.error = []) (hfits : i.Fits)
    (hplace : ∀ name, i.address = .symbol name → place name = 0x00400000) :
    i.Correct place s' s := by
  obtain ⟨hs', hbase, hvalue, hout⟩ := i.emitInstr_spec hs heq herr
  have hsize : i.type.loadOp.size = 4 := congrArg Rv32.LoadOp.size (of_decide_eq_true hfits.word)
  rw [← hfits.float] at hvalue
  refine ⟨hbase, hvalue, i.lines s', hout, encodable_lines hfits.offset, fun fpu m => ⟨?_, ?_⟩⟩
  · rw [accessed_lines hs' hbase, MemInstr.bytes, hsize, start_home hplace]
  · have hafter : i.After home s' m (run fpu (i.lines s') m) :=
      after_lines hs' hbase hvalue hfits.word hfits.float
    unfold MemInstr.After at hafter ⊢
    rw [start_home hplace]
    exact hafter

theorem isWord_of_size {type : MemType} (h : type.loadOp.size = 4) : type.isWord = true := by
  revert h
  cases type <;> decide

/-- The value that a load finds in the memory of `probe`. -/
theorem read_probe (a : Rv32.Word) : Rv32.LoadOp.lw.read probe.mem a = 0x01010101 := by
  show (1#8 ++ 1#8 ++ 1#8 ++ 1#8 : BitVec 32) = 0x01010101
  decide

/-- Stores of the values of the two classes leave different bytes. -/
theorem write_probe_ne (a : Rv32.Word) :
    probe.mem.write a (Rv32.StoreOp.sw.bytes 0) ≠ probe.mem.write a (Rv32.StoreOp.sw.bytes 1) := by
  intro heq
  have hbyte := congrFun heq a
  unfold Rv32.Mem.write at hbyte
  rw [BitVec.sub_self] at hbyte
  have hlow : (0#32).extractLsb' 0 8 = (1#32).extractLsb' 0 8 := hbyte
  exact absurd hlow (by decide)

/-- On the other class of register, the lines leave something else on some machine. -/
theorem float_of_after (hs : s.Allocated) (hnamed : HasValue s i.float i.name)
    (hvalue : HasValue s (decide (i.type = .f32)) i.name) (hword : i.type.isWord = true)
    (hbase : ∀ base, i.address.base = some base → s.HasInt base)
    (hstart : i.start place s probe = i.start home s probe)
    (hafter : i.After place s probe (run fpu (i.lines s) probe)) :
    i.float = decide (i.type = .f32) := by
  have hload : i.type.loadOp = .lw := of_decide_eq_true hword
  have hstore : i.type.storeOp = .sw := MemType.storeOp_of_isWord hword
  have hframe : OnlyT6 probe (run fpu (MemInstr.baseLines s i.address) probe) := onlyT6_baseLines
  have haddress : (run fpu (MemInstr.baseLines s i.address) probe).address
      (MemInstr.baseReg s i.address) i.offset = i.start home s probe := by
    rw [Machine.address, get_baseReg hs hbase]
    rfl
  rw [run_lines] at hafter
  generalize run fpu (MemInstr.baseLines s i.address) probe = m₁ at hframe haddress hafter
  unfold MemInstr.After MemInstr.value at hafter
  rw [hload, hstore, hstart, ← haddress] at hafter
  unfold HasValue at hnamed hvalue
  cases hclass : i.float with
  | true =>
    cases htype : decide (i.type = .f32) with
    | true => rfl
    | false =>
      rw [htype, if_neg Bool.false_ne_true] at hvalue
      rw [hclass, htype] at hafter
      cases haccess : i.access with
      | ld =>
        rw [haccess] at hafter
        have hload := hafter.1
        simp only [MemInstr.accessLine, Line.exec, if_true, Machine.set_f, hframe.f] at hload
        have hone : (1 : Rv32.Word) = 0x01010101 := hload.trans (read_probe _)
        exact absurd hone (by decide)
      | st =>
        rw [haccess] at hafter
        have hstore := hafter.1
        simp only [MemInstr.accessLine, valueReg, Line.exec, Bool.false_eq_true, if_true, if_false,
          hframe.mem, hframe.get _ (hs.intReg_ne_t6 hvalue), probe_get] at hstore
        exact absurd hstore (write_probe_ne _)
  | false =>
    cases htype : decide (i.type = .f32) with
    | true =>
      rw [hclass, if_neg Bool.false_ne_true] at hnamed
      rw [hclass, htype] at hafter
      cases haccess : i.access with
      | ld =>
        rw [haccess] at hafter
        have hload := hafter.1
        simp only [MemInstr.accessLine, Line.exec, Bool.false_eq_true, if_false, Machine.get_setF,
          hframe.get _ (hs.intReg_ne_t6 hnamed), probe_get] at hload
        have hzero : (0 : Rv32.Word) = 0x01010101 := hload.trans (read_probe _)
        exact absurd hzero (by decide)
      | st =>
        rw [haccess] at hafter
        have hstore := hafter.1
        simp only [MemInstr.accessLine, valueReg, Line.exec, Bool.false_eq_true, if_true, if_false,
          hframe.mem, hframe.f, probe_get] at hstore
        exact absurd hstore.symm (write_probe_ne _)
    | false => rfl

theorem fits_of_correct (hs : s.Allocated) (heq : emitInstr i.instr s = some s')
    (herr : s'.error = []) (h : i.Correct place s' s) :
    i.Fits ∧ ∀ name, i.address = .symbol name → place name = 0x00400000 := by
  obtain ⟨hs', hbase, hvalue, hout⟩ := i.emitInstr_spec hs heq herr
  obtain ⟨-, hnamed, ls, hout', hencodable, hall⟩ := h
  obtain rfl : ls = i.lines s' := List.append_cancel_left (hout'.symm.trans hout)
  obtain ⟨hbytes, hafter⟩ := hall default probe
  rw [accessed_lines hs' hbase, MemInstr.bytes] at hbytes
  have hsize : i.type.loadOp.size = 4 := by
    simpa using (congrArg List.length hbytes).symm
  have hword : i.type.isWord = true := isWord_of_size hsize
  rw [hsize] at hbytes
  have hstart := (BitVec.add_left_inj _).1 (List.map_inj_left.1 hbytes 0 (by decide))
  have hfloat := float_of_after hs' hnamed hvalue hword hbase hstart.symm hafter
  refine ⟨⟨hword, hfloat, fitsImm12_of_encodable hencodable⟩, fun name haddress => ?_⟩
  have hplace := (BitVec.add_left_inj _).1 hstart
  rw [haddress] at hplace
  exact hplace.symm

/-- The lines for an instruction that is accepted are right exactly if it fits and its variable lies
where they look for it. -/
theorem correct_iff_fits (hs : s.Allocated) (heq : emitInstr i.instr s = some s')
    (herr : s'.error = []) :
    i.Correct place s' s ↔
      i.Fits ∧ ∀ name, i.address = .symbol name → place name = 0x00400000 :=
  ⟨fits_of_correct hs heq herr, fun h => correct_of_fits hs heq herr h.1 h.2⟩

end Instruction

/-- The base leaves room for the value. -/
theorem room_emitBase (address : Address) : (emitBase {} address).2.Room 1 := by
  have hroom : ({} : RvEmitter).Room 2 := ⟨rfl, by decide, by decide⟩
  have hroom' : (({} : RvEmitter).write (.li t6 0x00400000)).Room 2 := ⟨rfl, by decide, by decide⟩
  cases address with
  | global base => exact hroom.ireg base
  | shared base =>
    unfold emitBase emitSharedBase
    dsimp only
    split_ifs
    · exact ⟨rfl, by decide, by decide⟩
    · have hbase := hroom'.ireg base
      exact ⟨hbase.no_error, hbase.ints, hbase.floats⟩
  | symbol name =>
    exact ⟨rfl, (by decide : 0 + 1 ≤ kIRegs.length), (by decide : 0 + 1 ≤ kFRegs.length)⟩

/-- An emitter that gave out no register accepts every access. -/
theorem MemInstr.exists_accepted (i : MemInstr) :
    ∃ s', emitInstr i.instr {} = some s' ∧ s'.error = [] :=
  ⟨_, i.emitInstr_eq, ((room_emitBase i.address).emitValue _ _).no_error⟩

/-! ## Kernels -/

/-- Variables in shared memory with their sizes, and the accesses of a kernel that declares them.
The variables fit in the memory. -/
structure MemKernel where
  names : List (List Char)
  size : List Char → ℕ
  instrs : List MemInstr
  fits : Packing.total size names ≤ 2 ^ 32
  declared : ∀ i ∈ instrs, ∀ name, i.address = .symbol name → name ∈ names

namespace MemKernel

/-- Every variable has its own storage. -/
def Disjoint (k : MemKernel) (place : List Char → Rv32.Word) : Prop :=
  ∀ n ∈ k.names, ∀ n' ∈ k.names, n ≠ n' → ∀ j < k.size n, ∀ j' < k.size n',
    place n + BitVec.ofNat 32 j ≠ place n' + BitVec.ofNat 32 j'

/-- With some storage for the variables, the lines of every access that is accepted are right. -/
def Correct (k : MemKernel) : Prop :=
  ∃ place, k.Disjoint place ∧ ∀ i ∈ k.instrs, ∀ s s', s.Allocated →
    emitInstr i.instr s = some s' → s'.error = [] → i.Correct place s' s

/-- The accesses name one variable that is not empty at most. -/
def OneVariable (k : MemKernel) : Prop :=
  ∀ i ∈ k.instrs, ∀ i' ∈ k.instrs, ∀ n n', i.address = .symbol n → i'.address = .symbol n' →
    0 < k.size n → 0 < k.size n' → n = n'

/-- The variables one behind the other, with `n₀` where the emitter looks for it. -/
def layout (k : MemKernel) (n₀ name : List Char) : Rv32.Word :=
  if k.size name = 0 then 0x00400000
  else 0x00400000 + (BitVec.ofNat 32 (Packing.before k.size k.names name) -
    BitVec.ofNat 32 (Packing.before k.size k.names n₀))

theorem disjoint_layout (k : MemKernel) (n₀ : List Char) : k.Disjoint (k.layout n₀) := by
  intro n hn n' hn' hne j hj j' hj' heq
  have hlt := Packing.place_lt hn hj
  have hlt' := Packing.place_lt hn' hj'
  have hplace := Packing.place_ne hn hn' hne hj hj'
  have hfits := k.fits
  rw [layout, layout, if_neg (by omega), if_neg (by omega)] at heq
  bv_omega

theorem layout_self (k : MemKernel) (n₀ : List Char) : k.layout n₀ n₀ = 0x00400000 := by
  unfold layout
  split_ifs
  · rfl
  · rw [BitVec.sub_self]
    rfl

theorem exists_anchor (k : MemKernel) (h : k.OneVariable) :
    ∃ n₀, ∀ i ∈ k.instrs, ∀ name, i.address = .symbol name → k.size name = 0 ∨ name = n₀ := by
  by_cases hsome : ∃ i ∈ k.instrs, ∃ n, i.address = .symbol n ∧ 0 < k.size n
  · obtain ⟨i, hi, n, hn, hsize⟩ := hsome
    refine ⟨n, fun i' hi' n' hn' => ?_⟩
    rcases Nat.eq_zero_or_pos (k.size n') with hzero | hpos
    · exact .inl hzero
    · exact .inr (h i' hi' i hi n' n hn' hn hpos hsize)
  · refine ⟨[], fun i hi name hname => .inl ?_⟩
    by_contra hne
    exact hsome ⟨i, hi, name, hname, Nat.pos_of_ne_zero hne⟩

/-- The accesses of a kernel are right exactly if each of them fits and they share one variable. -/
theorem correct_iff_oneVariable (k : MemKernel) :
    k.Correct ↔ (∀ i ∈ k.instrs, i.Fits) ∧ k.OneVariable := by
  constructor
  · rintro ⟨place, hdisjoint, hcorrect⟩
    have hall : ∀ i ∈ k.instrs,
        i.Fits ∧ ∀ name, i.address = .symbol name → place name = 0x00400000 := by
      intro i hi
      obtain ⟨s', heq, herr⟩ := i.exists_accepted
      exact (correct_iff_fits allocated_default heq herr).1
        (hcorrect i hi {} s' allocated_default heq herr)
    refine ⟨fun i hi => (hall i hi).1, fun i hi i' hi' n n' hn hn' hsize hsize' => ?_⟩
    by_contra hne
    apply hdisjoint n (k.declared i hi n hn) n' (k.declared i' hi' n' hn') hne 0 hsize 0 hsize'
    rw [(hall i hi).2 n hn, (hall i' hi').2 n' hn']
  · rintro ⟨hfits, hone⟩
    obtain ⟨n₀, hn₀⟩ := k.exists_anchor hone
    refine ⟨k.layout n₀, k.disjoint_layout n₀, fun i hi s s' hs heq herr => ?_⟩
    refine correct_of_fits hs heq herr (hfits i hi) fun name hname => ?_
    rcases hn₀ i hi name hname with hzero | rfl
    · exact if_pos hzero
    · exact k.layout_self name

end MemKernel

/-- `ld.global.u8 %r1, [%r2];`. -/
def loadByte : MemInstr where
  access := .ld
  address := .global "r2".toList
  mods := []
  type := .u8
  offset := 0
  float := false
  name := "r1".toList
  based := by decide
  typed := by decide
  plain := by decide
  valid := by decide

/-- The byte is loaded as a word. -/
theorem MemKernel.not_correct_byte : ¬ ∀ k : MemKernel, k.Correct := by
  intro h
  let k : MemKernel := ⟨[], fun _ => 0, [loadByte], by decide, by simp [loadByte]⟩
  obtain ⟨place, -, hcorrect⟩ := h k
  obtain ⟨s', heq, herr⟩ := loadByte.exists_accepted
  have hfits := (fits_of_correct allocated_default heq herr
    (hcorrect loadByte (List.mem_singleton_self _) {} s' allocated_default heq herr)).1
  exact absurd hfits.word (by decide)

end RiscvGpgpu.Ptx
