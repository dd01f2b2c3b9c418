import RiscvGpgpu.Bridge.ElfLoader

/-!
# The reads of the image

`load` once more, with every read of the image made by `fetchBytes`, which fails outside the image,
and with a number of turns for each symbol table. An image is loaded safely if some number of turns
is enough: then `load` ends, and reads inside the image only. `ReadsInside` says when.
-/

namespace RiscvGpgpu.Bridge.ElfLoader

open Golden (Byte MemoryHierarchy)
open Host

/-! ## Loading by checked reads -/

def fetchSegment (image : List Byte) (ph : Elf32ProgramHeader) (mem : MemoryHierarchy) :
    Option MemoryHierarchy := do
  let mem ←
    if ph.pFilesz ≠ 0 ∧ ph.pOffset + ph.pFilesz.toNat ≤ image.length then do
      let data ← fetchBytes image ph.pOffset ph.pFilesz.toNat
      some (mem.writeBytes (ph.pVaddr.setWidth 64) data 0)
    else some mem
  some ((List.range (ph.pMemsz.toNat - ph.pFilesz.toNat)).foldl (fun mem b =>
    mem.writeBytes ((ph.pVaddr + (ph.pFilesz + BitVec.ofNat 32 b)).setWidth 64) [0] 0) mem)

def fetchSegments (image : List Byte) (hdr : Elf32Header) :
    List ℕ → MemoryHierarchy → Option MemoryHierarchy
  | [], mem => some mem
  | i :: is, mem =>
    if intMax < i * hdr.ePhentsize then none
    else
      let off := (hdr.ePhoff + i * hdr.ePhentsize) % 2 ^ 32
      if image.length < off + programHeaderSize then some mem
      else do
        let bytes ← fetchBytes image off programHeaderSize
        let ph := readProgramHeader bytes 0
        if ph.pType ≠ ptLoad ∨ ph.pMemsz = 0 then fetchSegments image hdr is mem
        else do
          let mem ← fetchSegment image ph mem
          fetchSegments image hdr is mem

def fetchSectionHeaders (image : List Byte) (hdr : Elf32Header) :
    List ℕ → Option (List Elf32SectionHeader)
  | [] => some []
  | i :: is =>
    if intMax < i * hdr.eShentsize then none
    else
      let o := hdr.eShoff + i * hdr.eShentsize
      if image.length < o + sectionHeaderSize then
        some (List.replicate (is.length + 1) ⟨0, 0, 0, 0, 0⟩)
      else do
        let bytes ← fetchBytes image o sectionHeaderSize
        let shdrs ← fetchSectionHeaders image hdr is
        some (readSectionHeader bytes 0 :: shdrs)

/-- The loop over a symbol table, if it ends within so many turns. -/
def fetchSymbols (image : List Byte) (symtab strtab : Elf32SectionHeader) (symEnt : BitVec 32) :
    ℕ → BitVec 32 → List SymbolEntry → Option (List SymbolEntry)
  | 0, _, _ => none
  | turns + 1, s, symbols =>
    if symtab.shSize < s + symEnt then some symbols
    else do
      let bytes ← fetchBytes image (symtab.shOffset.toNat + s.toNat) symbolSize
      let symbols ← addSymbol image strtab (readSymbol bytes 0) symbols
      fetchSymbols image symtab strtab symEnt turns (s + symEnt) symbols

/-- `sym_ent`. -/
def symEntOf (symtab : Elf32SectionHeader) : BitVec 32 :=
  if symtab.shEntsize = 0 then BitVec.ofNat 32 symbolSize else symtab.shEntsize

def fetchTables (image : List Byte) (turns : ℕ) (shdrs : List Elf32SectionHeader) :
    List Elf32SectionHeader → List SymbolEntry → Option (List SymbolEntry)
  | [], symbols => some symbols
  | sh :: shs, symbols =>
    if sh.shType ≠ shtSymtab then fetchTables image turns shdrs shs symbols
    else match shdrs[sh.shLink]? with
      | none => fetchTables image turns shdrs shs symbols
      | some strtab => do
        let symbols ← fetchSymbols image sh strtab (symEntOf sh) turns 0 symbols
        fetchTables image turns shdrs shs symbols

/-- `load`; the inner `none` is its `false`. -/
def fetchLoad (turns : ℕ) (image : List Byte) (mem : MemoryHierarchy) :
    Option (Option (ElfLoader × MemoryHierarchy)) :=
  if image.length < elfHeaderSize then some none
  else do
    let magic ← fetchBytes image 0 4
    if magic ≠ elfMagic then some none
    else do
      let elfClass ← fetchBytes image 4 1
      if elfClass ≠ [elfClass32] then some none
      else do
        let bytes ← fetchBytes image 0 elfHeaderSize
        let hdr := readElfHeader bytes
        let mem ← fetchSegments image hdr (List.range hdr.ePhnum) mem
        if hdr.eShoff = 0 ∨ hdr.eShnum = 0 then some (some (⟨hdr.eEntry, []⟩, mem))
        else do
          let shdrs ← fetchSectionHeaders image hdr (List.range hdr.eShnum)
          let symbols ← fetchTables image turns shdrs shdrs []
          some (some (⟨hdr.eEntry, symbols⟩, mem))

/-- `load` ends on this image, and every read it makes is inside. -/
def LoadsSafely (image : List Byte) : Prop :=
  ∀ mem, ∃ turns, (fetchLoad turns image mem).isSome

/-! ## When this succeeds -/

/-- The header numbers for which the products in the loop fit an `int`: the loop stops at the first
header that is not inside the image. -/
def ProductsFit (image : List Byte) (entsize n size : ℕ) (offset : ℕ → ℕ) : Prop :=
  ∀ i < n, (∀ j < i, offset j + size ≤ image.length) → i * entsize ≤ intMax

/-- Where turn `j` of the loop over a symbol table is in the table; the sum is 32 bits wide. -/
def place (symEnt : BitVec 32) (j : ℕ) : BitVec 32 := BitVec.ofNat 32 j * symEnt

/-- The name of the symbol, if the loop comes to read it, ends inside the image. -/
def NameEnds (image : List Byte) (strtab : Elf32SectionHeader) (sym : Elf32Symbol) : Prop :=
  (sym.stInfo % 16 = sttFunc ∨ sym.stInfo % 16 = sttObject ∨
    sym.stInfo % 16 = 0 ∧ sym.stInfo / 16 = stbGlobal) → sym.stValue ≠ 0 →
  strtab.shOffset + sym.stName < strtab.shOffset + strtab.shSize →
  0 ∈ image.drop (strtab.shOffset.toNat + sym.stName.toNat)

/-- The loop over a symbol table ends after `turns` symbols, all of them inside the image. -/
structure WalkInside (image : List Byte) (symtab strtab : Elf32SectionHeader) (turns : ℕ) :
    Prop where
  goes : ∀ j < turns, place (symEntOf symtab) (j + 1) ≤ symtab.shSize
  ends : symtab.shSize < place (symEntOf symtab) (turns + 1)
  inside : ∀ j < turns,
    symtab.shOffset.toNat + (place (symEntOf symtab) j).toNat + symbolSize ≤ image.length
  names : ∀ j < turns, NameEnds image strtab
    (readSymbol image (symtab.shOffset.toNat + (place (symEntOf symtab) j).toNat))

/-- What the header fields have to keep to. -/
structure ReadsInside (image : List Byte) : Prop where
  programHeaders : ProductsFit image (readElfHeader image).ePhentsize (readElfHeader image).ePhnum
    programHeaderSize fun i =>
      ((readElfHeader image).ePhoff + i * (readElfHeader image).ePhentsize) % 2 ^ 32
  sectionHeaders : (readElfHeader image).eShoff ≠ 0 →
    ProductsFit image (readElfHeader image).eShentsize (readElfHeader image).eShnum
      sectionHeaderSize fun i =>
        (readElfHeader image).eShoff + i * (readElfHeader image).eShentsize
  symbolTables : (readElfHeader image).eShoff ≠ 0 →
    ∀ shdrs, readSectionHeaders image (List.range (readElfHeader image).eShnum) = some shdrs →
      ∀ symtab ∈ shdrs, symtab.shType = shtSymtab →
        ∀ strtab, shdrs[symtab.shLink]? = some strtab →
          ∃ turns, WalkInside image symtab strtab turns

/-! ## Fetched bytes -/

theorem readSectionHeader_fetched (image : List Byte) (offset : ℕ) :
    readSectionHeader ((image.drop offset).take sectionHeaderSize) 0 =
      readSectionHeader image offset := by
  unfold readSectionHeader sectionHeaderSize
  simp (disch := omega) only [readLe_fetched]

theorem readSymbol_fetched (image : List Byte) (offset : ℕ) :
    readSymbol ((image.drop offset).take symbolSize) 0 = readSymbol image offset := by
  unfold readSymbol symbolSize
  simp (disch := omega) only [readLe_fetched]
  rfl

theorem fetchSegment_eq (image : List Byte) (ph : Elf32ProgramHeader) (mem : MemoryHierarchy) :
    fetchSegment image ph mem = some (loadSegment image ph mem) := by
  unfold fetchSegment loadSegment
  split_ifs with hdata
  · rw [fetchBytes_of_le hdata.2]
    rfl
  · rfl

theorem fetchSegments_eq (image : List Byte) (is : List ℕ) (mem : MemoryHierarchy) :
    fetchSegments image (readElfHeader image) is mem = loadSegments image is mem := by
  induction is generalizing mem with
  | nil => rfl
  | cons i is ih =>
    unfold fetchSegments loadSegments
    dsimp only
    split_ifs with hfit hinside hskip
    · rfl
    · rfl
    · rw [fetchBytes_of_le (Nat.not_lt.1 hinside), Option.bind_eq_bind, Option.bind_some,
        readProgramHeader_fetched, if_pos hskip]
      exact ih mem
    · rw [fetchBytes_of_le (Nat.not_lt.1 hinside), Option.bind_eq_bind, Option.bind_some,
        readProgramHeader_fetched, if_neg hskip, fetchSegment_eq]
      exact ih _

theorem fetchSectionHeaders_eq (image : List Byte) (is : List ℕ) :
    fetchSectionHeaders image (readElfHeader image) is = readSectionHeaders image is := by
  induction is with
  | nil => rfl
  | cons i is ih =>
    unfold fetchSectionHeaders readSectionHeaders
    dsimp only
    split_ifs with hfit hinside
    · rfl
    · rfl
    · rw [fetchBytes_of_le (Nat.not_lt.1 hinside), ih]
      show (readSectionHeaders image is).bind
        (fun shdrs => some (readSectionHeader _ 0 :: shdrs)) = _
      rw [readSectionHeader_fetched, Option.map_eq_bind]
      rfl

theorem fetchSymbols_eq (image : List Byte) (symtab strtab : Elf32SectionHeader)
    (symEnt : BitVec 32) (turns : ℕ) (s : BitVec 32) (symbols : List SymbolEntry) :
    fetchSymbols image symtab strtab symEnt turns s symbols =
      symbolLoop image symtab strtab symEnt turns s symbols := by
  induction turns generalizing s symbols with
  | zero => rfl
  | succ turns ih =>
    unfold fetchSymbols symbolLoop
    split_ifs with hend hinside
    · rfl
    · rw [fetchBytes_of_lt hinside]
      rfl
    · rw [fetchBytes_of_le (Nat.not_lt.1 hinside)]
      show (addSymbol image strtab (readSymbol _ 0) symbols).bind _ = _
      rw [readSymbol_fetched]
      refine Option.bind_congr ?_
      intro symbols' _
      exact ih _ symbols'

theorem fetch_class {image : List Byte} (h : elfHeaderSize ≤ image.length) :
    ∃ b, fetchBytes image 4 1 = some [b] ∧ image[4]? = some b := by
  have hlt : 4 < image.length := lt_of_lt_of_le (by decide) h
  refine ⟨image[4], ?_, List.getElem?_eq_getElem hlt⟩
  rw [fetchBytes_of_le (show 4 + 1 ≤ image.length from hlt), List.drop_eq_getElem_cons hlt]
  rfl

theorem fetchLoad_of_not_accepts {image : List Byte} (h : acceptsImage image = false) (turns : ℕ)
    (mem : MemoryHierarchy) : fetchLoad turns image mem = some none := by
  unfold fetchLoad
  split_ifs with hsize
  · rfl
  · have hinside : elfHeaderSize ≤ image.length := Nat.not_lt.1 hsize
    obtain ⟨b, hfetch, hb⟩ := fetch_class hinside
    rw [fetchBytes_of_le (n := 4) (le_trans (by decide) hinside), hfetch]
    show (if image.take 4 ≠ elfMagic then _ else if [b] ≠ [elfClass32] then _ else _) = _
    split_ifs with hmagic hclass
    · rfl
    · rfl
    · simp_all [acceptsImage]

theorem fetchLoad_of_accepts {image : List Byte} (h : acceptsImage image = true) (turns : ℕ)
    (mem : MemoryHierarchy) :
    fetchLoad turns image mem =
      (loadSegments image (List.range (readElfHeader image).ePhnum) mem).bind fun mem =>
        if (readElfHeader image).eShoff = 0 ∨ (readElfHeader image).eShnum = 0 then
          some (some (⟨(readElfHeader image).eEntry, []⟩, mem))
        else (readSectionHeaders image (List.range (readElfHeader image).eShnum)).bind fun shdrs =>
          (fetchTables image turns shdrs shdrs []).bind fun symbols =>
            some (some (⟨(readElfHeader image).eEntry, symbols⟩, mem)) := by
  obtain ⟨⟨hsize, hmagic⟩, hclass⟩ : (elfHeaderSize ≤ image.length ∧ image.take 4 = elfMagic) ∧
      image[4]? = some elfClass32 := by simpa [acceptsImage] using h
  obtain ⟨b, hfetch, hb⟩ := fetch_class hsize
  obtain rfl := Option.some.inj (hb.symm.trans hclass)
  unfold fetchLoad
  rw [if_neg (Nat.not_lt.2 hsize), fetchBytes_of_le (n := 4) (le_trans (by decide) hsize), hfetch,
    fetchBytes_of_le (n := elfHeaderSize) (by omega)]
  simp only [Option.bind_eq_bind, Option.bind_some]
  rw [if_neg (show ¬ (image.drop 0).take 4 ≠ elfMagic from not_not.2 hmagic),
    if_neg (not_not.2 rfl), readElfHeader_fetched, fetchSegments_eq]
  refine Option.bind_congr ?_
  intro mem' _
  rw [fetchSectionHeaders_eq]

/-! ## Headers -/

/-- `P` holds of the numbers from `a` on, up to the first one that is not `I`, and of that one. -/
def UpToFirst (I P : ℕ → Prop) (n a : ℕ) : Prop :=
  ∀ i, a ≤ i → i < n → (∀ j, a ≤ j → j < i → I j) → P i

theorem upToFirst_step {I P : ℕ → Prop} {n a : ℕ} (h : a < n) :
    UpToFirst I P n a ↔ P a ∧ (I a → UpToFirst I P n (a + 1)) := by
  constructor
  · intro hall
    refine ⟨hall a le_rfl h fun j haj hja => absurd hja (by omega), ?_⟩
    intro ha i hai hin hbefore
    refine hall i (by omega) hin ?_
    intro j haj hji
    rcases Nat.eq_or_lt_of_le haj with rfl | hlt
    · exact ha
    · exact hbefore j hlt hji
  · rintro ⟨ha, hrest⟩ i hai hin hbefore
    rcases Nat.eq_or_lt_of_le hai with rfl | hlt
    · exact ha
    · exact hrest (hbefore a le_rfl hlt) i hlt hin fun j haj hji => hbefore j (by omega) hji

theorem productsFit_iff (image : List Byte) (entsize n size : ℕ) (offset : ℕ → ℕ) :
    ProductsFit image entsize n size offset ↔
      UpToFirst (fun j => offset j + size ≤ image.length) (fun i => i * entsize ≤ intMax) n 0 :=
  ⟨fun h i _ hin hbefore => h i hin fun j hji => hbefore j (Nat.zero_le j) hji,
    fun h i hin hbefore => h i (Nat.zero_le i) hin fun j _ hji => hbefore j hji⟩

/-- The loop over the program headers, from header `a` on. -/
theorem isSome_loadSegments (image : List Byte) {n a m : ℕ} (h : a + m = n)
    (mem : MemoryHierarchy) :
    (loadSegments image (List.range' a m) mem).isSome ↔
      UpToFirst (fun j => ((readElfHeader image).ePhoff + j * (readElfHeader image).ePhentsize) %
          2 ^ 32 + programHeaderSize ≤ image.length)
        (fun i => i * (readElfHeader image).ePhentsize ≤ intMax) n a := by
  induction m generalizing a mem with
  | zero => exact ⟨fun _ i hai hin => absurd hin (by omega), fun _ => rfl⟩
  | succ m ih =>
    rw [upToFirst_step (by omega), List.range'_succ]
    unfold loadSegments
    dsimp only
    split_ifs with hfit hinside hskip
    · exact iff_of_false Bool.false_ne_true fun h => absurd h.1 (Nat.not_le.2 hfit)
    · refine iff_of_true rfl ⟨Nat.not_lt.1 hfit, fun h => absurd h (Nat.not_le.2 hinside)⟩
    · rw [ih (by omega), and_iff_right (Nat.not_lt.1 hfit),
        forall_prop_of_true (Nat.not_lt.1 hinside)]
    · rw [ih (by omega), and_iff_right (Nat.not_lt.1 hfit),
        forall_prop_of_true (Nat.not_lt.1 hinside)]

theorem isSome_readSectionHeaders (image : List Byte) {n a m : ℕ} (h : a + m = n) :
    (readSectionHeaders image (List.range' a m)).isSome ↔
      UpToFirst (fun j => (readElfHeader image).eShoff + j * (readElfHeader image).eShentsize +
          sectionHeaderSize ≤ image.length)
        (fun i => i * (readElfHeader image).eShentsize ≤ intMax) n a := by
  induction m generalizing a with
  | zero => exact ⟨fun _ i hai hin => absurd hin (by omega), fun _ => rfl⟩
  | succ m ih =>
    rw [upToFirst_step (by omega), List.range'_succ]
    unfold readSectionHeaders
    dsimp only
    split_ifs with hfit hinside
    · exact iff_of_false Bool.false_ne_true fun h => absurd h.1 (Nat.not_le.2 hfit)
    · refine iff_of_true rfl ⟨Nat.not_lt.1 hfit, fun h => absurd h (Nat.not_le.2 hinside)⟩
    · rw [Option.isSome_map, ih (by omega), and_iff_right (Nat.not_lt.1 hfit),
        forall_prop_of_true (Nat.not_lt.1 hinside)]

/-! ## Symbol tables -/

theorem isSome_cString (image : List Byte) (offset : ℕ) :
    (cString image offset).isSome ↔ 0 ∈ image.drop offset := by
  unfold cString
  dsimp only
  split_ifs with hzero
  · exact iff_of_true rfl hzero
  · exact iff_of_false Bool.false_ne_true hzero

theorem isSome_addSymbol (image : List Byte) (strtab : Elf32SectionHeader) (sym : Elf32Symbol)
    (symbols : List SymbolEntry) :
    (addSymbol image strtab sym symbols).isSome ↔ NameEnds image strtab sym := by
  unfold addSymbol NameEnds
  dsimp only
  split_ifs with hkind haddr hname
  · refine iff_of_true rfl ?_
    intro hk
    tauto
  · exact iff_of_true rfl fun _ h => absurd haddr h
  · exact iff_of_true rfl fun _ _ h => absurd h (BitVec.not_lt.2 hname)
  · have hkept : sym.stInfo % 16 = sttFunc ∨ sym.stInfo % 16 = sttObject ∨
        sym.stInfo % 16 = 0 ∧ sym.stInfo / 16 = stbGlobal := by tauto
    rw [forall_prop_of_true hkept, forall_prop_of_true haddr,
      forall_prop_of_true (BitVec.not_le.1 hname), ← isSome_cString]
    cases cString image (strtab.shOffset.toNat + sym.stName.toNat) with
    | none => exact Iff.rfl
    | some name => cases name <;> exact Iff.rfl

theorem place_zero (symEnt : BitVec 32) : place symEnt 0 = 0 := BitVec.zero_mul

theorem place_succ (symEnt : BitVec 32) (j : ℕ) :
    place symEnt (j + 1) = place symEnt j + symEnt := by
  unfold place
  rw [BitVec.ofNat_add, BitVec.add_mul, BitVec.one_mul]

/-- Turn `j` of the loop over a symbol table reads a symbol and goes on. -/
structure TurnInside (image : List Byte) (symtab strtab : Elf32SectionHeader) (j : ℕ) : Prop where
  goes : place (symEntOf symtab) (j + 1) ≤ symtab.shSize
  inside : symtab.shOffset.toNat + (place (symEntOf symtab) j).toNat + symbolSize ≤ image.length
  name : NameEnds image strtab
    (readSymbol image (symtab.shOffset.toNat + (place (symEntOf symtab) j).toNat))

theorem walkInside_iff {image : List Byte} {symtab strtab : Elf32SectionHeader} {n : ℕ} :
    WalkInside image symtab strtab n ↔ (∀ j < n, TurnInside image symtab strtab j) ∧
      symtab.shSize < place (symEntOf symtab) (n + 1) :=
  ⟨fun h => ⟨fun j hj => ⟨h.goes j hj, h.inside j hj, h.names j hj⟩, h.ends⟩,
    fun h => ⟨fun j hj => (h.1 j hj).goes, h.2, fun j hj => (h.1 j hj).inside,
      fun j hj => (h.1 j hj).name⟩⟩

/-- The loop over a symbol table, from turn `a` on. -/
theorem isSome_symbolLoop (image : List Byte) (symtab strtab : Elf32SectionHeader) (turns a : ℕ)
    (symbols : List SymbolEntry) :
    (symbolLoop image symtab strtab (symEntOf symtab) turns (place (symEntOf symtab) a)
        symbols).isSome ↔
      ∃ n, a ≤ n ∧ n < a + turns ∧ (∀ j, a ≤ j → j < n → TurnInside image symtab strtab j) ∧
        symtab.shSize < place (symEntOf symtab) (n + 1) := by
  induction turns generalizing a symbols with
  | zero =>
    refine iff_of_false Bool.false_ne_true ?_
    rintro ⟨n, han, hna, -⟩
    omega
  | succ turns ih =>
    unfold symbolLoop
    rw [← place_succ]
    split_ifs with hend hinside
    · exact iff_of_true rfl ⟨a, le_rfl, by omega, fun j haj hja => absurd hja (by omega), hend⟩
    · refine iff_of_false Bool.false_ne_true ?_
      rintro ⟨n, han, -, hturns, hstop⟩
      rcases Nat.eq_or_lt_of_le han with rfl | hlt
      · exact hend hstop
      · exact absurd (hturns a le_rfl hlt).inside (Nat.not_le.2 hinside)
    · cases hadd : addSymbol image strtab
          (readSymbol image (symtab.shOffset.toNat + (place (symEntOf symtab) a).toNat))
            symbols with
      | none =>
        refine iff_of_false Bool.false_ne_true ?_
        rintro ⟨n, han, -, hturns, hstop⟩
        rcases Nat.eq_or_lt_of_le han with rfl | hlt
        · exact hend hstop
        · have hsome := (isSome_addSymbol image strtab _ symbols).2 (hturns a le_rfl hlt).name
          rw [hadd] at hsome
          exact Bool.false_ne_true hsome
      | some symbols' =>
        have hturn : TurnInside image symtab strtab a :=
          ⟨BitVec.not_lt.1 hend, Nat.not_lt.1 hinside,
            (isSome_addSymbol image strtab _ symbols).1 (by rw [hadd]; rfl)⟩
        rw [Option.bind_some, ih]
        constructor
        · rintro ⟨n, han, hna, hturns, hstop⟩
          refine ⟨n, by omega, by omega, ?_, hstop⟩
          intro j haj hjn
          rcases Nat.eq_or_lt_of_le haj with rfl | hlt
          · exact hturn
          · exact hturns j hlt hjn
        · rintro ⟨n, han, hna, hturns, hstop⟩
          rcases Nat.eq_or_lt_of_le han with rfl | hlt
          · exact absurd hstop hend
          · exact ⟨n, hlt, by omega, fun j haj hjn => hturns j (by omega) hjn, hstop⟩

theorem isSome_fetchSymbols (image : List Byte) (symtab strtab : Elf32SectionHeader) (turns : ℕ)
    (symbols : List SymbolEntry) :
    (fetchSymbols image symtab strtab (symEntOf symtab) turns 0 symbols).isSome ↔
      ∃ n < turns, WalkInside image symtab strtab n := by
  rw [fetchSymbols_eq, ← place_zero (symEntOf symtab), isSome_symbolLoop]
  constructor
  · rintro ⟨n, -, hn, hturns, hstop⟩
    exact ⟨n, by omega, walkInside_iff.2 ⟨fun j hj => hturns j (Nat.zero_le j) hj, hstop⟩⟩
  · rintro ⟨n, hn, hwalk⟩
    obtain ⟨hturns, hstop⟩ := walkInside_iff.1 hwalk
    exact ⟨n, Nat.zero_le n, by omega, fun j _ hj => hturns j hj, hstop⟩

theorem isSome_fetchTables (image : List Byte) (turns : ℕ) (shdrs shs : List Elf32SectionHeader)
    (symbols : List SymbolEntry) :
    (fetchTables image turns shdrs shs symbols).isSome ↔
      ∀ symtab ∈ shs, symtab.shType = shtSymtab → ∀ strtab, shdrs[symtab.shLink]? = some strtab →
        ∃ n < turns, WalkInside image symtab strtab n := by
  induction shs generalizing symbols with
  | nil => exact iff_of_true rfl fun _ h => absurd h List.not_mem_nil
  | cons sh shs ih =>
    unfold fetchTables
    rw [List.forall_mem_cons]
    by_cases htype : sh.shType = shtSymtab
    · rw [if_neg (not_not.2 htype), forall_prop_of_true htype]
      cases hlink : shdrs[sh.shLink]? with
      | none =>
        rw [← ih symbols, and_iff_right]
        intro strtab h
        exact absurd h (by simp)
      | some strtab =>
        have hwalk := isSome_fetchSymbols image sh strtab turns symbols
        cases hloop : fetchSymbols image sh strtab (symEntOf sh) turns 0 symbols with
        | none =>
          rw [hloop] at hwalk
          refine iff_of_false ?_ ?_
          · show ¬ (Option.bind (fetchSymbols _ _ _ _ _ _ _) _).isSome
            rw [hloop]
            exact Bool.false_ne_true
          · rintro ⟨h, -⟩
            exact Bool.false_ne_true (hwalk.2 (h strtab rfl))
        | some symbols' =>
          rw [hloop] at hwalk
          show (Option.bind (fetchSymbols _ _ _ _ _ _ _) _).isSome ↔ _
          rw [hloop, Option.bind_some, ih symbols', and_iff_right]
          intro strtab' h
          obtain rfl := Option.some.inj h
          exact hwalk.1 rfl
    · rw [if_pos htype, ih symbols, and_iff_right]
      intro h
      exact absurd h htype

/-- A number of turns for every table of a list gives one for all. -/
theorem exists_turns {shs : List Elf32SectionHeader} {P : Elf32SectionHeader → ℕ → Prop}
    (h : ∀ sh ∈ shs, ∃ n, P sh n) : ∃ turns, ∀ sh ∈ shs, ∃ n < turns, P sh n := by
  induction shs with
  | nil => exact ⟨0, fun _ hsh => absurd hsh List.not_mem_nil⟩
  | cons sh shs ih =>
    obtain ⟨hsh, hshs⟩ := List.forall_mem_cons.1 h
    obtain ⟨n, hn⟩ := hsh
    obtain ⟨turns, hturns⟩ := ih hshs
    refine ⟨max (n + 1) turns, List.forall_mem_cons.2 ⟨⟨n, by omega, hn⟩, ?_⟩⟩
    intro sh' hsh'
    obtain ⟨m, hm, hP⟩ := hturns sh' hsh'
    exact ⟨m, by omega, hP⟩

theorem exists_turns_symbolTables {image : List Byte} {shdrs : List Elf32SectionHeader}
    (h : ∀ symtab ∈ shdrs, symtab.shType = shtSymtab → ∀ strtab,
      shdrs[symtab.shLink]? = some strtab → ∃ n, WalkInside image symtab strtab n) :
    ∃ turns, ∀ symtab ∈ shdrs, symtab.shType = shtSymtab → ∀ strtab,
      shdrs[symtab.shLink]? = some strtab → ∃ n < turns, WalkInside image symtab strtab n := by
  have hn : ∀ symtab ∈ shdrs, ∃ n, symtab.shType = shtSymtab → ∀ strtab,
      shdrs[symtab.shLink]? = some strtab → WalkInside image symtab strtab n := by
    intro symtab hsymtab
    cases hlink : shdrs[symtab.shLink]? with
    | none => exact ⟨0, fun _ _ heq => absurd heq (by simp)⟩
    | some strtab =>
      by_cases htype : symtab.shType = shtSymtab
      · obtain ⟨n, hwalk⟩ := h symtab hsymtab htype strtab hlink
        exact ⟨n, fun _ _ heq => Option.some.inj heq ▸ hwalk⟩
      · exact ⟨0, fun heq => absurd heq htype⟩
  obtain ⟨turns, hturns⟩ := exists_turns hn
  refine ⟨turns, ?_⟩
  intro symtab hsymtab htype strtab hlink
  obtain ⟨n, hlt, hwalk⟩ := hturns symtab hsymtab
  exact ⟨n, hlt, hwalk htype strtab hlink⟩

/-! ## Safety -/

theorem loadsSafely_of_accepts {image : List Byte} (h : acceptsImage image = true) :
    LoadsSafely image ↔ ReadsInside image := by
  have hph := fun mem => isSome_loadSegments image (a := 0)
    (Nat.zero_add (readElfHeader image).ePhnum) mem
  have hsh := isSome_readSectionHeaders image (a := 0) (Nat.zero_add (readElfHeader image).eShnum)
  simp only [← List.range_eq_range', ← productsFit_iff] at hph hsh
  constructor
  · intro hsafe
    obtain ⟨turns, hturns⟩ := hsafe (.init 0)
    rw [fetchLoad_of_accepts h, Option.isSome_iff_exists] at hturns
    obtain ⟨r, hr⟩ := hturns
    obtain ⟨mem', hmem', hr⟩ := Option.bind_eq_some_iff.1 hr
    refine ⟨(hph _).1 (Option.isSome_of_eq_some hmem'), ?_, ?_⟩
    · intro hoff
      by_cases hnum : (readElfHeader image).eShnum = 0
      · rw [hnum]
        exact fun i hi => absurd hi (Nat.not_lt_zero i)
      · rw [if_neg (not_or.2 ⟨hoff, hnum⟩)] at hr
        obtain ⟨shdrs, hshdrs, -⟩ := Option.bind_eq_some_iff.1 hr
        exact hsh.1 (Option.isSome_of_eq_some hshdrs)
    · intro hoff shdrs hshdrs
      by_cases hnum : (readElfHeader image).eShnum = 0
      · rw [hnum] at hshdrs
        obtain rfl := Option.some.inj hshdrs
        exact fun symtab hsymtab => absurd hsymtab List.not_mem_nil
      · rw [if_neg (not_or.2 ⟨hoff, hnum⟩), hshdrs, Option.bind_some] at hr
        obtain ⟨symbols, hsymbols, -⟩ := Option.bind_eq_some_iff.1 hr
        intro symtab hsymtab htype strtab hlink
        obtain ⟨n, -, hwalk⟩ := (isSome_fetchTables image turns shdrs shdrs []).1
          (Option.isSome_of_eq_some hsymbols) symtab hsymtab htype strtab hlink
        exact ⟨n, hwalk⟩
  · intro hinside mem
    obtain ⟨mem', hmem'⟩ := Option.isSome_iff_exists.1 ((hph mem).2 hinside.programHeaders)
    by_cases hnone : (readElfHeader image).eShoff = 0 ∨ (readElfHeader image).eShnum = 0
    · refine ⟨0, ?_⟩
      rw [fetchLoad_of_accepts h, hmem', Option.bind_some, if_pos hnone, Option.isSome_some]
    · have hoff := (not_or.1 hnone).1
      obtain ⟨shdrs, hshdrs⟩ := Option.isSome_iff_exists.1 (hsh.2 (hinside.sectionHeaders hoff))
      obtain ⟨turns, hturns⟩ := exists_turns_symbolTables (hinside.symbolTables hoff shdrs hshdrs)
      obtain ⟨symbols, hsymbols⟩ := Option.isSome_iff_exists.1
        ((isSome_fetchTables image turns shdrs shdrs []).2 hturns)
      refine ⟨turns, ?_⟩
      rw [fetchLoad_of_accepts h, hmem', Option.bind_some, if_neg hnone, hshdrs,
        Option.bind_some, hsymbols, Option.bind_some, Option.isSome_some]

/-- `load` ends and reads inside the image only, exactly for the images that it turns down and those
whose headers, symbol tables and names keep to the image. -/
theorem loadsSafely_iff (image : List Byte) :
    LoadsSafely image ↔ (acceptsImage image = true → ReadsInside image) := by
  cases h : acceptsImage image with
  | false =>
    refine iff_of_true ?_ fun hfalse => absurd hfalse Bool.false_ne_true
    intro mem
    exact ⟨0, by rw [fetchLoad_of_not_accepts h]; rfl⟩
  | true => rw [loadsSafely_of_accepts h, forall_prop_of_true rfl]

deriving instance DecidableEq for Elf32SectionHeader

/-- An image of two section headers, the first of which says that a symbol table of 16 bytes starts
at 0x1000. -/
def strayTable : List Byte :=
  elfMagic ++ [elfClass32] ++ List.replicate 27 0 ++ [52, 0, 0, 0] ++ List.replicate 10 0 ++
    [40, 0, 2, 0, 0, 0] ++
    [0, 0, 0, 0, 2, 0, 0, 0] ++ List.replicate 8 0 ++ [0, 0x10, 0, 0, 16, 0, 0, 0, 1, 0, 0, 0] ++
    List.replicate 8 0 ++ [16, 0, 0, 0] ++
    [0, 0, 0, 0, 3, 0, 0, 0] ++ List.replicate 32 0

/-- Its symbol is read outside of the 132 bytes. -/
theorem not_loadsSafely_strayTable : ¬ LoadsSafely strayTable := by
  intro h
  have haccepts : acceptsImage strayTable = true := by decide +kernel
  have hshdrs : readSectionHeaders strayTable (List.range (readElfHeader strayTable).eShnum) =
      some [⟨2, 0x1000, 16, 1, 16⟩, ⟨3, 0, 0, 0, 0⟩] := by decide +kernel
  have hoff : (readElfHeader strayTable).eShoff ≠ 0 := by decide +kernel
  obtain ⟨n, hwalk⟩ := ((loadsSafely_of_accepts haccepts).1 h).symbolTables hoff _ hshdrs
    ⟨2, 0x1000, 16, 1, 16⟩ List.mem_cons_self rfl _ rfl
  cases n with
  | zero => exact absurd hwalk.ends (by decide)
  | succ n => exact absurd (hwalk.inside 0 n.succ_pos) (by decide +kernel)

/-! ## The turns that `load` allows -/

theorem place_add (symEnt : BitVec 32) (i j : ℕ) :
    place symEnt (i + j) = place symEnt i + place symEnt j := by
  unfold place
  rw [BitVec.ofNat_add, BitVec.add_mul]

/-- A walk that comes to the same place twice never ends. -/
theorem WalkInside.place_injOn {image : List Byte} {symtab strtab : Elf32SectionHeader} {n : ℕ}
    (h : WalkInside image symtab strtab n) {i j : ℕ} (hij : i < j) (hj : j < n) :
    place (symEntOf symtab) i ≠ place (symEntOf symtab) j := by
  intro heq
  obtain ⟨d, rfl⟩ := Nat.exists_eq_add_of_lt hij
  have hperiod : place (symEntOf symtab) (d + 1) = 0 := by
    rw [Nat.add_assoc, place_add] at heq
    exact (left_eq_add.1 heq)
  have hback := h.goes (n - (d + 1)) (by omega)
  have hends := h.ends
  rw [show n + 1 = n - (d + 1) + 1 + (d + 1) by omega, place_add, hperiod, add_zero] at hends
  exact absurd hends (BitVec.not_lt.2 hback)

theorem WalkInside.turns_le {image : List Byte} {symtab strtab : Elf32SectionHeader} {n : ℕ}
    (h : WalkInside image symtab strtab n) : n ≤ image.length := by
  have hcard := Finset.card_le_card_of_injOn (s := Finset.range n) (t := Finset.range image.length)
    (fun j => (place (symEntOf symtab) j).toNat) ?_ ?_
  · rwa [Finset.card_range, Finset.card_range] at hcard
  · intro j hj
    have hinside := h.inside j (Finset.mem_range.1 hj)
    have hpos : 0 < symbolSize := by decide
    have hlt : (place (symEntOf symtab) j).toNat < image.length := by omega
    exact Finset.mem_coe.2 (Finset.mem_range.2 hlt)
  · intro i hi j hj heq
    have hi := Finset.mem_range.1 hi
    have hj := Finset.mem_range.1 hj
    have heq := BitVec.eq_of_toNat_eq heq
    rcases Nat.lt_trichotomy i j with hlt | hsame | hgt
    · exact absurd heq (h.place_injOn hlt hj)
    · exact hsame
    · exact absurd heq.symm (h.place_injOn hgt hi)

theorem fetchSymbols_mono {image : List Byte} {symtab strtab : Elf32SectionHeader}
    {symEnt s : BitVec 32} {turns turns' : ℕ} {symbols r : List SymbolEntry} (hle : turns ≤ turns')
    (h : fetchSymbols image symtab strtab symEnt turns s symbols = some r) :
    fetchSymbols image symtab strtab symEnt turns' s symbols = some r := by
  induction turns generalizing turns' s symbols with
  | zero => exact absurd h (by simp [fetchSymbols])
  | succ turns ih =>
    obtain ⟨turns', rfl⟩ := Nat.exists_eq_add_of_le' (Nat.pos_of_ne_zero (by omega : turns' ≠ 0))
    unfold fetchSymbols at h ⊢
    split_ifs at h ⊢ with hend
    · exact h
    · obtain ⟨bytes, hbytes, h⟩ := Option.bind_eq_some_iff.1 h
      obtain ⟨symbols', hsymbols', h⟩ := Option.bind_eq_some_iff.1 h
      exact Option.bind_eq_some_iff.2 ⟨bytes, hbytes,
        Option.bind_eq_some_iff.2 ⟨symbols', hsymbols', ih (by omega) h⟩⟩

theorem fetchTables_mono {image : List Byte} {turns turns' : ℕ}
    {shdrs shs : List Elf32SectionHeader} {symbols r : List SymbolEntry} (hle : turns ≤ turns')
    (h : fetchTables image turns shdrs shs symbols = some r) :
    fetchTables image turns' shdrs shs symbols = some r := by
  induction shs generalizing symbols with
  | nil => exact h
  | cons sh shs ih =>
    unfold fetchTables at h ⊢
    by_cases htype : sh.shType ≠ shtSymtab
    · rw [if_pos htype] at h ⊢
      exact ih h
    · rw [if_neg htype] at h ⊢
      cases hlink : shdrs[sh.shLink]? with
      | none =>
        rw [hlink] at h
        exact ih h
      | some strtab =>
        rw [hlink] at h
        obtain ⟨symbols', hsymbols', h⟩ := Option.bind_eq_some_iff.1 h
        exact Option.bind_eq_some_iff.2 ⟨symbols', fetchSymbols_mono hle hsymbols', ih h⟩

theorem readSymbols_eq_fetch (image : List Byte) (shdrs shs : List Elf32SectionHeader)
    (symbols : List SymbolEntry) :
    readSymbols image shdrs shs symbols =
      fetchTables image (image.length + 1) shdrs shs symbols := by
  induction shs generalizing symbols with
  | nil => rfl
  | cons sh shs ih =>
    unfold readSymbols fetchTables
    by_cases htype : sh.shType ≠ shtSymtab
    · rw [if_pos htype, if_pos htype]
      exact ih symbols
    · rw [if_neg htype, if_neg htype]
      cases shdrs[sh.shLink]? with
      | none => exact ih symbols
      | some strtab =>
        dsimp only
        rw [← symEntOf, ← fetchSymbols_eq]
        refine Option.bind_congr ?_
        intro symbols' _
        exact ih symbols'

/-- A turn for each byte of the image is enough, if any number is. -/
theorem fetchTables_enough {image : List Byte} {turns : ℕ} {shdrs : List Elf32SectionHeader}
    {r : List SymbolEntry} (h : fetchTables image turns shdrs shdrs [] = some r) :
    fetchTables image (image.length + 1) shdrs shdrs [] = some r := by
  have hwalks := (isSome_fetchTables image turns shdrs shdrs []).1 (Option.isSome_of_eq_some h)
  have hsome : (fetchTables image (image.length + 1) shdrs shdrs []).isSome := by
    refine (isSome_fetchTables image _ shdrs shdrs []).2 ?_
    intro symtab hsymtab htype strtab hlink
    obtain ⟨n, -, hwalk⟩ := hwalks symtab hsymtab htype strtab hlink
    exact ⟨n, Nat.lt_succ_of_le hwalk.turns_le, hwalk⟩
  obtain ⟨r', hr'⟩ := Option.isSome_iff_exists.1 hsome
  have hmax := fetchTables_mono (Nat.le_max_left turns (image.length + 1)) h
  have hmax' := fetchTables_mono (Nat.le_max_right turns (image.length + 1)) hr'
  rw [hr', ← hmax', hmax]

theorem load_eq_fetchLoad {image : List Byte} (haccepts : acceptsImage image = true)
    (mem : MemoryHierarchy) :
    (load image mem).map some = fetchLoad (image.length + 1) image mem := by
  rw [fetchLoad_of_accepts haccepts]
  show ((loadSegments image _ mem).bind _).map some = _
  rw [Option.map_bind]
  refine Option.bind_congr ?_
  intro mem' _
  show Option.map some (if _ then _ else _) = _
  split_ifs
  · rfl
  · show Option.map some (Option.bind _ _) = _
    rw [Option.map_bind]
    refine Option.bind_congr ?_
    intro shdrs _
    show Option.map some (Option.bind _ _) = _
    rw [Option.map_bind, readSymbols_eq_fetch]
    rfl

/-- `load` does with its own number of turns what it does with any that is enough. -/
theorem load_eq_some_iff {image : List Byte} (haccepts : acceptsImage image = true)
    (mem : MemoryHierarchy) (r : ElfLoader × MemoryHierarchy) :
    load image mem = some r ↔ ∃ turns, fetchLoad turns image mem = some (some r) := by
  have hload := load_eq_fetchLoad haccepts mem
  constructor
  · intro h
    refine ⟨image.length + 1, ?_⟩
    rw [← hload, h, Option.map_some]
  · rintro ⟨turns, hturns⟩
    have henough : fetchLoad (image.length + 1) image mem = some (some r) := by
      rw [fetchLoad_of_accepts haccepts] at hturns ⊢
      obtain ⟨mem', hmem', hturns⟩ := Option.bind_eq_some_iff.1 hturns
      refine Option.bind_eq_some_iff.2 ⟨mem', hmem', ?_⟩
      split_ifs at hturns ⊢ with hnone
      · exact hturns
      · obtain ⟨shdrs, hshdrs, hturns⟩ := Option.bind_eq_some_iff.1 hturns
        obtain ⟨symbols, hsymbols, hturns⟩ := Option.bind_eq_some_iff.1 hturns
        exact Option.bind_eq_some_iff.2 ⟨shdrs, hshdrs,
          Option.bind_eq_some_iff.2 ⟨symbols, fetchTables_enough hsymbols, hturns⟩⟩
    obtain ⟨r', hr', heq⟩ := Option.map_eq_some_iff.1 (hload.trans henough)
    rw [hr', Option.some.inj heq]

end RiscvGpgpu.Bridge.ElfLoader
