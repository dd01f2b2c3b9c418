import RiscvGpgpu.Bridge.KernelBridge

/-!
# The symbol that a name is looked up as

`findSymbol` takes the first name, in byte order, that contains the one it is asked for. `Defines`
are the symbols that an image defines, `Keeps` those of its entries that `load` keeps. A symbol is
found under its own name if it is kept and no kept name before it in the order contains that name
too.
-/

namespace RiscvGpgpu.Bridge

open Golden (Byte MemoryHierarchy)
open Host

/-- An entry of a symbol table: where it is in the image, and the table of its name. -/
structure SymbolSite where
  offset : ℕ
  strtab : Elf32SectionHeader

namespace ElfLoader

/-! ## The symbols of an image -/

/-- The entries of a symbol table in the order of the file, from the offset `s` on. -/
def tableSites (image : List Byte) (symtab strtab : Elf32SectionHeader) (symEnt : BitVec 32) :
    ℕ → BitVec 32 → Option (List SymbolSite)
  | 0, _ => none
  | turns + 1, s =>
    if symtab.shSize < s + symEnt then some []
    else if image.length < symtab.shOffset.toNat + s.toNat + symbolSize then none
    else (tableSites image symtab strtab symEnt turns (s + symEnt)).map
      (⟨symtab.shOffset.toNat + s.toNat, strtab⟩ :: ·)

/-- The entries of the symbol tables in a list of sections. -/
def sectionSites (image : List Byte) (shdrs : List Elf32SectionHeader) :
    List Elf32SectionHeader → Option (List SymbolSite)
  | [] => some []
  | sh :: shs =>
    if sh.shType ≠ shtSymtab then sectionSites image shdrs shs
    else match shdrs[sh.shLink]? with
      | none => sectionSites image shdrs shs
      | some strtab =>
        let symEnt := if sh.shEntsize = 0 then BitVec.ofNat 32 symbolSize else sh.shEntsize
        (tableSites image sh strtab symEnt (image.length + 1) 0).bind fun here =>
          (sectionSites image shdrs shs).map (here ++ ·)

/-- All entries of the symbol tables of an image. -/
def imageSites (image : List Byte) : Option (List SymbolSite) :=
  let hdr := readElfHeader image
  if hdr.eShoff = 0 ∨ hdr.eShnum = 0 then some []
  else (readSectionHeaders image (List.range hdr.eShnum)).bind fun shdrs =>
    sectionSites image shdrs shdrs

end ElfLoader

/-- `SHN_UNDEF`. -/
def shnUndef : ℕ := 0

namespace SymbolSite

variable (image : List Byte) (x : SymbolSite)

def symbol : Elf32Symbol := ElfLoader.readSymbol image x.offset

/-- The entry by its name, if it has one. -/
def entry? : Option SymbolEntry :=
  match ElfLoader.cString image (x.strtab.shOffset.toNat + (x.symbol image).stName.toNat) with
  | none => none
  | some [] => none
  | some name => some ⟨name, (x.symbol image).stValue, (x.symbol image).stSize⟩

/-- The entry defines its name: `st_shndx` gives a section, and the name is in the string table. -/
def Defined : Prop :=
  readLe image (x.offset + 14) 2 ≠ shnUndef ∧ (x.symbol image).stName < x.strtab.shSize

/-- `load` keeps the entry: a function, an object or a global label, not at address zero. -/
def Kept : Prop :=
  let sym := x.symbol image
  (sym.stInfo % 16 = sttFunc ∨ sym.stInfo % 16 = sttObject ∨
    sym.stInfo % 16 = 0 ∧ sym.stInfo / 16 = stbGlobal) ∧ sym.stValue ≠ 0 ∧
    ¬ x.strtab.shOffset + x.strtab.shSize ≤ x.strtab.shOffset + sym.stName

instance : Decidable (x.Defined image) := inferInstanceAs (Decidable (_ ∧ _))

instance : Decidable (x.Kept image) := inferInstanceAs (Decidable (_ ∧ _))

def defined? : Option SymbolEntry := if x.Defined image then x.entry? image else none

def kept? : Option SymbolEntry := if x.Kept image then x.entry? image else none

end SymbolSite

namespace ElfLoader

/-- The symbols that the symbol tables define, in the order of the file. -/
def definedSymbols (image : List Byte) : Option (List SymbolEntry) :=
  (imageSites image).map (List.filterMap (SymbolSite.defined? image))

def Defines (image : List Byte) (e : SymbolEntry) : Prop :=
  ∃ symbols, definedSymbols image = some symbols ∧ e ∈ symbols

/-- The symbols that `load` keeps, in the order of the file. -/
def keptSymbols (image : List Byte) : Option (List SymbolEntry) :=
  (imageSites image).map (List.filterMap (SymbolSite.kept? image))

def Keeps (image : List Byte) (e : SymbolEntry) : Prop :=
  ∃ symbols, keptSymbols image = some symbols ∧ e ∈ symbols

/-- The last one that is kept under its name. -/
def KeepsLast (image : List Byte) (e : SymbolEntry) : Prop :=
  ∃ symbols, keptSymbols image = some symbols ∧
    (symbols.filter fun e' => e'.name = e.name).getLast? = some e

/-- `symbols_`, after some more symbols. -/
def insertSymbols (symbols es : List SymbolEntry) : List SymbolEntry :=
  es.foldl (fun symbols e => insertSymbol e symbols) symbols

theorem insertSymbols_append (symbols es fs : List SymbolEntry) :
    insertSymbols symbols (es ++ fs) = insertSymbols (insertSymbols symbols es) fs :=
  List.foldl_append

/-- A turn of the loop keeps what `kept?` says. -/
theorem addSymbol_kept {image : List Byte} {x : SymbolSite} {symbols symbols' : List SymbolEntry}
    (h : addSymbol image x.strtab (x.symbol image) symbols = some symbols') :
    symbols' = insertSymbols symbols (x.kept? image).toList := by
  unfold addSymbol at h
  unfold SymbolSite.kept?
  dsimp only at h
  split_ifs at h with htype hvalue hname
  · obtain rfl := Option.some.inj h
    rw [if_neg]
    · rfl
    · rintro ⟨hkind, -, -⟩
      exact htype.2 ((hkind.resolve_left (not_or.1 htype.1).1).resolve_left (not_or.1 htype.1).2)
  · obtain rfl := Option.some.inj h
    rw [if_neg fun hkept => hkept.2.1 hvalue]
    rfl
  · obtain rfl := Option.some.inj h
    rw [if_neg fun hkept => hkept.2.2 hname]
    rfl
  · have hkept : x.Kept image := by
      refine ⟨?_, hvalue, hname⟩
      by_contra hnone
      exact htype ⟨fun hkind => hnone (hkind.imp_right .inl),
        fun hlabel => hnone (.inr (.inr hlabel))⟩
    rw [if_pos hkept, SymbolSite.entry?]
    generalize cString image (x.strtab.shOffset.toNat + (x.symbol image).stName.toNat) = string
      at h ⊢
    cases string with
    | none => exact absurd h (by simp)
    | some name =>
      cases name with
      | nil =>
        obtain rfl := Option.some.inj h
        rfl
      | cons b bs =>
        obtain rfl := Option.some.inj h
        rfl

theorem symbolLoop_kept {image : List Byte} {symtab strtab : Elf32SectionHeader}
    {symEnt : BitVec 32} {turns : ℕ} {s : BitVec 32} {symbols symbols' : List SymbolEntry}
    (h : symbolLoop image symtab strtab symEnt turns s symbols = some symbols') :
    ∃ sites, tableSites image symtab strtab symEnt turns s = some sites ∧
      symbols' = insertSymbols symbols (sites.filterMap (SymbolSite.kept? image)) := by
  induction turns generalizing s symbols with
  | zero => exact absurd h (by simp [symbolLoop])
  | succ turns ih =>
    unfold symbolLoop at h
    unfold tableSites
    split_ifs at h ⊢
    · obtain rfl := Option.some.inj h
      exact ⟨[], rfl, rfl⟩
    · obtain ⟨here, hhere, hrest⟩ := Option.bind_eq_some_iff.1 h
      have hsite := addSymbol_kept (x := ⟨symtab.shOffset.toNat + s.toNat, strtab⟩) hhere
      obtain ⟨sites, hsites, hkept⟩ := ih hrest
      refine ⟨_, Option.map_eq_some_iff.2 ⟨sites, hsites, rfl⟩, ?_⟩
      rw [hkept, hsite, ← insertSymbols_append]
      congr 1
      rw [List.filterMap_cons]
      cases SymbolSite.kept? image ⟨symtab.shOffset.toNat + s.toNat, strtab⟩ <;> rfl

theorem readSymbols_kept {image : List Byte} {shdrs shs : List Elf32SectionHeader}
    {symbols symbols' : List SymbolEntry}
    (h : readSymbols image shdrs shs symbols = some symbols') :
    ∃ sites, sectionSites image shdrs shs = some sites ∧
      symbols' = insertSymbols symbols (sites.filterMap (SymbolSite.kept? image)) := by
  induction shs generalizing symbols with
  | nil =>
    obtain rfl := Option.some.inj h
    exact ⟨[], rfl, rfl⟩
  | cons sh shs ih =>
    unfold readSymbols at h
    unfold sectionSites
    by_cases htype : sh.shType ≠ shtSymtab
    · rw [if_pos htype] at h ⊢
      exact ih h
    · rw [if_neg htype] at h ⊢
      cases hlink : shdrs[sh.shLink]? with
      | none =>
        rw [hlink] at h
        exact ih h
      | some strtab =>
        rw [hlink] at h
        obtain ⟨here, hhere, hrest⟩ := Option.bind_eq_some_iff.1 h
        obtain ⟨sites, hsites, hkept⟩ := symbolLoop_kept hhere
        obtain ⟨sites', hsites', hkept'⟩ := ih hrest
        refine ⟨_, Option.bind_eq_some_iff.2 ⟨sites, hsites,
          Option.map_eq_some_iff.2 ⟨sites', hsites', rfl⟩⟩, ?_⟩
        rw [hkept', hkept, ← insertSymbols_append, List.filterMap_append]

/-- What a loader keeps are the kept symbols of its image. -/
theorem load_symbols {image : List Byte} {mem mem' : MemoryHierarchy} {elf : ElfLoader}
    (hload : load image mem = some (elf, mem')) :
    elf.entryPoint = (readElfHeader image).eEntry ∧
      ∃ symbols, keptSymbols image = some symbols ∧ elf.symbols = insertSymbols [] symbols := by
  unfold load at hload
  unfold keptSymbols imageSites
  obtain ⟨mem₁, -, hload⟩ := Option.bind_eq_some_iff.1 hload
  dsimp only at hload ⊢
  split_ifs at hload ⊢ with hnone
  · obtain ⟨rfl, -⟩ := Prod.mk.inj (Option.some.inj hload)
    exact ⟨rfl, [], rfl, rfl⟩
  · obtain ⟨shdrs, hshdrs, hload⟩ := Option.bind_eq_some_iff.1 hload
    obtain ⟨kept, hkept, hload⟩ := Option.bind_eq_some_iff.1 hload
    obtain ⟨rfl, -⟩ := Prod.mk.inj (Option.some.inj hload)
    obtain ⟨sites, hsites, rfl⟩ := readSymbols_kept hkept
    exact ⟨rfl, _, Option.map_eq_some_iff.2 ⟨sites,
      Option.bind_eq_some_iff.2 ⟨shdrs, hshdrs, hsites⟩, rfl⟩, rfl⟩

/-! ## The table by name -/

/-- The order of a `std::map`. -/
abbrev Sorted (symbols : List SymbolEntry) : Prop := symbols.Pairwise fun s t => s.name < t.name

theorem mem_insertSymbol {e x : SymbolEntry} {symbols : List SymbolEntry}
    (h : x ∈ insertSymbol e symbols) : x = e ∨ x ∈ symbols := by
  induction symbols with
  | nil => exact .inl (List.mem_singleton.1 h)
  | cons s ss ih =>
    unfold insertSymbol at h
    split_ifs at h
    · exact List.mem_cons.1 h
    · rcases List.mem_cons.1 h with rfl | h
      · exact .inl rfl
      · exact .inr (List.mem_cons_of_mem _ h)
    · rcases List.mem_cons.1 h with rfl | h
      · exact .inr List.mem_cons_self
      · exact (ih h).imp_right (List.mem_cons_of_mem _)

theorem name_mem_insertSymbol (e : SymbolEntry) (symbols : List SymbolEntry) {n : List Byte}
    (h : n = e.name ∨ n ∈ symbols.map SymbolEntry.name) :
    n ∈ (insertSymbol e symbols).map SymbolEntry.name := by
  induction symbols with
  | nil => simpa [insertSymbol] using h
  | cons s ss ih =>
    rw [List.map_cons, List.mem_cons] at h
    unfold insertSymbol
    split_ifs with hlt heq
    · simpa using h
    · rw [← heq] at h
      simpa using h
    · rw [List.map_cons, List.mem_cons]
      rcases h with h | h | h
      · exact .inr (ih (.inl h))
      · exact .inl h
      · exact .inr (ih (.inr h))

theorem sorted_insertSymbol (e : SymbolEntry) {symbols : List SymbolEntry} (h : Sorted symbols) :
    Sorted (insertSymbol e symbols) := by
  induction symbols with
  | nil => exact List.pairwise_singleton _ _
  | cons s ss ih =>
    obtain ⟨hs, hss⟩ := List.pairwise_cons.1 h
    unfold insertSymbol
    split_ifs with hlt heq
    · refine List.pairwise_cons.2 ⟨?_, h⟩
      intro t ht
      rcases List.mem_cons.1 ht with rfl | ht
      · exact hlt
      · exact List.lt_trans hlt (hs t ht)
    · exact List.pairwise_cons.2 ⟨fun t ht => heq ▸ hs t ht, hss⟩
    · refine List.pairwise_cons.2 ⟨?_, ih hss⟩
      intro t ht
      rcases mem_insertSymbol ht with rfl | ht
      · rcases List.le_iff_lt_or_eq.1 hlt with hgt | hsame
        · exact hgt
        · exact absurd hsame.symm heq
      · exact hs t ht

theorem name_mem_insertSymbols {n : List Byte} (symbols : List SymbolEntry) {es : List SymbolEntry}
    (h : n ∈ symbols.map SymbolEntry.name ∨ n ∈ es.map SymbolEntry.name) :
    n ∈ (insertSymbols symbols es).map SymbolEntry.name := by
  induction es generalizing symbols with
  | nil => exact h.resolve_right (List.not_mem_nil)
  | cons e es ih =>
    refine ih _ ?_
    rcases h with h | h
    · exact .inl (name_mem_insertSymbol e symbols (.inr h))
    · rcases List.mem_cons.1 h with h | h
      · exact .inl (name_mem_insertSymbol e symbols (.inl h))
      · exact .inr h

theorem sorted_insertSymbols (es : List SymbolEntry) {symbols : List SymbolEntry}
    (h : Sorted symbols) : Sorted (insertSymbols symbols es) := by
  induction es generalizing symbols with
  | nil => exact h
  | cons e es ih => exact ih (sorted_insertSymbol e h)

/-- In a sorted table a name stands for one symbol. -/
theorem Sorted.eq_of_name {symbols : List SymbolEntry} (h : Sorted symbols) {x y : SymbolEntry}
    (hx : x ∈ symbols) (hy : y ∈ symbols) (hname : x.name = y.name) : x = y := by
  induction symbols with
  | nil => exact absurd hx List.not_mem_nil
  | cons s ss ih =>
    obtain ⟨hs, hss⟩ := List.pairwise_cons.1 h
    rcases List.mem_cons.1 hx with hx' | hx' <;> rcases List.mem_cons.1 hy with hy' | hy'
    · rw [hx', hy']
    · have hlt := hs y hy'
      rw [← hx', hname] at hlt
      exact absurd hlt (List.lt_irrefl _)
    · have hlt := hs x hx'
      rw [← hy', hname] at hlt
      exact absurd hlt (List.lt_irrefl _)
    · exact ih hss hx' hy'

theorem self_mem_insertSymbol (e : SymbolEntry) (symbols : List SymbolEntry) :
    e ∈ insertSymbol e symbols := by
  induction symbols with
  | nil => exact List.mem_singleton_self e
  | cons s ss ih =>
    unfold insertSymbol
    split_ifs
    · exact List.mem_cons_self
    · exact List.mem_cons_self
    · exact List.mem_cons_of_mem _ ih

/-- Of the symbols of one name the last one stays. -/
theorem getLast?_of_mem_insertSymbols {x : SymbolEntry} {symbols es : List SymbolEntry}
    (hsorted : Sorted symbols) (h : x ∈ insertSymbols symbols es) :
    (es.filter fun e => e.name = x.name).getLast? = some x ∨
      x ∈ symbols ∧ es.filter (fun e => e.name = x.name) = [] := by
  induction es generalizing symbols with
  | nil => exact .inr ⟨h, rfl⟩
  | cons e es ih =>
    have hsorted' := sorted_insertSymbol e hsorted
    rcases ih hsorted' h with hlast | ⟨hx, hnone⟩
    · left
      rw [List.filter_cons]
      split
      · rw [List.getLast?_cons, hlast]
        rfl
      · exact hlast
    · by_cases hname : e.name = x.name
      · left
        obtain rfl := hsorted'.eq_of_name (self_mem_insertSymbol e symbols) hx hname
        rw [List.filter_cons, if_pos (decide_eq_true rfl), hnone]
        rfl
      · right
        refine ⟨(mem_insertSymbol hx).resolve_left fun heq => hname (by rw [heq]), ?_⟩
        rw [List.filter_cons, if_neg (by simpa using hname), hnone]

/-- What a search in a sorted table finds comes first of what it could find. -/
theorem find?_first {p : SymbolEntry → Bool} {symbols : List SymbolEntry} (h : Sorted symbols)
    {s t : SymbolEntry} (hfind : symbols.find? p = some s) (ht : t ∈ symbols) (hp : p t = true) :
    s = t ∨ s.name < t.name := by
  induction symbols with
  | nil => exact absurd ht List.not_mem_nil
  | cons u us ih =>
    obtain ⟨hu, hus⟩ := List.pairwise_cons.1 h
    rw [List.find?_cons] at hfind
    cases hpu : p u with
    | true =>
      rw [hpu] at hfind
      obtain rfl := Option.some.inj hfind
      rcases List.mem_cons.1 ht with rfl | ht
      · exact .inl rfl
      · exact .inr (hu t ht)
    | false =>
      rw [hpu] at hfind
      rcases List.mem_cons.1 ht with rfl | ht
      · rw [hpu] at hp
        exact absurd hp Bool.false_ne_true
      · exact ih hus hfind ht

/-! ## Lookups -/

section Lookup

variable {image : List Byte} {mem mem' : MemoryHierarchy} {elf : ElfLoader}

/-- A lookup finds a kept symbol, the first one that the name is part of. -/
theorem findSymbol_eq_some (hload : load image mem = some (elf, mem')) {k : List Byte}
    {s : SymbolEntry} (hfind : elf.findSymbol k = some s) :
    KeepsLast image s ∧ k <:+: s.name ∧
      ∀ e, Keeps image e → k <:+: e.name → s.name = e.name ∨ s.name < e.name := by
  obtain ⟨-, symbols, hsymbols, hkept⟩ := load_symbols hload
  rw [findSymbol, hkept] at hfind
  have hfound := List.find?_some hfind
  have hlast := (getLast?_of_mem_insertSymbols .nil (List.mem_of_find?_eq_some hfind)).resolve_right
    fun hnone => List.not_mem_nil hnone.1
  refine ⟨⟨symbols, hsymbols, hlast⟩, of_decide_eq_true (p := k <:+: s.name) hfound, ?_⟩
  rintro e ⟨symbols', hsymbols', he⟩ hk
  obtain rfl := Option.some.inj (hsymbols.symm.trans hsymbols')
  obtain ⟨t, ht, hname⟩ := List.mem_map.1
    (name_mem_insertSymbols [] (.inr (List.mem_map_of_mem he)))
  rw [← hname] at hk ⊢
  exact (find?_first (sorted_insertSymbols symbols .nil) hfind ht (decide_eq_true hk)).imp_left
    (congrArg SymbolEntry.name)

/-- A kept name is found. -/
theorem exists_findSymbol (hload : load image mem = some (elf, mem')) {k : List Byte}
    {e : SymbolEntry} (he : Keeps image e) (hk : k <:+: e.name) :
    ∃ s, elf.findSymbol k = some s := by
  obtain ⟨-, symbols, hsymbols, hkept⟩ := load_symbols hload
  obtain ⟨symbols', hsymbols', he⟩ := he
  obtain rfl := Option.some.inj (hsymbols.symm.trans hsymbols')
  obtain ⟨t, ht, hname⟩ := List.mem_map.1
    (name_mem_insertSymbols [] (.inr (List.mem_map_of_mem he)))
  rw [← Option.isSome_iff_exists, findSymbol, hkept, List.find?_isSome]
  exact ⟨t, ht, decide_eq_true (hname ▸ hk)⟩

theorem contains_name {e : SymbolEntry} {k : List Byte} (h : e.name = k) : k <:+: e.name := by
  rw [h]

theorem KeepsLast.keeps {e : SymbolEntry} (h : KeepsLast image e) : Keeps image e := by
  obtain ⟨symbols, hsymbols, hlast⟩ := h
  exact ⟨symbols, hsymbols, (List.mem_filter.1 (List.mem_of_getLast? hlast)).1⟩

theorem KeepsLast.eq {e e' : SymbolEntry} (h : KeepsLast image e) (h' : KeepsLast image e')
    (hname : e.name = e'.name) : e = e' := by
  obtain ⟨symbols, hsymbols, hlast⟩ := h
  obtain ⟨symbols', hsymbols', hlast'⟩ := h'
  obtain rfl := Option.some.inj (hsymbols.symm.trans hsymbols')
  rw [hname] at hlast
  exact Option.some.inj (hlast.symm.trans hlast')

/-- If the image defines a symbol of this name, `a` is its address, and the lookup finds that
name. -/
structure FoundExactly (image : List Byte) (elf : ElfLoader) (k : List Byte)
    (a : Option (BitVec 32)) : Prop where
  address : ∀ e, Defines image e → e.name = k → a = some e.address
  /-- A name that only contains `k` is found only in an image without `k` itself. -/
  inexact : ∀ s, elf.findSymbol k = some s → s.name ≠ k → ∀ e, Defines image e → e.name ≠ k

/-- If the image defines a symbol of this name, the last one that is kept under the name has its
address, and no kept name that contains it comes before it; or no kept name contains it, and what is
taken instead is its address. -/
def Resolves (image : List Byte) (k : List Byte) (instead : Option (BitVec 32)) : Prop :=
  ∀ e, Defines image e → e.name = k →
    (∃ t, KeepsLast image t ∧ t.name = k ∧ t.address = e.address ∧
      ∀ t', Keeps image t' → k <:+: t'.name → ¬ t'.name < k) ∨
    (∀ t, Keeps image t → ¬ k <:+: t.name) ∧ instead = some e.address

theorem foundExactly_iff (hload : load image mem = some (elf, mem')) {k : List Byte}
    {a instead : Option (BitVec 32)}
    (ha : ∀ s, elf.findSymbol k = some s → a = some s.address)
    (hinstead : elf.findSymbol k = none → a = instead) :
    FoundExactly image elf k a ↔ Resolves image k instead := by
  constructor
  · intro h e he hek
    have haddress := h.address e he hek
    cases hfind : elf.findSymbol k with
    | none =>
      right
      refine ⟨?_, (hinstead hfind).symm.trans haddress⟩
      intro t ht hk
      obtain ⟨s, hs⟩ := exists_findSymbol hload ht hk
      exact absurd (hfind.symm.trans hs) (by simp)
    | some s =>
      left
      obtain ⟨hlast, -, hfirst⟩ := findSymbol_eq_some hload hfind
      have hsk : s.name = k := by
        by_contra hne
        exact h.inexact s hfind hne e he hek
      refine ⟨s, hlast, hsk, Option.some.inj ((ha s hfind).symm.trans haddress), ?_⟩
      intro t ht hk hlt
      rw [hsk] at hfirst
      rcases hfirst t ht hk with heq | hless
      · rw [← heq] at hlt
        exact List.lt_irrefl k hlt
      · exact List.lt_asymm hlt hless
  · intro h
    -- what is found has the name itself
    have hexact : ∀ s, elf.findSymbol k = some s → ∀ e, Defines image e → e.name = k →
        s.name = k ∧ s.address = e.address := by
      intro s hs e he hek
      obtain ⟨hlast, hk, hfirst⟩ := findSymbol_eq_some hload hs
      rcases h e he hek with ⟨t, ht, htk, haddress, hno⟩ | ⟨hnone, -⟩
      · have hname : s.name = k := by
          rcases hfirst t ht.keeps (contains_name htk) with heq | hlt
          · exact heq.trans htk
          · exact absurd (htk ▸ hlt) (hno s hlast.keeps hk)
        rw [hlast.eq ht (hname.trans htk.symm)]
        exact ⟨htk, haddress⟩
      · exact absurd hk (hnone s hlast.keeps)
    refine ⟨?_, ?_⟩
    · intro e he hek
      cases hfind : elf.findSymbol k with
      | some s => rw [ha s hfind, (hexact s hfind e he hek).2]
      | none =>
        rcases h e he hek with ⟨t, ht, htk, -, -⟩ | ⟨-, haddress⟩
        · obtain ⟨s, hs⟩ := exists_findSymbol hload ht.keeps (contains_name htk)
          exact absurd (hfind.symm.trans hs) (by simp)
        · rw [hinstead hfind, haddress]
    · intro s hs hsk e he hek
      exact hsk (hexact s hs e he hek).1

end Lookup

end ElfLoader

/-! ## Entry points -/

/-- The name that the launch enters by. -/
def entryName (execution : KernelExecution) (req : Request) : List Byte :=
  let args := execution.launchArgs
  nameBytes (if useLaunchArgs execution req && args.entrySymbol != "" then args.entrySymbol
    else req.kernelName)

/-- The launch enters the kernel it was asked for, and writes the thread context where the image has
it. -/
structure EntersKernel (image : List Byte) (elf : ElfLoader) (execution : KernelExecution)
    (req : Request) (L : Launch) : Prop where
  entry : ElfLoader.FoundExactly image elf (entryName execution req) (some L.entryPc)
  context : ElfLoader.FoundExactly image elf (nameBytes "__gpgpu_thread_context") L.contextSymbol

theorem makeLaunch_entryPc {execution : KernelExecution} {req : Request} {elf : ElfLoader}
    {s : SymbolEntry} (h : elf.findSymbol (entryName execution req) = some s) (regs : LaneRegs) :
    (makeLaunch execution req elf regs).entryPc = s.address := by
  unfold entryName at h
  simp only [makeLaunch, h]

theorem makeLaunch_entryPc_none {execution : KernelExecution} {req : Request} {elf : ElfLoader}
    (h : elf.findSymbol (entryName execution req) = none) (regs : LaneRegs) :
    (makeLaunch execution req elf regs).entryPc = elf.entryPoint := by
  unfold entryName at h
  simp only [makeLaunch, h]

theorem entersKernel_iff {image : List Byte} {mem mem' : MemoryHierarchy} {elf : ElfLoader}
    (hload : ElfLoader.load image mem = some (elf, mem')) (execution : KernelExecution)
    (req : Request) (regs : LaneRegs) :
    EntersKernel image elf execution req (makeLaunch execution req elf regs) ↔
      ElfLoader.Resolves image (entryName execution req) (some (readElfHeader image).eEntry) ∧
        ElfLoader.Resolves image (nameBytes "__gpgpu_thread_context") none := by
  have hentry := ElfLoader.foundExactly_iff hload (k := entryName execution req)
    (a := some (makeLaunch execution req elf regs).entryPc)
    (fun s hs => congrArg some (makeLaunch_entryPc hs regs)) fun hnone => by
      rw [makeLaunch_entryPc_none hnone, (ElfLoader.load_symbols hload).1]
  have hcontext := ElfLoader.foundExactly_iff hload (k := nameBytes "__gpgpu_thread_context")
    (a := (makeLaunch execution req elf regs).contextSymbol)
    (fun s hs => congrArg (Option.map SymbolEntry.address) hs)
    fun hnone => congrArg (Option.map SymbolEntry.address) hnone
  exact ⟨fun h => ⟨hentry.1 h.entry, hcontext.1 h.context⟩,
    fun h => ⟨hentry.2 h.1, hcontext.2 h.2⟩⟩

/-- An image with the functions `_add` at 0x100 and `add` at 0x200, in this order. -/
def twoFunctions : List Byte :=
  Host.elfMagic ++ [Host.elfClass32] ++ List.replicate 27 0 ++ [52, 0, 0, 0] ++
    List.replicate 10 0 ++ [40, 0, 2, 0, 0, 0] ++
    -- the sections: `.symtab` with its string table behind it
    [0, 0, 0, 0, 2, 0, 0, 0] ++ List.replicate 8 0 ++ [132, 0, 0, 0, 32, 0, 0, 0, 1, 0, 0, 0] ++
    List.replicate 8 0 ++ [16, 0, 0, 0] ++
    [0, 0, 0, 0, 3, 0, 0, 0] ++ List.replicate 8 0 ++ [164, 0, 0, 0, 10, 0, 0, 0] ++
    List.replicate 16 0 ++
    [1, 0, 0, 0, 0, 1, 0, 0, 4, 0, 0, 0, 0x12, 0, 0xF1, 0xFF] ++
    [6, 0, 0, 0, 0, 2, 0, 0, 4, 0, 0, 0, 0x12, 0, 0xF1, 0xFF] ++
    [0, 0x5F, 0x61, 0x64, 0x64, 0, 0x61, 0x64, 0x64, 0]

/-- What `load` leaves of it. -/
def twoFunctionsElf : ElfLoader where
  entryPoint := 0
  symbols := [⟨nameBytes "_add", 0x100, 4⟩, ⟨nameBytes "add", 0x200, 4⟩]

theorem load_twoFunctions (mem : MemoryHierarchy) :
    ElfLoader.load twoFunctions mem = some (twoFunctionsElf, mem) := by
  have hphnum : (readElfHeader twoFunctions).ePhnum = 0 := by decide +kernel
  have hsections : ¬ ((readElfHeader twoFunctions).eShoff = 0 ∨
      (readElfHeader twoFunctions).eShnum = 0) := by decide +kernel
  have hkept : ((ElfLoader.readSectionHeaders twoFunctions
      (List.range (readElfHeader twoFunctions).eShnum)).bind fun shdrs =>
        ElfLoader.readSymbols twoFunctions shdrs shdrs []) = some twoFunctionsElf.symbols := by
    decide +kernel
  have hentry : (readElfHeader twoFunctions).eEntry = 0 := by decide +kernel
  obtain ⟨shdrs, hshdrs, hsymbols⟩ := Option.bind_eq_some_iff.1 hkept
  unfold ElfLoader.load
  refine Option.bind_eq_some_iff.2 ⟨mem, by rw [hphnum]; rfl, ?_⟩
  rw [if_neg hsections, hentry]
  exact Option.bind_eq_some_iff.2 ⟨shdrs, hshdrs, Option.bind_eq_some_iff.2 ⟨_, hsymbols, rfl⟩⟩

theorem definedSymbols_twoFunctions :
    ElfLoader.definedSymbols twoFunctions = some twoFunctionsElf.symbols := by
  decide +kernel

theorem keptSymbols_twoFunctions :
    ElfLoader.keptSymbols twoFunctions = some twoFunctionsElf.symbols := by
  decide +kernel

theorem defines_twoFunctions {e : SymbolEntry} (he : ElfLoader.Defines twoFunctions e) :
    e ∈ twoFunctionsElf.symbols := by
  obtain ⟨symbols, heq, he⟩ := he
  exact Option.some.inj (definedSymbols_twoFunctions.symm.trans heq) ▸ he

/-- A launch of one of them. -/
def requestFor (kernelName : String) : Request := ⟨kernelName, "kernels.elf", [], []⟩

theorem entersKernel_iff_underscore : EntersKernel twoFunctions twoFunctionsElf noLaunch
    (requestFor "_add") (makeLaunch noLaunch (requestFor "_add") twoFunctionsElf fun _ => 0) := by
  refine (entersKernel_iff (load_twoFunctions (.init 0)) _ _ _).2 ⟨?_, ?_⟩
  · intro e he hname
    have hunderscore : e = ⟨nameBytes "_add", 0x100, 4⟩ := by
      have hall : ∀ e ∈ twoFunctionsElf.symbols, e.name = entryName noLaunch (requestFor "_add") →
          e = ⟨nameBytes "_add", 0x100, 4⟩ := by decide +kernel
      exact hall e (defines_twoFunctions he) hname
    left
    refine ⟨e, ⟨_, keptSymbols_twoFunctions, ?_⟩, hname, rfl, ?_⟩
    · rw [hunderscore]
      decide +kernel
    · rintro t ⟨symbols, heq, ht⟩ -
      obtain rfl := Option.some.inj (keptSymbols_twoFunctions.symm.trans heq)
      have hall : ∀ t ∈ twoFunctionsElf.symbols,
          ¬ t.name < entryName noLaunch (requestFor "_add") := by decide +kernel
      exact hall t ht
  · intro e he hname
    have hall : ∀ e ∈ twoFunctionsElf.symbols,
        e.name ≠ nameBytes "__gpgpu_thread_context" := by decide +kernel
    exact absurd hname (hall e (defines_twoFunctions he))

/-- `add` is entered at `_add`. -/
theorem not_entersKernel : ¬ ∀ elf mem',
    ElfLoader.load twoFunctions (.init 0) = some (elf, mem') →
      EntersKernel twoFunctions elf noLaunch (requestFor "add")
        (makeLaunch noLaunch (requestFor "add") elf fun _ => 0) := by
  intro h
  have hentry := (h _ _ (load_twoFunctions _)).entry.address ⟨nameBytes "add", 0x200, 4⟩
    ⟨_, definedSymbols_twoFunctions, by decide +kernel⟩ (by decide +kernel)
  revert hentry
  decide +kernel

end RiscvGpgpu.Bridge
