import RiscvGpgpu.Hls.Types
import RiscvGpgpu.Lib.SetAssoc

/-!
# The cache banks

`cache_bank.h`: a set-associative cache of `ways` ways and `2 ^ setBits` sets with lines of 32
words. An address splits into two byte bits, five bits of word index, the set index and the tag;
`wordAddr` puts the parts of a word's address together again, as an index into the backing memory.
-/

namespace RiscvGpgpu.Hls

/-- The word-indexed backing memory behind the `m_axi` pointer. -/
abbrev GlobalMem := BitVec 32 → Word

abbrev SetAssocCache (ways setBits : ℕ) :=
  SetAssoc ways (BitVec setBits) (BitVec (25 - setBits)) (BitVec 5) Word

abbrev L1Cache := SetAssocCache 4 6
abbrev L2Cache := SetAssocCache 4 9

def setIndex (setBits : ℕ) (addr : Addr) : BitVec setBits := addr.extractLsb' 7 setBits

def tagOf (setBits : ℕ) (addr : Addr) : BitVec (25 - setBits) :=
  addr.extractLsb' (7 + setBits) (25 - setBits)

def lineWordIndex (addr : Addr) : BitVec 5 := addr.extractLsb' 2 5

def lineBaseAddr (addr : Addr) : Addr := (addr >>> 7) <<< 7

namespace SetAssocCache

variable {ways setBits : ℕ}

def reset [NeZero ways] (c : SetAssocCache ways setBits) : SetAssocCache ways setBits := c.clear 0

/-- The way of a hit. -/
def lookup (c : SetAssocCache ways setBits) (addr : Addr) : Option (Fin ways) :=
  SetAssoc.lookup c (setIndex setBits addr) (tagOf setBits addr)

/-- The `data` of a lookup that hits. -/
def lookupData (c : SetAssocCache ways setBits) (way : Fin ways) (addr : Addr) : Word :=
  c.data way (setIndex setBits addr) (lineWordIndex addr)

def readLine (c : SetAssocCache ways setBits) (way : Fin ways) (addr : Addr) : BitVec 5 → Word :=
  c.data way (setIndex setBits addr)

def writeWord (c : SetAssocCache ways setBits) (way : Fin ways) (addr : Addr) (value : Word) :
    SetAssocCache ways setBits :=
  c.write way (setIndex setBits addr) (lineWordIndex addr) value

/-- Round robin over the ways of the set. -/
def fillLine [NeZero ways] (c : SetAssocCache ways setBits) (addr : Addr) (line : BitVec 5 → Word) :
    SetAssocCache ways setBits :=
  let victim := c.victim (setIndex setBits addr)
  c.fill (setIndex setBits addr) (tagOf setBits addr) line
    (if (victim : ℕ) = ways - 1 then 0 else victim + 1)

end SetAssocCache

/-! ## Word addresses -/

/-- The index of the word that `global_mem` holds for an address. -/
def wordIndex (addr : Addr) : BitVec 32 := addr >>> 2

/-- The word index of word `i` of the line with the given set and tag. -/
def wordAddr {setBits : ℕ} (set : BitVec setBits) (tag : BitVec (25 - setBits)) (i : BitVec 5) :
    BitVec 32 :=
  BitVec.ofNat 32 ((tag.toNat * 2 ^ setBits + set.toNat) * 32 + i.toNat)

section WordAddr

variable {setBits : ℕ}

theorem toNat_wordAddr (h : setBits ≤ 25) (set : BitVec setBits) (tag : BitVec (25 - setBits))
    (i : BitVec 5) :
    (wordAddr set tag i).toNat = (tag.toNat * 2 ^ setBits + set.toNat) * 32 + i.toNat := by
  have hpow : 2 ^ (25 - setBits) * 2 ^ setBits = 2 ^ 25 := by
    rw [← pow_add, Nat.sub_add_cancel h]
  have htag : (tag.toNat + 1) * 2 ^ setBits ≤ 2 ^ 25 := by
    rw [← hpow]
    exact Nat.mul_le_mul_right _ tag.isLt
  have hset := set.isLt
  have hi := i.isLt
  rw [Nat.add_mul, Nat.one_mul] at htag
  rw [wordAddr, BitVec.toNat_ofNat]
  omega

/-- The parts of a word address determine it and are determined by it. -/
theorem wordAddr_inj (h : setBits ≤ 25) {set set' : BitVec setBits}
    {tag tag' : BitVec (25 - setBits)} {i i' : BitVec 5} :
    wordAddr set tag i = wordAddr set' tag' i' ↔ set = set' ∧ tag = tag' ∧ i = i' := by
  constructor
  · intro heq
    have hn := congrArg BitVec.toNat heq
    rw [toNat_wordAddr h, toNat_wordAddr h] at hn
    have hi := i.isLt
    have hi' := i'.isLt
    have hline : tag.toNat * 2 ^ setBits + set.toNat = tag'.toNat * 2 ^ setBits + set'.toNat := by
      omega
    have hset : set.toNat = set'.toNat := by
      have hmod := congrArg (· % 2 ^ setBits) hline
      simpa [Nat.mul_add_mod_self_right, Nat.mod_eq_of_lt set.isLt, Nat.mod_eq_of_lt set'.isLt]
        using hmod
    have htag : tag.toNat = tag'.toNat := by
      have hmul : tag.toNat * 2 ^ setBits = tag'.toNat * 2 ^ setBits := by omega
      exact Nat.eq_of_mul_eq_mul_right (Nat.two_pow_pos setBits) hmul
    exact ⟨BitVec.eq_of_toNat_eq hset, BitVec.eq_of_toNat_eq htag,
      BitVec.eq_of_toNat_eq (by omega)⟩
  · rintro ⟨rfl, rfl, rfl⟩
    rfl

/-- The line an address is in, from its set and tag. -/
theorem tag_set_eq_line (h : setBits ≤ 25) (addr : Addr) :
    (tagOf setBits addr).toNat * 2 ^ setBits + (setIndex setBits addr).toNat =
      addr.toNat / 128 := by
  have hlt : addr.toNat / 2 ^ (7 + setBits) < 2 ^ (25 - setBits) := by
    rw [Nat.div_lt_iff_lt_mul (Nat.two_pow_pos _), ← pow_add,
      show 25 - setBits + (7 + setBits) = 32 by omega]
    exact addr.isLt
  rw [tagOf, setIndex, BitVec.extractLsb'_toNat, BitVec.extractLsb'_toNat,
    Nat.shiftRight_eq_div_pow, Nat.shiftRight_eq_div_pow, Nat.mod_eq_of_lt hlt, pow_add,
    ← Nat.div_div_eq_div_mul, Nat.mul_comm]
  exact Nat.div_add_mod _ _

theorem wordAddr_of_addr (h : setBits ≤ 25) (addr : Addr) :
    wordAddr (setIndex setBits addr) (tagOf setBits addr) (lineWordIndex addr) =
      wordIndex addr := by
  refine BitVec.eq_of_toNat_eq ?_
  rw [toNat_wordAddr h, tag_set_eq_line h, lineWordIndex, wordIndex, BitVec.extractLsb'_toNat,
    BitVec.toNat_ushiftRight, Nat.shiftRight_eq_div_pow]
  omega

/-- The words of a burst are the words of the line. -/
theorem wordIndex_lineBaseAddr_add (h : setBits ≤ 25) (addr : Addr) (i : BitVec 5) :
    wordIndex (lineBaseAddr addr) + i.setWidth 32 =
      wordAddr (setIndex setBits addr) (tagOf setBits addr) i := by
  refine BitVec.eq_of_toNat_eq ?_
  have hi := i.isLt
  have haddr := addr.isLt
  rw [toNat_wordAddr h, tag_set_eq_line h, wordIndex, lineBaseAddr, BitVec.toNat_add,
    BitVec.toNat_ushiftRight, BitVec.toNat_shiftLeft, BitVec.toNat_ushiftRight,
    BitVec.toNat_setWidth, Nat.shiftRight_eq_div_pow, Nat.shiftRight_eq_div_pow,
    Nat.shiftLeft_eq]
  omega

/-- The line base is in the line. -/
theorem lineBaseAddr_parts (h : setBits ≤ 25) (addr : Addr) :
    setIndex setBits (lineBaseAddr addr) = setIndex setBits addr ∧
      tagOf setBits (lineBaseAddr addr) = tagOf setBits addr := by
  have hbase := wordIndex_lineBaseAddr_add h addr 0
  rw [show (0 : BitVec 5).setWidth 32 = 0 from rfl, add_zero, ← wordAddr_of_addr h,
    wordAddr_inj h] at hbase
  exact ⟨hbase.1, hbase.2.1⟩

end WordAddr

end RiscvGpgpu.Hls
