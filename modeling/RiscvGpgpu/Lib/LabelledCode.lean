import RiscvGpgpu.Lib.Asm
import Mathlib.Logic.Relation
import Mathlib.Data.Set.Basic

/-!
# Labelled code

A `Language` says what an instruction does to the data of a thread, which event it makes and where
it passes control, all of which may depend on the events so far: these stand for what the
surroundings have seen and done. `traces` are the events of the runs of a code.

A translation replaces each instruction by a block of another language, of which only the last
instruction may make an event or jump. If each block does to related data what its instruction does,
behind the events of any run, the traces stay the same (`Translation.traces_eq`).
-/

namespace Code

open Asm (Next)

structure Language (I D E : Type) where
  exec : List E → I → D → D
  event : List E → I → D → Option E
  next : List E → I → D → Next
  label : I → Option (List Char)

/-- A thread that has returned is nowhere. -/
structure Thread (D E : Type) where
  pc : Option ℕ
  data : D
  events : List E

namespace Language

variable {I D E : Type} (L : Language I D E)

/-- The first place of a label. -/
def place (code : List I) (name : List Char) : Option ℕ :=
  code.findIdx? fun i => L.label i = some name

/-- Where control goes from `pc`; a label that is nowhere leaves the thread stuck. -/
def target (code : List I) (pc : ℕ) : Next → Option (Option ℕ)
  | .fall => some (some (pc + 1))
  | .goto name => (L.place code name).map some
  | .back => some none

/-- What an instruction makes of a thread that goes on at `pc`. -/
def act (i : I) (t : Thread D E) (pc : Option ℕ) : Thread D E where
  pc := pc
  data := L.exec t.events i t.data
  events := t.events ++ (L.event t.events i t.data).toList

def step (code : List I) (t : Thread D E) : Option (Thread D E) :=
  match t.pc with
  | none => none
  | some pc =>
    match code[pc]? with
    | none => none
    | some i => (L.target code pc (L.next t.events i t.data)).map (L.act i t)

def Reaches (code : List I) : Thread D E → Thread D E → Prop :=
  Relation.ReflTransGen fun t t' => L.step code t = some t'

def traces (code : List I) (pc : ℕ) (d : D) : Set (List E) :=
  {tr | ∃ t, L.Reaches code ⟨some pc, d, []⟩ t ∧ t.events = tr}

variable {L} {code : List I} {t t' : Thread D E} {i : I} {pc : ℕ}

theorem step_eq (hpc : t.pc = some pc) (hi : code[pc]? = some i) :
    L.step code t = (L.target code pc (L.next t.events i t.data)).map (L.act i t) := by
  rw [step, hpc]
  dsimp only
  rw [hi]

theorem step_of_returned (hpc : t.pc = none) : L.step code t = none := by
  rw [step, hpc]

/-- Instructions that only pass control on, but for the last one: its event and where it passes
control are those of the block. -/
inductive Block (L : Language I D E) (h : List E) : List I → D → Option E → Next → D → Prop where
  | nil (d : D) : Block L h [] d none .fall d
  | cons {i : I} {is : List I} {d d' : D} {ev : Option E} {nx : Next} (hev : L.event h i d = none)
      (hnx : L.next h i d = .fall) (hblock : Block L h is (L.exec h i d) ev nx d') :
      Block L h (i :: is) d ev nx d'
  | last (i : I) (d : D) : Block L h [i] d (L.event h i d) (L.next h i d) (L.exec h i d)

/-- The instruction only passes control on. -/
def Quiet (L : Language I D E) (i : I) : Prop :=
  ∀ h d, L.event h i d = none ∧ L.next h i d = .fall

/-- What instructions without a jump make of the data. -/
def run (h : List E) (is : List I) (d : D) : D := is.foldl (fun d i => L.exec h i d) d

variable {is : List I} {h : List E} {d : D}

theorem Block.quiet_append {is' : List I} {ev : Option E} {nx : Next} {d' : D}
    (hquiet : ∀ i ∈ is, L.Quiet i) (hblock : L.Block h is' (L.run h is d) ev nx d') :
    L.Block h (is ++ is') d ev nx d' := by
  induction is generalizing d with
  | nil => exact hblock
  | cons i is ih =>
    obtain ⟨hi, his⟩ := List.forall_mem_cons.1 hquiet
    exact .cons (hi h d).1 (hi h d).2 (ih his hblock)

theorem Block.quiet (hquiet : ∀ i ∈ is, L.Quiet i) (d : D) :
    L.Block h is d none .fall (L.run h is d) := by
  have hblock : L.Block h (is ++ []) d none .fall (L.run h is d) :=
    quiet_append hquiet (.nil (L.run h is d))
  rwa [List.append_nil] at hblock

/-- An instruction in front that only passes control on has no trace. -/
theorem Quiet.traces_succ (hi : code[pc]? = some i) (hquiet : L.Quiet i) (d : D) :
    L.traces code pc d = L.traces code (pc + 1) (L.exec [] i d) := by
  have hstep : L.step code ⟨some pc, d, []⟩ = some ⟨some (pc + 1), L.exec [] i d, []⟩ := by
    rw [L.step_eq rfl hi, (hquiet [] d).2]
    show some (L.act i _ _) = _
    rw [act, (hquiet [] d).1]
    rfl
  ext tr
  constructor
  · rintro ⟨t, hreaches, rfl⟩
    obtain rfl | ⟨t₁, ht₁, hreaches⟩ := hreaches.cases_head
    · exact ⟨_, .refl, rfl⟩
    · obtain rfl := Option.some.inj (hstep.symm.trans ht₁)
      exact ⟨t, hreaches, rfl⟩
  · rintro ⟨t, hreaches, rfl⟩
    exact ⟨t, .head hstep hreaches, rfl⟩

end Language

open Code.Language

/-- The blocks of a code that starts with some data, between two pieces that it cannot jump into.
The last instruction returns. -/
structure Translation {I D E I' D' : Type} (L : Language I D E) (L' : Language I' D' E) where
  code : List I
  start : D
  block : I → List I'
  before : List I'
  behind : List I'
  Rel : D → D' → Prop
  blocks : ∀ i ∈ code, ∀ h ∈ L.traces code 0 start, ∀ d d', Rel d d' → ∃ d'',
    L'.Block h (block i) d' (L.event h i d) (L.next h i d) d'' ∧ Rel (L.exec h i d) d''
  labels : ∀ i ∈ code, ∀ name, L.label i = some name →
    ∃ l, block i = [l] ∧ L'.label l = some name
  unlabelled : ∀ i ∈ code, L.label i = none → ∀ l ∈ block i, L'.label l = none
  inside : ∀ i ∈ code, ∀ h d name, L.next h i d = .goto name →
    ∀ l ∈ before ++ behind, L'.label l ≠ some name
  returns : ∃ i, code.getLast? = some i ∧ ∀ h d, L.next h i d = .back

namespace Translation

variable {I D E I' D' : Type} {L : Language I D E} {L' : Language I' D' E} (T : Translation L L')

/-- The translated code. -/
def result : List I' := T.before ++ (T.code.flatMap T.block ++ T.behind)

/-- A thread of the code. -/
def Reached (t : Thread D E) : Prop := L.Reaches T.code ⟨some 0, T.start, []⟩ t

/-- The place of the block of instruction `k`. -/
def offset (k : ℕ) : ℕ := T.before.length + ((T.code.take k).flatMap T.block).length

variable {T} {t t₁ : Thread D E} {t' t₁' : Thread D' E} {i : I} {k : ℕ} {h : List E} {d : D}

theorem drop_offset (k : ℕ) :
    T.result.drop (T.offset k) = (T.code.drop k).flatMap T.block ++ T.behind := by
  have hsplit : T.code.flatMap T.block =
      (T.code.take k).flatMap T.block ++ (T.code.drop k).flatMap T.block := by
    rw [← List.flatMap_append, List.take_append_drop]
  rw [result, hsplit, offset, List.append_assoc, ← List.drop_drop, List.drop_left, List.drop_left]

theorem offset_succ (hi : T.code[k]? = some i) :
    T.offset (k + 1) = T.offset k + (T.block i).length := by
  obtain ⟨hk, rfl⟩ := List.getElem?_eq_some_iff.1 hi
  rw [offset, offset, List.take_succ_eq_append_getElem hk, List.flatMap_append, List.length_append,
    List.flatMap_singleton, Nat.add_assoc]

theorem drop_cons (hi : T.code[k]? = some i) :
    T.code.drop k = i :: T.code.drop (k + 1) := by
  obtain ⟨hk, rfl⟩ := List.getElem?_eq_some_iff.1 hi
  exact List.drop_eq_getElem_cons hk

/-! ### Jumps -/

theorem place_append_left {L : Language I D E} {name : List Char} {is js : List I}
    (h : ∀ i ∈ is, L.label i ≠ some name) :
    L.place (is ++ js) name = (L.place js name).map (· + is.length) := by
  rw [place, List.findIdx?_append, List.findIdx?_eq_none_iff.2 fun i hi => by simpa using h i hi]
  rfl

/-- A label of the code is found at the block of its instruction. -/
theorem place_flatMap {name : List Char} (code : List I) (hsub : ∀ i ∈ code, i ∈ T.code)
    (hbehind : ∀ l ∈ T.behind, L'.label l ≠ some name) :
    L'.place (code.flatMap T.block ++ T.behind) name =
      (L.place code name).map fun k => ((code.take k).flatMap T.block).length := by
  induction code with
  | nil =>
    have hnone := @place_append_left _ _ _ L' name T.behind [] hbehind
    rw [List.append_nil] at hnone
    exact hnone
  | cons i code ih =>
    have hi := hsub i List.mem_cons_self
    have hrest := ih fun j hj => hsub j (List.mem_cons_of_mem i hj)
    rw [List.flatMap_cons, List.append_assoc]
    by_cases hlabel : L.label i = some name
    · obtain ⟨l, hblock, hl⟩ := T.labels i hi name hlabel
      have hlower : L'.place (T.block i ++ (code.flatMap T.block ++ T.behind)) name = some 0 := by
        rw [hblock, place, List.singleton_append, List.findIdx?_cons, hl]
        simp
      have hupper : L.place (i :: code) name = some 0 := by
        rw [place, List.findIdx?_cons, hlabel]
        simp
      rw [hlower, hupper]
      rfl
    · have hother : ∀ l ∈ T.block i, L'.label l ≠ some name := by
        intro l hl
        cases hlabel' : L.label i with
        | none =>
          rw [T.unlabelled i hi hlabel' l hl]
          exact (Option.some_ne_none name).symm
        | some name' =>
          obtain ⟨l', hblock, hl'⟩ := T.labels i hi name' hlabel'
          rw [hblock, List.mem_singleton] at hl
          rw [hl, hl', ← hlabel']
          exact hlabel
      have hupper : L.place (i :: code) name = (L.place code name).map (· + 1) := by
        rw [place, List.findIdx?_cons, decide_eq_false hlabel]
        rfl
      rw [place_append_left hother, hrest, hupper, Option.map_map, Option.map_map]
      congr 1
      funext k
      show _ + (T.block i).length = ((i :: code.take k).flatMap T.block).length
      rw [List.flatMap_cons, List.length_append, Nat.add_comm]

theorem place_result {name : List Char} (h : ∀ l ∈ T.before ++ T.behind, L'.label l ≠ some name) :
    L'.place T.result name = (L.place T.code name).map T.offset := by
  have hbefore : ∀ l ∈ T.before, L'.label l ≠ some name :=
    fun l hl => h l (List.mem_append_left _ hl)
  have hbehind : ∀ l ∈ T.behind, L'.label l ≠ some name :=
    fun l hl => h l (List.mem_append_right _ hl)
  rw [result, place_append_left hbefore, T.place_flatMap T.code (fun _ => id) hbehind,
    Option.map_map]
  congr 1
  funext k
  exact Nat.add_comm _ _

/-- Control goes to corresponding places. -/
theorem target_result {p : ℕ} (hi : T.code[k]? = some i) (hp : p + 1 = T.offset (k + 1)) :
    L'.target T.result p (L.next h i d) =
      (L.target T.code k (L.next h i d)).map (Option.map T.offset) := by
  cases hnext : L.next h i d with
  | fall =>
    show some (some (p + 1)) = some (some (T.offset (k + 1)))
    rw [hp]
  | goto name =>
    have hinside := T.inside i (List.mem_of_getElem? hi) h d name hnext
    show (L'.place T.result name).map some = ((L.place T.code name).map some).map _
    rw [T.place_result hinside, Option.map_map, Option.map_map]
    rfl
  | back => rfl

/-- Control stays inside the code. -/
theorem lt_of_target (hi : T.code[k]? = some i) {pc : Option ℕ}
    (htarget : L.target T.code k (L.next h i d) = some pc) : ∀ k' ∈ pc, k' < T.code.length := by
  obtain ⟨hk, hget⟩ := List.getElem?_eq_some_iff.1 hi
  intro k' hk'
  cases hnext : L.next h i d with
  | fall =>
    rw [hnext] at htarget
    obtain rfl := Option.some.inj htarget
    obtain rfl := Option.some.inj hk'
    by_contra hge
    -- the instruction is the last one, which returns
    obtain ⟨j, hlast, hback⟩ := T.returns
    rw [List.getLast?_eq_getElem?, show T.code.length - 1 = k by omega, hi] at hlast
    obtain rfl := Option.some.inj hlast
    rw [hback] at hnext
    exact absurd hnext (by simp)
  | goto name =>
    rw [hnext] at htarget
    obtain ⟨k'', hplace, rfl⟩ := Option.map_eq_some_iff.1 htarget
    obtain rfl := Option.some.inj hk'
    exact (List.findIdx?_eq_some_iff_getElem.1 hplace).1
  | back =>
    rw [hnext] at htarget
    obtain rfl := Option.some.inj htarget
    exact absurd hk' (by simp)

/-! ### Simulation -/

/-- The lower thread is inside the block of the upper thread's instruction: the rest of the block
has the event of the instruction, passes control where it does and leads to related data. -/
structure InBlock (T : Translation L L') (t : Thread D E) (t' : Thread D' E) (k : ℕ) (i : I)
    (p : ℕ) (ls : List I') : Prop where
  reached : T.Reached t
  pc : t.pc = some k
  instr : T.code[k]? = some i
  pc' : t'.pc = some p
  rest : T.result.drop p = ls ++ ((T.code.drop (k + 1)).flatMap T.block ++ T.behind)
  size : p + ls.length = T.offset (k + 1)
  block : ∃ d', L'.Block t.events ls t'.data (L.event t.events i t.data)
    (L.next t.events i t.data) d' ∧ T.Rel (L.exec t.events i t.data) d'

/-- Both threads made the same events, and both have returned or are inside one block. -/
structure Matches (T : Translation L L') (t : Thread D E) (t' : Thread D' E) : Prop where
  events : t'.events = t.events
  control : t.pc = none ∧ t'.pc = none ∨ ∃ k i p ls, T.InBlock t t' k i p ls

/-- At the start of a block. -/
theorem matches_start {pc : Option ℕ} (hreached : T.Reached t) (hpc : t.pc = pc)
    (hpc' : t'.pc = pc.map T.offset) (hlt : ∀ k ∈ pc, k < T.code.length)
    (hevents : t'.events = t.events)
    (hrel : T.Rel t.data t'.data) : T.Matches t t' := by
  refine ⟨hevents, ?_⟩
  cases pc with
  | none => exact .inl ⟨hpc, hpc'⟩
  | some k =>
    have hk := hlt k rfl
    have hi : T.code[k]? = some T.code[k] := List.getElem?_eq_getElem hk
    refine .inr ⟨k, T.code[k], T.offset k, T.block T.code[k], hreached, hpc, hi, hpc', ?_,
      (T.offset_succ hi).symm,
      T.blocks _ (List.getElem_mem hk) t.events ⟨t, hreached, rfl⟩ t.data t'.data hrel⟩
    rw [T.drop_offset, T.drop_cons hi, List.flatMap_cons, List.append_assoc]

/-- An empty block: the upper thread goes on alone. -/
theorem InBlock.step_nil {p : ℕ} (h : T.InBlock t t' k i p []) (hevents : t'.events = t.events) :
    ∃ t₁, L.step T.code t = some t₁ ∧ T.Matches t₁ t' ∧ t₁.pc = some (k + 1) := by
  obtain ⟨d', hblock, hrel⟩ := h.block
  generalize hev : L.event t.events i t.data = ev at hblock
  generalize hnx : L.next t.events i t.data = nx at hblock
  generalize hd : t'.data = d at hblock
  cases hblock
  have hstep := L.step_eq h.pc h.instr
  have htarget : L.target T.code k (L.next t.events i t.data) = some (some (k + 1)) := by
    rw [hnx]
    rfl
  rw [htarget] at hstep
  refine ⟨_, hstep, T.matches_start (h.reached.tail hstep) rfl ?_ (T.lt_of_target h.instr htarget)
    ?_ ?_, rfl⟩
  · show t'.pc = some (T.offset (k + 1))
    rw [h.pc', ← h.size]
    rfl
  · show t'.events = t.events ++ (L.event t.events i t.data).toList
    rw [hev, hevents, Option.toList_none, List.append_nil]
  · rw [hd]
    exact hrel

/-- An instruction of a block either stays in it or ends it together with the upper thread. -/
theorem InBlock.step_cons {p : ℕ} {l : I'} {ls : List I'} (h : T.InBlock t t' k i p (l :: ls))
    (hevents : t'.events = t.events) :
    (∃ t₁', L'.step T.result t' = some t₁' ∧ t₁'.events = t.events ∧
        T.InBlock t t₁' k i (p + 1) ls) ∨
      ∃ o : Option (Option ℕ), L.step T.code t = o.map (L.act i t) ∧
        L'.step T.result t' = o.map (fun pc => L'.act l t' (pc.map T.offset)) ∧
        ∀ pc ∈ o, T.Matches (L.act i t pc) (L'.act l t' (pc.map T.offset)) := by
  have hl : T.result[p]? = some l := by
    rw [← List.head?_drop, h.rest]
    rfl
  have hrest : T.result.drop (p + 1) =
      ls ++ ((T.code.drop (k + 1)).flatMap T.block ++ T.behind) := by
    rw [← List.drop_drop, h.rest]
    rfl
  have hsize : p + 1 + ls.length = T.offset (k + 1) := by
    rw [← h.size, List.length_cons]
    omega
  obtain ⟨d', hblock, hrel⟩ := h.block
  have hstep' := L'.step_eq h.pc' hl
  rw [hevents] at hstep'
  generalize hev : L.event t.events i t.data = ev at hblock
  generalize hnx : L.next t.events i t.data = nx at hblock
  cases hblock with
  | cons hquiet hfall hrest' =>
    rw [hfall] at hstep'
    refine .inl ⟨_, hstep', ?_, h.reached, h.pc, h.instr, rfl, hrest, hsize, d', ?_, hrel⟩
    · show t'.events ++ (L'.event t'.events l t'.data).toList = t.events
      rw [hevents, hquiet, Option.toList_none, List.append_nil]
    · rw [hev, hnx]
      show L'.Block t.events ls (L'.exec t'.events l t'.data) ev nx d'
      rwa [hevents]
  | last =>
    have hstep := L.step_eq h.pc h.instr
    refine .inr ⟨L.target T.code k (L.next t.events i t.data), hstep, ?_, ?_⟩
    · rw [hstep', ← hnx, T.target_result h.instr hsize, Option.map_map]
      rfl
    · intro pc hpc
      have hreached : T.Reached (L.act i t pc) :=
        h.reached.tail (hstep.trans (congrArg (Option.map (L.act i t)) hpc))
      refine T.matches_start hreached rfl rfl (T.lt_of_target h.instr hpc) ?_ ?_
      · show t'.events ++ (L'.event t'.events l t'.data).toList =
          t.events ++ (L.event t.events i t.data).toList
        rw [hevents, hev]
      · show T.Rel _ (L'.exec t'.events l t'.data)
        rwa [hevents]

/-- The lower thread can follow the upper one. -/
theorem Matches.forward (h : T.Matches t t') (hstep : L.step T.code t = some t₁) :
    ∃ t₁', L'.Reaches T.result t' t₁' ∧ T.Matches t₁ t₁' := by
  obtain ⟨hpc, -⟩ | ⟨k, i, p, ls, hin⟩ := h.control
  · rw [L.step_of_returned hpc] at hstep
    exact absurd hstep (by simp)
  · have hevents := h.events
    clear h
    induction ls generalizing t' p with
    | nil =>
      obtain ⟨t₂, ht₂, hmatches, -⟩ := hin.step_nil hevents
      obtain rfl := Option.some.inj (hstep.symm.trans ht₂)
      exact ⟨t', .refl, hmatches⟩
    | cons l ls ih =>
      obtain ⟨t₂', ht₂', hevents', hin'⟩ | ⟨o, ho, ho', hmatches⟩ := hin.step_cons hevents
      · obtain ⟨t₁', hreaches, hmatches⟩ := ih _ hin' hevents'
        exact ⟨t₁', .head ht₂' hreaches, hmatches⟩
      · rw [ho] at hstep
        obtain ⟨pc, rfl, rfl⟩ := Option.map_eq_some_iff.1 hstep
        exact ⟨_, .single ho', hmatches pc rfl⟩

/-- The upper thread can follow the lower one. -/
theorem Matches.backward (h : T.Matches t t') (hstep : L'.step T.result t' = some t₁') :
    ∃ t₁, L.Reaches T.code t t₁ ∧ T.Matches t₁ t₁' := by
  obtain ⟨-, hpc'⟩ | ⟨k, i, p, ls, hin⟩ := h.control
  · rw [L'.step_of_returned hpc'] at hstep
    exact absurd hstep (by simp)
  · -- behind empty blocks, which end with the code
    obtain ⟨n, hn⟩ : ∃ n, T.code.length - k = n := ⟨_, rfl⟩
    induction n generalizing t k i p ls with
    | zero =>
      obtain ⟨hk, -⟩ := List.getElem?_eq_some_iff.1 hin.instr
      omega
    | succ n ih =>
      cases ls with
      | nil =>
        obtain ⟨t₂, ht₂, hmatches, hpc⟩ := hin.step_nil h.events
        obtain ⟨hnone, -⟩ | ⟨k', i', p', ls', hin'⟩ := hmatches.control
        · rw [hpc] at hnone
          exact absurd hnone (by simp)
        · obtain rfl := Option.some.inj (hpc.symm.trans hin'.pc)
          obtain ⟨t₁, hreaches, hmatches'⟩ := ih hmatches _ _ _ _ hin' (by omega)
          exact ⟨t₁, .head ht₂ hreaches, hmatches'⟩
      | cons l ls =>
        obtain ⟨t₂', ht₂', hevents', hin'⟩ | ⟨o, ho, ho', hmatches⟩ := hin.step_cons h.events
        · obtain rfl := Option.some.inj (hstep.symm.trans ht₂')
          exact ⟨t, .refl, hevents', .inr ⟨k, i, p + 1, ls, hin'⟩⟩
        · rw [ho'] at hstep
          obtain ⟨pc, rfl, rfl⟩ := Option.map_eq_some_iff.1 hstep
          exact ⟨_, .single ho, hmatches pc rfl⟩

theorem Matches.reaches (h : T.Matches t t') (hreaches : L.Reaches T.code t t₁) :
    ∃ t₁', L'.Reaches T.result t' t₁' ∧ T.Matches t₁ t₁' := by
  induction hreaches with
  | refl => exact ⟨t', .refl, h⟩
  | tail _ hstep ih =>
    obtain ⟨t₂', hreaches', hmatches⟩ := ih
    obtain ⟨t₁', hreaches'', hmatches'⟩ := hmatches.forward hstep
    exact ⟨t₁', hreaches'.trans hreaches'', hmatches'⟩

theorem Matches.reaches' (h : T.Matches t t') (hreaches : L'.Reaches T.result t' t₁') :
    ∃ t₁, L.Reaches T.code t t₁ ∧ T.Matches t₁ t₁' := by
  induction hreaches with
  | refl => exact ⟨t, .refl, h⟩
  | tail _ hstep ih =>
    obtain ⟨t₂, hreaches', hmatches⟩ := ih
    obtain ⟨t₁, hreaches'', hmatches'⟩ := hmatches.backward hstep
    exact ⟨t₁, hreaches'.trans hreaches'', hmatches'⟩

/-- A translated code has the traces of the code. -/
theorem traces_eq {d' : D'} (h : T.Rel T.start d') :
    L'.traces T.result T.before.length d' = L.traces T.code 0 T.start := by
  have hlt : ∀ k ∈ some 0, k < T.code.length := by
    intro k hk
    obtain rfl := Option.some.inj hk
    obtain ⟨i, hlast, -⟩ := T.returns
    exact List.length_pos_of_mem (List.mem_of_getLast? hlast)
  have hstart : T.Matches ⟨some 0, T.start, []⟩ ⟨some T.before.length, d', []⟩ :=
    T.matches_start .refl rfl rfl hlt rfl h
  ext tr
  constructor
  · rintro ⟨t₁', hreaches, rfl⟩
    obtain ⟨t₁, hreaches', hmatches⟩ := hstart.reaches' hreaches
    exact ⟨t₁, hreaches', hmatches.events.symm⟩
  · rintro ⟨t₁, hreaches, rfl⟩
    obtain ⟨t₁', hreaches', hmatches⟩ := hstart.reaches hreaches
    exact ⟨t₁', hreaches', hmatches.events⟩

end Translation

end Code
