import Mathlib.Data.Set.Lattice
import Mathlib.Logic.Function.Basic
import Mathlib.Tactic.Common

/-!
# Threads over one memory

Threads take steps on one memory in any order. They are in blocks, and a block whose threads all
wait at one barrier is released. `Threads` says what one thread does: a step depends on the cells
that it accesses, and changes those that it writes.

A run is race free if a thread writes what another one accesses only in its own block, with a
release of the block in between. Two steps that can follow each other are then independent, and
whatever order the steps are taken in, they can be continued to the end that the race free run has
(`Run.completes`).
-/

namespace Interleaving

/-- What one thread does in a state `σ` with a memory `M`, of which `get` looks up the cells. -/
structure Threads (ι β σ κ M A V : Type) where
  block : ι → β
  get : M → A → V
  valid : M → Prop
  runs : σ → Prop
  /-- At which barrier the thread waits. -/
  waits : σ → κ → Prop
  resume : σ → σ
  step : ι → σ → M → Option (σ × M)
  accessed : ι → σ → M → Set A
  written : ι → σ → M → Set A
  not_waits : ∀ {x k}, runs x → ¬ waits x k
  written_subset : ∀ {i x m}, written i x m ⊆ accessed i x m
  frame : ∀ {i x m x' m'}, valid m → runs x → step i x m = some (x', m') →
    valid m' ∧ ∀ a ∉ written i x m, get m' a = get m a
  accessed_eq : ∀ {i x m n}, valid m → valid n → runs x →
    (∀ a ∈ accessed i x m, get m a = get n a) →
      accessed i x n = accessed i x m ∧ written i x n = written i x m
  step_eq : ∀ {i x m n x' m'}, valid m → valid n → runs x →
    (∀ a ∈ accessed i x m, get m a = get n a) → step i x m = some (x', m') →
      ∃ n', step i x n = some (x', n') ∧ ∀ a ∈ written i x m, get m' a = get n' a

structure State (ι β σ M : Type) where
  threads : ι → σ
  mem : M
  /-- How often a block has been released. -/
  released : β → ℕ

/-- A step, with the releases of its block so far and the cells that it goes to, or a release. -/
inductive Event (ι β A : Type) where
  | step (i : ι) (released : ℕ) (accessed written : Set A)
  | release (b : β)

/-- Whose event it is. -/
def Event.owner {ι β A : Type} : Event ι β A → ι ⊕ β
  | .step i _ _ _ => .inl i
  | .release b => .inr b

variable {ι β σ κ M A V : Type}

section Moves

variable (T : Threads ι β σ κ M A V)

/-- The event of a step. -/
def State.event (s : State ι β σ M) (i : ι) : Event ι β A :=
  .step i (s.released (T.block i)) (T.accessed i (s.threads i) s.mem)
    (T.written i (s.threads i) s.mem)

/-- All threads of the block wait at one barrier, and it has some. -/
def State.Complete (s : State ι β σ M) (b : β) : Prop :=
  (∃ i, T.block i = b) ∧ ∃ k, ∀ i, T.block i = b → T.waits (s.threads i) k

/-- No thread can go on. -/
structure State.Final (s : State ι β σ M) : Prop where
  runs : ∀ i, ¬ T.runs (s.threads i)
  complete : ∀ b, ¬ s.Complete T b

/-- A thread writes what another one accesses only in its own block, with a release in between. -/
def RaceFree (es : List (Event ι β A)) : Prop :=
  ∀ i p acc wr, Event.step i p acc wr ∈ es → ∀ j q acc' wr', Event.step j q acc' wr' ∈ es →
    i ≠ j → (wr ∩ acc').Nonempty → T.block i = T.block j ∧ p ≠ q

/-- The same threads, over memories with the same cells. -/
structure Same (s r : State ι β σ M) : Prop where
  threads : s.threads = r.threads
  released : s.released = r.released
  left : T.valid s.mem
  right : T.valid r.mem
  get : ∀ a, T.get s.mem a = T.get r.mem a

end Moves

section Same

variable {T : Threads ι β σ κ M A V} {s r t : State ι β σ M} {b : β}

theorem Same.refl (h : T.valid s.mem) : Same T s s := ⟨rfl, rfl, h, h, fun _ => rfl⟩

theorem Same.symm (h : Same T s r) : Same T r s :=
  ⟨h.threads.symm, h.released.symm, h.right, h.left, fun a => (h.get a).symm⟩

theorem Same.trans (h : Same T s r) (h' : Same T r t) : Same T s t :=
  ⟨h.threads.trans h'.threads, h.released.trans h'.released, h.left, h'.right,
    fun a => (h.get a).trans (h'.get a)⟩

theorem Same.complete (h : Same T s r) (hb : s.Complete T b) : r.Complete T b := by
  unfold State.Complete at hb ⊢
  rwa [← h.threads]

theorem Same.final (h : Same T s r) (hs : s.Final T) : r.Final T :=
  ⟨fun i hi => hs.runs i (h.threads ▸ hi), fun b hb => hs.complete b (h.symm.complete hb)⟩

end Same

/-! ## Independent steps -/

section Apart

variable {T : Threads ι β σ κ M A V} {s : State ι β σ M} {es es' : List (Event ι β A)} {i : ι}

/-- Neither event writes what the other one accesses, and neither is of the other one's thread or
block. -/
def Apart (T : Threads ι β σ κ M A V) : Event ι β A → Event ι β A → Prop
  | .step i _ acc wr, .step j _ acc' wr' =>
    i ≠ j ∧ (∀ a ∈ wr, a ∉ acc') ∧ ∀ a ∈ wr', a ∉ acc
  | .step i _ _ _, .release b => T.block i ≠ b
  | .release b, .step i _ _ _ => T.block i ≠ b
  | .release b, .release b' => b ≠ b'

/-- The event is neither of the thread nor a release of its block. -/
def Event.Spares (T : Threads ι β σ κ M A V) (i : ι) (e : Event ι β A) : Prop :=
  e.owner ≠ .inl i ∧ e.owner ≠ .inr (T.block i)

theorem RaceFree.subset (h : RaceFree T es) (hsub : es'.Subset es) : RaceFree T es' :=
  fun i p acc wr hi j q acc' wr' hj => h i p acc wr (hsub hi) j q acc' wr' (hsub hj)

/-- In a race free run the steps before the next one of a thread are apart from it. -/
theorem RaceFree.apart {pre post : List (Event ι β A)} {p : ℕ} {acc wr : Set A}
    (h : RaceFree T (pre ++ .step i p acc wr :: post)) (hpre : ∀ e ∈ pre, e.Spares T i)
    (hphase : ∀ e ∈ pre, ∀ j q acc wr, e = .step j q acc wr → T.block j = T.block i → q = p) :
    ∀ e ∈ pre, Apart T e (.step i p acc wr) := by
  intro e he
  have hmem : Event.step i p acc wr ∈ pre ++ .step i p acc wr :: post :=
    List.mem_append_right _ List.mem_cons_self
  have hmem' := List.mem_append_left (.step i p acc wr :: post) he
  obtain ⟨hown, hblock⟩ := hpre e he
  cases e with
  | step j q acc' wr' =>
    have hne : j ≠ i := fun heq => hown (congrArg Sum.inl heq)
    have hsame := hphase _ he j q acc' wr' rfl
    refine ⟨hne, ?_, ?_⟩
    · intro a hwr hacc
      obtain ⟨hb, hq⟩ := h j q acc' wr' hmem' i p acc wr hmem hne ⟨a, hwr, hacc⟩
      exact hq (hsame hb)
    · intro a hwr hacc
      obtain ⟨hb, hq⟩ := h i p acc wr hmem j q acc' wr' hmem' hne.symm ⟨a, hwr, hacc⟩
      exact hq (hsame hb.symm).symm
  | release b => exact fun heq => hblock (congrArg Sum.inr heq.symm)

/-- Two steps that are apart, the other way around. -/
theorem swap_steps {j : ι} {x y : σ} {m n : M} (hs : T.valid s.mem)
    (hruns : T.runs (s.threads j)) (hstep : T.step j (s.threads j) s.mem = some (x, m))
    (hruns' : T.runs (s.threads i)) (hstep' : T.step i (s.threads i) m = some (y, n))
    (hfst : ∀ a ∈ T.written j (s.threads j) s.mem, a ∉ T.accessed i (s.threads i) m)
    (hsnd : ∀ a ∈ T.written i (s.threads i) m, a ∉ T.accessed j (s.threads j) s.mem) :
    ∃ m' n', T.step i (s.threads i) s.mem = some (y, m') ∧
      T.step j (s.threads j) m' = some (x, n') ∧
      T.accessed i (s.threads i) s.mem = T.accessed i (s.threads i) m ∧
      T.written i (s.threads i) s.mem = T.written i (s.threads i) m ∧
      T.accessed j (s.threads j) m' = T.accessed j (s.threads j) s.mem ∧
      T.written j (s.threads j) m' = T.written j (s.threads j) s.mem ∧
      T.valid n ∧ T.valid n' ∧ ∀ a, T.get n a = T.get n' a := by
  obtain ⟨hm, hframe⟩ := T.frame hs hruns hstep
  obtain ⟨hn, hframe'⟩ := T.frame hm hruns' hstep'
  -- the first step of `i` finds the cells it accesses as `j` has left them
  have hback : ∀ a ∈ T.accessed i (s.threads i) m, T.get m a = T.get s.mem a :=
    fun a ha => hframe a fun hw => hfst a hw ha
  obtain ⟨hacc, hwr⟩ := T.accessed_eq hm hs hruns' hback
  obtain ⟨m', hfirst, hnew⟩ := T.step_eq hm hs hruns' hback hstep'
  obtain ⟨hm', hframe₁⟩ := T.frame hs hruns' hfirst
  rw [hwr] at hframe₁
  have hforth : ∀ a ∈ T.accessed j (s.threads j) s.mem, T.get s.mem a = T.get m' a :=
    fun a ha => (hframe₁ a fun hw => hsnd a hw ha).symm
  obtain ⟨hacc', hwr'⟩ := T.accessed_eq hs hm' hruns hforth
  obtain ⟨n', hsecond, hnew'⟩ := T.step_eq hs hm' hruns hforth hstep
  obtain ⟨hn', hframe₂⟩ := T.frame hm' hruns hsecond
  rw [hwr'] at hframe₂
  refine ⟨m', n', hfirst, hsecond, hacc, hwr, hacc', hwr', hn, hn', fun a => ?_⟩
  by_cases hi : a ∈ T.written i (s.threads i) m
  · have hj : a ∉ T.written j (s.threads j) s.mem := fun hj =>
      hsnd a hi (T.written_subset hj)
    rw [hnew a hi, hframe₂ a hj]
  · rw [hframe' a hi]
    by_cases hj : a ∈ T.written j (s.threads j) s.mem
    · exact hnew' a hj
    · rw [hframe a hj, hframe₂ a hj, hframe₁ a hi]

end Apart

/-! ## Moves -/

variable [DecidableEq ι] [DecidableEq β]

section Moves

variable (T : Threads ι β σ κ M A V)

/-- The state after a step of a thread. -/
def State.stepped (s : State ι β σ M) (i : ι) (x : σ) (m : M) : State ι β σ M :=
  { s with threads := Function.update s.threads i x, mem := m }

/-- The state after the release of a block. -/
def State.resumed (s : State ι β σ M) (b : β) : State ι β σ M :=
  { s with
    threads := fun i => if T.block i = b then T.resume (s.threads i) else s.threads i
    released := Function.update s.released b (s.released b + 1) }

inductive Move : State ι β σ M → Event ι β A → State ι β σ M → Prop
  | step {s : State ι β σ M} {i : ι} {x : σ} {m : M} (hruns : T.runs (s.threads i))
      (hstep : T.step i (s.threads i) s.mem = some (x, m)) :
      Move s (s.event T i) (s.stepped i x m)
  | release {s : State ι β σ M} {b : β} (hcomplete : s.Complete T b) :
      Move s (.release b) (s.resumed T b)

inductive Run : State ι β σ M → List (Event ι β A) → State ι β σ M → Prop
  | nil (s : State ι β σ M) : Run s [] s
  | cons {s s' s'' : State ι β σ M} {e : Event ι β A} {es : List (Event ι β A)}
      (h : Move T s e s') (hs : Run s' es s'') : Run s (e :: es) s''

end Moves

variable {T : Threads ι β σ κ M A V} {s s' s'' r r' t u : State ι β σ M} {e e' : Event ι β A}
  {es es' : List (Event ι β A)} {i : ι} {b : β}

theorem Move.valid (h : Move T s e s') (hs : T.valid s.mem) : T.valid s'.mem := by
  cases h with
  | step hruns hstep => exact (T.frame hs hruns hstep).1
  | release => exact hs

/-- A move of one state is a move of every state that is the same. -/
theorem Move.same (h : Move T s e s') (hs : Same T s r) :
    ∃ r', Move T r e r' ∧ Same T s' r' := by
  obtain ⟨hthreads, hreleased, hleft, hright, hget⟩ := hs
  cases h with
  | @step i x m hruns hstep =>
    obtain ⟨hacc, hwr⟩ := T.accessed_eq hleft hright hruns fun a _ => hget a
    obtain ⟨n, hstep', hnew⟩ := T.step_eq hleft hright hruns (fun a _ => hget a) hstep
    have hevent : s.event T i = r.event T i := by
      unfold State.event
      rw [← hthreads, ← hreleased, hacc, hwr]
    have hvalid := T.frame hleft hruns hstep
    have hvalid' := T.frame hright hruns hstep'
    rw [hthreads] at hstep' hruns
    refine ⟨r.stepped i x n, hevent ▸ .step hruns hstep', ?_, hreleased, hvalid.1, hvalid'.1,
      fun a => ?_⟩
    · exact congrArg (Function.update · i x) hthreads
    · by_cases ha : a ∈ T.written i (s.threads i) s.mem
      · exact hnew a ha
      · calc T.get m a = T.get s.mem a := hvalid.2 a ha
          _ = T.get r.mem a := hget a
          _ = T.get n a := (hvalid'.2 a (hwr ▸ ha)).symm
  | @release b hcomplete =>
    refine ⟨r.resumed T b, .release ?_, ?_, ?_, hleft, hright, hget⟩
    · unfold State.Complete at hcomplete ⊢
      rwa [← hthreads]
    · unfold State.resumed
      rw [hthreads]
    · unfold State.resumed
      rw [hreleased]

/-- Whose event a move makes says what the move is. -/
theorem Move.unique (h : Move T s e s') (h' : Move T s e' s'') (howner : e.owner = e'.owner) :
    e = e' ∧ s' = s'' := by
  cases h with
  | step _ hstep =>
    cases h' with
    | step _ hstep' =>
      obtain rfl := Sum.inl.inj howner
      obtain ⟨rfl, rfl⟩ := Prod.mk.inj (Option.some.inj (hstep.symm.trans hstep'))
      exact ⟨rfl, rfl⟩
    | release => exact absurd howner Sum.inl_ne_inr
  | release =>
    cases h' with
    | step => exact absurd howner Sum.inr_ne_inl
    | release =>
      obtain rfl := Sum.inr.inj howner
      exact ⟨rfl, rfl⟩

theorem Run.valid (h : Run T s es t) (hs : T.valid s.mem) : T.valid t.mem := by
  induction h with
  | nil => exact hs
  | cons hmove _ ih => exact ih (hmove.valid hs)

theorem Run.same (h : Run T s es t) (hs : Same T s r) : ∃ t', Run T r es t' ∧ Same T t t' := by
  induction h generalizing r with
  | nil => exact ⟨r, .nil r, hs⟩
  | cons hmove _ ih =>
    obtain ⟨r', hmove', hsame⟩ := hmove.same hs
    obtain ⟨t', hrun, hsame'⟩ := ih hsame
    exact ⟨t', .cons hmove' hrun, hsame'⟩

theorem Run.append (h : Run T s es t) (h' : Run T t es' u) : Run T s (es ++ es') u := by
  induction h with
  | nil => exact h'
  | cons hmove _ ih => exact .cons hmove (ih h')

/-- One move more, of a state that is the same as the end of a run. -/
theorem Run.snoc_same (h : Run T s es u) (hs : Same T u r) (hmove : Move T r e r') :
    ∃ u', Run T s (es ++ [e]) u' ∧ Same T u' r' := by
  obtain ⟨u', hmove', hsame⟩ := hmove.same hs.symm
  exact ⟨u', h.append (.cons hmove' (.nil u')), hsame.symm⟩

/-! ## Independent moves -/

theorem resumed_stepped {x : σ} {m : M} (hne : T.block i ≠ b) :
    (s.stepped i x m).resumed T b = (s.resumed T b).stepped i x m := by
  unfold State.resumed State.stepped
  congr 1
  funext j
  dsimp only
  by_cases hij : j = i
  · subst hij
    rw [Function.update_self, Function.update_self, if_neg hne]
  · rw [Function.update_of_ne hij, Function.update_of_ne hij]

omit [DecidableEq β] in
theorem complete_stepped {x : σ} {m : M} (hne : T.block i ≠ b) :
    (s.stepped i x m).Complete T b ↔ s.Complete T b := by
  unfold State.Complete
  refine and_congr_right fun _ => exists_congr fun k => forall_congr' fun j =>
    imp_congr_right fun hj => ?_
  have hij : j ≠ i := by
    rintro rfl
    exact hne hj
  show T.waits (Function.update s.threads i x j) k ↔ _
  rw [Function.update_of_ne hij]

omit [DecidableEq ι] in
theorem resumed_threads (hne : T.block i ≠ b) : (s.resumed T b).threads i = s.threads i :=
  if_neg hne

omit [DecidableEq ι] in
theorem resumed_event (hne : T.block i ≠ b) : (s.resumed T b).event T i = s.event T i := by
  have hreleased : (s.resumed T b).released (T.block i) = s.released (T.block i) :=
    Function.update_of_ne hne _ _
  unfold State.event
  rw [resumed_threads hne, hreleased]
  rfl

omit [DecidableEq ι] in
theorem complete_resumed {b' : β} (hne : b ≠ b') :
    (s.resumed T b).Complete T b' ↔ s.Complete T b' := by
  unfold State.Complete
  refine and_congr_right fun _ => exists_congr fun k => forall_congr' fun j =>
    imp_congr_right fun hj => ?_
  rw [resumed_threads (fun heq => hne (heq.symm.trans hj))]

omit [DecidableEq ι] in
theorem resumed_comm {b' : β} (hne : b ≠ b') :
    (s.resumed T b).resumed T b' = (s.resumed T b').resumed T b := by
  unfold State.resumed
  congr 1
  · funext j
    dsimp only
    by_cases hb : T.block j = b
    · have hb' : T.block j ≠ b' := fun heq => hne (hb.symm.trans heq)
      rw [if_pos hb, if_neg hb', if_pos hb, if_neg hb']
    · rw [if_neg hb, if_neg hb]
  · dsimp only
    rw [Function.update_of_ne hne.symm, Function.update_of_ne hne,
      Function.update_comm hne]

/-- Moves that are apart can be made in the other order. -/
theorem Move.swap (hs : T.valid s.mem) (h : Move T s e u) (h' : Move T u e' t)
    (hapart : Apart T e e') :
    ∃ u' t', Move T s e' u' ∧ Move T u' e t' ∧ Same T t t' := by
  have hu := h.valid hs
  have ht := h'.valid hu
  cases h with
  | @step j x m hruns hstep =>
    cases h' with
    | @step i y n hruns' hstep' =>
      obtain ⟨hne, hfst, hsnd⟩ := hapart
      have hthread : (s.stepped j x m).threads i = s.threads i :=
        Function.update_of_ne (Ne.symm hne) _ _
      rw [hthread] at hruns' hstep' hfst hsnd
      obtain ⟨m', n', hfirst, hsecond, hacc, hwr, hacc', hwr', hn, hn', hget⟩ :=
        swap_steps hs hruns hstep hruns' hstep' hfst hsnd
      have hevent : s.event T i = (s.stepped j x m).event T i := by
        unfold State.event
        rw [hthread, hacc, hwr]
        rfl
      have hthread' : (s.stepped i y m').threads j = s.threads j :=
        Function.update_of_ne hne _ _
      have hevent' : (s.stepped i y m').event T j = s.event T j := by
        unfold State.event
        rw [hthread']
        show Event.step j (s.released _) (T.accessed j _ m') (T.written j _ m') = _
        rw [hacc', hwr']
      refine ⟨s.stepped i y m', (s.stepped i y m').stepped j x n', hevent ▸ .step hruns' hfirst,
        ?_, ?_, rfl, hn, hn', hget⟩
      · rw [← hevent']
        refine .step ?_ ?_
        · rwa [hthread']
        · rwa [hthread']
      · exact Function.update_comm hne _ _ _
    | @release b hcomplete =>
      have hne : T.block j ≠ b := hapart
      have hthread := resumed_threads (s := s) hne
      rw [complete_stepped hne] at hcomplete
      refine ⟨s.resumed T b, (s.resumed T b).stepped j x m, .release hcomplete, ?_, ?_⟩
      · rw [← resumed_event hne]
        exact .step (by rwa [hthread]) (by rw [hthread]; exact hstep)
      · rw [resumed_stepped hne]
        exact .refl hu
  | @release b hcomplete =>
    cases h' with
    | @step i y n hruns' hstep' =>
      have hne : T.block i ≠ b := hapart
      rw [resumed_threads hne] at hruns' hstep'
      have hevent := resumed_event (s := s) hne
      refine ⟨s.stepped i y n, _, hevent ▸ .step hruns' hstep',
        .release ((complete_stepped hne).2 hcomplete), ?_⟩
      rw [resumed_stepped hne]
      exact .refl ht
    | @release b' hcomplete' =>
      have hne : b ≠ b' := hapart
      rw [complete_resumed hne] at hcomplete'
      refine ⟨_, _, .release hcomplete', .release ((complete_resumed hne.symm).2 hcomplete), ?_⟩
      rw [resumed_comm hne]
      exact .refl hs

/-- A move that is apart from all moves before it can be made first. -/
theorem Run.advance {pre post : List (Event ι β A)} (hs : T.valid s.mem)
    (h : Run T s (pre ++ e :: post) t) (hapart : ∀ e' ∈ pre, Apart T e' e) :
    ∃ u t', Move T s e u ∧ Run T u (pre ++ post) t' ∧ Same T t t' := by
  induction pre generalizing s with
  | nil =>
    cases h with
    | cons hmove hrest => exact ⟨_, t, hmove, hrest, .refl (hrest.valid (hmove.valid hs))⟩
  | cons e' pre ih =>
    cases h with
    | cons hmove hrest =>
      obtain ⟨u, t₁, hmove₁, hrun, hsame⟩ := ih (hmove.valid hs) hrest
        fun e'' he => hapart e'' (List.mem_cons_of_mem _ he)
      obtain ⟨u', v, hmove', hmove₂, hsame'⟩ :=
        hmove.swap hs hmove₁ (hapart e' List.mem_cons_self)
      obtain ⟨t₂, hrun₂, hsame₂⟩ := hrun.same hsame'
      exact ⟨u', t₂, hmove', .cons hmove₂ hrun₂, hsame.trans hsame₂⟩

/-! ## The next event of a thread or block -/

theorem Move.spares (h : Move T s e s') (he : e.Spares T i) :
    s'.threads i = s.threads i ∧ s'.released (T.block i) = s.released (T.block i) := by
  cases h with
  | step => exact ⟨Function.update_of_ne (fun heq => he.1 (congrArg Sum.inl heq.symm)) _ _, rfl⟩
  | release =>
    have hne : T.block i ≠ _ := fun heq => he.2 (congrArg Sum.inr heq.symm)
    exact ⟨resumed_threads hne, Function.update_of_ne hne _ _⟩

/-- A thread that runs, and does not run at the end, takes a step. -/
theorem Run.next_step (h : Run T s es t) (hruns : T.runs (s.threads i))
    (hend : ¬ T.runs (t.threads i)) :
    ∃ pre acc wr post, es = pre ++ .step i (s.released (T.block i)) acc wr :: post ∧
      (∀ e ∈ pre, e.Spares T i) ∧
      ∀ e ∈ pre, ∀ j p acc wr, e = .step j p acc wr → T.block j = T.block i →
        p = s.released (T.block i) := by
  induction h with
  | nil => exact absurd hruns hend
  | @cons s s' t e es hmove hrest ih =>
    by_cases hspares : e.Spares T i
    · obtain ⟨hthread, hreleased⟩ := hmove.spares hspares
      obtain ⟨pre, acc, wr, post, rfl, hpre, hphase⟩ := ih (hthread ▸ hruns) hend
      rw [hreleased] at hphase ⊢
      refine ⟨e :: pre, acc, wr, post, rfl, fun e' he' => ?_, fun e' he' => ?_⟩
      · rcases List.mem_cons.1 he' with rfl | he'
        · exact hspares
        · exact hpre e' he'
      · rcases List.mem_cons.1 he' with rfl | he'
        · rintro j p acc wr rfl hblock
          cases hmove with
          | step => rw [hblock]
        · exact hphase e' he'
    · cases hmove with
      | @step j x m hruns' hstep =>
        have hij : j = i := by
          by_contra hne
          exact hspares ⟨fun heq => hne (Sum.inl.inj heq), Sum.inl_ne_inr⟩
        subst hij
        exact ⟨[], _, _, es, rfl, fun _ h => absurd h List.not_mem_nil,
          fun _ h => absurd h List.not_mem_nil⟩
      | @release b hcomplete =>
        have hb : T.block i = b := by
          by_contra hne
          exact hspares ⟨Sum.inr_ne_inl, fun heq => hne (Sum.inr.inj heq).symm⟩
        obtain ⟨-, k, hwaits⟩ := hcomplete
        exact absurd (hwaits i hb) (T.not_waits hruns)

/-- A block that is complete, and is not complete at the end, is released. -/
theorem Run.next_release (h : Run T s es t) (hcomplete : s.Complete T b)
    (hend : ¬ t.Complete T b) :
    ∃ pre post, es = pre ++ .release b :: post ∧ ∀ e ∈ pre, Apart T e (.release b) := by
  induction h with
  | nil => exact absurd hcomplete hend
  | @cons s s' t e es hmove hrest ih =>
    by_cases hapart : Apart T e (.release b)
    · have hcomplete' : s'.Complete T b := by
        cases hmove with
        | step => exact (complete_stepped hapart).2 hcomplete
        | release => exact (complete_resumed hapart).2 hcomplete
      obtain ⟨pre, post, rfl, hpre⟩ := ih hcomplete' hend
      refine ⟨e :: pre, post, rfl, fun e' he' => ?_⟩
      rcases List.mem_cons.1 he' with rfl | he'
      · exact hapart
      · exact hpre e' he'
    · cases hmove with
      | @step j x m hruns hstep =>
        have hb : T.block j = b := by
          by_contra hne
          exact hapart hne
        obtain ⟨-, k, hwaits⟩ := hcomplete
        exact absurd (hwaits j hb) (T.not_waits hruns)
      | @release b' _ =>
        have hb : b' = b := by
          by_contra hne
          exact hapart hne
        subst hb
        exact ⟨[], es, rfl, fun _ h => absurd h List.not_mem_nil⟩

/-! ## Every order -/

/-- Whatever can be done next can be done first in a race free run to the end. -/
theorem Run.first (hs : T.valid s.mem) (h : Run T s es t) (hfinal : t.Final T)
    (hfree : RaceFree T es) (hmove : Move T s e u) :
    ∃ es' t', Run T u es' t' ∧ Same T t t' ∧ (e :: es').Perm es := by
  suffices hfirst : ∃ pre e' post, es = pre ++ e' :: post ∧ e'.owner = e.owner ∧
      ∀ e'' ∈ pre, Apart T e'' e' by
    obtain ⟨pre, e', post, rfl, howner, hapart⟩ := hfirst
    obtain ⟨u', t', hmove', hrun, hsame⟩ := h.advance hs hapart
    obtain ⟨rfl, rfl⟩ := hmove'.unique hmove howner
    exact ⟨pre ++ post, t', hrun, hsame, List.perm_middle.symm⟩
  cases hmove with
  | @step i x m hruns hstep =>
    obtain ⟨pre, acc, wr, post, rfl, hpre, hphase⟩ := h.next_step hruns (hfinal.runs i)
    exact ⟨pre, _, post, rfl, rfl, hfree.apart hpre hphase⟩
  | @release b hcomplete =>
    obtain ⟨pre, post, rfl, hapart⟩ := h.next_release hcomplete (hfinal.complete b)
    exact ⟨pre, _, post, rfl, rfl, hapart⟩

/-- Whatever has been done, in any order, the rest of a race free run can be done after it, and ends
as that run does. -/
theorem Run.completes (h' : Run T r es' u) (h : Run T s es t) (hs : Same T s r)
    (hfinal : t.Final T) (hfree : RaceFree T es) :
    ∃ es'' t', Run T u es'' t' ∧ Same T t t' ∧ (es' ++ es'').Perm es := by
  induction h' generalizing s es t with
  | nil =>
    obtain ⟨t', hrun, hsame⟩ := h.same hs
    exact ⟨es, t', hrun, hsame, .refl _⟩
  | @cons r r' u e es' hmove _ ih =>
    obtain ⟨t₁, hrun, hsame⟩ := h.same hs
    obtain ⟨es₁, t₂, hrun', hsame', hperm⟩ :=
      hrun.first hs.right (hsame.final hfinal) hfree hmove
    have hsub : es₁.Subset es := fun e' he => hperm.subset (List.mem_cons_of_mem _ he)
    obtain ⟨es₂, t', hrun₂, hsame₂, hperm₂⟩ := ih hrun' (.refl (hmove.valid hs.right))
      (hsame'.final (hsame.final hfinal)) (hfree.subset hsub)
    exact ⟨es₂, t', hrun₂, (hsame.trans hsame').trans hsame₂, (hperm₂.cons e).trans hperm⟩

theorem Run.nil_of_final (h : Run T s es t) (hs : s.Final T) : es = [] ∧ t = s := by
  cases h with
  | nil => exact ⟨rfl, rfl⟩
  | cons hmove _ =>
    cases hmove with
    | step hruns _ => exact absurd hruns (hs.runs _)
    | release hcomplete => exact absurd hcomplete (hs.complete _)

section Reached

variable (h' : Run T r es' u) (h : Run T s es t) (hs : Same T s r) (hfinal : t.Final T)
  (hfree : RaceFree T es)

include h' h hs hfinal hfree

/-- Two runs to the end, one of them race free, end in the same state. -/
theorem Run.same_final (hu : u.Final T) : Same T t u := by
  obtain ⟨es'', t', hrun, hsame, -⟩ := h'.completes h hs hfinal hfree
  exact (hrun.nil_of_final hu).2 ▸ hsame

/-- No order of the steps has more of them. -/
theorem Run.length_le : es'.length ≤ es.length := by
  obtain ⟨es'', t', -, -, hperm⟩ := h'.completes h hs hfinal hfree
  rw [← hperm.length_eq, List.length_append]
  exact Nat.le_add_right _ _

/-- Whatever the order so far, a thread that runs can take its step. -/
theorem Run.exists_step (hi : T.runs (u.threads i)) :
    ∃ x m, T.step i (u.threads i) u.mem = some (x, m) := by
  obtain ⟨es'', t', hrun, hsame, hperm⟩ := h'.completes h hs hfinal hfree
  have hsub : es''.Subset es := fun e he => hperm.subset (List.mem_append_right _ he)
  obtain ⟨pre, acc, wr, post, rfl, hpre, hphase⟩ :=
    hrun.next_step hi ((hsame.final hfinal).runs i)
  obtain ⟨u', t₁, hmove, -⟩ := hrun.advance (h'.valid hs.right)
    ((hfree.subset hsub).apart hpre hphase)
  generalize he : Event.step i _ acc wr = e at hmove
  cases hmove with
  | step _ hstep =>
    obtain ⟨rfl, -⟩ := Event.step.inj he
    exact ⟨_, _, hstep⟩
  | release => exact absurd he (by simp)

end Reached

end Interleaving
