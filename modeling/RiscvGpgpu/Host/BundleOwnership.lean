import RiscvGpgpu.Host.HostRuntime

/-!
# Who owns a registered source

An upload or unload releases the registration of the current bundle by its name. Whether the user
has registered the same name since, the runtime does not know: `ownershipKept_iff` says that this is
the one way for a sequence of calls to lose a source of the user.
-/

namespace RiscvGpgpu.Host

/-! ## Effects -/

section Host

variable (host : HostState) (k n : String)

theorem unregister_registered : (host.gpgpuUnregisterPtx k).2.registeredPtx n =
    if n = k then none else host.registeredPtx n := by
  unfold HostState.gpgpuUnregisterPtx
  by_cases hnone : (host.registeredPtx k).isNone = true
  · rw [if_pos hnone]
    by_cases hn : n = k
    · rw [if_pos hn, hn]
      exact Option.isNone_iff_eq_none.1 hnone
    · rw [if_neg hn]
      rfl
  · rw [if_neg hnone]
    exact Function.update_apply _ _ _ _

theorem unregister_required :
    (host.gpgpuUnregisterPtx k).2.requiredPtx n = host.requiredPtx n := by
  unfold HostState.gpgpuUnregisterPtx
  split <;> rfl

theorem require_registered (r : Bool) :
    (host.gpgpuRequireRegisteredPtx k r).2.registeredPtx n = host.registeredPtx n := by
  unfold HostState.gpgpuRequireRegisteredPtx
  split <;> rfl

theorem require_required {k : String} (hk : k ≠ "") (r : Bool) :
    (host.gpgpuRequireRegisteredPtx k r).2.requiredPtx n =
      if n = k then r else host.requiredPtx n := by
  unfold HostState.gpgpuRequireRegisteredPtx
  rw [if_neg hk]
  exact Function.update_apply _ _ _ _

end Host

theorem ofList_ne_empty {k : List Char} (hk : k ≠ []) : String.ofList k ≠ "" :=
  fun heq => hk (String.ofList_inj.1 (heq : _ = String.ofList []))

namespace RuntimeState

theorem release_registered (host : HostState) (k : List Char) (n : String) :
    (release k host).registeredPtx n =
      if n = String.ofList k then none else host.registeredPtx n := by
  unfold release
  rw [unregister_registered, require_registered]

theorem release_required (host : HostState) {k : List Char} (hk : k ≠ []) (n : String) :
    (release k host).requiredPtx n =
      if n = String.ofList k then false else host.requiredPtx n := by
  unfold release
  rw [unregister_required, require_required _ _ (ofList_ne_empty hk)]

/-- What `adopt` makes of a state that already has the new registration. -/
structure Adopted (s s' : RuntimeState) (info : KernelBundleInfo) : Prop where
  registered : ∀ n, s'.host.registeredPtx n =
    if s.current.ptxRegistrationOwned = true ∧ n = String.ofList s.current.kernelName ∧
        ¬ (info.format = .ptx ∧ n = String.ofList info.kernelName) then none
    else s.host.registeredPtx n
  required : ∀ n, s'.host.requiredPtx n =
    if n = String.ofList info.kernelName then decide (info.format = .ptx)
    else if s.current.ptxRegistrationOwned = true ∧
        n = String.ofList s.current.kernelName then false
    else s.host.requiredPtx n
  kernelName : s'.current.kernelName = info.kernelName
  format : s'.current.format = info.format
  owned : s'.current.ptxRegistrationOwned = decide (info.format = .ptx)

theorem adopted {s : RuntimeState} {info : KernelBundleInfo} (hname : info.kernelName ≠ [])
    (howned : s.current.ptxRegistrationOwned = true → s.current.kernelName ≠ []) :
    Adopted s (adopt info s) info where
  registered n := by
    unfold adopt
    dsimp only
    rw [require_registered]
    by_cases ho : s.current.ptxRegistrationOwned = true
    · simp only [ho, true_and]
      by_cases hold : s.current.kernelName = info.kernelName
      · rw [if_neg (not_not.2 hold), hold]
        cases hf : info.format with
        | elf => simp [release_registered]
        | ptx => simp
      · rw [if_pos hold]
        have hnames : String.ofList s.current.kernelName ≠ String.ofList info.kernelName :=
          mt String.ofList_inj.1 hold
        have hcond : (n = String.ofList s.current.kernelName ∧
            ¬ (info.format = .ptx ∧ n = String.ofList info.kernelName)) ↔
            n = String.ofList s.current.kernelName :=
          and_iff_left_of_imp fun hn hand => hnames (hn.symm.trans hand.2)
        simp only [hcond]
        split
        · rw [release_registered, release_registered]
          split <;> rfl
        · exact release_registered _ _ _
    · simp [ho]
  required n := by
    unfold adopt
    dsimp only
    rw [require_required _ _ (ofList_ne_empty hname)]
    by_cases hn : n = String.ofList info.kernelName
    · rw [if_pos hn, if_pos hn]
    · rw [if_neg hn, if_neg hn]
      by_cases ho : s.current.ptxRegistrationOwned = true
      · have hold := howned ho
        simp only [ho, true_and]
        by_cases hsame : s.current.kernelName = info.kernelName
        · have hnold : n ≠ String.ofList s.current.kernelName := by
            rw [hsame]
            exact hn
          rw [if_neg (not_not.2 hsame), if_neg hnold]
          by_cases hf : info.format = .elf
          · rw [if_pos hf, release_required _ hold, if_neg hnold]
          · rw [if_neg hf]
        · rw [if_pos hsame]
          by_cases hf : info.format = .elf
          · rw [if_pos hf, release_required _ hold, release_required _ hold]
            split <;> rfl
          · rw [if_neg hf]
            exact release_required _ hold _
      · simp [ho]
  kernelName := rfl
  format := rfl
  owned := rfl

/-! ## Uploads -/

/-- The upload passes its checks. -/
def Accepts (s : RuntimeState) (fs : FileSystem) (manifestPath : Paths.Path)
    (info : KernelBundleInfo) : Prop :=
  inspectKernelBundleDetails fs manifestPath = some info ∧
    (info.format = .ptx → ∃ source, fs.read info.binaryPath = some source ∧
      isBlank source = false ∧ (s.host.registeredPtx (String.ofList info.kernelName) = none ∨
        s.current.ptxRegistrationOwned = true ∧ s.current.kernelName = info.kernelName))

/-- The state with a source registered. -/
def withSource (s : RuntimeState) (k source : String) : RuntimeState :=
  { s with host := { s.host with
    registeredPtx := Function.update s.host.registeredPtx k (some source)
    lastError := "" } }

section Upload

variable {s : RuntimeState} {fs : FileSystem} {manifestPath : Paths.Path}
  {info : KernelBundleInfo}

theorem upload_ptx (hinfo : inspectKernelBundleDetails fs manifestPath = some info)
    (hf : info.format = .ptx) {source : List Char} (hread : fs.read info.binaryPath = some source)
    (hblank : isBlank source = false)
    (hfree : s.host.registeredPtx (String.ofList info.kernelName) = none ∨
      s.current.ptxRegistrationOwned = true ∧ s.current.kernelName = info.kernelName) :
    s.uploadKernelBundle fs manifestPath =
      (true, adopt info (s.withSource (String.ofList info.kernelName) (String.ofList source))) := by
  have hsource : String.ofList source ≠ "" := by
    refine ofList_ne_empty ?_
    rintro rfl
    exact absurd hblank (by decide)
  have hreg : s.host.gpgpuRegisterPtx (String.ofList info.kernelName) (String.ofList source) =
      (true, (s.withSource (String.ofList info.kernelName) (String.ofList source)).host) := by
    unfold HostState.gpgpuRegisterPtx
    rw [if_neg (ofList_ne_empty (kernelName_ne_nil hinfo)), if_neg hsource]
    rfl
  have hother : ¬ ((s.host.gpgpuGetRegisteredPtx (String.ofList info.kernelName)).1 = true ∧
      ¬ (s.current.ptxRegistrationOwned ∧ s.current.kernelName = info.kernelName)) := by
    rintro ⟨hsome, hnot⟩
    rcases hfree with hnone | hown
    · unfold HostState.gpgpuGetRegisteredPtx at hsome
      rw [hnone] at hsome
      exact absurd hsome (by decide)
    · exact hnot hown
  unfold uploadKernelBundle
  rw [hinfo]
  dsimp only
  rw [hf]
  dsimp only
  rw [hread]
  dsimp only
  rw [hblank, if_neg Bool.false_ne_true, if_neg hother, hreg]
  rfl

theorem upload_elf (hinfo : inspectKernelBundleDetails fs manifestPath = some info)
    (hf : info.format = .elf) : s.uploadKernelBundle fs manifestPath =
      (true, adopt info
        { s with host := { s.host with execution := s.host.execution.loadKernelBinary.2 } }) := by
  unfold uploadKernelBundle
  rw [hinfo]
  dsimp only
  rw [hf]
  rfl

/-- An upload that does not pass its checks changes nothing. -/
theorem upload_rejected (h : ∀ info, ¬ s.Accepts fs manifestPath info) :
    s.uploadKernelBundle fs manifestPath = (false, s) := by
  unfold uploadKernelBundle
  cases hinfo : inspectKernelBundleDetails fs manifestPath with
  | none => rfl
  | some info =>
    dsimp only
    have hnot := h info
    cases hf : info.format with
    | elf => exact absurd ⟨hinfo, fun hp => absurd (hf.symm.trans hp) (by decide)⟩ hnot
    | ptx =>
      dsimp only
      cases hread : fs.read info.binaryPath with
      | none => rfl
      | some source =>
        dsimp only
        by_cases hblank : isBlank source = true
        · rw [if_pos hblank]
        · rw [if_neg hblank]
          have hfree : ¬ (s.host.registeredPtx (String.ofList info.kernelName) = none ∨
              s.current.ptxRegistrationOwned = true ∧
                s.current.kernelName = info.kernelName) := fun hfree =>
            hnot ⟨hinfo, fun _ => ⟨source, hread, Bool.not_eq_true _ ▸ hblank, hfree⟩⟩
          rw [not_or] at hfree
          refine if_pos ⟨?_, hfree.2⟩
          unfold HostState.gpgpuGetRegisteredPtx
          split
          · rfl
          · next hnone => exact absurd hnone hfree.1

end Upload

end RuntimeState

/-! ## One call -/

/-- The effect of an upload that passes its checks. -/
structure Uploaded (t t' : Tracked) (fs : FileSystem) (info : KernelBundleInfo) : Prop where
  source : info.format = .ptx → ∃ source, fs.read info.binaryPath = some source ∧
    t'.registered (String.ofList info.kernelName) = some (String.ofList source)
  registered : ∀ n, ¬ (info.format = .ptx ∧ n = String.ofList info.kernelName) →
    t'.registered n = if t.owned = true ∧ n = t.currentName then none else t.registered n
  required : ∀ n, t'.required n =
    if n = String.ofList info.kernelName then decide (info.format = .ptx)
    else if t.owned = true ∧ n = t.currentName then false
    else t.required n
  latest : ∀ n, t'.latest n =
    if info.format = .ptx ∧ n = String.ofList info.kernelName then some .bundle else t.latest n
  owned : t'.owned = decide (info.format = .ptx)
  kernelName : t'.runtime.current.kernelName = info.kernelName

section Step

variable {t : Tracked} {fs : FileSystem} {manifestPath : Paths.Path} {info : KernelBundleInfo}

theorem step_upload {ok : Bool} {s : RuntimeState}
    (h : t.runtime.uploadKernelBundle fs manifestPath = (ok, s)) :
    (BundleCall.uploadKernelBundle fs manifestPath).step t =
      (ok, ⟨s, if ok = true ∧ s.current.format = .ptx then
        Function.update t.latest (String.ofList s.current.kernelName) (some .bundle)
      else t.latest⟩) := by
  simp only [BundleCall.step]
  rw [h]

theorem step_upload_rejected (h : ∀ info, ¬ t.runtime.Accepts fs manifestPath info) :
    (BundleCall.uploadKernelBundle fs manifestPath).step t = (false, t) := by
  rw [step_upload (RuntimeState.upload_rejected h), if_neg fun h => absurd h.1 (by decide)]

theorem uploaded (hacc : t.runtime.Accepts fs manifestPath info)
    (howned : t.owned = true → t.runtime.current.kernelName ≠ []) :
    ∃ t', (BundleCall.uploadKernelBundle fs manifestPath).step t = (true, t') ∧
      Uploaded t t' fs info := by
  obtain ⟨hinfo, hptx⟩ := hacc
  have hname := kernelName_ne_nil hinfo
  cases hf : info.format with
  | elf =>
    have hupload := RuntimeState.upload_elf (s := t.runtime) hinfo hf
    have had : RuntimeState.Adopted { t.runtime with
        host := { t.runtime.host with
          execution := t.runtime.host.execution.loadKernelBinary.2 } } _ info :=
      RuntimeState.adopted hname howned
    have hne : info.format ≠ .ptx := by
      rw [hf]
      decide
    refine ⟨_, step_upload hupload, ?_⟩
    refine ⟨fun h => absurd h hne, fun n hn => ?_, had.required, fun n => ?_, had.owned,
      had.kernelName⟩
    · refine (had.registered n).trans (if_congr ?_ rfl rfl)
      exact ⟨fun h => ⟨h.1, h.2.1⟩, fun h => ⟨h.1, h.2, hn⟩⟩
    · refine (congrFun (if_neg fun h => ?_) n).trans (if_neg fun h => ?_).symm
      · exact hne (had.format.symm.trans h.2)
      · exact hne h.1
  | ptx =>
    obtain ⟨source, hread, hblank, hfree⟩ := hptx hf
    have hupload := RuntimeState.upload_ptx (s := t.runtime) hinfo hf hread hblank hfree
    have had : RuntimeState.Adopted (t.runtime.withSource (String.ofList info.kernelName)
        (String.ofList source)) _ info := RuntimeState.adopted hname howned
    refine ⟨_, step_upload hupload, ?_⟩
    refine ⟨fun _ => ⟨source, hread, ?_⟩, fun n hn => ?_, had.required, fun n => ?_, had.owned,
      had.kernelName⟩
    · refine (had.registered _).trans ?_
      rw [if_neg fun h => h.2.2 ⟨hf, rfl⟩]
      exact Function.update_self _ _ _
    · refine (had.registered n).trans ?_
      have hother : n ≠ String.ofList info.kernelName := fun h => hn ⟨hf, h⟩
      have hreg : (t.runtime.withSource (String.ofList info.kernelName)
          (String.ofList source)).host.registeredPtx n = t.registered n :=
        Function.update_of_ne hother _ _
      rw [hreg]
      exact if_congr ⟨fun h => ⟨h.1, h.2.1⟩, fun h => ⟨h.1, h.2, hn⟩⟩ rfl rfl
    · refine (congrFun (if_pos ⟨rfl, had.format.trans hf⟩) n).trans ?_
      rw [had.kernelName, Function.update_apply]
      exact if_congr ⟨fun h => ⟨hf, h⟩, And.right⟩ rfl rfl

theorem unloaded_registered (n : String) : (BundleCall.unloadKernelBundle.step t).2.registered n =
    if t.owned = true ∧ n = t.currentName then none else t.registered n := by
  show (ite (t.owned = true) _ _ : HostState).registeredPtx n = _
  by_cases ho : t.owned = true
  · rw [if_pos ho, RuntimeState.release_registered]
    exact if_congr (and_iff_right ho).symm rfl rfl
  · rw [if_neg ho, if_neg fun h => ho h.1]
    rfl

theorem unloaded_required (howned : t.owned = true → t.runtime.current.kernelName ≠ [])
    (n : String) : (BundleCall.unloadKernelBundle.step t).2.required n =
      if t.owned = true ∧ n = t.currentName then false else t.required n := by
  show (ite (t.owned = true) _ _ : HostState).requiredPtx n = _
  by_cases ho : t.owned = true
  · rw [if_pos ho, RuntimeState.release_required _ (howned ho)]
    exact if_congr (and_iff_right ho).symm rfl rfl
  · rw [if_neg ho, if_neg fun h => ho h.1]
    rfl

/-- A registration by the user is the user's. -/
theorem register_latest {k source n : String}
    (hn : ((BundleCall.gpgpuRegisterPtx k source).step t).2.latest n ≠ some .user) :
    ((BundleCall.gpgpuRegisterPtx k source).step t).2.registered n = t.registered n ∧
      ((BundleCall.gpgpuRegisterPtx k source).step t).2.latest n = t.latest n := by
  simp only [BundleCall.step] at hn ⊢
  unfold HostState.gpgpuRegisterPtx at hn ⊢
  by_cases hk : k = ""
  · rw [if_pos hk]
    exact ⟨rfl, rfl⟩
  · rw [if_neg hk] at hn ⊢
    by_cases hsource : source = ""
    · rw [if_pos hsource]
      exact ⟨rfl, rfl⟩
    · rw [if_neg hsource] at hn ⊢
      have hne : n ≠ k := by
        rintro rfl
        exact hn (Function.update_self _ _ _)
      exact ⟨Function.update_of_ne hne _ _, Function.update_of_ne hne _ _⟩

theorem register_frame (k source : String) :
    ((BundleCall.gpgpuRegisterPtx k source).step t).2.runtime.current = t.runtime.current ∧
      ((BundleCall.gpgpuRegisterPtx k source).step t).2.required = t.required := by
  refine ⟨rfl, ?_⟩
  show (t.runtime.host.gpgpuRegisterPtx k source).2.requiredPtx = t.runtime.host.requiredPtx
  unfold HostState.gpgpuRegisterPtx
  split_ifs <;> rfl

end Step

/-! ## Invariant -/

/-- What the runtime has registered or required is the current bundle. -/
structure BundleInv (t : Tracked) : Prop where
  required : ∀ n, t.required n = true → t.owned = true ∧ n = t.currentName
  registered : ∀ n, t.registered n ≠ none → t.latest n = some .bundle →
    t.owned = true ∧ n = t.currentName
  kernelName : t.owned = true → t.runtime.current.kernelName ≠ []

theorem bundleInv_init : BundleInv .init where
  required _ h := absurd h Bool.false_ne_true
  registered _ h := absurd rfl h
  kernelName h := absurd h (by decide)

/-- Every call keeps the invariant. -/
theorem bundleInv_step {t : Tracked} (h : BundleInv t) (c : BundleCall) :
    BundleInv (c.step t).2 := by
  cases c with
  | uploadKernelBundle fs manifestPath =>
    by_cases hacc : ∃ info, t.runtime.Accepts fs manifestPath info
    · obtain ⟨info, hacc⟩ := hacc
      obtain ⟨t', hstep, hup⟩ := uploaded hacc h.kernelName
      rw [hstep]
      have hcur : t'.currentName = String.ofList info.kernelName :=
        congrArg String.ofList hup.kernelName
      refine ⟨fun n hn => ?_, fun n hn hl => ?_, fun _ => ?_⟩
      · rw [hup.required] at hn
        split_ifs at hn with hnew hold
        · exact ⟨hup.owned.trans hn, hnew.trans hcur.symm⟩
        · exact absurd (h.required n hn) hold
      · rw [hup.latest] at hl
        by_cases hnew : info.format = .ptx ∧ n = String.ofList info.kernelName
        · exact ⟨hup.owned.trans (decide_eq_true hnew.1), hnew.2.trans hcur.symm⟩
        · rw [if_neg hnew] at hl
          rw [hup.registered n hnew] at hn
          split_ifs at hn with hold
          · exact absurd rfl hn
          · exact absurd (h.registered n hn hl) hold
      · rw [hup.kernelName]
        exact kernelName_ne_nil hacc.1
    · rw [step_upload_rejected (not_exists.1 hacc)]
      exact h
  | unloadKernelBundle =>
    refine ⟨fun n hn => ?_, fun n hn hl => ?_, fun ho => absurd ho Bool.false_ne_true⟩
    · rw [unloaded_required h.kernelName] at hn
      split_ifs at hn with hold
      exact absurd (h.required n hn) hold
    · rw [unloaded_registered] at hn
      split_ifs at hn with hold
      · exact absurd rfl hn
      · exact absurd (h.registered n hn hl) hold
  | gpgpuRegisterPtx k source =>
    refine ⟨fun n hn => h.required n ?_, fun n hn hl => ?_, h.kernelName⟩
    · rwa [(register_frame k source).2] at hn
    · obtain ⟨hreg, hlatest⟩ := register_latest (n := n) (by rw [hl]; decide)
      exact h.registered n (hreg ▸ hn) (hlatest ▸ hl)
  | gpgpuUnregisterPtx k =>
    refine ⟨fun n hn => h.required n ?_, fun n hn hl => h.registered n ?_ hl, h.kernelName⟩
    · exact (unregister_required _ _ _).symm.trans hn
    · intro hnone
      refine hn ((unregister_registered _ _ _).trans ?_)
      split
      · rfl
      · exact hnone

theorem bundleInv_after (cs : List BundleCall) :
    BundleInv (Calls.after BundleCall.step .init cs) := by
  have heach : Calls.Each BundleCall.step (fun _ _ => True) .init cs := fun _ _ _ _ => trivial
  exact Calls.after_induction (fun _ t => BundleInv t) bundleInv_init
    (fun _ c _ h => bundleInv_step h c) heach

/-! ## Ownership -/

/-- What a call has to respect. -/
structure OwnershipKept (t : Tracked) (c : BundleCall) : Prop where
  /-- An upload or unload leaves the sources of the user alone. -/
  users : (∃ fs manifestPath, c = .uploadKernelBundle fs manifestPath) ∨ c = .unloadKernelBundle →
    ∀ n source, t.registered n = some source → t.latest n = some .user →
      (c.step t).2.registered n = some source ∧ (c.step t).2.latest n = some .user
  /-- A failed upload changes nothing. -/
  failed : ∀ fs manifestPath, c = .uploadKernelBundle fs manifestPath → (c.step t).1 = false →
    (c.step t).2.registered = t.registered ∧ (c.step t).2.required = t.required ∧
      (c.step t).2.runtime.current = t.runtime.current
  /-- Behind a PTX upload the source is registered and required. -/
  uploaded : ∀ fs manifestPath info, c = .uploadKernelBundle fs manifestPath →
    inspectKernelBundleDetails fs manifestPath = some info → info.format = .ptx →
    (c.step t).1 = true → ∃ source, fs.read info.binaryPath = some source ∧
      (c.step t).2.registered (String.ofList info.kernelName) = some (String.ofList source) ∧
      (c.step t).2.required (String.ofList info.kernelName) = true
  /-- Behind an unload nothing that an upload has registered is left. -/
  unloaded : c = .unloadKernelBundle → ∀ n, (c.step t).2.latest n = some .bundle →
    (c.step t).2.registered n = none ∧ (c.step t).2.required n = false

/-- The user has registered the name of the current bundle again. -/
def Reregistered (t : Tracked) : Prop :=
  t.owned = true ∧ t.registered t.currentName ≠ none ∧ t.latest t.currentName = some .user

/-- Nothing releases a registration that has become the user's. -/
def Respects (t : Tracked) : BundleCall → Prop
  | .uploadKernelBundle fs manifestPath =>
    (∃ info, t.runtime.Accepts fs manifestPath info) → ¬ Reregistered t
  | .unloadKernelBundle => ¬ Reregistered t
  | _ => True

/-- A source of the user is lost if it is registered under the name that is released. -/
theorem lost_of_reregistered {t : Tracked} {c : BundleCall} (hre : Reregistered t)
    (hlost : (c.step t).2.registered t.currentName = none ∨
      (c.step t).2.latest t.currentName = some .bundle)
    (hbundle : (∃ fs manifestPath, c = .uploadKernelBundle fs manifestPath) ∨
      c = .unloadKernelBundle) : ¬ OwnershipKept t c := by
  obtain ⟨-, hreg, hlatest⟩ := hre
  obtain ⟨source, hsource⟩ := Option.ne_none_iff_exists'.1 hreg
  intro hkept
  obtain ⟨hreg', hlatest'⟩ := hkept.users hbundle _ source hsource hlatest
  rcases hlost with hnone | hbundle
  · exact absurd (hnone.symm.trans hreg') (by simp)
  · exact absurd (hbundle.symm.trans hlatest') (by simp)

theorem ownershipKept_upload {t : Tracked} (h : BundleInv t) (fs : FileSystem)
    (manifestPath : Paths.Path) : OwnershipKept t (.uploadKernelBundle fs manifestPath) ↔
      Respects t (.uploadKernelBundle fs manifestPath) := by
  by_cases hacc : ∃ info, t.runtime.Accepts fs manifestPath info
  · have hrespects : Respects t (.uploadKernelBundle fs manifestPath) ↔ ¬ Reregistered t :=
      forall_prop_of_true hacc
    obtain ⟨info, hacc⟩ := hacc
    obtain ⟨t', hstep, hup⟩ := uploaded hacc h.kernelName
    rw [hrespects]
    constructor
    · intro hkept hre
      refine lost_of_reregistered hre ?_ (.inl ⟨_, _, rfl⟩) hkept
      rw [hstep]
      by_cases hnew : info.format = .ptx ∧ t.currentName = String.ofList info.kernelName
      · exact .inr ((hup.latest _).trans (if_pos hnew))
      · exact .inl ((hup.registered _ hnew).trans (if_pos ⟨hre.1, rfl⟩))
    · intro hre
      refine ⟨fun _ n source hsource huser => ?_, fun _ _ _ hfail => ?_, ?_, fun heq => ?_⟩
      · rw [hstep]
        have hnot : ¬ (t.owned = true ∧ n = t.currentName) := by
          rintro ⟨ho, rfl⟩
          exact hre ⟨ho, hsource ▸ Option.some_ne_none _, huser⟩
        have hother : ¬ (info.format = .ptx ∧ n = String.ofList info.kernelName) := by
          rintro ⟨hf, rfl⟩
          obtain ⟨-, -, -, hfree⟩ := hacc.2 hf
          rcases hfree with hnone | ⟨ho, hname⟩
          · exact absurd (hnone.symm.trans hsource) (by simp)
          · exact hnot ⟨ho, congrArg String.ofList hname.symm⟩
        exact ⟨(hup.registered n hother).trans ((if_neg hnot).trans hsource),
          (hup.latest n).trans ((if_neg hother).trans huser)⟩
      · rw [hstep] at hfail
        exact absurd (show true = false from hfail) (by decide)
      · rintro fs' manifestPath' info' heq hinfo hf -
        obtain ⟨rfl, rfl⟩ := BundleCall.uploadKernelBundle.inj heq
        obtain rfl := Option.some.inj (hacc.1.symm.trans hinfo)
        obtain ⟨source, hread, hreg⟩ := hup.source hf
        rw [hstep]
        exact ⟨source, hread, hreg,
          (hup.required _).trans ((if_pos rfl).trans (decide_eq_true hf))⟩
      · exact absurd heq (by simp)
  · have hstep := step_upload_rejected (not_exists.1 hacc)
    refine iff_of_true ⟨fun _ n source hsource huser => ?_, fun _ _ _ _ => ?_, ?_, fun heq => ?_⟩
      fun h => absurd h hacc
    · rw [hstep]
      exact ⟨hsource, huser⟩
    · rw [hstep]
      exact ⟨rfl, rfl, rfl⟩
    · rintro fs' manifestPath' info' heq - - hok
      rw [hstep] at hok
      exact absurd (show false = true from hok) (by decide)
    · exact absurd heq (by simp)

theorem ownershipKept_unload {t : Tracked} (h : BundleInv t) :
    OwnershipKept t .unloadKernelBundle ↔ Respects t .unloadKernelBundle := by
  constructor
  · intro hkept hre
    refine lost_of_reregistered hre (.inl ?_) (.inr rfl) hkept
    rw [unloaded_registered, if_pos ⟨hre.1, rfl⟩]
  · intro hre
    refine ⟨fun _ n source hsource huser => ?_, fun _ _ heq => ?_, fun _ _ _ heq => ?_,
      fun _ n hlatest => ?_⟩
    · have hnot : ¬ (t.owned = true ∧ n = t.currentName) := by
        rintro ⟨ho, rfl⟩
        exact hre ⟨ho, hsource ▸ Option.some_ne_none _, huser⟩
      exact ⟨(unloaded_registered n).trans ((if_neg hnot).trans hsource), huser⟩
    · exact absurd heq (by simp)
    · exact absurd heq (by simp)
    · rw [unloaded_registered, unloaded_required h.kernelName]
      by_cases hcur : t.owned = true ∧ n = t.currentName
      · rw [if_pos hcur, if_pos hcur]
        exact ⟨rfl, rfl⟩
      · rw [if_neg hcur, if_neg hcur]
        refine ⟨by_contra fun hne => hcur (h.registered n hne hlatest), ?_⟩
        exact Bool.eq_false_iff.2 fun hreq => hcur (h.required n hreq)

/-- One call respects ownership exactly if it does not release what has become the user's. -/
theorem ownershipKept_step {t : Tracked} (h : BundleInv t) (c : BundleCall) :
    OwnershipKept t c ↔ Respects t c := by
  cases c with
  | uploadKernelBundle fs manifestPath => exact ownershipKept_upload h fs manifestPath
  | unloadKernelBundle => exact ownershipKept_unload h
  | gpgpuRegisterPtx k source =>
    refine iff_of_true ⟨?_, ?_, ?_, ?_⟩ trivial
    all_goals simp
  | gpgpuUnregisterPtx k =>
    refine iff_of_true ⟨?_, ?_, ?_, ?_⟩ trivial
    all_goals simp

/-- **Bundle ownership.** Uploads and unloads among registrations of the user respect ownership,
call after call, exactly if none that goes through finds its bundle's name registered again by the
user. -/
theorem ownershipKept_iff (cs : List BundleCall) :
    Calls.Each BundleCall.step OwnershipKept .init cs ↔
      Calls.Each BundleCall.step Respects .init cs := by
  constructor
  · intro h pre c post heq
    exact (ownershipKept_step (bundleInv_after pre) c).1 (h pre c post heq)
  · intro h pre c post heq
    exact (ownershipKept_step (bundleInv_after pre) c).2 (h pre c post heq)

section Examples

/-- A manifest `/m` of a PTX bundle `k` whose source is the file `/p`. -/
def bundleDirectory : FileSystem where
  currentPath := ['/']
  rooted := Paths.isAbsolute_root
  status p := if p = "/p".toList then some ⟨1, true, 1⟩ else none
  status_nil := by decide
  read p :=
    if p = "/m".toList then
      some (manifestText ⟨['k'], "/p".toList, "/m".toList, 1, 1, 1, 0⟩ "/p".toList .ptx ['k'] 1)
    else if p = "/p".toList then some ['x']
    else none
  writable _ := true

/-- The bundle is uploaded and the user registers its name again. -/
def reregistration : List BundleCall :=
  [.uploadKernelBundle bundleDirectory "/m".toList, .gpgpuRegisterPtx "k" "y"]

/-- An unload removes what the user has registered. -/
theorem not_ownershipKept :
    ¬ ∀ cs : List BundleCall, Calls.Each BundleCall.step OwnershipKept .init cs := by
  intro hall
  have hkept := hall (reregistration ++ [.unloadKernelBundle]) reregistration .unloadKernelBundle []
    rfl
  refine (ownershipKept_unload (bundleInv_after reregistration)).1 hkept ⟨?_, ?_, ?_⟩
  · decide +kernel
  · decide +kernel
  · decide +kernel

end Examples

end RiscvGpgpu.Host
