import Cs111.Vfs.SuspCount

namespace Vfs
open Tally TransitionSystem

section Work
variable {C : VfsConfig} {L : ℕ → ℕ} {s s' : VfsState} {p fd f v nbytes : ℕ} {flag : RwFlag} {woken : Woken}
  {buf : List Byte} {outcome : LockOutcome}

theorem pipeCheck_safe {nonblock : Bool} {bytes pos : ℕ} (hb : Balanced C s) (hw : Waits C s)
    (hkind : (s.vnode v).kind = .NAMED_PIPE) :
    Safe (fun r => Balanced C r.2) (pipeCheck C v flag nonblock bytes pos woken s) := by
  rcases pipeCheck_cases C v flag nonblock bytes pos woken s with ⟨r, h⟩ | ⟨callnr, r, hcall, h⟩
  · rw [h]
    exact hb
  · rw [h]
    exact (release_safe hcall hb hw hkind).map fun _ _ hr => hr

theorem calm_setPartial {n : ℕ} : Calm s (setPartial p n s) where
  suspCount := rfl
  reviving := rfl
  block q := by
    rw [setPartial, fproc_setProc, Function.update_apply]
    split
    · next hq =>
      rw [hq]
      exact ⟨rfl, rfl, rfl, rfl⟩
    · exact .refl _
  file q f _ hf := by
    rw [setPartial, fproc_setProc, Function.update_apply] at hf
    split at hf
    · next hq =>
      rw [hq] at hf ⊢
      exact ⟨hf, rfl⟩
    · exact ⟨hf, rfl⟩

theorem calm_readPipe : Calm s (readPipe v nbytes s).2 := by
  refine calm_setVnode ?_
  split
  all_goals split <;> rfl

theorem kindOf_writePipe (g : ℕ) : kindOf (writePipe v buf s) g = kindOf s g := by
  refine kindOf_setVnode fun _ => ?_
  rfl

theorem movePipe_balanced {nonblock : Bool} {cumIo : ℕ} {r : Check} (hs : Refs C L s)
    (hb : Balanced C s) (hp : Caller C s p) (hf : (s.fproc p).fpFilp fd = some f)
    (hv : (s.filp f).filpVno = v) (hkind : (s.vnode v).kind = .NAMED_PIPE) :
    Balanced C (movePipe flag p fd v nonblock buf nbytes cumIo r s).2 := by
  have hfile : ∀ g, (s.fproc p).fpFilp fd = some g → kindOf s g = .NAMED_PIPE := by
    intro g hg
    rw [hf] at hg
    cases hg
    rw [kindOf, hv, hkind]
  unfold movePipe
  cases r with
  | error e => exact hb
  | suspend => exact pipeSuspend_balanced hb hs.waits hp hfile
  | bytes size =>
    dsimp only
    split
    · exact hb
    · cases flag with
      | READING => exact hb.calm (calm_readPipe.trans calm_setPartial)
      | WRITING =>
        have hwritten : Calm s (writePipe v (buf.take size) s) := calm_setVnode rfl
        have hrefs : Refs C L (writePipe v (buf.take size) s) := hs.setVnode rfl
        dsimp only
        split
        · have hcalm : Calm s (setPartial p (cumIo + size) (writePipe v (buf.take size) s)) :=
            hwritten.trans calm_setPartial
          have hself : (setPartial p (cumIo + size) (writePipe v (buf.take size) s)).fproc p =
              { s.fproc p with fpCumIoPartial := cumIo + size } := Function.update_self _ _ _
          refine pipeSuspend_balanced (hb.calm hcalm) (setPartial_refs hrefs _).waits
            ⟨hp.slot, ?_, ?_⟩ fun g hg => ?_
          · rw [hself]
            exact hp.used
          · rw [hself]
            exact hp.runs
          · rw [hself] at hg
            have hsame : kindOf (setPartial p (cumIo + size) (writePipe v (buf.take size) s)) g =
                kindOf (writePipe v (buf.take size) s) g := rfl
            have hg' : (s.fproc p).fpFilp fd = some g := hg
            rw [hsame, kindOf_writePipe]
            exact hfile g hg'
        · exact hb.calm (hwritten.trans calm_setPartial)

theorem rwPipe_safe (hs : Refs C L s) (hb : Balanced C s) (hp : Caller C s p)
    (hf : (s.fproc p).fpFilp fd = some f) (hkind : kindOf s f = .NAMED_PIPE) :
    Safe (fun r => Balanced C r.2) (rwPipe C flag p fd f buf nbytes woken s) := by
  unfold rwPipe
  refine (pipeCheck_safe hb hs.waits hkind).map fun r hcheck hb₁ => ?_
  obtain ⟨r, s₁⟩ := r
  have hroused := pipeCheck_roused hs.waits hcheck
  refine movePipe_balanced (f := f) (hs.roused hroused) hb₁ (hp.roused hroused) ?_ ?_ ?_
  · rw [(hroused.fproc p).fpFilp_eq, hf]
  · rw [hroused.filp]
  · rw [hroused.vnode]
    exact hkind

theorem finish_balanced {m : Moved × VfsState} (hb : Balanced C m.2) : Balanced C (finish p m) := by
  unfold finish
  split
  · exact hb
  · exact hb.calm calm_reply

theorem readWrite_safe (hs : Refs C L s) (hb : Balanced C s) (hp : Caller C s p)
    (hkind : ∀ f, (s.fproc p).fpFilp fd = some f → kindOf s f = .NAMED_PIPE) :
    Safe (fun r => Balanced C r.2) (readWrite C flag p fd buf nbytes woken s) := by
  unfold readWrite
  generalize (if flag = .READING then R_BIT else W_BIT) = bits
  split
  · exact hb
  · next f hf =>
    split
    · exact hb
    · split
      · exact hb
      · split
        · exact ⟨by decide, by decide⟩
        · exact rwPipe_safe hs hb hp hf (hkind f hf)

theorem lockOp_safe (hs : Refs C L s) (hb : Balanced C s) (hp : Caller C s p) :
    Safe (Balanced C) (lockOp C p fd outcome s) := by
  unfold lockOp
  cases outcome with
  | waits =>
    refine suspend_balanced hb hs.waits hp (by decide) fun h => ?_
    rcases h with h | h <;> cases h
  | done r unlocks =>
    dsimp only
    have hlocks : Safe (Balanced C) (if unlocks then lockRevive C s else .ok s) := by
      split
      · exact lockRevive_safe hb hs.waits
      · exact hb
    exact hlocks.map fun s₁ _ hb₁ => hb₁.calm calm_reply

theorem wake_balanced (hb : Balanced C s) (hp : p < C.NR_PROCS) (hrev : (s.fproc p).reviving) :
    Balanced C (wake p s) := by
  have hset := hb.setProc (x := { s.fproc p with fpBlockedOn := .NONE, fpRevived := false }) hp
    fun hon => absurd hon (not_onFile (.inl rfl))
  have hsusp : ¬ (s.fproc p).suspended := fun h => absurd (hrev.2.symm.trans h.2.1) (by decide)
  have hsusp' : ¬ ({ s.fproc p with fpBlockedOn := .NONE, fpRevived := false } : Fproc).suspended :=
    fun h => by rcases h.2.2 with hb | hb <;> cases hb
  have hrev' : ¬ ({ s.fproc p with fpBlockedOn := .NONE, fpRevived := false } : Fproc).reviving :=
    fun h => by cases h.2
  rw [if_neg hsusp, if_neg hsusp', if_pos hrev, if_neg hrev', Int.add_zero, Int.add_zero,
    Int.sub_zero] at hset
  exact hset

theorem getWork_safe (hs : Refs C L s) (hb : Balanced C s) (hne : s.reviving ≠ 0)
    (hp : (∃ q < C.NR_PROCS, (s.fproc q).reviving) → p < C.NR_PROCS ∧ (s.fproc p).reviving) :
    Safe (Balanced C) (getWork C p woken outcome s) := by
  have hsome : ∃ q < C.NR_PROCS, (s.fproc q).reviving := by
    rw [hb.reviving] at hne
    exact exists_of_tally_pos (Nat.pos_of_ne_zero fun h => hne (by rw [h]; rfl))
  obtain ⟨hslot, hrev⟩ := hp hsome
  obtain ⟨hwoken, hcaller⟩ := wake_refs hs hslot hrev
  have hb₁ := wake_balanced hb hslot hrev
  unfold getWork
  rw [if_pos hsome]
  split
  · next hpipe =>
    refine Safe.map (P := fun r => Balanced C r.2) ?_ fun r _ hr => finish_balanced hr
    unfold retryPipe
    dsimp only
    split
    · exact ⟨by decide, by decide⟩
    · next f hf =>
      have hself : (wake p s).fproc p =
          { s.fproc p with fpBlockedOn := .NONE, fpRevived := false } := Function.update_self _ _ _
      refine rwPipe_safe hwoken hb₁ hcaller ?_ ?_
      · rw [hself]
        exact hf
      · exact (hb.file p f ⟨hrev.1, .inr (.inr hpipe)⟩ hf).mpr hpipe
  · exact lockOp_safe hwoken hb₁ hcaller

end Work

section Processes
variable {C : VfsConfig} {L : ℕ → ℕ} {s s' : VfsState} {p c f v : ℕ} {a : ExitArgs} {e : Option Errno}

theorem Interrupted.balanced (hb : Balanced C s) (hw : Waits C s) (h : Interrupted p s s') :
    Balanced C s' := by
  have hp := hw.slot p h.used h.blocked
  have hset := hb.setProc (x := { s.fproc p with fpBlockedOn := .NONE, fpRevived := false }) hp
    fun hon => absurd hon (not_onFile (.inl rfl))
  have hsusp' : ¬ ({ s.fproc p with fpBlockedOn := .NONE, fpRevived := false } : Fproc).suspended :=
    fun h => by rcases h.2.2 with hb | hb <;> cases hb
  have hrev' : ¬ ({ s.fproc p with fpBlockedOn := .NONE, fpRevived := false } : Fproc).reviving :=
    fun h => by cases h.2
  have hsusp : (s.fproc p).suspended ↔ ((s.fproc p).fpBlockedOn = .PIPE ∨
      (s.fproc p).fpBlockedOn = .POPEN) ∧ (s.fproc p).fpRevived = false :=
    ⟨fun h => ⟨h.2.2, h.2.1⟩, fun h' => ⟨h.used, h'.2, h'.1⟩⟩
  have hrev : (s.fproc p).reviving ↔ (s.fproc p).fpRevived = true :=
    ⟨fun h => h.2, fun h' => ⟨h.used, h'⟩⟩
  rw [if_neg hsusp', if_neg hrev', Int.add_zero, Int.add_zero, if_congr hsusp rfl rfl,
    if_congr hrev rfl rfl, ← h.suspCount, ← h.reviving] at hset
  refine ⟨?_, ?_, fun q g hq hg => ?_⟩
  · rw [h.fproc]
    exact hset.susp
  · rw [h.fproc]
    exact hset.reviving
  · have hkind : kindOf s' g = kindOf s g := by rw [kindOf, kindOf, h.vnode, h.filp]
    rw [h.fproc] at hq hg ⊢
    rw [hkind]
    exact hset.file q g hq hg

theorem unpause_balanced (hb : Balanced C s) (hw : Waits C s) : Balanced C (unpause p e s) := by
  rcases unpause_cases (p := p) (e := e) hw with h | h
  · rw [h.1]
    exact hb
  · exact h.balanced hb hw

theorem calm_countFds (fds : List ℕ) : Calm s (countFds c fds s) := by
  induction fds generalizing s with
  | nil => exact .refl s
  | cons fd fds ih =>
    unfold countFds
    split
    · exact ih
    · exact calm_setCount.trans ih

theorem calm_dupDir {dir : Option ℕ} : Calm s (dupDir dir s) := by
  unfold dupDir
  split
  · exact .refl s
  · exact calm_dupVnode

theorem pmFork_balanced (hb : Balanced C s) (hw : Waits C s) (hp : Caller C s p)
    (hc : c < C.NR_PROCS) (hfree : (s.fproc c).free = true) : Balanced C (pmFork C p c s) := by
  have hcsusp : ¬ (s.fproc c).suspended := fun h => absurd (hfree.symm.trans h.1) (by decide)
  have hcrev : ¬ (s.fproc c).reviving := fun h => absurd (hfree.symm.trans h.1) (by decide)
  have hcopied : Balanced C (setProc s c (s.fproc p)) := by
    refine hb.setProc_same (n := s.reviving) hc (fun hon => absurd hon hp.not_onFile) hcsusp
      hp.not_suspended ?_
    rw [if_neg hcrev, if_neg (hp.not_reviving hw)]
    omega
  exact hcopied.calm (((calm_countFds _).trans calm_dupDir).trans calm_dupDir)

def Fproc.Quiet (rp : Fproc) : Prop :=
  rp.fpRevived = false ∧ rp.fpBlockedOn ≠ .PIPE ∧ rp.fpBlockedOn ≠ .POPEN ∧ rp.fpBlockedOn ≠ .LOCK

theorem Fproc.quiet_of_none {rp : Fproc} (hrev : rp.fpRevived = false)
    (hb : rp.fpBlockedOn = .NONE) : rp.Quiet := by
  refine ⟨hrev, ?_, ?_, ?_⟩
  all_goals
    rw [hb]
    decide

theorem Fproc.Roused.quiet {rp rp' : Fproc} (hq : rp.Quiet) (h : rp.Roused rp') : rp'.Quiet := by
  cases h with
  | same => exact hq
  | unblocked hrev _ => exact quiet_of_none hrev rfl
  | revived _ hblocked => exact absurd hblocked (by simp [hq.2.1, hq.2.2.2])

theorem unpause_quiet (hw : Waits C s) (hused : (s.fproc p).free = false) :
    ((unpause p e s).fproc p).Quiet := by
  rcases unpause_cases (p := p) (e := e) hw with ⟨hsame, hidle⟩ | h
  · rw [hsame]
    have hb : (s.fproc p).fpBlockedOn ≠ .PIPE ∧ (s.fproc p).fpBlockedOn ≠ .POPEN ∧
        (s.fproc p).fpBlockedOn ≠ .LOCK := by
      rcases hidle with hfree | hb | hb | hb
      · rw [hused] at hfree
        cases hfree
      all_goals
        rw [hb]
        exact ⟨by decide, by decide, by decide⟩
    refine ⟨?_, hb⟩
    by_contra hrev
    rcases hw.revived p hused (Bool.not_eq_false _ ▸ hrev) with h | h
    · exact hb.1 h
    · exact hb.2.2 h
  · rw [h.fproc, Function.update_self]
    exact Fproc.quiet_of_none rfl rfl

theorem closeAll_safe (fds : List ℕ) (hs : Refs C L s) (hb : Balanced C s)
    (hq : (s.fproc p).Quiet) : Safe (fun s' => Balanced C s' ∧ (s'.fproc p).Quiet)
      (closeAll C p a fds s) := by
  induction fds generalizing s with
  | nil => exact ⟨hb, hq⟩
  | cons fd fds ih =>
    unfold closeAll
    refine (closeFd_safe hs hb).bind fun s₁ hclose hb₁ => ?_
    have hclosed := closeFd_closed hs hclose
    obtain ⟨rfp, hroused, heq⟩ := hclosed.rest p
    have hquiet := hroused.quiet hq
    refine ih hclosed.toRefs hb₁ ?_
    rw [heq]
    exact hquiet

theorem putDir_safe {dir : Option ℕ} : Safe (fun s' => Calm s s') (putDir dir s) := by
  unfold putDir
  split
  · exact .refl s
  · exact putVnode_safe

theorem freeProc_safe (hs : Refs C L s) (hb : Balanced C s) (hp : Used C s p) :
    Safe (Balanced C) (freeProc C p a s) := by
  have hs₀ := unpause_refs (p := p) (e := a.cancelled) hs
  have hb₀ : Balanced C (unpause p a.cancelled s) := unpause_balanced hb hs.waits
  unfold freeProc
  refine (closeAll_safe _ hs₀ hb₀ (unpause_quiet hs.waits hp.2)).bind fun s₁ hclose h₁ => ?_
  obtain ⟨hb₁, hq₁⟩ := h₁
  have hs₁ := (closeAll_refs _ hs₀ hclose).1
  refine (unsuspend_safe a.orphans hb₁ hs₁.waits).bind fun s₂ horphans hb₂ => ?_
  have hr₂ := unsuspend_roused hs₁.waits horphans
  have hs₂ := hs₁.roused hr₂
  refine (selectCallback_safe a.selects hb₂ hs₂.waits).bind fun s₃ hselects hb₃ => ?_
  have hr₃ := selectCallback_roused _ hs₂.waits hselects
  have hq₃ := (hr₃.fproc p).quiet ((hr₂.fproc p).quiet hq₁)
  refine putDir_safe.bind fun s₄ hrd hcalm₄ => ?_
  refine putDir_safe.map fun s₅ hwd hcalm₅ => ?_
  have hb₅ := (hb₃.calm hcalm₄).calm hcalm₅
  have hproc : s₅.fproc = s₃.fproc :=
    (putDir_cases (C := C) hwd).1.trans (putDir_cases (C := C) hrd).1
  rw [← hproc] at hq₃
  have hsusp : ¬ (s₅.fproc p).suspended := fun h => by
    rcases h.2.2 with hb | hb
    · exact hq₃.2.1 hb
    · exact hq₃.2.2.1 hb
  have hrev : ¬ (s₅.fproc p).reviving := fun h => absurd (hq₃.1.symm.trans h.2) (by decide)
  have hgone : ∀ {rp : Fproc}, rp.free = true → ¬ rp.onFile ∧ ¬ rp.suspended ∧ ¬ rp.reviving :=
    fun h => ⟨fun h' => absurd (h.symm.trans h'.1) (by decide),
      fun h' => absurd (h.symm.trans h'.1) (by decide),
      fun h' => absurd (h.symm.trans h'.1) (by decide)⟩
  have hend : ({ s₅.fproc p with fpRd := none, fpWd := none, free := true } : Fproc).free = true := rfl
  refine hb₅.setProc_same (n := s₅.reviving) hp.1 (fun hon => absurd hon (hgone hend).1) hsusp
    (hgone hend).2.1 ?_
  rw [if_neg hrev, if_neg (hgone hend).2.2]
  omega

end Processes

section Runs
variable {C : VfsConfig} {L : ℕ → ℕ} {s s' : VfsState} {req : Request}

def OwnFds : Request → Prop
  | .copyFilp _ _ | .cancelFd _ _ => False
  | _ => True

def ClonesFree : Request → Prop
  | .openOther _ _ _ _ _ _ _ _ _ result => result ≠ .ok .overwritten
  | _ => True

theorem balanced_of_initial (h : Initial C s) : Balanced C s where
  susp := by
    have hnone : tally C.NR_PROCS Fproc.suspended s.fproc = 0 :=
      tally_zero_iff.mpr fun p _ hp => by rcases hp.2.2 with hb | hb <;> rw [h.blocked] at hb <;> cases hb
    rw [h.susp, hnone]
    rfl
  reviving := by
    have hnone : tally C.NR_PROCS Fproc.reviving s.fproc = 0 :=
      tally_zero_iff.mpr fun p _ hp => absurd ((h.revived p).symm.trans hp.2) (by decide)
    rw [h.reviving, hnone]
    rfl
  file p f hp := absurd hp (not_onFile (.inl (h.blocked p)))

theorem selectReply1_safe {major : ℕ} {woken closing : Woken} (hs : Refs C L s) (hb : Balanced C s) :
    Safe (Balanced C) (selectReply1 C major woken closing s) := by
  unfold selectReply1
  split
  · exact hb
  · next f hsel =>
    dsimp only
    have hb₀ : Balanced C { s with dmapSelFilp := Function.update s.dmapSelFilp major none } :=
      ⟨hb.susp, hb.reviving, hb.file⟩
    have hw₀ : Waits C { s with dmapSelFilp := Function.update s.dmapSelFilp major none } :=
      hs.waits.congr rfl rfl
    refine (selectCallback_safe woken hb₀ hw₀).bind fun s₁ hwoken hb₁ => ?_
    have hroused := selectCallback_roused _ hw₀ hwoken
    split
    · exact hb₁.calm calm_setCount
    · split
      · exact ⟨by decide, by decide⟩
      · exact closeFilp_safe (hw₀.roused hroused) hb₁

theorem handle_safe (hs : Refs C L s) (hb : Balanced C s) (hsent : Sent C s req)
    (hown : OwnFds req) : Safe (Balanced C) (handle C s req) := by
  cases req with
  | read p fd nbytes woken =>
    exact (readWrite_safe hs hb hsent.2.1 hsent.2.2).map fun _ _ h => finish_balanced h
  | write p fd buf woken =>
    exact (readWrite_safe hs hb hsent.2.1 hsent.2.2).map fun _ _ h => finish_balanced h
  | openFifo p lost v vSize bits nonblock callnr =>
    exact openFifo_safe hs hb hsent.2.1 hsent.2.2.2.1
  | openOther p lost v vSize kind bits nonblock waits callnr result =>
    exact openOther_safe hs hb hsent.2.1 hsent.2.2.2.1 hsent.2.2.2.2.1 hsent.2.2.2.2.2.1
  | openMissing p lost r => exact openMissing_balanced hs hb
  | pipe p v created => exact hb.calm (calm_doPipe hs hsent.2.1 hsent.2.2)
  | close p fd woken unlocks => exact doClose_safe hs hb
  | dup p fd start => exact hb.calm (calm_doDup hsent.2)
  | dup2 p fd fd2 woken unlocks => exact doDup2_safe hs hb hsent.2
  | setfl p fd nonblock =>
    show Balanced C (setfl p fd nonblock s)
    unfold setfl
    split
    · exact hb.calm calm_reply
    · next f hf =>
      have hcalm : Calm s (setFilp s f { s.filp f with nonblock := nonblock }) := calm_setFilp rfl
      exact hb.calm (hcalm.trans calm_reply)
  | lock p fd outcome => exact lockOp_safe hs hb hsent.2.1
  | device p fd callnr =>
    refine suspend_balanced hb hs.waits hsent.2.1 (by decide) fun _ g hg => ?_
    obtain ⟨f, hf, hkind⟩ := hsent.2.2.1
    rw [hf] at hg
    cases hg
    rw [kindOf, hkind]
    decide
  | selectPipe f pos woken =>
    exact (pipeCheck_safe hb hs.waits hsent.2).map fun _ _ h => h
  | select p nfds =>
    refine Balanced.selecting (suspend_balanced hb hs.waits hsent (by decide) fun h => ?_) _
    rcases h with h | h <;> cases h
  | selectWake woken => exact selectCallback_safe woken hb hs.waits
  | driverRevive p r =>
    refine revive_safe hb hsent.2.2 fun hsusp => ?_
    rcases hsent.2.1 with h | h <;> rcases hsusp.2.2 with h' | h' <;>
      exact absurd (h.symm.trans h') (by decide)
  | signal p cancelled => exact unpause_balanced hb hs.waits
  | fork p c => exact pmFork_balanced hb hs.waits hsent.2.1 hsent.2.2.1 hsent.2.2.2
  | exit p a => exact freeProc_safe hs hb hsent.2
  | getWork p woken outcome => exact getWork_safe hs hb hsent.1 hsent.2
  | passFilp f =>
    have hcalm : Calm s (setCount f ((s.filp f).filpCount + 1) s) := calm_setCount
    have hb₁ := hb.calm hcalm
    exact ⟨hb₁.susp, hb₁.reviving, hb₁.file⟩
  | copyFilp p f => exact hown.elim
  | putFilp f woken =>
    exact (closeFilp_safe hs.waits hb).map fun _ _ hb₁ =>
      ⟨hb₁.susp, hb₁.reviving, hb₁.file⟩
  | cancelFd p fd => exact hown.elim
  | selectAsynch f major =>
    show Balanced C (selectAsynch f major s)
    unfold selectAsynch
    split
    · exact hb
    · have hcalm : Calm s (setCount f ((s.filp f).filpCount + 1) s) := calm_setCount
      have hb₁ := hb.calm hcalm
      exact ⟨hb₁.susp, hb₁.reviving, hb₁.file⟩
  | selectReply major woken closing => exact selectReply1_safe hs hb

theorem keepsRefs_of_own (hown : OwnFds req) (hclones : ClonesFree req) : KeepsRefs s req := by
  cases req with
  | cancelFd p fd => exact hown.elim
  | openOther p lost v vSize kind bits nonblock waits callnr result => exact hclones
  | _ => trivial

theorem balanced_of_run {past : List (VfsState × Request)}
    (h : Run (vfsSystem C) (fun _ _ req => OwnFds req ∧ ClonesFree req) past s) :
    (∃ L, Refs C L s) ∧ Balanced C s := by
  refine h.invariant (P := fun s => (∃ L, Refs C L s) ∧ Balanced C s)
    (fun s hs => ⟨⟨_, refs_of_initial hs⟩, balanced_of_initial hs⟩) ?_
  intro past s req s' hs hok hstep
  obtain ⟨⟨L, hrefs⟩, hb⟩ := hs
  refine ⟨handle_refs hrefs hstep.1 (keepsRefs_of_own hok.1 hok.2) hstep.2, ?_⟩
  have hsafe := handle_safe hrefs hb hstep.1 hok.1
  rw [hstep.2] at hsafe
  exact hsafe

end Runs

theorem susp_counts_right (C : VfsConfig) (past : List (VfsState × Request)) (s : VfsState)
    (h : Run (vfsSystem C) (fun _ _ req => OwnFds req ∧ ClonesFree req) past s) :
    s.suspCount = tally C.NR_PROCS Fproc.suspended s.fproc ∧
      s.reviving = tally C.NR_PROCS Fproc.reviving s.fproc ∧
      (∀ p, (s.fproc p).reviving →
        (s.fproc p).fpBlockedOn = .PIPE ∨ (s.fproc p).fpBlockedOn = .LOCK) ∧
      0 ≤ s.suspCount ∧ 0 ≤ s.reviving ∧
      ∀ req, Sent C s req → OwnFds req →
        handle C s req ≠ .error .suspCountNegative ∧ handle C s req ≠ .error .nobodyToRevive := by
  obtain ⟨⟨L, hs⟩, hb⟩ := balanced_of_run h
  refine ⟨hb.susp, hb.reviving, fun p hp => hs.waits.revived p hp.1 hp.2, ?_, ?_, ?_⟩
  · rw [hb.susp]
    exact Int.natCast_nonneg _
  · rw [hb.reviving]
    exact Int.natCast_nonneg _
  · intro req hsent hown
    have hsafe := handle_safe hs hb hsent hown
    constructor
    · intro herror
      rw [herror] at hsafe
      exact hsafe.1 rfl
    · intro herror
      rw [herror] at hsafe
      exact hsafe.2 rfl

section Small

def smallPipe : VfsState := doPipe smallVfs 0 0 (.ok ()) emptyVfs

def smallReader : VfsState := pipeSuspend 0 .READING 0 [] 1 smallPipe

theorem smallPipe_step :
    (vfsSystem smallVfs).step emptyVfs (.pipe 0 0 (.ok ())) smallPipe :=
  ⟨⟨rfl, ⟨Nat.zero_lt_succ 1, rfl, rfl⟩, rfl⟩, rfl⟩

theorem smallReader_step :
    (vfsSystem smallVfs).step smallPipe (.read 0 0 1 []) smallReader := by
  refine ⟨⟨rfl, ⟨Nat.zero_lt_succ 1, rfl, rfl⟩, fun f hf => ?_⟩, rfl⟩
  have hzero : (smallPipe.fproc 0).fpFilp 0 = some 0 := rfl
  rw [hzero] at hf
  cases hf
  rfl

theorem suspCount_of_reader : ∃ past s,
    Run (vfsSystem smallVfs) (fun _ _ req => OwnFds req ∧ ClonesFree req) past s ∧
      s.suspCount = 1 ∧ s.suspCount = tally smallVfs.NR_PROCS Fproc.suspended s.fproc := by
  have hpipe : OwnFds (.pipe 0 0 (.ok ())) ∧ ClonesFree (.pipe 0 0 (.ok ())) := ⟨trivial, trivial⟩
  have hread : OwnFds (.read 0 0 1 []) ∧ ClonesFree (.read 0 0 1 []) := ⟨trivial, trivial⟩
  have hrun : Run (vfsSystem smallVfs) (fun _ _ req => OwnFds req ∧ ClonesFree req) _ smallReader :=
    .next (.next (.start emptyVfs_initial) hpipe smallPipe_step) hread smallReader_step
  exact ⟨_, _, hrun, rfl, (susp_counts_right smallVfs _ _ hrun).1⟩

def threeFilps : VfsConfig := { smallVfs with NR_FILPS := 3 }

theorem emptyVfs_initial_three : Initial threeFilps emptyVfs where
  filps := emptyVfs_initial.filps
  fds := emptyVfs_initial.fds
  blocked := emptyVfs_initial.blocked
  revived := emptyVfs_initial.revived
  partials := emptyVfs_initial.partials
  dirs := emptyVfs_initial.dirs
  refs := emptyVfs_initial.refs
  pipes := emptyVfs_initial.pipes
  selecting := emptyVfs_initial.selecting
  sel := emptyVfs_initial.sel
  inFlight := emptyVfs_initial.inFlight
  susp := emptyVfs_initial.susp
  reviving := emptyVfs_initial.reviving

def after (C : VfsConfig) (s : VfsState) (req : Request) : VfsState :=
  match handle C s req with
  | .ok s' => s'
  | .error _ => s

theorem step_after {C : VfsConfig} {s : VfsState} {req : Request} (hsent : Sent C s req)
    (hok : (handle C s req).isOk = true) : (vfsSystem C).step s req (after C s req) := by
  refine ⟨hsent, ?_⟩
  unfold after
  cases hreq : handle C s req with
  | ok s' => rfl
  | error e =>
    rw [hreq] at hok
    cases hok

def opened : VfsState :=
  after threeFilps emptyVfs
    (.openOther 0 [] 0 0 .CHAR_SPECIAL R_BIT false false .OPEN (.ok .same))

def recloned : VfsState :=
  after threeFilps opened
    (.openOther 1 [] 0 0 .CHAR_SPECIAL R_BIT false false .OPEN (.ok .overwritten))

def awaited : VfsState := after threeFilps recloned (.device 0 0 .READ)

def reclosed : VfsState := after threeFilps awaited (.close 1 0 [] false)

def repiped : VfsState := after threeFilps reclosed (.pipe 1 0 (.ok ()))

theorem repiped_run : ∃ past,
    Run (vfsSystem threeFilps) (fun _ _ req => OwnFds req) past repiped := by
  have hopened : (vfsSystem threeFilps).step emptyVfs _ opened :=
    step_after ⟨rfl, ⟨Nat.zero_lt_succ 1, rfl, rfl⟩, trivial, by decide, .inl rfl, trivial, .inl rfl⟩
      rfl
  have hrecloned : (vfsSystem threeFilps).step opened _ recloned :=
    step_after ⟨rfl, ⟨Nat.lt_succ_self 1, rfl, rfl⟩, trivial, by decide, .inr rfl,
      ⟨rfl, Nat.one_ne_zero⟩, .inl rfl⟩ rfl
  have hawaited : (vfsSystem threeFilps).step recloned _ awaited :=
    step_after ⟨rfl, ⟨Nat.zero_lt_succ 1, rfl, rfl⟩, ⟨0, rfl, rfl⟩, .inl rfl⟩ rfl
  have hreclosed : (vfsSystem threeFilps).step awaited _ reclosed :=
    step_after ⟨rfl, ⟨Nat.lt_succ_self 1, rfl, rfl⟩⟩ rfl
  have hrepiped : (vfsSystem threeFilps).step reclosed _ repiped :=
    step_after ⟨rfl, ⟨Nat.lt_succ_self 1, rfl, rfl⟩, rfl⟩ rfl
  refine ⟨_, .next (.next (.next (.next (.next (.start emptyVfs_initial_three) ?_ hopened) ?_
    hrecloned) ?_ hawaited) ?_ hreclosed) ?_ hrepiped⟩
  all_goals exact trivial

theorem clone_loses_count : ¬ ∀ (C : VfsConfig) (past : List (VfsState × Request)) (s : VfsState),
    Run (vfsSystem C) (fun _ _ req => OwnFds req) past s →
      ∀ req, Sent C s req → OwnFds req → handle C s req ≠ .error .suspCountNegative := by
  intro hall
  obtain ⟨past, hrun⟩ := repiped_run
  exact hall threeFilps past repiped hrun (.close 1 1 [] false)
    ⟨rfl, ⟨Nat.lt_succ_self 1, rfl, rfl⟩⟩ trivial rfl

end Small

end Vfs
