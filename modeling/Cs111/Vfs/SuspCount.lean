import Cs111.Vfs.Calm

namespace Vfs
open Tally TransitionSystem

section Wake
variable {C : VfsConfig} {L : ℕ → ℕ} {s s' : VfsState} {p fd f v n : ℕ} {r : Except Errno ℕ}

theorem putVnode_safe : Safe (fun s' => Calm s s') (putVnode s v) := by
  cases h : putVnode s v with
  | ok s' => exact calm_putVnode h
  | error e =>
    unfold putVnode at h
    split at h
    · cases h
      exact ⟨by decide, by decide⟩
    · cases h

theorem failOpen_safe {e : Errno} : Safe (fun s' => Calm s s') (failOpen p fd e s) := by
  unfold failOpen
  split
  · exact ⟨by decide, by decide⟩
  · next f hf =>
    dsimp only
    split
    · exact ⟨by decide, by decide⟩
    · refine putVnode_safe.map fun s' _ hput => ?_
      have hcleared : Calm s (setFd p fd none s) := calm_setFd_none
      exact ((hcleared.trans calm_setCount).trans hput).trans calm_reply

theorem Balanced.setProc {x : Fproc} (hs : Balanced C s) (hp : p < C.NR_PROCS)
    (hfile : x.onFile → ∀ f, x.fpFilp x.fpBlockFd = some f →
      (kindOf s f = .NAMED_PIPE ↔ x.fpBlockedOn = .PIPE)) :
    Balanced C { Vfs.setProc s p x with
      suspCount := s.suspCount - (if (s.fproc p).suspended then 1 else 0) +
        if x.suspended then 1 else 0
      reviving := s.reviving - (if (s.fproc p).reviving then 1 else 0) +
        if x.reviving then 1 else 0 } where
  susp := by
    have hupdate := tally_update (p := Fproc.suspended) (f := s.fproc) (v := x) hp
    rw [hs.susp]
    dsimp only
    rw [fproc_setProc]
    split_ifs at hupdate ⊢ <;> omega
  reviving := by
    have hupdate := tally_update (p := Fproc.reviving) (f := s.fproc) (v := x) hp
    rw [hs.reviving]
    dsimp only
    rw [fproc_setProc]
    split_ifs at hupdate ⊢ <;> omega
  file q f hq hf := by
    dsimp only at hq hf ⊢
    rw [fproc_setProc, Function.update_apply] at hq hf ⊢
    split at hq
    · next hqp =>
      rw [if_pos hqp] at hf ⊢
      exact hfile hq f hf
    · next hqp =>
      rw [if_neg hqp] at hf ⊢
      exact hs.file q f hq hf

theorem Balanced.setProc_same {x : Fproc} {n : ℤ} (hs : Balanced C s) (hp : p < C.NR_PROCS)
    (hfile : x.onFile → ∀ f, x.fpFilp x.fpBlockFd = some f →
      (kindOf s f = .NAMED_PIPE ↔ x.fpBlockedOn = .PIPE))
    (hsusp : ¬ (s.fproc p).suspended) (hsusp' : ¬ x.suspended)
    (hrev : n = s.reviving - (if (s.fproc p).reviving then 1 else 0) +
      if x.reviving then 1 else 0) :
    Balanced C (Vfs.setProc { s with reviving := n } p x) := by
  have h := hs.setProc hp hfile
  rw [if_neg hsusp, if_neg hsusp', ← hrev, Int.sub_zero, Int.add_zero] at h
  exact h

theorem revive_error {e : Panic} (h : revive p r s = .error e) :
    e ≠ .suspCountNegative ∧ e ≠ .nobodyToRevive := by
  unfold revive at h
  dsimp only at h
  split at h
  · cases h
  · split at h
    · cases h
    · split at h
      · split at h
        · next e' =>
          have hsafe : Safe (fun s' => Calm (unblock p s) s')
              (failOpen p (s.fproc p).fpBlockFd e' (unblock p s)) := failOpen_safe
          rw [h] at hsafe
          exact hsafe
        · cases h
      · split at h <;> cases h

theorem unblock_balanced (hs : Balanced C s) (hp : p < C.NR_PROCS)
    (hrev : (s.fproc p).fpRevived = false) (hsusp : ¬ (s.fproc p).suspended) :
    Balanced C (unblock p s) := by
  refine hs.setProc_same (n := s.reviving) hp (fun h => ?_) hsusp (fun h => ?_) ?_
  · exact absurd h (not_onFile (.inl rfl))
  · rcases h.2.2 with hb | hb <;> cases hb
  · have hnot : ¬ (s.fproc p).reviving := fun h => by
      rw [Fproc.reviving, hrev] at h
      exact absurd h.2 (by decide)
    have hnot' : ¬ ({ s.fproc p with fpBlockedOn := .NONE } : Fproc).reviving := hnot
    rw [if_neg hnot, if_neg hnot']
    omega

theorem revive_safe (hs : Balanced C s) (hp : p < C.NR_PROCS) (hsusp : ¬ (s.fproc p).suspended) :
    Safe (Balanced C) (revive p r s) := by
  cases h : revive p r s with
  | error e => exact revive_error h
  | ok s' =>
    show Balanced C s'
    cases revive_cases h with
    | idle => exact hs
    | revived hfree hrev hblocked =>
      refine hs.setProc_same hp (fun hon f hf => hs.file p f hon hf) hsusp (fun h => ?_) ?_
      · cases h.2.1
      · have hnot : ¬ (s.fproc p).reviving := fun h => by
          rw [Fproc.reviving, hrev] at h
          exact absurd h.2 (by decide)
        have hnow : ({ s.fproc p with fpRevived := true } : Fproc).reviving := ⟨hfree, rfl⟩
        rw [if_neg hnot, if_pos hnow]
        omega
    | answered res hfree hrev => exact (unblock_balanced hs hp hrev hsusp).calm calm_reply
    | failed e _ hfree hrev _ _ hfail =>
      have hsafe : Safe (fun s' => Calm (unblock p s) s')
          (failOpen p (s.fproc p).fpBlockFd e (unblock p s)) := failOpen_safe
      rw [hfail] at hsafe
      exact (unblock_balanced hs hp hrev hsusp).calm hsafe

theorem revive_suspended (hs : Balanced C s) (hp : p < C.NR_PROCS) (hsusp : (s.fproc p).suspended) :
    Safe (fun s' => 0 < s'.suspCount ∧ Balanced C { s' with suspCount := s'.suspCount - 1 })
      (revive p (.ok 0) s) := by
  have hpos : 0 < s.suspCount := by
    rw [hs.susp]
    exact_mod_cast tally_pos hp hsusp
  have hnot : ¬ (s.fproc p).reviving := fun h => by
    rw [Fproc.reviving, hsusp.2.1] at h
    exact absurd h.2 (by decide)
  cases h : revive p (.ok 0) s with
  | error e => exact revive_error h
  | ok s' =>
    show 0 < s'.suspCount ∧ Balanced C { s' with suspCount := s'.suspCount - 1 }
    cases revive_cases h with
    | idle hidle =>
      obtain ⟨hfree, hrev, hb⟩ := hsusp
      rw [hfree, hrev] at hidle
      rcases hidle with h | h | h
      · cases h
      · rcases hb with hb | hb <;> exact absurd (hb.symm.trans h) (by decide)
      · cases h
    | revived hfree hrev hblocked =>
      have hnow : ({ s.fproc p with fpRevived := true } : Fproc).reviving := ⟨hfree, rfl⟩
      have hgone : ¬ ({ s.fproc p with fpRevived := true } : Fproc).suspended := fun h => by
        cases h.2.1
      have hset := hs.setProc (x := { s.fproc p with fpRevived := true }) hp
        fun hon f hf => hs.file p f hon hf
      rw [if_pos hsusp, if_neg hgone, if_neg hnot, if_pos hnow, Int.add_zero, Int.sub_zero] at hset
      exact ⟨hpos, hset⟩
    | answered res hfree hrev =>
      have hnot' : ¬ ({ s.fproc p with fpBlockedOn := .NONE } : Fproc).reviving := hnot
      have hgone : ¬ ({ s.fproc p with fpBlockedOn := .NONE } : Fproc).suspended := fun h => by
        rcases h.2.2 with hb | hb <;> cases hb
      have hset := hs.setProc (x := { s.fproc p with fpBlockedOn := .NONE }) hp
        fun hon => absurd hon (not_onFile (.inl rfl))
      rw [if_pos hsusp, if_neg hgone, if_neg hnot, if_neg hnot', Int.add_zero, Int.sub_zero,
        Int.add_zero] at hset
      exact ⟨hpos, hset.calm calm_reply⟩
    | failed e _ _ _ _ he => cases he

end Wake

section Release
variable {C : VfsConfig} {L : ℕ → ℕ} {s s' : VfsState} {p fd f v : ℕ} {r : Except Errno ℕ} {callnr : CallNr}

theorem Balanced.selecting (hs : Balanced C s) (g : ℕ → Bool) :
    Balanced C { s with selecting := g } := ⟨hs.susp, hs.reviving, hs.file⟩

theorem selectReturn_safe (hs : Balanced C s) (hw : Waits C s) :
    Safe (Balanced C) (selectReturn p r s) := by
  unfold selectReturn
  split
  · next hsel =>
    obtain ⟨hfree, hb⟩ := hw.selecting p hsel
    have hp := hw.slot p hfree (by rw [hb]; decide)
    refine (revive_safe hs hp fun hsusp => ?_).map fun s' _ hs' => hs'.selecting _
    rcases hsusp.2.2 with hb' | hb' <;> exact absurd (hb.symm.trans hb') (by decide)
  · exact hs

theorem selectCallback_safe (woken : Woken) (hs : Balanced C s) (hw : Waits C s) :
    Safe (Balanced C) (selectCallback woken s) := by
  induction woken generalizing s with
  | nil => exact hs
  | cons pr woken ih =>
    obtain ⟨p, r⟩ := pr
    unfold selectCallback
    refine (selectReturn_safe hs hw).bind fun s₁ hr hs₁ => ?_
    exact ih hs₁ (hw.roused (selectReturn_roused hw hr))

theorem hangs_suspended (hs : Balanced C s) (hw : Waits C s) (hkind : (s.vnode v).kind = .NAMED_PIPE)
    (hcall : callnr ≠ .SELECT ∧ callnr ≠ .FCNTL) (h : hangs v callnr s (s.fproc p) = .ok true) :
    p < C.NR_PROCS ∧ (s.fproc p).suspended := by
  obtain ⟨hfree, hb, hrev, hnr, hselect, f, hf, hv⟩ := hangs_true hw hcall.1 h
  refine ⟨hw.slot p hfree hb, hfree, hrev, ?_⟩
  have hdev : (s.fproc p).onFile → (s.fproc p).fpBlockedOn = .PIPE := fun hon => by
    have hpipe := hs.file p f hon hf
    rw [kindOf, hv] at hpipe
    exact hpipe.mp hkind
  have hlock : (s.fproc p).fpBlockedOn ≠ .LOCK := fun hl =>
    hcall.2 (hnr.symm.trans (hw.lock p hfree hl))
  cases hon : (s.fproc p).fpBlockedOn with
  | NONE => exact absurd hon hb
  | PIPE => exact .inl rfl
  | LOCK => exact absurd hon hlock
  | POPEN => exact .inr rfl
  | SELECT => exact absurd hon hselect
  | DOPEN => exact absurd (hon.symm.trans (hdev ⟨hfree, .inr (.inl hon)⟩)) (by decide)
  | OTHER => exact absurd (hon.symm.trans (hdev ⟨hfree, .inl hon⟩)) (by decide)

theorem hangs_error {rp : Fproc} {e : Panic} (h : hangs v callnr s rp = .error e) :
    e ≠ .suspCountNegative ∧ e ≠ .nobodyToRevive := by
  unfold hangs at h
  split at h
  · split at h
    · cases h
      exact ⟨by decide, by decide⟩
    · cases h
  · cases h

theorem releaseFrom_safe (hcall : callnr ≠ .SELECT ∧ callnr ≠ .FCNTL) (slots : List ℕ) (count : ℤ)
    (hs : Balanced C s) (hw : Waits C s) (hkind : (s.vnode v).kind = .NAMED_PIPE) :
    Safe (Balanced C) (releaseFrom v callnr slots count s) := by
  induction slots generalizing s count with
  | nil => exact hs
  | cons p slots ih =>
    unfold releaseFrom
    split
    · exact hs
    · split
      · next e he => exact hangs_error he
      · exact ih _ hs hw hkind
      · next hhangs =>
        obtain ⟨hp, hsusp⟩ := hangs_suspended hs hw hkind hcall hhangs
        have hrevive := revive_suspended hs hp hsusp
        split
        · next e he =>
          rw [he] at hrevive
          exact hrevive
        · next s₁ hr =>
          rw [hr] at hrevive
          obtain ⟨hpos, hs₁⟩ := hrevive
          have hroused := hw.revive_roused hr (hangs_true hw hcall.1 hhangs).2.2.2.2.1
            fun _ => ⟨0, rfl⟩
          have hroused : Roused s { s₁ with suspCount := s₁.suspCount - 1 } :=
            ⟨hroused.filp, hroused.vnode, hroused.dmapSelFilp, hroused.mounts, hroused.inFlight,
              hroused.fproc, hroused.selecting⟩
          dsimp only
          split
          · next hneg => exact absurd hneg (by omega)
          · split
            · exact hs₁
            · refine ih _ hs₁ (hw.roused hroused) ?_
              rw [hroused.vnode]
              exact hkind

theorem release_safe {count : ℤ} {woken : Woken} (hcall : callnr ≠ .SELECT ∧ callnr ≠ .FCNTL)
    (hs : Balanced C s) (hw : Waits C s) (hkind : (s.vnode v).kind = .NAMED_PIPE) :
    Safe (Balanced C) (release C v callnr count woken s) := by
  unfold release
  have hselects : Safe (fun s₁ => Balanced C s₁ ∧ Roused s s₁)
      (if callnr = .READ ∨ callnr = .WRITE then selectCallback woken s else .ok s) := by
    split
    · refine (selectCallback_safe woken hs hw).mono fun s₁ hr hs₁ => ⟨hs₁, ?_⟩
      exact selectCallback_roused woken hw hr
    · exact ⟨hs, .refl s⟩
  refine hselects.bind fun s₁ _ hs₁ => ?_
  refine releaseFrom_safe hcall _ _ hs₁.1 (hw.roused hs₁.2) ?_
  rw [hs₁.2.vnode]
  exact hkind

theorem lockRevive_safe (hs : Balanced C s) (hw : Waits C s) :
    Safe (Balanced C) (lockRevive C s) := by
  unfold lockRevive
  generalize List.range C.NR_PROCS = slots
  induction slots generalizing s with
  | nil => exact hs
  | cons p slots ih =>
    rw [List.foldlM_cons]
    split
    · next hlock =>
      obtain ⟨hfree, hb⟩ := hlock
      have hfree : (s.fproc p).free = false := Bool.not_eq_true _ ▸ hfree
      have hp := hw.slot p hfree (by rw [hb]; decide)
      have hrevive : Safe (Balanced C) (revive p (.ok 0) s) := by
        refine revive_safe hs hp fun hsusp => ?_
        rcases hsusp.2.2 with hb' | hb' <;> exact absurd (hb.symm.trans hb') (by decide)
      refine hrevive.bind fun s₁ hr hs₁ => ih hs₁ (hw.roused ?_)
      exact hw.revive_roused hr (by rw [hb]; decide) fun _ => ⟨0, rfl⟩
    · exact ih hs hw

theorem unsuspend_safe (orphans : List ℕ) (hs : Balanced C s) (hw : Waits C s) :
    Safe (Balanced C) (unsuspend orphans s) := by
  unfold unsuspend
  induction orphans generalizing s with
  | nil => exact hs
  | cons p orphans ih =>
    rw [List.foldlM_cons]
    split
    · next hother =>
      by_cases hfree : (s.fproc p).free = false
      · have hp := hw.slot p hfree (by rw [hother]; decide)
        have hrevive : Safe (Balanced C) (revive p (.error .EAGAIN) s) := by
          refine revive_safe hs hp fun hsusp => ?_
          rcases hsusp.2.2 with hb | hb <;> exact absurd (hother.symm.trans hb) (by decide)
        refine hrevive.bind fun s₁ hr hs₁ => ih hs₁ (hw.roused ?_)
        exact hw.revive_roused hr (by rw [hother]; decide) fun hd =>
          absurd (hother.symm.trans hd) (by decide)
      · have hsame : revive p (.error .EAGAIN) s = .ok s := by
          unfold revive
          rw [if_pos (.inl (Bool.not_eq_false _ ▸ hfree))]
        rw [hsame]
        exact ih hs hw
    · exact ih hs hw

end Release

open Errno

section Close
variable {C : VfsConfig} {L : ℕ → ℕ} {s s' : VfsState} {p fd fd2 f v start : ℕ} {woken : Woken} {unlocks : Bool}

theorem closeFilp_safe (hw : Waits C s) (hb : Balanced C s) :
    Safe (Balanced C) (closeFilp C f woken s) := by
  unfold closeFilp
  dsimp only
  have hfirst : Safe (Balanced C) (if (s.vnode (s.filp f).filpVno).kind = .NAMED_PIPE then
      release C (s.filp f).filpVno (if (s.filp f).filpMode.r then .WRITE else .READ) C.NR_PROCS woken s
      else .ok s) := by
    split
    · next hkind =>
      refine release_safe ?_ hb hw hkind
      split <;> decide
    · exact hb
  refine hfirst.bind fun s₁ _ hs₁ => ?_
  have hcount : Balanced C (setCount f ((s₁.filp f).filpCount - 1) s₁) := hs₁.calm calm_setCount
  split
  · exact putVnode_safe.mono fun s₂ _ hput => hcount.calm hput
  · exact hcount

theorem closeFd_safe (hs : Refs C L s) (hb : Balanced C s) :
    Safe (Balanced C) (closeFd C p fd woken unlocks s) := by
  unfold closeFd
  split
  · exact hb
  · next f hf =>
    refine (closeFilp_safe hs.waits hb).bind fun s₁ hclose hb₁ => ?_
    have hdropped := closeFilp_dropped hs.toLinked hs.waits hs.vnodeOwes (hs.fd_used hf) hclose
    have hcleared : Balanced C (setFd p fd none s₁) := hb₁.calm calm_setFd_none
    dsimp only
    split
    · exact lockRevive_safe hcleared hdropped.waits.setFd
    · exact hcleared

theorem doClose_safe (hs : Refs C L s) (hb : Balanced C s) :
    Safe (Balanced C) (doClose C p fd woken unlocks s) :=
  (closeFd_safe hs hb).map fun _ _ hb₁ => hb₁.calm calm_reply

theorem calm_attach (hp : ¬ (s.fproc p).onFile) : Calm s (attach p fd f s) := by
  have hcount : Calm s (setCount f ((s.filp f).filpCount + 1) s) := calm_setCount
  exact hcount.trans (calm_setFd hp)

theorem Caller.not_onFile (hp : Caller C s p) : ¬ (s.fproc p).onFile :=
  Vfs.not_onFile (.inl hp.runs)

theorem calm_doDup (hp : Caller C s p) : Calm s (doDup C p fd start s) := by
  unfold doDup
  split
  · exact calm_reply
  · split
    · exact calm_reply
    · exact (calm_attach hp.not_onFile).trans calm_reply

theorem doDup2_safe (hs : Refs C L s) (hb : Balanced C s) (hp : Caller C s p) :
    Safe (Balanced C) (doDup2 C p fd fd2 woken unlocks s) := by
  unfold doDup2
  split
  · exact hb.calm calm_reply
  · split
    · exact hb.calm calm_reply
    · split
      · exact hb.calm calm_reply
      · refine (closeFd_safe hs hb).map fun s₁ hclose hb₁ => ?_
        have hnone : (s₁.fproc p).fpBlockedOn = .NONE := by
          rcases (closeFd_closed hs hclose).blocked_or p with h | h
          · exact h
          · rw [h, hp.runs]
        exact hb₁.calm ((calm_attach (Vfs.not_onFile (.inl hnone))).trans calm_reply)

end Close

section Suspend
variable {C : VfsConfig} {L : ℕ → ℕ} {s s' : VfsState} {p fd f v n : ℕ} {why : BlockedOn} {callnr : CallNr}

theorem Caller.not_suspended (hp : Caller C s p) : ¬ (s.fproc p).suspended := fun h => by
  rcases h.2.2 with hb | hb <;> rw [hp.runs] at hb <;> cases hb

theorem Caller.not_reviving (hw : Waits C s) (hp : Caller C s p) : ¬ (s.fproc p).reviving :=
  fun h => by
    rw [Fproc.reviving, hp.not_revived hw] at h
    exact absurd h.2 (by decide)

theorem Balanced.sleep {x : Fproc} (hb : Balanced C s) (hw : Waits C s) (hp : Caller C s p)
    (hfree : x.free = false) (hrev : x.fpRevived = (s.fproc p).fpRevived)
    (hfile : x.onFile → ∀ f, x.fpFilp x.fpBlockFd = some f →
      (kindOf s f = .NAMED_PIPE ↔ x.fpBlockedOn = .PIPE)) :
    Balanced C (Vfs.setProc { s with
      suspCount := s.suspCount + if x.fpBlockedOn = .PIPE ∨ x.fpBlockedOn = .POPEN then 1 else 0 }
      p x) := by
  have hset := hb.setProc hp.slot hfile
  have hnotrev : ¬ x.reviving := fun h => by
    rw [Fproc.reviving, hrev, hp.not_revived hw] at h
    exact absurd h.2 (by decide)
  have hiff : x.suspended ↔ (x.fpBlockedOn = .PIPE ∨ x.fpBlockedOn = .POPEN) :=
    ⟨fun h => h.2.2, fun h => ⟨hfree, hrev.trans (hp.not_revived hw), h⟩⟩
  rw [if_neg hp.not_suspended, if_neg (hp.not_reviving hw), if_neg hnotrev, Int.sub_zero,
    Int.sub_zero, Int.add_zero, if_congr hiff rfl rfl] at hset
  exact hset

theorem suspend_balanced (hb : Balanced C s) (hw : Waits C s) (hp : Caller C s p)
    (hpipe : why ≠ .PIPE) (hfile : (why = .OTHER ∨ why = .DOPEN) →
      ∀ f, (s.fproc p).fpFilp fd = some f → kindOf s f ≠ .NAMED_PIPE) :
    Balanced C (suspend p why fd callnr s) := by
  have hsleep := hb.sleep (x := { s.fproc p with
      fpBlockedOn := why, fpBlockFd := fd, fpBlockCallnr := callnr }) hw hp hp.used rfl
    fun hon f hf => by
      refine iff_of_false (hfile ?_ f hf) hpipe
      rcases hon.2 with h | h | h
      · exact .inl h
      · exact .inr h
      · exact absurd h hpipe
  unfold suspend
  dsimp only at hsleep ⊢
  split
  · next hopen =>
    rw [if_pos (.inr hopen)] at hsleep
    exact hsleep
  · next hopen =>
    rw [if_neg (fun h => h.elim hpipe hopen), Int.add_zero] at hsleep
    exact hsleep

theorem pipeSuspend_balanced {flag : RwFlag} {buf : List Byte} (hb : Balanced C s)
    (hw : Waits C s) (hp : Caller C s p)
    (hfile : ∀ f, (s.fproc p).fpFilp fd = some f → kindOf s f = .NAMED_PIPE) :
    Balanced C (pipeSuspend p flag fd buf n s) := by
  have hsleep := hb.sleep (x := { s.fproc p with
      fpBlockedOn := .PIPE
      fpBlockFd := fd
      fpBlockCallnr := if flag = .READING then .READ else .WRITE
      fpBuffer := buf
      fpNbytes := n }) hw hp hp.used rfl fun _ f hf => iff_of_true (hfile f hf) rfl
  exact hsleep

end Suspend

section Open
variable {C : VfsConfig} {L : ℕ → ℕ} {s s' : VfsState} {p fd f v vSize : ℕ} {kind : VKind} {mode bits : FilpMode}
  {nonblock waits : Bool} {callnr : CallNr}

theorem unclaim_safe (hb : Balanced C s) : Safe (Balanced C) (unclaim p fd f v s) := by
  unfold unclaim
  refine putVnode_safe.mono fun s₁ _ hput => hb.calm ?_
  have hcleared : Calm s (setFd p fd none s) := calm_setFd_none
  exact (hcleared.trans calm_setCount).trans hput

theorem pipeOpen_safe (hs : Refs C L s) (hb : Balanced C s) (hp : Caller C s p)
    (hkind : (s.vnode v).kind = .NAMED_PIPE) :
    Safe (fun r => Balanced C r.2 ∧ ¬ (r.2.fproc p).onFile)
      (pipeOpen C p fd v bits nonblock callnr s) := by
  unfold pipeOpen
  generalize (if bits.w = true then R_BIT else W_BIT) = other
  split
  · exact ⟨hb, hp.not_onFile⟩
  · split
    · split
      · exact ⟨hb, hp.not_onFile⟩
      · refine ⟨suspend_balanced hb hs.waits hp (by decide) fun h => ?_, ?_⟩
        · rcases h with h | h <;> cases h
        · refine Vfs.not_onFile (.inr ?_)
          unfold suspend
          dsimp only
          rw [if_pos rfl, fproc_setProc, Function.update_self]
    · split
      · refine Safe.map (P := fun s₂ => Balanced C s₂ ∧ ¬ (s₂.fproc p).onFile) ?_
          fun s₂ _ h₂ => h₂
        refine (release_safe ⟨by decide, by decide⟩ hb hs.waits hkind).bind fun s₁ hfirst hb₁ => ?_
        have hr₁ := release_roused (by decide) hs.waits hfirst
        have hw₁ := hs.waits.roused hr₁
        have hkind₁ : (s₁.vnode v).kind = .NAMED_PIPE := by
          rw [hr₁.vnode]
          exact hkind
        refine (release_safe ⟨by decide, by decide⟩ hb₁ hw₁ hkind₁).mono fun s₂ hsecond hb₂ => ?_
        have hr₂ := release_roused (by decide) hw₁ hsecond
        exact ⟨hb₂, ((hp.roused hr₁).roused hr₂).not_onFile⟩
      · exact ⟨hb, hp.not_onFile⟩

theorem shareFilp_safe (hb : Balanced C s) (hp : ¬ (s.fproc p).onFile) :
    Safe (Balanced C) (shareFilp C p fd f v bits nonblock s) := by
  unfold shareFilp
  dsimp only
  have hzero : Calm s (setCount f 0 s) := calm_setCount
  split
  · exact hb.calm (hzero.trans calm_setCount)
  · next g hfind =>
    refine putVnode_safe.mono fun s₁ _ hput => hb.calm ?_
    have hshared : Calm (setCount f 0 s) (setFilp (setCount f 0 s) g { (setCount f 0 s).filp g with
        filpCount := ((setCount f 0 s).filp g).filpCount + 1, nonblock := nonblock }) :=
      calm_setFilp rfl
    exact ((hzero.trans hshared).trans (calm_setFd hp)).trans hput

theorem openClaimed_safe (hs : Refs C L s) (hb : Balanced C s) (hp : Caller C s p)
    (hc : Claimed s p fd f v) (hkind : (s.vnode v).kind = .NAMED_PIPE) :
    Safe (Balanced C) (openClaimed C p fd f v bits nonblock callnr s) := by
  unfold openClaimed
  dsimp only
  generalize hcleared : (if (s.vnode v).vRefCount = 1 then Vfs.setVnode s v
    { s.vnode v with vPipeRdPos := 0, vPipeWrPos := 0, vSize := 0 } else s) = s₀
  have hs₀ : Refs C L s₀ ∧ Balanced C s₀ ∧ Caller C s₀ p ∧ Claimed s₀ p fd f v ∧
      (s₀.vnode v).kind = .NAMED_PIPE := by
    split at hcleared
    · rw [← hcleared]
      refine ⟨hs.setVnode rfl, hb.calm (calm_setVnode rfl), ⟨hp.slot, hp.used, hp.runs⟩,
        ⟨hc.fd_eq, hc.count, hc.vno⟩, ?_⟩
      rw [vnode_setVnode, if_pos rfl]
      exact hkind
    · rw [← hcleared]
      exact ⟨hs, hb, hp, hc, hkind⟩
  obtain ⟨hs₀, hb₀, hp₀, hc₀, hkind₀⟩ := hs₀
  refine (pipeOpen_safe hs₀ hb₀ hp₀ hkind₀).bind fun rs hopen hrs => ?_
  obtain ⟨r, s₁⟩ := rs
  obtain ⟨hb₁, hp₁⟩ := hrs
  dsimp only
  have hshare : Safe (Balanced C) (if r = some (.error ENXIO) then .ok s₁ else
      shareFilp C p fd f v bits nonblock s₁) := by
    split
    · exact hb₁
    · exact shareFilp_safe hb₁ hp₁
  refine hshare.bind fun s₂ _ hb₂ => ?_
  split
  · exact hb₂
  · exact hb₂.calm calm_reply
  · exact (unclaim_safe hb₂).map fun s₃ _ hb₃ => hb₃.calm calm_reply

theorem claim_found_calm (hs : Refs C L s) (hp : Caller C s p)
    (hget : getFd C s (s.fproc p) 0 = .ok (fd, f)) :
    Calm s (claim p fd f v bits nonblock (eatPath v kind vSize s)) := by
  obtain ⟨-, -, -, -, hcount⟩ := getFd_ok hget
  obtain ⟨hproc, -⟩ := eatPath_frame (C := C) (s := s) v kind vSize
  refine (calm_eatPath hs).trans (calm_claim ?_ fun q fd' g hg => ?_)
  · rw [hproc]
    exact hp.not_onFile
  · rw [hproc] at hg
    exact hs.toLinked.fd_ne hs.filpOwes hcount hg

theorem openFifo_found_safe (hs : Refs C L s) (hb : Balanced C s) (hp : Caller C s p)
    (hfound : Found s v .NAMED_PIPE) :
    Safe (Balanced C) (openFifo C p [] v vSize bits nonblock callnr s) := by
  unfold openFifo
  split
  · exact hb.calm calm_reply
  · next fd f hget =>
    obtain ⟨hrefs, hcaller⟩ := claim_found_refs hs hp hget
    refine openClaimed_safe hrefs (hb.calm (claim_found_calm hs hp hget)) hcaller claim_claimed ?_
    exact eatPath_kind hfound

theorem openFifo_safe {lost : List Lookup} (hs : Refs C L s) (hb : Balanced C s)
    (hp : Caller C s p) (hfound : Found (strayed lost s) v .NAMED_PIPE) :
    Safe (Balanced C) (openFifo C p lost v vSize bits nonblock callnr s) := by
  generalize hopen : openFifo C p lost v vSize bits nonblock callnr s = x
  rcases openFifo_strayed hopen with ⟨r, rfl⟩ | rfl
  · exact hb.calm calm_reply
  · obtain ⟨L', hs'⟩ := strayed_refs lost hs
    exact openFifo_found_safe hs' (hb.calm (calm_strayed lost hs)) (strayed_caller lost hp) hfound

theorem cloneOpcl_safe {w : ℕ} (hs : Refs C L s) (hb : Balanced C s) (hc : Claimed s p fd f v)
    (hkind : (s.vnode v).kind = .CHAR_SPECIAL) (hw : w = v ∨ (s.vnode w).vRefCount = 0) :
    Safe (Balanced C) (cloneOpcl f v w s) := by
  generalize hclone : cloneOpcl f v w s = x
  cases x with
  | ok s' => exact hb.calm (calm_cloneOpcl hs hc hkind hw hclone)
  | error e =>
    have hput : Safe (fun s' => Calm s s') (putVnode s v) := putVnode_safe
    unfold cloneOpcl at hclone
    generalize putVnode s v = y at hput hclone
    cases y with
    | ok s₁ => cases hclone
    | error e' =>
      cases hclone
      exact hput

theorem openOther_found_safe {result : Except Errno Opened} (hs : Refs C L s) (hb : Balanced C s)
    (hp : Caller C s p) (hkind : kind ≠ .NAMED_PIPE) (hfound : Found s v kind)
    (hclones : Clones s v kind result) :
    Safe (Balanced C) (openOther C p [] v vSize kind bits nonblock waits callnr result s) := by
  unfold openOther
  split
  · exact hb.calm calm_reply
  · next fd f hget =>
    have hclaim : Refs C L (claim p fd f v bits nonblock (eatPath v kind vSize s)) ∧
        Caller C (claim p fd f v bits nonblock (eatPath v kind vSize s)) p :=
      claim_found_refs hs hp hget
    obtain ⟨hrefs, hcaller⟩ := hclaim
    have hb₁ : Balanced C (claim p fd f v bits nonblock (eatPath v kind vSize s)) :=
      hb.calm (claim_found_calm hs hp hget)
    have hc : Claimed (claim p fd f v bits nonblock (eatPath v kind vSize s)) p fd f v :=
      claim_claimed
    have hkind₁ : ((eatPath v kind vSize s).vnode v).kind = kind := eatPath_kind hfound
    dsimp only
    split
    · have hwait : ∀ g, ((claim p fd f v bits nonblock (eatPath v kind vSize s)).fproc p).fpFilp fd =
          some g → kindOf (claim p fd f v bits nonblock (eatPath v kind vSize s)) g ≠ .NAMED_PIPE := by
        intro g hg
        rw [hc.fd_eq] at hg
        cases hg
        rw [kindOf, hc.vno]
        exact fun h => hkind (hkind₁.symm.trans h)
      exact suspend_balanced hb₁ hrefs.waits hcaller (by decide) fun _ => hwait
    · split
      · exact hb₁.calm calm_reply
      · next w =>
        have hw : w = v ∨ ((eatPath v kind vSize s).vnode w).vRefCount = 0 := by
          by_cases hwv : w = v
          · exact .inl hwv
          · rw [eatPath_free hclones.2, if_neg hwv]
            exact .inr rfl
        exact (cloneOpcl_safe hrefs hb₁ hc (hkind₁.trans hclones.1) hw).map fun _ _ hb₂ =>
          hb₂.calm calm_reply
      · exact (cloneOpcl_safe hrefs hb₁ hc (hkind₁.trans hclones.1) (.inl rfl)).map fun _ _ hb₂ =>
          hb₂.calm calm_reply
      · exact (unclaim_safe hb₁).map fun s₂ _ hb₂ => hb₂.calm calm_reply

theorem openOther_safe {lost : List Lookup} {result : Except Errno Opened} (hs : Refs C L s)
    (hb : Balanced C s) (hp : Caller C s p) (hkind : kind ≠ .NAMED_PIPE)
    (hfound : Found (strayed lost s) v kind) (hclones : Clones (strayed lost s) v kind result) :
    Safe (Balanced C) (openOther C p lost v vSize kind bits nonblock waits callnr result s) := by
  generalize hopen : openOther C p lost v vSize kind bits nonblock waits callnr result s = x
  rcases openOther_strayed hopen with ⟨r, rfl⟩ | rfl
  · exact hb.calm calm_reply
  · obtain ⟨L', hs'⟩ := strayed_refs lost hs
    exact openOther_found_safe hs' (hb.calm (calm_strayed lost hs)) (strayed_caller lost hp) hkind
      hfound hclones

theorem openMissing_balanced {lost : List Lookup} {r : Errno} (hs : Refs C L s)
    (hb : Balanced C s) : Balanced C (openMissing C p lost r s) := by
  unfold openMissing
  split
  · exact hb.calm calm_reply
  · exact hb.calm ((calm_strayed lost hs).trans calm_reply)

theorem calm_doPipe {created : Except Errno Unit} (hs : Refs C L s) (hp : Caller C s p)
    (hv : (s.vnode v).vRefCount = 0) : Calm s (doPipe C p v created s) := by
  unfold doPipe
  split
  · exact calm_reply
  · next fd₀ f₀ hget₀ =>
    obtain ⟨hfd₀, -, hnone₀, hf₀, hcount₀⟩ := getFd_ok hget₀
    dsimp only
    split
    · exact calm_reply
    · next fd₁ f₁ hget₁ =>
      obtain ⟨-, -, -, -, hcount₁⟩ := getFd_ok hget₁
      split
      · exact calm_reply
      · have hfirst : Calm s (claim p fd₀ f₀ v R_BIT false s) :=
          calm_claim hp.not_onFile fun q fd' g hg => hs.toLinked.fd_ne hs.filpOwes hcount₀ hg
        have hp₁ : ¬ ((claim p fd₀ f₀ v R_BIT false s).fproc p).onFile := fun h =>
          hp.not_onFile ((hfirst.block p).onFile_iff.mp h)
        have hlinked : Linked C (claim p fd₀ f₀ v R_BIT false s) :=
          claim_linked hs.toLinked hp.slot hp.used hfd₀ hf₀
        have howes : ∀ g, filpOwes C (claim p fd₀ f₀ v R_BIT false s) g = 0 := fun g =>
          (filpOwes_claim hp.slot hfd₀ hnone₀ hcount₀ g).trans (hs.filpOwes g)
        have hsecond : Calm (claim p fd₀ f₀ v R_BIT false s)
            (claim p fd₁ f₁ v W_BIT false (claim p fd₀ f₀ v R_BIT false s)) :=
          calm_claim hp₁ fun q fd' g hg => hlinked.fd_ne howes hcount₁ hg
        have hboth := hfirst.trans hsecond
        refine (hboth.trans ?_).trans calm_reply
        -- who waits for a file waits for one that was in use before
        refine ⟨rfl, rfl, fun q => .refl _, fun q g hq hg => ⟨hg, ?_⟩⟩
        have hq' := (hboth.block q).onFile_iff.mp hq
        have hfd := (hboth.block q).blockFd
        obtain ⟨hg₀, hkind⟩ := hboth.file q g hq' (hfd ▸ hg)
        have hqp : q ≠ p := by
          rintro rfl
          exact hp.not_onFile hq'
        have hne₀ := hs.toLinked.fd_ne hs.filpOwes hcount₀ hg₀
        have hg₁ : ((claim p fd₀ f₀ v R_BIT false s).fproc q).fpFilp (s.fproc q).fpBlockFd =
            some g := by
          rw [fproc_claim, if_neg hqp]
          exact hg₀
        have hne₁ := hlinked.fd_ne howes hcount₁ hg₁
        have hvno : (s.filp g).filpVno ≠ v := by
          intro h
          have hused := hs.filp_vnode (hs.fd_used hg₀)
          rw [h] at hused
          exact hused hv
        have hfilp : (claim p fd₁ f₁ v W_BIT false (claim p fd₀ f₀ v R_BIT false s)).filp g =
            s.filp g := by
          refine (Function.update_of_ne hne₁ _ _).trans ?_
          exact Function.update_of_ne hne₀ _ _
        rw [kindOf, kindOf]
        dsimp only [setVnode]
        refine congrArg Vnode.kind ?_
        refine Function.update_of_ne ?_ _ _
        exact fun h => hvno ((congrArg Filp.filpVno hfilp).symm.trans h)

end Open

end Vfs
