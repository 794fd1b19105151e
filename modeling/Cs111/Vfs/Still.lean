import Cs111.Vfs.SuspRuns

namespace Vfs
open Tally TransitionSystem Errno

structure Vnode.SameData (vp vp' : Vnode) : Prop where
  kind : vp'.kind = vp.kind
  vSize : vp'.vSize = vp.vSize
  vPipeRdPos : vp'.vPipeRdPos = vp.vPipeRdPos
  vPipeWrPos : vp'.vPipeWrPos = vp.vPipeWrPos
  vData : vp'.vData = vp.vData

theorem Vnode.SameData.refl (vp : Vnode) : SameData vp vp := ⟨rfl, rfl, rfl, rfl, rfl⟩

theorem Vnode.SameData.trans {vp vp' vp'' : Vnode} (h : SameData vp vp') (h' : SameData vp' vp'') :
    SameData vp vp'' :=
  ⟨h'.kind.trans h.kind, h'.vSize.trans h.vSize, h'.vPipeRdPos.trans h.vPipeRdPos,
    h'.vPipeWrPos.trans h.vPipeWrPos, h'.vData.trans h.vData⟩

structure Fproc.Kept (rp rp' : Fproc) : Prop where
  free : rp'.free = false → rp.free = false
  cum : rp'.fpCumIoPartial = rp.fpCumIoPartial
  buffer : rp'.fpBuffer = rp.fpBuffer
  nbytes : rp'.fpNbytes = rp.fpNbytes
  pipe : rp.fpBlockedOn = .PIPE →
    rp'.fpBlockedOn = .PIPE ∧ rp'.fpBlockCallnr = rp.fpBlockCallnr
  back : rp'.fpBlockedOn = .PIPE → rp.fpBlockedOn = .PIPE

theorem Fproc.Kept.refl (rp : Fproc) : Kept rp rp :=
  ⟨id, rfl, rfl, rfl, fun h => ⟨h, rfl⟩, id⟩

theorem Fproc.Kept.trans {rp rp' rp'' : Fproc} (h : Kept rp rp') (h' : Kept rp' rp'') :
    Kept rp rp'' where
  free hf := h.free (h'.free hf)
  cum := h'.cum.trans h.cum
  buffer := h'.buffer.trans h.buffer
  nbytes := h'.nbytes.trans h.nbytes
  pipe hb := by
    obtain ⟨hb', hnr⟩ := h.pipe hb
    obtain ⟨hb'', hnr'⟩ := h'.pipe hb'
    exact ⟨hb'', hnr'.trans hnr⟩
  back hb := h.back (h'.back hb)

theorem Fproc.Roused.kept {rp rp' : Fproc} (h : rp.Roused rp') : rp.Kept rp' := by
  cases h with
  | same => exact .refl rp
  | unblocked _ hpipe => exact ⟨id, rfl, rfl, rfl, fun h => absurd h hpipe, fun h => by cases h⟩
  | revived => exact ⟨id, rfl, rfl, rfl, fun h => ⟨h, rfl⟩, id⟩

structure Still (s s' : VfsState) : Prop where
  data : ∀ v, (s.vnode v).SameData (s'.vnode v)
  unused : ∀ v, (s.vnode v).vRefCount = 0 → (s'.vnode v).vRefCount = 0
  proc : ∀ p, (s.fproc p).Kept (s'.fproc p)

structure Idle (v : ℕ) (s s' : VfsState) : Prop where
  data : ∀ w, (s.vnode w).vRefCount ≠ 0 → (s.vnode w).SameData (s'.vnode w)
  unused : ∀ w, w ≠ v → (s.vnode w).vRefCount = 0 → (s'.vnode w).vRefCount = 0
  proc : ∀ p, (s.fproc p).Kept (s'.fproc p)

structure Fresh (s s' : VfsState) : Prop where
  data : ∀ w, (s.vnode w).vRefCount ≠ 0 → (s.vnode w).SameData (s'.vnode w)
  fresh : ∀ w, (s.vnode w).vRefCount = 0 → (s'.vnode w).vRefCount = 0 ∨
    (s'.vnode w).kind ≠ .NAMED_PIPE ∨ ((s'.vnode w).vSize = 0 ∧
      (s'.vnode w).vPipeRdPos = 0 ∧ (s'.vnode w).vPipeWrPos = 0)
  proc : ∀ p, (s.fproc p).Kept (s'.fproc p)

structure Taken (s s' : VfsState) : Prop where
  data : ∀ w, (s.vnode w).vRefCount ≠ 0 →
    (s.vnode w).SameData (s'.vnode w) ∧ (s'.vnode w).vRefCount ≠ 0
  fresh : ∀ w, (s.vnode w).vRefCount = 0 → (s'.vnode w).vRefCount = 0 ∨
    (s'.vnode w).kind ≠ .NAMED_PIPE
  proc : s'.fproc = s.fproc

section Still
variable {C : VfsConfig} {L : ℕ → ℕ} {s s' s'' : VfsState} {p fd f v n : ℕ}

theorem Still.refl (s : VfsState) : Still s s := ⟨fun _ => .refl _, fun _ h => h, fun _ => .refl _⟩

theorem Still.trans (h : Still s s') (h' : Still s' s'') : Still s s'' :=
  ⟨fun v => (h.data v).trans (h'.data v), fun v hv => h'.unused v (h.unused v hv),
    fun p => (h.proc p).trans (h'.proc p)⟩

theorem Still.idle (h : Still s s') (v : ℕ) : Idle v s s' :=
  ⟨fun w _ => h.data w, fun w _ => h.unused w, h.proc⟩

theorem Idle.still (h : Idle v s s') (h' : Still s' s'') : Idle v s s'' :=
  ⟨fun w hw => (h.data w hw).trans (h'.data w), fun w hw h0 => h'.unused w (h.unused w hw h0),
    fun p => (h.proc p).trans (h'.proc p)⟩

theorem Idle.fresh (h : Idle v s s') (hv : (s.vnode v).vRefCount = 0 → (s'.vnode v).vRefCount = 0 ∨
    (s'.vnode v).kind ≠ .NAMED_PIPE ∨ ((s'.vnode v).vSize = 0 ∧
      (s'.vnode v).vPipeRdPos = 0 ∧ (s'.vnode v).vPipeWrPos = 0)) : Fresh s s' where
  data := h.data
  fresh w h0 := by
    by_cases hw : w = v
    · rw [hw] at h0 ⊢
      exact hv h0
    · exact .inl (h.unused w hw h0)
  proc := h.proc

theorem Still.fresh (h : Still s s') : Fresh s s' :=
  (h.idle 0).fresh fun h0 => .inl (h.unused 0 h0)

theorem Taken.trans (h : Taken s s') (h' : Taken s' s'') : Taken s s'' where
  data w hw := by
    obtain ⟨hdata, hused⟩ := h.data w hw
    exact ⟨hdata.trans (h'.data w hused).1, (h'.data w hused).2⟩
  fresh w h0 := by
    by_cases hw : (s'.vnode w).vRefCount = 0
    · exact h'.fresh w hw
    · have hkind := (h.fresh w h0).resolve_left hw
      exact .inr ((h'.data w hw).1.kind ▸ hkind)
  proc := h'.proc.trans h.proc

theorem Taken.then_fresh (h : Taken s s') (h' : Fresh s' s'') : Fresh s s'' where
  data w hw := by
    obtain ⟨hdata, hused⟩ := h.data w hw
    exact hdata.trans (h'.data w hused)
  fresh w h0 := by
    by_cases hw : (s'.vnode w).vRefCount = 0
    · exact h'.fresh w hw
    · have hkind := (h.fresh w h0).resolve_left hw
      exact .inr (.inl ((h'.data w hw).kind ▸ hkind))
  proc p := by
    rw [← h.proc]
    exact h'.proc p

theorem Roused.still (h : Roused s s') : Still s s' := by
  refine ⟨fun v => ?_, fun v hv => ?_, fun p => (h.fproc p).kept⟩
  · rw [h.vnode]
    exact .refl _
  · rw [h.vnode]
    exact hv

theorem still_files (hproc : s'.fproc = s.fproc) (hvnode : s'.vnode = s.vnode) : Still s s' := by
  refine ⟨fun v => ?_, fun v hv => ?_, fun p => ?_⟩
  · rw [hvnode]
    exact .refl _
  · rw [hvnode]
    exact hv
  · rw [hproc]
    exact .refl _

theorem still_reply {r : Except Errno ℕ} : Still s (reply s p r) := still_files rfl rfl

theorem still_setFilp {x : Filp} : Still s (setFilp s f x) := still_files rfl rfl

theorem still_setVnode {x : Vnode} (h : (s.vnode v).SameData x)
    (hunused : (s.vnode v).vRefCount = 0 → x.vRefCount = 0) : Still s (setVnode s v x) := by
  refine ⟨fun w => ?_, fun w hw => ?_, fun p => .refl _⟩
  · rw [vnode_setVnode]
    split
    · next hwv =>
      rw [hwv]
      exact h
    · exact .refl _
  · rw [vnode_setVnode]
    split
    · next hwv => exact hunused (hwv ▸ hw)
    · exact hw

theorem still_putVnode (h : putVnode s v = .ok s') : Still s s' := by
  obtain ⟨hpos, rfl⟩ := putVnode_ok h
  exact still_setVnode ⟨rfl, rfl, rfl, rfl, rfl⟩ fun hv => absurd hv hpos

theorem still_dupVnode (hv : (s.vnode v).vRefCount ≠ 0) : Still s (dupVnode s v) :=
  still_setVnode ⟨rfl, rfl, rfl, rfl, rfl⟩ fun h => absurd h hv

theorem still_setProc {x : Fproc} (h : (s.fproc p).Kept x) : Still s (setProc s p x) := by
  refine ⟨fun v => .refl _, fun v hv => hv, fun q => ?_⟩
  rw [fproc_setProc, Function.update_apply]
  split
  · next hq =>
    rw [hq]
    exact h
  · exact .refl _

theorem wake_still {p : ℕ} (hpipe : (s.fproc p).fpBlockedOn ≠ .PIPE) : Still s (wake p s) := by
  have hcount : Still s { s with reviving := s.reviving - 1 } := still_files rfl rfl
  exact hcount.trans (still_setProc ⟨id, rfl, rfl, rfl, fun h => absurd h hpipe,
    fun h => by cases h⟩)

theorem still_setFd {x : Option ℕ} : Still s (setFd p fd x s) :=
  still_setProc ⟨id, rfl, rfl, rfl, fun h => ⟨h, rfl⟩, id⟩

theorem still_setCount : Still s (setCount f n s) := still_setFilp

theorem still_suspend {why : BlockedOn} {callnr : CallNr} (hp : Caller C s p) (hwhy : why ≠ .PIPE) :
    Still s (suspend p why fd callnr s) := by
  have hkept : (s.fproc p).Kept { s.fproc p with
      fpBlockedOn := why, fpBlockFd := fd, fpBlockCallnr := callnr } :=
    ⟨id, rfl, rfl, rfl, fun h => absurd (hp.runs.symm.trans h) (by decide), fun h => absurd h hwhy⟩
  unfold suspend
  dsimp only
  split
  · have hcount : Still s { s with suspCount := s.suspCount + 1 } := still_files rfl rfl
    exact hcount.trans (still_setProc hkept)
  · exact still_setProc hkept

end Still

section Files
variable {C : VfsConfig} {L : ℕ → ℕ} {s s₀ s' : VfsState} {p fd fd2 f v vSize start : ℕ}
  {kind : VKind} {mode bits : FilpMode} {nonblock waits unlocks : Bool} {callnr : CallNr} {woken : Woken}

theorem closeFilp_still (hw : Waits C s) (h : closeFilp C f woken s = .ok s') : Still s s' := by
  obtain ⟨s₁, hroused, hdrop⟩ := closeFilp_cases hw h
  have hcount : Still s (setCount f ((s₁.filp f).filpCount - 1) s₁) :=
    hroused.still.trans still_setCount
  split at hdrop
  · exact hcount.trans (still_putVnode hdrop)
  · cases hdrop
    exact hcount

theorem closeFd_still (hs : Refs C L s) (h : closeFd C p fd woken unlocks s = .ok s') :
    Still s s' := by
  unfold closeFd at h
  split at h
  · cases h
    exact .refl _
  · next f hf =>
    obtain ⟨s₁, hclose, hrest⟩ := ok_of_bind h
    have hdropped := closeFilp_dropped hs.toLinked hs.waits hs.vnodeOwes (hs.fd_used hf) hclose
    have hcleared : Still s (setFd p fd none s₁) :=
      (closeFilp_still hs.waits hclose).trans still_setFd
    split at hrest
    · exact hcleared.trans (lockRevive_roused hdropped.waits.setFd hrest).still
    · cases hrest
      exact hcleared

theorem closeAll_still {a : ExitArgs} (fds : List ℕ) (hs : Refs C L s)
    (h : closeAll C p a fds s = .ok s') : Still s s' := by
  induction fds generalizing s with
  | nil =>
    cases h
    exact .refl _
  | cons fd fds ih =>
    obtain ⟨s₁, hclose, hrest⟩ := ok_of_bind h
    exact (closeFd_still hs hclose).trans (ih (closeFd_closed hs hclose).toRefs hrest)

theorem doClose_still (hs : Refs C L s) (h : doClose C p fd woken unlocks s = .ok s') :
    Still s s' := by
  obtain ⟨s₁, hclose, rfl⟩ := ok_of_map h
  exact (closeFd_still hs hclose).trans still_reply

theorem still_attach : Still s (attach p fd f s) := by
  have hcount : Still s (setCount f ((s.filp f).filpCount + 1) s) := still_setCount
  exact hcount.trans still_setFd

theorem still_doDup : Still s (doDup C p fd start s) := by
  unfold doDup
  split
  · exact still_reply
  · split
    · exact still_reply
    · exact still_attach.trans still_reply

theorem doDup2_still (hs : Refs C L s) (h : doDup2 C p fd fd2 woken unlocks s = .ok s') :
    Still s s' := by
  unfold doDup2 at h
  split at h
  · cases h
    exact still_reply
  · split at h
    · cases h
      exact still_reply
    · split at h
      · cases h
        exact still_reply
      · obtain ⟨s₁, hclose, rfl⟩ := ok_of_map h
        exact ((closeFd_still hs hclose).trans still_attach).trans still_reply

theorem unclaim_still (h : unclaim p fd f v s = .ok s') : Still s s' := by
  have hcleared : Still s (setFd p fd none s) := still_setFd
  exact (hcleared.trans still_setCount).trans (still_putVnode h)

theorem still_claim : Still s (claim p fd f v mode nonblock s) := by
  have hfilp : Still s (setFilp s f ⟨mode, nonblock, 1, v⟩) := still_setFilp
  exact hfilp.trans still_setFd

theorem failOpen_still {e : Errno} (h : failOpen p fd e s = .ok s') : Still s s' := by
  unfold failOpen at h
  split at h
  · cases h
  · next f hf =>
    dsimp only at h
    split at h
    · cases h
    · obtain ⟨s₁, hput, rfl⟩ := ok_of_map h
      have hcleared : Still s (setFd p fd none s) := still_setFd
      exact ((hcleared.trans still_setCount).trans (still_putVnode hput)).trans still_reply

theorem revive_still {r : Except Errno ℕ} (h : revive p r s = .ok s') : Still s s' := by
  have hunblock : (s.fproc p).fpBlockedOn ≠ .PIPE → Still s (unblock p s) := fun hpipe =>
    still_setProc ⟨id, rfl, rfl, rfl, fun h => absurd h hpipe, fun h => by cases h⟩
  cases revive_cases h with
  | idle => exact .refl _
  | revived =>
    have hcount : Still s { s with reviving := s.reviving + 1 } := still_files rfl rfl
    exact hcount.trans (still_setProc ⟨id, rfl, rfl, rfl, fun h => ⟨h, rfl⟩, id⟩)
  | answered res _ _ _ hpipe => exact (hunblock hpipe).trans still_reply
  | failed e _ _ _ hdopen _ hfail =>
    exact (hunblock (by rw [hdopen]; decide)).trans (failOpen_still hfail)

theorem pipeOpen_still {r : Option (Except Errno Unit)} (hw : Waits C s) (hp : Caller C s p)
    (h : pipeOpen C p fd v bits nonblock callnr s = .ok (r, s')) : Still s s' := by
  unfold pipeOpen at h
  generalize (if bits.w = true then R_BIT else W_BIT) = other at h
  split at h
  · cases h
    exact .refl _
  · split at h
    · split at h
      · cases h
        exact .refl _
      · cases h
        exact still_suspend hp (by decide)
    · split at h
      · obtain ⟨s₂, hboth, hpair⟩ := ok_of_map h
        cases hpair
        obtain ⟨s₁, hfirst, hsecond⟩ := ok_of_bind hboth
        have hr₁ := release_roused (by decide) hw hfirst
        exact hr₁.still.trans (release_roused (by decide) (hw.roused hr₁) hsecond).still
      · cases h
        exact .refl _

theorem shareFilp_still (h : shareFilp C p fd f v bits nonblock s = .ok s') : Still s s' := by
  unfold shareFilp at h
  dsimp only at h
  have hzero : Still s (setCount f 0 s) := still_setCount
  split at h
  · cases h
    exact hzero.trans still_setCount
  · exact ((hzero.trans still_setFilp).trans still_setFd).trans (still_putVnode h)

theorem lockOp_still {outcome : LockOutcome} (hw : Waits C s) (hp : Caller C s p)
    (h : lockOp C p fd outcome s = .ok s') : Still s s' := by
  unfold lockOp at h
  cases outcome with
  | waits =>
    cases h
    exact still_suspend hp (by decide)
  | done r unlocks =>
    obtain ⟨s₁, hlocks, rfl⟩ := ok_of_map h
    split at hlocks
    · exact (lockRevive_roused hw hlocks).still.trans still_reply
    · cases hlocks
      exact still_reply

theorem putDir_still {dir : Option ℕ} (h : putDir dir s = .ok s') : Still s s' := by
  unfold putDir at h
  split at h
  · cases h
    exact .refl _
  · exact still_putVnode h

theorem selectReply1_still {major : ℕ} {closing : Woken} (hw : Waits C s)
    (h : selectReply1 C major woken closing s = .ok s') : Still s s' := by
  unfold selectReply1 at h
  split at h
  · cases h
    exact .refl _
  · next f hsel =>
    have hw₀ : Waits C { s with dmapSelFilp := Function.update s.dmapSelFilp major none } :=
      hw.congr rfl rfl
    have hstart : Still s { s with dmapSelFilp := Function.update s.dmapSelFilp major none } :=
      still_files rfl rfl
    obtain ⟨s₁, hwoken, hrest⟩ := ok_of_bind h
    have hroused := selectCallback_roused _ hw₀ hwoken
    have hs₁ := hstart.trans hroused.still
    split at hrest
    · cases hrest
      exact hs₁.trans still_setCount
    · split at hrest
      · cases hrest
      · exact hs₁.trans (closeFilp_still (hw₀.roused hroused) hrest)

theorem eatPath_idle : Idle v s (eatPath v kind vSize s) := by
  have hproc : (eatPath v kind vSize s).fproc = s.fproc := by
    unfold eatPath
    split <;> rfl
  have hother : ∀ w, w ≠ v → (eatPath v kind vSize s).vnode w = s.vnode w := by
    intro w hw
    unfold eatPath
    split
    · rw [vnode_setVnode, if_neg hw]
    · rw [dupVnode, vnode_setVnode, if_neg hw]
  refine ⟨fun w hw => ?_, fun w hw h0 => ?_, fun p => ?_⟩
  · by_cases hwv : w = v
    · subst hwv
      unfold eatPath
      rw [if_neg hw]
      exact (still_dupVnode hw).data w
    · rw [hother w hwv]
      exact .refl _
  · rw [hother w hw]
    exact h0
  · rw [hproc]
    exact .refl _

theorem eatPath_refs_ne : ((eatPath v kind vSize s).vnode v).vRefCount = (s.vnode v).vRefCount + 1 := by
  unfold eatPath
  split
  · next hv =>
    rw [vnode_setVnode, if_pos rfl, hv]
  · rw [dupVnode, vnode_setVnode, if_pos rfl]

def PipesUsed (s : VfsState) (lost : List Lookup) : Prop :=
  ∀ found ∈ lost, found.kind = .NAMED_PIPE → (s.vnode found.v).vRefCount ≠ 0

theorem eatPath_taken (hused : kind = .NAMED_PIPE → (s.vnode v).vRefCount ≠ 0) :
    Taken s (eatPath v kind vSize s) := by
  have hidle : Idle v s (eatPath v kind vSize s) := eatPath_idle
  have hother : ∀ w, w ≠ v → (eatPath v kind vSize s).vnode w = s.vnode w := by
    intro w hw
    unfold eatPath
    split
    · rw [vnode_setVnode, if_neg hw]
    · rw [dupVnode, vnode_setVnode, if_neg hw]
  refine ⟨fun w hw => ⟨hidle.data w hw, ?_⟩, fun w h0 => ?_, ?_⟩
  · by_cases hwv : w = v
    · rw [hwv, eatPath_refs_ne]
      exact Nat.succ_ne_zero _
    · rw [hother w hwv]
      exact hw
  · by_cases hwv : w = v
    · right
      subst hwv
      rw [eatPath_kind (.inl h0)]
      exact fun h => hused h h0
    · exact .inl (hidle.unused w hwv h0)
  · unfold eatPath
    split <;> rfl

theorem strayed_taken (lost : List Lookup) (hused : PipesUsed s lost) : Taken s (strayed lost s) := by
  induction lost generalizing s with
  | nil => exact ⟨fun w hw => ⟨.refl _, hw⟩, fun w h0 => .inl h0, rfl⟩
  | cons found lost ih =>
    have hfirst : Taken s (eatPath found.v found.kind found.vSize s) :=
      eatPath_taken (hused found (List.mem_cons_self ..))
    refine hfirst.trans (ih fun later hlater hkind => ?_)
    exact (hfirst.data _ (hused later (List.mem_cons_of_mem _ hlater) hkind)).2

def cleared (v : ℕ) (s : VfsState) : VfsState :=
  if (s.vnode v).vRefCount = 1 then
    setVnode s v { s.vnode v with vPipeRdPos := 0, vPipeWrPos := 0, vSize := 0 } else s

theorem cleared_refs (hs : Refs C L s) (hp : Caller C s p) (hc : Claimed s p fd f v) :
    Refs C L (cleared v s) ∧ Caller C (cleared v s) p ∧ Claimed (cleared v s) p fd f v := by
  unfold cleared
  split
  · exact ⟨hs.setVnode rfl, ⟨hp.slot, hp.used, hp.runs⟩, ⟨hc.fd_eq, hc.count, hc.vno⟩⟩
  · exact ⟨hs, hp, hc⟩

theorem openClaimed_still (hs : Refs C L s) (hp : Caller C s p) (hc : Claimed s p fd f v)
    (h : openClaimed C p fd f v bits nonblock callnr s = .ok s') : Still (cleared v s) s' := by
  obtain ⟨hs₀, hp₀, -⟩ := cleared_refs hs hp hc
  unfold openClaimed at h
  dsimp only at h
  generalize hcleared : (if (s.vnode v).vRefCount = 1 then setVnode s v
    { s.vnode v with vPipeRdPos := 0, vPipeWrPos := 0, vSize := 0 } else s) = s₀ at h
  obtain rfl : cleared v s = s₀ := hcleared
  obtain ⟨⟨r, s₁⟩, hopen, hrest⟩ := ok_of_bind h
  have hopened := pipeOpen_still hs₀.waits hp₀ hopen
  obtain ⟨s₂, hshare, hend⟩ := ok_of_bind hrest
  have hshared : Still (cleared v s) s₂ := by
    split at hshare
    · cases hshare
      exact hopened
    · exact hopened.trans (shareFilp_still hshare)
  split at hend
  · cases hend
    exact hshared
  · cases hend
    exact hshared.trans still_reply
  · obtain ⟨s₃, hundo, rfl⟩ := ok_of_map hend
    exact (hshared.trans (unclaim_still hundo)).trans still_reply

theorem openFifo_found_fresh (hs : Refs C L s) (hp : Caller C s p)
    (h : openFifo C p [] v vSize bits nonblock callnr s = .ok s') : Fresh s s' := by
  unfold openFifo at h
  split at h
  · cases h
    exact still_reply.fresh
  · next fd f hget =>
    obtain ⟨hrefs, hcaller⟩ := claim_found_refs (C := C) hs hp hget
    have hstill : Still (cleared v (claim p fd f v bits nonblock (eatPath v .NAMED_PIPE vSize s))) s' :=
      openClaimed_still hrefs hcaller claim_claimed h
    have hfound : Idle v s (eatPath v .NAMED_PIPE vSize s) := eatPath_idle
    have hcount : ((claim p fd f v bits nonblock (eatPath v .NAMED_PIPE vSize s)).vnode v).vRefCount =
        (s.vnode v).vRefCount + 1 := eatPath_refs_ne
    by_cases hv : (s.vnode v).vRefCount = 0
    · have hone : ((claim p fd f v bits nonblock
          (eatPath v .NAMED_PIPE vSize s)).vnode v).vRefCount = 1 := by rw [hcount, hv]
      unfold cleared at hstill
      rw [if_pos hone] at hstill
      have hidle : Idle v s s' := by
        refine ⟨fun w hw => ?_, fun w hwv h0 => ?_, fun q => ?_⟩
        · have hwv : w ≠ v := by
            rintro rfl
            exact hw hv
          have hdata := hstill.data w
          rw [vnode_setVnode, if_neg hwv] at hdata
          exact (hfound.data w hw).trans hdata
        · refine hstill.unused w ?_
          rw [vnode_setVnode, if_neg hwv]
          exact hfound.unused w hwv h0
        · exact ((hfound.proc q).trans (still_claim.proc q)).trans (hstill.proc q)
      refine hidle.fresh fun _ => .inr (.inr ?_)
      have hdata := hstill.data v
      rw [vnode_setVnode, if_pos rfl] at hdata
      exact ⟨hdata.vSize, hdata.vPipeRdPos, hdata.vPipeWrPos⟩
    · have hmany : ((claim p fd f v bits nonblock
          (eatPath v .NAMED_PIPE vSize s)).vnode v).vRefCount ≠ 1 := by
        rw [hcount]
        omega
      unfold cleared at hstill
      rw [if_neg hmany] at hstill
      exact ((hfound.still still_claim).still hstill).fresh fun h => absurd h hv

theorem openFifo_fresh {lost : List Lookup} (hs : Refs C L s) (hp : Caller C s p)
    (hused : PipesUsed s lost)
    (h : openFifo C p lost v vSize bits nonblock callnr s = .ok s') : Fresh s s' := by
  rcases openFifo_strayed h with ⟨r, hfails⟩ | hagain
  · cases hfails
    exact still_reply.fresh
  · obtain ⟨L', hs'⟩ := strayed_refs lost hs
    exact (strayed_taken lost hused).then_fresh
      (openFifo_found_fresh hs' (strayed_caller lost hp) hagain)

theorem cloneOpcl_fresh {w : ℕ} (hidle : Idle v s₀ s) (hkind : (s.vnode v).kind = .CHAR_SPECIAL)
    (hw : (s₀.vnode w).vRefCount = 0) (h : cloneOpcl f v w s = .ok s') : Fresh s₀ s' := by
  obtain ⟨s₁, hput, rfl⟩ := ok_of_map h
  have hput₁ := hidle.still (still_putVnode hput)
  have hkind₁ : (s₁.vnode v).kind = .CHAR_SPECIAL := by rw [(putVnode_frame hput).2.2, hkind]
  have hvnode : ∀ {x : Vnode} {y : Filp} (u : ℕ), (setFilp (setVnode s₁ w x) f y).vnode u =
      if u = w then x else s₁.vnode u := fun u => Function.update_apply _ _ _ _
  refine ⟨fun u hu => ?_, fun u h0 => ?_, hput₁.proc⟩
  · have huw : u ≠ w := by
      rintro rfl
      exact hu hw
    rw [hvnode, if_neg huw]
    exact hput₁.data u hu
  · rw [hvnode]
    split
    · exact .inr (.inl fun h => by cases h)
    · by_cases huv : u = v
      · rw [huv, hkind₁]
        exact .inr (.inl (by decide))
      · exact .inl (hput₁.unused u huv h0)

theorem openOther_found_fresh {result : Except Errno Opened} (hs : Refs C L s) (hp : Caller C s p)
    (hnot : kind ≠ .NAMED_PIPE) (hfound : Found s v kind) (hclones : Clones s v kind result)
    (hfree : result ≠ .ok .overwritten)
    (h : openOther C p [] v vSize kind bits nonblock waits callnr result s = .ok s') : Fresh s s' := by
  unfold openOther at h
  split at h
  · cases h
    exact still_reply.fresh
  · next fd f hget =>
    have hclaim : Refs C L (claim p fd f v bits nonblock (eatPath v kind vSize s)) ∧
        Caller C (claim p fd f v bits nonblock (eatPath v kind vSize s)) p :=
      claim_found_refs hs hp hget
    have heat : Idle v s (eatPath v kind vSize s) := eatPath_idle
    have hkind : ((eatPath v kind vSize s).vnode v).kind = kind := eatPath_kind hfound
    have hstart : Still (eatPath v kind vSize s)
        (claim p fd f v bits nonblock (eatPath v kind vSize s)) := still_claim
    have hend : ∀ {s'}, Still (claim p fd f v bits nonblock (eatPath v kind vSize s)) s' →
        Fresh s s' := by
      intro s' hs'
      refine (heat.still (hstart.trans hs')).fresh fun _ => .inr (.inl ?_)
      rw [((hstart.trans hs').data v).kind, hkind]
      exact hnot
    dsimp only at h
    split at h
    · cases h
      exact hend (still_suspend hclaim.2 (by decide))
    · split at h
      · cases h
        exact hend still_reply
      · obtain ⟨s₁, hclone, rfl⟩ := ok_of_map h
        have hclone := cloneOpcl_fresh (heat.still hstart) (hkind.trans hclones.1) hclones.2 hclone
        exact ⟨hclone.data, hclone.fresh, hclone.proc⟩
      · exact absurd rfl hfree
      · obtain ⟨s₁, hundo, rfl⟩ := ok_of_map h
        exact hend ((unclaim_still hundo).trans still_reply)

theorem openOther_fresh {lost : List Lookup} {result : Except Errno Opened} (hs : Refs C L s)
    (hp : Caller C s p) (hused : PipesUsed s lost) (hnot : kind ≠ .NAMED_PIPE)
    (hfound : Found (strayed lost s) v kind) (hclones : Clones (strayed lost s) v kind result)
    (hfree : result ≠ .ok .overwritten)
    (h : openOther C p lost v vSize kind bits nonblock waits callnr result s = .ok s') :
    Fresh s s' := by
  rcases openOther_strayed h with ⟨r, hfails⟩ | hagain
  · cases hfails
    exact still_reply.fresh
  · obtain ⟨L', hs'⟩ := strayed_refs lost hs
    exact (strayed_taken lost hused).then_fresh
      (openOther_found_fresh hs' (strayed_caller lost hp) hnot hfound hclones hfree hagain)

theorem openMissing_fresh {lost : List Lookup} {r : Errno} (hused : PipesUsed s lost) :
    Fresh s (openMissing C p lost r s) := by
  unfold openMissing
  split
  · exact still_reply.fresh
  · exact (strayed_taken lost hused).then_fresh still_reply.fresh

theorem doPipe_fresh {created : Except Errno Unit} (hv : (s.vnode v).vRefCount = 0) :
    Fresh s (doPipe C p v created s) := by
  unfold doPipe
  split
  · exact still_reply.fresh
  · next fd₀ f₀ hget₀ =>
    dsimp only
    split
    · exact still_reply.fresh
    · next fd₁ f₁ hget₁ =>
      split
      · exact still_reply.fresh
      · have hclaims : Still s (claim p fd₁ f₁ v W_BIT false (claim p fd₀ f₀ v R_BIT false s)) := by
          have hfirst : Still s (claim p fd₀ f₀ v R_BIT false s) := still_claim
          exact hfirst.trans still_claim
        have hvnode : ∀ {s₁ : VfsState} {x : Vnode} {r : Except Errno ℕ} (w : ℕ),
            (reply (setVnode s₁ v x) p r).vnode w = if w = v then x else s₁.vnode w :=
          fun {s₁ x r} w => vnode_setVnode (s := s₁) (x := x) w
        refine ⟨fun w hw => ?_, fun w h0 => ?_, fun q => hclaims.proc q⟩
        · have hwv : w ≠ v := by
            rintro rfl
            exact hw hv
          rw [hvnode, if_neg hwv]
          exact hclaims.data w
        · rw [hvnode]
          split
          · exact .inr (.inr ⟨rfl, rfl, rfl⟩)
          · exact .inl (hclaims.unused w h0)

end Files

section Processes
variable {C : VfsConfig} {L : ℕ → ℕ} {s s' : VfsState} {p c : ℕ} {a : ExitArgs}

theorem Interrupted.kept (h : Interrupted p s s') {q : ℕ} (hq : q ≠ p) :
    (s.fproc q).Kept (s'.fproc q) := by
  rw [h.fproc, Function.update_of_ne hq]
  exact .refl _

theorem countFds_still (fds : List ℕ) : Still s (countFds c fds s) := by
  induction fds generalizing s with
  | nil => exact .refl _
  | cons fd fds ih =>
    unfold countFds
    split
    · exact ih
    · exact still_setCount.trans ih

theorem dupDir_still {dir : Option ℕ} (h : ∀ v, dir = some v → (s.vnode v).vRefCount ≠ 0) :
    Still s (dupDir dir s) := by
  unfold dupDir
  split
  · exact .refl _
  · next v => exact still_dupVnode (h v rfl)

theorem Refs.dir_used (hs : Refs C L s) (hp : p < C.NR_PROCS) {v : ℕ}
    (hv : (s.fproc p).fpRd = some v ∨ (s.fproc p).fpWd = some v) : (s.vnode v).vRefCount ≠ 0 := by
  rw [hs.vRefCount, vnodeRefs]
  rcases hv with hv | hv
  · have hpos : 0 < tally C.NR_PROCS (·.fpRd = some v) s.fproc := tally_pos hp hv
    omega
  · have hpos : 0 < tally C.NR_PROCS (·.fpWd = some v) s.fproc := tally_pos hp hv
    omega

theorem countFds_same (fds : List ℕ) :
    (countFds c fds s).fproc = s.fproc ∧ (countFds c fds s).vnode = s.vnode := by
  induction fds generalizing s with
  | nil => exact ⟨rfl, rfl⟩
  | cons fd fds ih =>
    unfold countFds
    split
    · exact ih
    · exact ih

theorem pmFork_still (hs : Refs C L s) (hp : p < C.NR_PROCS) :
    Still (setProc s c (s.fproc p)) (pmFork C p c s) := by
  have hcount := countFds_still (c := c) (s := setProc s c (s.fproc p)) (List.range C.OPEN_MAX)
  have hself : (setProc s c (s.fproc p)).fproc c = s.fproc p := Function.update_self _ _ _
  have hused : ∀ v, (s.fproc p).fpRd = some v ∨ (s.fproc p).fpWd = some v →
      ((countFds c (List.range C.OPEN_MAX) (setProc s c (s.fproc p))).vnode v).vRefCount ≠ 0 := by
    intro v hv
    rw [(countFds_same _).2]
    exact hs.dir_used hp hv
  have hproc : (countFds c (List.range C.OPEN_MAX) (setProc s c (s.fproc p))).fproc c =
      s.fproc p := by
    rw [(countFds_same _).1, hself]
  unfold pmFork
  dsimp only
  rw [hproc]
  refine (hcount.trans (dupDir_still fun v hv => hused v (.inl hv))).trans
    (dupDir_still fun v hv => ?_)
  unfold dupDir
  split
  · exact hused v (.inr hv)
  · rw [dupVnode, vnode_setVnode]
    split
    · exact Nat.succ_ne_zero _
    · exact hused v (.inr hv)

theorem freeProc_still (hs : Refs C L s) (h : freeProc C p a s = .ok s') :
    (∀ v, (s.vnode v).SameData (s'.vnode v)) ∧
      (∀ v, (s.vnode v).vRefCount = 0 → (s'.vnode v).vRefCount = 0) ∧
      (∀ q, q ≠ p → (s.fproc q).Kept (s'.fproc q)) ∧ (s'.fproc p).free = true := by
  have hs₀ := unpause_refs (p := p) (e := a.cancelled) hs
  obtain ⟨s₁, hclose, h⟩ := ok_of_bind h
  obtain ⟨s₂, horphans, h⟩ := ok_of_bind h
  obtain ⟨s₃, hselects, h⟩ := ok_of_bind h
  obtain ⟨s₄, hrd, h⟩ := ok_of_bind h
  obtain ⟨s₅, hwd, rfl⟩ := ok_of_map h
  have hs₁ := (closeAll_refs _ hs₀ hclose).1
  have hr₂ := unsuspend_roused hs₁.waits horphans
  have hr₃ := selectCallback_roused _ (hs₁.roused hr₂).waits hselects
  have hall : Still (unpause p a.cancelled s) s₅ :=
    ((((closeAll_still _ hs₀ hclose).trans hr₂.still).trans hr₃.still).trans
      (putDir_still hrd)).trans (putDir_still hwd)
  have hsignal : (unpause p a.cancelled s).vnode = s.vnode ∧
      ∀ q, q ≠ p → (s.fproc q).Kept ((unpause p a.cancelled s).fproc q) := by
    rcases unpause_cases (p := p) (e := a.cancelled) hs.waits with hsame | hends
    · rw [hsame.1]
      exact ⟨rfl, fun q _ => .refl _⟩
    · exact ⟨hends.vnode, fun q hq => hends.kept hq⟩
  refine ⟨fun v => ?_, fun v hv => ?_, fun q hq => ?_, ?_⟩
  · have hdata := hall.data v
    rw [hsignal.1] at hdata
    exact hdata
  · rw [← hsignal.1] at hv
    exact hall.unused v hv
  · rw [fproc_setProc, Function.update_of_ne hq]
    exact (hsignal.2 q hq).trans (hall.proc q)
  · rw [fproc_setProc, Function.update_self]

end Processes

end Vfs
