import Cs111.Vfs.RefCalls

namespace Vfs
open Tally

section Callers
variable {C : VfsConfig} {L : ℕ → ℕ} {s s' : VfsState} {p q : ℕ}

theorem Caller.roused (hp : Caller C s p) (h : Roused s s') : Caller C s' p where
  slot := hp.slot
  used := by rw [(h.fproc p).free_eq, hp.used]
  runs := by
    rcases (h.fproc p).blocked_or with hb | hb
    · exact hb
    · rw [hb, hp.runs]

theorem Caller.congr (hp : Caller C s p) (hfree : (s'.fproc p).free = (s.fproc p).free)
    (hb : (s'.fproc p).fpBlockedOn = (s.fproc p).fpBlockedOn) : Caller C s' p :=
  ⟨hp.slot, hfree.trans hp.used, hb.trans hp.runs⟩

theorem Caller.not_revived (hs : Waits C s) (hp : Caller C s p) :
    (s.fproc p).fpRevived = false := by
  by_contra hrev
  have hb := hs.revived p hp.used (Bool.not_eq_false _ ▸ hrev)
  rw [hp.runs] at hb
  rcases hb with hb | hb <;> cases hb

end Callers

section Opens
variable {C : VfsConfig} {L : ℕ → ℕ} {s s' : VfsState} {p fd f v vSize : ℕ} {kind : VKind} {bits : FilpMode}
  {nonblock waits : Bool} {callnr : CallNr}

theorem fproc_claim (q : ℕ) {mode : FilpMode} : (claim p fd f v mode nonblock s).fproc q =
    if q = p then { s.fproc p with fpFilp := Function.update (s.fproc p).fpFilp fd (some f) }
    else s.fproc q := fproc_setFd q

theorem claim_found_refs (hs : Refs C L s) (hp : Caller C s p)
    (hget : getFd C s (s.fproc p) 0 = .ok (fd, f)) :
    Refs C L (claim p fd f v bits nonblock (eatPath v kind vSize s)) ∧
      Caller C (claim p fd f v bits nonblock (eatPath v kind vSize s)) p := by
  obtain ⟨hfd, -, hnone, hf, hcount⟩ := getFd_ok hget
  obtain ⟨hproc, hfilp, hsel, howes⟩ := eatPath_frame (C := C) (s := s) v kind vSize
  have hrefs : Refs C L (claim p fd f v bits nonblock (eatPath v kind vSize s)) := by
    refine claim_refs (eatPath_linked hs.toLinked) (hs.waits.congr hproc hsel) (fun g => ?_)
      (fun w => ?_) hp.slot ?_ hfd ?_ hf ?_
    · rw [howes, hs.filpOwes]
    · rw [eatPath_owes, hs.vnodeOwes]
    · rw [hproc, hp.used]
    · rw [hproc, hnone]
    · rw [hfilp, hcount]
  refine ⟨hrefs, hp.congr ?_ ?_⟩
  · rw [fproc_claim, if_pos rfl, hproc]
  · rw [fproc_claim, if_pos rfl, hproc]

theorem openClaimed_refs (hs : Refs C L s) (hp : Caller C s p) (hc : Claimed s p fd f v)
    (h : openClaimed C p fd f v bits nonblock callnr s = .ok s') : Refs C L s' := by
  unfold openClaimed at h
  dsimp only at h
  generalize hcleared : (if (s.vnode v).vRefCount = 1 then Vfs.setVnode s v
    { s.vnode v with vPipeRdPos := 0, vPipeWrPos := 0, vSize := 0 } else s) = s₀ at h
  have hs₀ : Refs C L s₀ ∧ Caller C s₀ p ∧ Claimed s₀ p fd f v := by
    split at hcleared
    · rw [← hcleared]
      exact ⟨hs.setVnode rfl, ⟨hp.slot, hp.used, hp.runs⟩, ⟨hc.fd_eq, hc.count, hc.vno⟩⟩
    · rw [← hcleared]
      exact ⟨hs, hp, hc⟩
  obtain ⟨hs₀, hp₀, hc₀⟩ := hs₀
  obtain ⟨⟨r, s₁⟩, hopen, hrest⟩ := ok_of_bind h
  obtain ⟨hs₁, hc₁, hpeer⟩ := pipeOpen_refs hs₀ hp₀ hc₀ hopen
  have hused : (s₁.fproc p).free = false := by
    by_contra hfree
    have hnone := hs₁.freeFds p (Bool.not_eq_false _ ▸ hfree) fd
    rw [hc₁.fd_eq] at hnone
    cases hnone
  obtain ⟨s₂, hshare, hend⟩ := ok_of_bind hrest
  split at hshare
  · next hfail =>
    subst hfail
    cases hshare
    obtain ⟨s₃, hundo, rfl⟩ := ok_of_map hend
    exact (unclaim_refs hs₁ hc₁ hundo).reply
  · next hok =>
    have hs₂ := shareFilp_refs hs₁ hused hc₁ hshare
    split at hend
    · cases hend
      exact hs₂
    · cases hend
      exact hs₂.reply
    · next e he =>
      have hone := hpeer e he
      subst hone
      exact absurd he hok

theorem eatPath_refs (hs : Refs C L s) :
    Refs C (Function.update L v (L v + 1)) (eatPath v kind vSize s) := by
  obtain ⟨hproc, -, hsel, howes⟩ := eatPath_frame (C := C) (s := s) v kind vSize
  refine ⟨eatPath_linked hs.toLinked, hs.waits.congr hproc hsel, fun g => ?_, fun w => ?_⟩
  · rw [howes, hs.filpOwes]
  · rw [eatPath_owes, hs.vnodeOwes, Function.update_apply]
    split
    · next hw =>
      rw [hw]
      push_cast
      rfl
    · exact Int.add_zero _

theorem strayed_refs (lost : List Lookup) (hs : Refs C L s) : ∃ L', Refs C L' (strayed lost s) := by
  induction lost generalizing L s with
  | nil => exact ⟨L, hs⟩
  | cons found lost ih => exact ih (eatPath_refs hs)

theorem strayed_frame (lost : List Lookup) (s : VfsState) :
    (strayed lost s).fproc = s.fproc ∧ (strayed lost s).filp = s.filp := by
  induction lost generalizing s with
  | nil => exact ⟨rfl, rfl⟩
  | cons found lost ih =>
    have hfirst : (eatPath found.v found.kind found.vSize s).fproc = s.fproc ∧
        (eatPath found.v found.kind found.vSize s).filp = s.filp := by
      unfold eatPath
      split <;> exact ⟨rfl, rfl⟩
    obtain ⟨hproc, hfilp⟩ := ih (eatPath found.v found.kind found.vSize s)
    exact ⟨hproc.trans hfirst.1, hfilp.trans hfirst.2⟩

theorem strayed_caller (lost : List Lookup) (hp : Caller C s p) : Caller C (strayed lost s) p := by
  have hproc := (strayed_frame lost s).1
  exact hp.congr (by rw [hproc]) (by rw [hproc])

theorem getFd_strayed (lost : List Lookup) :
    getFd C (strayed lost s) ((strayed lost s).fproc p) 0 = getFd C s (s.fproc p) 0 := by
  obtain ⟨hproc, hfilp⟩ := strayed_frame lost s
  rw [getFd, getFd, hproc, hfilp]

theorem openFifo_strayed {lost : List Lookup} {x : Except Panic VfsState}
    (h : openFifo C p lost v vSize bits nonblock callnr s = x) :
    (∃ r, x = .ok (reply s p (.error r))) ∨
      openFifo C p [] v vSize bits nonblock callnr (strayed lost s) = x := by
  subst h
  unfold openFifo
  rw [getFd_strayed]
  split
  · next r _ => exact .inl ⟨r, rfl⟩
  · exact .inr rfl

theorem openOther_strayed {lost : List Lookup} {result : Except Errno Opened}
    {x : Except Panic VfsState}
    (h : openOther C p lost v vSize kind bits nonblock waits callnr result s = x) :
    (∃ r, x = .ok (reply s p (.error r))) ∨
      openOther C p [] v vSize kind bits nonblock waits callnr result (strayed lost s) = x := by
  subst h
  unfold openOther
  rw [getFd_strayed]
  split
  · next r _ => exact .inl ⟨r, rfl⟩
  · exact .inr rfl

theorem openMissing_strayed {lost : List Lookup} {r : Errno} (h : openMissing C p lost r s = s') :
    (∃ r', s' = reply s p (.error r')) ∨ s' = reply (strayed lost s) p (.error r) := by
  subst h
  unfold openMissing
  split
  · next r' _ => exact .inl ⟨r', rfl⟩
  · exact .inr rfl

theorem openFifo_refs (hs : Refs C L s) (hp : Caller C s p)
    (h : openFifo C p [] v vSize bits nonblock callnr s = .ok s') : Refs C L s' := by
  unfold openFifo at h
  split at h
  · cases h
    exact hs.reply
  · next fd f hget =>
    obtain ⟨hrefs, hcaller⟩ := claim_found_refs hs hp hget
    exact openClaimed_refs hrefs hcaller claim_claimed h

theorem cloneOpcl_refs {w : ℕ} (hs : Refs C L s) (hc : Claimed s p fd f v)
    (hw : (s.vnode w).vRefCount = if w = v then 1 else 0) (h : cloneOpcl f v w s = .ok s') :
    Refs C L s' := by
  obtain ⟨-, -, hf⟩ := hs.fds p fd f hc.fd_eq
  obtain ⟨s₁, hput, rfl⟩ := ok_of_map h
  have howes := fun u => vnodeOwes_putVnode (C := C) (v := u) hput
  obtain ⟨-, rfl⟩ := putVnode_ok hput
  have hzero : ((setVnode s v { s.vnode v with vRefCount := (s.vnode v).vRefCount - 1 }).vnode
      w).vRefCount = 0 := by
    have hvnode : (setVnode s v { s.vnode v with vRefCount := (s.vnode v).vRefCount - 1 }).vnode w =
        if w = v then { s.vnode v with vRefCount := (s.vnode v).vRefCount - 1 } else s.vnode w :=
      Function.update_apply _ _ _ _
    rw [hvnode]
    split
    · next hwv =>
      subst hwv
      rw [if_pos rfl] at hw
      dsimp only
      rw [hw]
    · next hwv =>
      rw [if_neg hwv] at hw
      exact hw
  refine ⟨hs.toLinked.setVnode.setVnode.setFilp hf, hs.waits.congr rfl rfl, fun g => ?_, fun u => ?_⟩
  · rw [filpOwes_setFilp]
    refine Eq.trans ?_ (hs.filpOwes g)
    split
    · exact (congrArg _ (Int.sub_self _)).trans (Int.add_zero _)
    · exact Int.add_zero _
  · have hcount : (s.filp f).filpCount ≠ 0 := by
      rw [hc.count]
      exact Nat.one_ne_zero
    rw [vnodeOwes_setFilp hf, vnodeOwes_setVnode, howes, hs.vnodeOwes, hzero]
    have hold : ∀ {x y : Vnode}, ((setVnode (setVnode s v x) w y).filp f).On u ↔ u = v :=
      ⟨fun h => h.2.symm.trans hc.vno, fun h => ⟨hcount, hc.vno.trans h.symm⟩⟩
    have hnew : Filp.On u { s.filp f with filpVno := w } ↔ u = w :=
      ⟨fun h => h.2.symm, fun h => ⟨hcount, h.symm⟩⟩
    rw [if_congr hold rfl rfl]
    refine (congrArg _ (if_congr hnew rfl rfl)).trans ?_
    dsimp only
    split_ifs <;> omega

theorem openOther_refs {result : Except Errno Opened} (hs : Refs C L s) (hp : Caller C s p)
    (hclones : Clones s v kind result) (hkept : result ≠ .ok .overwritten)
    (h : openOther C p [] v vSize kind bits nonblock waits callnr result s = .ok s') :
    Refs C L s' := by
  unfold openOther at h
  split at h
  · cases h
    exact hs.reply
  · next fd f hget =>
    have hclaim : Refs C L (claim p fd f v bits nonblock (eatPath v kind vSize s)) ∧
        Caller C (claim p fd f v bits nonblock (eatPath v kind vSize s)) p :=
      claim_found_refs hs hp hget
    obtain ⟨hrefs, hcaller⟩ := hclaim
    have hc : Claimed (claim p fd f v bits nonblock (eatPath v kind vSize s)) p fd f v :=
      claim_claimed
    dsimp only at h
    split at h
    · cases h
      exact suspend_refs hrefs hcaller (fun h => by cases h) (fun h => by cases h)
    · split at h
      · cases h
        exact hrefs.reply
      · next w =>
        obtain ⟨s₁, hclone, rfl⟩ := ok_of_map h
        exact (cloneOpcl_refs hrefs hc (eatPath_free hclones.2) hclone).reply
      · exact absurd rfl hkept
      · obtain ⟨s₁, hundo, rfl⟩ := ok_of_map h
        exact (unclaim_refs hrefs hc hundo).reply

theorem doPipe_refs {created : Except Errno Unit} (hs : Refs C L s) (hp : Caller C s p)
    (hv : (s.vnode v).vRefCount = 0) : Refs C L (doPipe C p v created s) := by
  unfold doPipe
  split
  · exact hs.reply
  · next fd₀ f₀ hget₀ =>
    obtain ⟨hfd₀, -, hnone₀, hf₀, hcount₀⟩ := getFd_ok hget₀
    dsimp only
    split
    · exact hs.reply
    · next fd₁ f₁ hget₁ =>
      obtain ⟨hfd₁, -, hnone₁, hf₁, hcount₁⟩ := getFd_ok hget₁
      split
      · exact hs.reply
      · refine Refs.reply ?_
        have hlinked₀ : Linked C (claim p fd₀ f₀ v R_BIT false s) :=
          claim_linked hs.toLinked hp.slot hp.used hfd₀ hf₀
        have hused₀ : ((claim p fd₀ f₀ v R_BIT false s).fproc p).free = false := by
          rw [fproc_claim, if_pos rfl]
          exact hp.used
        have hlinked₁ : Linked C (claim p fd₁ f₁ v W_BIT false (claim p fd₀ f₀ v R_BIT false s)) :=
          claim_linked hlinked₀ hp.slot hused₀ hfd₁ hf₁
        have hvnode : (claim p fd₁ f₁ v W_BIT false (claim p fd₀ f₀ v R_BIT false s)).vnode =
            s.vnode := rfl
        refine ⟨hlinked₁.setVnode, (claim_waits (claim_waits hs.waits)).congr rfl rfl, fun g => ?_,
          fun w => ?_⟩
        · exact (filpOwes_claim hp.slot hfd₁ hnone₁ hcount₁ g).trans
            ((filpOwes_claim hp.slot hfd₀ hnone₀ hcount₀ g).trans (hs.filpOwes g))
        · have hclaims : vnodeOwes C
              (claim p fd₁ f₁ v W_BIT false (claim p fd₀ f₀ v R_BIT false s)) w =
              L w - (if w = v then 1 else 0) - if w = v then 1 else 0 := by
            have hfirst : vnodeOwes C (claim p fd₀ f₀ v R_BIT false s) w =
                L w - if w = v then 1 else 0 := by
              rw [vnodeOwes_claim hf₀ hcount₀, hs.vnodeOwes w]
            rw [← hfirst]
            exact vnodeOwes_claim hf₁ hcount₁ w
          have hset := vnodeOwes_setVnode (C := C) (v := w) (w := v)
            (s := claim p fd₁ f₁ v W_BIT false (claim p fd₀ f₀ v R_BIT false s))
            (x := { s.vnode v with
              kind := .NAMED_PIPE, vPipeRdPos := 0, vPipeWrPos := 0, vSize := 0, vRefCount := 2 })
          rw [hclaims, hvnode, hv] at hset
          refine hset.trans ?_
          dsimp only
          split <;> omega

end Opens

section Fork
variable {C : VfsConfig} {L : ℕ → ℕ} {s s' : VfsState} {p c f v : ℕ}

theorem tally_eq_countP {n : ℕ} {q : Option ℕ → Prop} [DecidablePred q] {g : ℕ → Option ℕ} :
    tally n q g = (List.range n).countP fun i => q (g i) := by
  rw [List.countP_eq_length_filter]
  rfl

structure Counting (C : VfsConfig) (c : ℕ) (fds : List ℕ) (s s' : VfsState) : Prop where
  linked : Linked C s'
  fproc : s'.fproc = s.fproc
  selecting : s'.selecting = s.selecting
  filpOwes : ∀ f, filpOwes C s' f =
    filpOwes C s f + fds.countP fun fd => (s.fproc c).fpFilp fd = some f
  vnodeOwes : ∀ v, vnodeOwes C s' v = vnodeOwes C s v

theorem countFds_counting (fds : List ℕ) (hs : Linked C s)
    (hused : ∀ fd f, (s.fproc c).fpFilp fd = some f → (s.filp f).filpCount ≠ 0) :
    Counting C c fds s (countFds c fds s) := by
  induction fds generalizing s with
  | nil => exact ⟨hs, rfl, rfl, fun f => by simp [countFds], fun v => rfl⟩
  | cons fd fds ih =>
    unfold countFds
    split
    · next hnone =>
      have hrest := ih hs hused
      refine ⟨hrest.linked, hrest.fproc, hrest.selecting, fun f => ?_, hrest.vnodeOwes⟩
      rw [hrest.filpOwes f, List.countP_cons_of_neg (by simp [hnone])]
    · next f hf =>
      have hcount := hused fd f hf
      have hlt := hs.filps f hcount
      have hused' : ∀ fd' g,
          ((setCount f ((s.filp f).filpCount + 1) s).fproc c).fpFilp fd' = some g →
          ((setCount f ((s.filp f).filpCount + 1) s).filp g).filpCount ≠ 0 := by
        intro fd' g hg
        by_cases hgf : g = f
        · rw [hgf]
          have hself : (setCount f ((s.filp f).filpCount + 1) s).filp f =
              { s.filp f with filpCount := (s.filp f).filpCount + 1 } := Function.update_self _ _ _
          rw [hself]
          exact Nat.succ_ne_zero _
        · have hother : (setCount f ((s.filp f).filpCount + 1) s).filp g = s.filp g :=
            Function.update_of_ne hgf _ _
          rw [hother]
          exact hused fd' g hg
      have hrest := ih (s := setCount f ((s.filp f).filpCount + 1) s) (hs.setFilp hlt) hused'
      refine ⟨hrest.linked, hrest.fproc, hrest.selecting, fun g => ?_, fun v => ?_⟩
      · have hproc : (setCount f ((s.filp f).filpCount + 1) s).fproc = s.fproc := rfl
        rw [hrest.filpOwes g, filpOwes_setCount, hproc, List.countP_cons, hf]
        by_cases hg : g = f
        · subst hg
          simp only [if_true, decide_true]
          omega
        · rw [if_neg hg]
          simp only [Option.some.injEq, Ne.symm hg, decide_false, Bool.false_eq_true, if_false]
          omega
      · rw [hrest.vnodeOwes v, vnodeOwes_setCount hlt]
        by_cases hv : (s.filp f).filpVno = v
        · simp [hv, hcount]
        · simp [hv]

theorem filpOwes_copied (hc : c < C.NR_PROCS) (hnone : ∀ fd, (s.fproc c).fpFilp fd = none) (f : ℕ) :
    filpOwes C (setProc s c (s.fproc p)) f =
      filpOwes C s f - tally C.OPEN_MAX (· = some f) (s.fproc p).fpFilp := by
  have hall : fdRefs C (setProc s c (s.fproc p)) f +
      tally C.OPEN_MAX (· = some f) (s.fproc c).fpFilp =
      fdRefs C s f + tally C.OPEN_MAX (· = some f) (s.fproc p).fpFilp :=
    total_update (w := fun rfp : Fproc => tally C.OPEN_MAX (· = some f) rfp.fpFilp) hc
  have hzero : tally C.OPEN_MAX (· = some f) (s.fproc c).fpFilp = 0 := by
    refine tally_zero_iff.mpr fun fd _ h => ?_
    rw [hnone fd] at h
    cases h
  have hsel : (setProc s c (s.fproc p)).dmapSelFilp = s.dmapSelFilp := rfl
  have hflight : (setProc s c (s.fproc p)).inFlight = s.inFlight := rfl
  have hfilp : (setProc s c (s.fproc p)).filp = s.filp := rfl
  rw [filpOwes, filpOwes, filpRefs, filpRefs, hsel, hflight, hfilp]
  omega

theorem vnodeOwes_copied (hc : c < C.NR_PROCS) (hnone : (s.fproc c).fpRd = none ∧
    (s.fproc c).fpWd = none) (v : ℕ) : vnodeOwes C (setProc s c (s.fproc p)) v =
      vnodeOwes C s v - (if (s.fproc p).fpRd = some v then 1 else 0) -
        if (s.fproc p).fpWd = some v then 1 else 0 := by
  have hrd : tally C.NR_PROCS (fun rfp => rfp.fpRd = some v) (setProc s c (s.fproc p)).fproc +
      (if (s.fproc c).fpRd = some v then 1 else 0) =
      tally C.NR_PROCS (fun rfp => rfp.fpRd = some v) s.fproc +
        if (s.fproc p).fpRd = some v then 1 else 0 :=
    tally_update (p := fun rfp : Fproc => rfp.fpRd = some v) hc
  have hwd : tally C.NR_PROCS (fun rfp => rfp.fpWd = some v) (setProc s c (s.fproc p)).fproc +
      (if (s.fproc c).fpWd = some v then 1 else 0) =
      tally C.NR_PROCS (fun rfp => rfp.fpWd = some v) s.fproc +
        if (s.fproc p).fpWd = some v then 1 else 0 :=
    tally_update (p := fun rfp : Fproc => rfp.fpWd = some v) hc
  rw [hnone.1, if_neg (by simp)] at hrd
  rw [hnone.2, if_neg (by simp)] at hwd
  have hvnode : (setProc s c (s.fproc p)).vnode = s.vnode := rfl
  have hmounts : (setProc s c (s.fproc p)).mounts = s.mounts := rfl
  have hfilp : (setProc s c (s.fproc p)).filp = s.filp := rfl
  rw [vnodeOwes, vnodeOwes, vnodeRefs, vnodeRefs, hvnode, hmounts, hfilp]
  split_ifs at hrd hwd ⊢ <;> omega

theorem dupDir_frame (dir : Option ℕ) : (dupDir dir s).fproc = s.fproc ∧
    (dupDir dir s).filp = s.filp ∧ (dupDir dir s).selecting = s.selecting ∧
    (dupDir dir s).dmapSelFilp = s.dmapSelFilp ∧
    (∀ f, filpOwes C (dupDir dir s) f = filpOwes C s f) ∧
    ∀ v, vnodeOwes C (dupDir dir s) v = vnodeOwes C s v + if dir = some v then 1 else 0 := by
  unfold dupDir
  split
  · exact ⟨rfl, rfl, rfl, rfl, fun f => rfl, fun v => by simp⟩
  · next w =>
    refine ⟨rfl, rfl, rfl, rfl, fun f => rfl, fun v => ?_⟩
    rw [vnodeOwes_dupVnode]
    by_cases hv : v = w
    · simp [hv]
    · simp [hv, Ne.symm hv]

theorem pmFork_refs (hs : Refs C L s) (hp : Caller C s p) (hc : c < C.NR_PROCS)
    (hfree : (s.fproc c).free = true) : Refs C L (pmFork C p c s) := by
  have hself : (Vfs.setProc s c (s.fproc p)).fproc c = s.fproc p := by
    rw [fproc_setProc, Function.update_self]
  have hlinked : Linked C (Vfs.setProc s c (s.fproc p)) := by
    refine ⟨fun q fd f hf => ?_, hs.filps, fun q hq fd => ?_, fun q hq => ?_, hs.sel⟩
    · rw [fproc_setProc, Function.update_apply] at hf
      split at hf
      · next hq =>
        obtain ⟨-, hfd, hlt⟩ := hs.fds p fd f hf
        exact ⟨hq ▸ hc, hfd, hlt⟩
      · exact hs.fds q fd f hf
    · rw [fproc_setProc, Function.update_apply] at hq ⊢
      split at hq
      · rw [hp.used] at hq
        cases hq
      · next hqc =>
        rw [if_neg hqc]
        exact hs.freeFds q hq fd
    · rw [fproc_setProc, Function.update_apply] at hq ⊢
      split at hq
      · rw [hp.used] at hq
        cases hq
      · next hqc =>
        rw [if_neg hqc]
        exact hs.freeDirs q hq
  have hwaits : Waits C (Vfs.setProc s c (s.fproc p)) := by
    refine hs.waits.setProc ⟨fun hsel => ?_, hs.waits.select p, hs.waits.lock p,
      hs.waits.revived p, fun _ _ => hc⟩
    have hused := (hs.waits.selecting c hsel).1
    rw [hfree] at hused
    cases hused
  have hused : ∀ fd f, ((Vfs.setProc s c (s.fproc p)).fproc c).fpFilp fd = some f →
      ((Vfs.setProc s c (s.fproc p)).filp f).filpCount ≠ 0 := by
    intro fd f hf
    rw [hself] at hf
    exact hs.fd_used hf
  have hcount := countFds_counting (List.range C.OPEN_MAX) hlinked hused
  unfold pmFork
  dsimp only
  generalize hs₁ : countFds c (List.range C.OPEN_MAX) (Vfs.setProc s c (s.fproc p)) = s₁ at hcount ⊢
  have hproc : s₁.fproc c = s.fproc p := by rw [hcount.fproc, hself]
  rw [hproc]
  obtain ⟨hproc₂, hfilp₂, hsel₂, hdmap₂, howes₂, hvnode₂⟩ :=
    dupDir_frame (C := C) (s := s₁) (s.fproc p).fpRd
  obtain ⟨hproc₃, hfilp₃, hsel₃, hdmap₃, howes₃, hvnode₃⟩ :=
    dupDir_frame (C := C) (s := dupDir (s.fproc p).fpRd s₁) (s.fproc p).fpWd
  refine ⟨hcount.linked.congr (hproc₃.trans hproc₂) (fun f hf => ?_) (hdmap₃.trans hdmap₂),
    hwaits.congr ((hproc₃.trans hproc₂).trans hcount.fproc)
      ((hsel₃.trans hsel₂).trans hcount.selecting), fun f => ?_, fun v => ?_⟩
  · rw [hfilp₃, hfilp₂] at hf
    exact hcount.linked.filps f hf
  · rw [howes₃, howes₂, hcount.filpOwes, filpOwes_copied hc (hs.freeFds c hfree), hs.filpOwes f,
      tally_eq_countP, hself]
    simp
  · rw [hvnode₃, hvnode₂, hcount.vnodeOwes, vnodeOwes_copied hc (hs.freeDirs c hfree),
      hs.vnodeOwes v]
    omega

end Fork

end Vfs
