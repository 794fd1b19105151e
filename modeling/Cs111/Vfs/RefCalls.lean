import Cs111.Vfs.Refs

namespace Vfs
open Errno
open Tally

section Find
variable {C : VfsConfig} {L : ℕ → ℕ} {s : VfsState} {rfp : Fproc} {start fd f v : ℕ} {bits : FilpMode}

theorem mem_of_find {n i : ℕ} {q : ℕ → Prop} [DecidablePred q]
    (h : (List.range n).find? (fun i => q i) = some i) : i < n ∧ q i :=
  have hq := List.find?_some h
  ⟨List.mem_range.mp (List.mem_of_find?_eq_some h), of_decide_eq_true hq⟩

theorem not_of_find {n i : ℕ} {q : ℕ → Prop} [DecidablePred q]
    (h : (List.range n).find? (fun i => q i) = none) (hi : i < n) : ¬ q i := by
  have hnone := List.find?_eq_none.mp h i (List.mem_range.mpr hi)
  exact fun hq => hnone (decide_eq_true hq)

theorem getFd_ok (h : getFd C s rfp start = .ok (fd, f)) : fd < C.OPEN_MAX ∧ start ≤ fd ∧
    rfp.fpFilp fd = none ∧ f < C.NR_FILPS ∧ (s.filp f).filpCount = 0 := by
  unfold getFd at h
  split at h
  · cases h
  · next fd' hfd =>
    split at h
    · cases h
    · next f' hf =>
      cases h
      obtain ⟨hlt, hstart, hnone⟩ := mem_of_find hfd
      obtain ⟨hf, hcount⟩ := mem_of_find hf
      exact ⟨hlt, hstart, hnone, hf, hcount⟩

theorem findFilp_some (h : findFilp C s v bits = some f) : f < C.NR_FILPS ∧
    (s.filp f).filpCount ≠ 0 ∧ (s.filp f).filpVno = v ∧ (s.filp f).filpMode.has bits = true :=
  mem_of_find h

theorem findFilp_none (h : findFilp C s v bits = none) (hf : f < C.NR_FILPS) :
    ¬ ((s.filp f).filpCount ≠ 0 ∧ (s.filp f).filpVno = v ∧ (s.filp f).filpMode.has bits = true) :=
  not_of_find h hf

end Find

section Dup
variable {C : VfsConfig} {L : ℕ → ℕ} {s s' : VfsState} {p fd fd2 start f : ℕ} {woken : Woken} {unlocks : Bool}

theorem attach_refs (hs : Refs C L s) (hp : p < C.NR_PROCS) (hused : (s.fproc p).free = false)
    (hfd : fd < C.OPEN_MAX) (hnone : (s.fproc p).fpFilp fd = none)
    (hf : (s.filp f).filpCount ≠ 0) : Refs C L (attach p fd f s) := by
  have hlt := hs.filps f hf
  have hlinked : Linked C (setCount f ((s.filp f).filpCount + 1) s) := hs.toLinked.setFilp hlt
  have hwaits : Waits C (setCount f ((s.filp f).filpCount + 1) s) := hs.waits.congr rfl rfl
  have hempty : ((setCount f ((s.filp f).filpCount + 1) s).fproc p).fpFilp fd = none := hnone
  refine ⟨hlinked.setFd fun g hg => ?_, hwaits.setFd, fun g => ?_, fun v => ?_⟩
  · cases hg
    exact ⟨hp, hfd, hlt, hused⟩
  · rw [attach, filpOwes_setFd hp hfd, filpOwes_setCount, hs.filpOwes g, hempty]
    by_cases hg : g = f
    · simp [hg]
    · simp [hg, Ne.symm hg]
  · rw [attach, vnodeOwes_setFd, vnodeOwes_setCount hlt, hs.vnodeOwes v]
    by_cases hv : (s.filp f).filpVno = v
    · simp [hv, hf]
    · simp [hv]

theorem doDup_refs (hs : Refs C L s) (hp : Caller C s p) : Refs C L (doDup C p fd start s) := by
  unfold doDup
  split
  · exact hs.reply
  · next f hf =>
    split
    · exact hs.reply
    · next newFd f' hget =>
      obtain ⟨hlt, -, hnone, -⟩ := getFd_ok hget
      exact (attach_refs hs hp.slot hp.used hlt hnone (hs.fd_used hf)).reply

theorem doDup2_refs (hs : Refs C L s) (hp : Caller C s p)
    (h : doDup2 C p fd fd2 woken unlocks s = .ok s') : Refs C L s' := by
  unfold doDup2 at h
  split at h
  · cases h
    exact hs.reply
  · next f hf =>
    split at h
    · cases h
      exact hs.reply
    · next hrange =>
      split at h
      · cases h
        exact hs.reply
      · next hne =>
        obtain ⟨s₁, hclose, rfl⟩ := ok_of_map h
        have hclosed := closeFd_closed hs hclose
        have hkept : (s₁.fproc p).fpFilp fd = some f := by
          rw [hclosed.fd_eq, if_neg fun h => hne h.2, hf]
        have hempty : (s₁.fproc p).fpFilp fd2 = none := by rw [hclosed.fd_eq, if_pos ⟨rfl, rfl⟩]
        exact (attach_refs hclosed.toRefs hp.slot ((hclosed.free_eq p).trans hp.used)
          (Nat.lt_of_not_le hrange) hempty (hclosed.fd_used hkept)).reply

end Dup

section Open
variable {C : VfsConfig} {L : ℕ → ℕ} {s s' : VfsState} {p fd f v vSize : ℕ} {kind : VKind} {mode bits : FilpMode}
  {nonblock : Bool} {callnr : CallNr}

theorem eatPath_owes (w : ℕ) : vnodeOwes C (eatPath v kind vSize s) w =
    vnodeOwes C s w + if w = v then 1 else 0 := by
  unfold eatPath
  split
  · next hzero =>
    rw [vnodeOwes_setVnode, hzero]
    rfl
  · exact vnodeOwes_dupVnode

theorem eatPath_free {w : ℕ} (hw : (s.vnode w).vRefCount = 0) :
    ((eatPath v kind vSize s).vnode w).vRefCount = if w = v then 1 else 0 := by
  have hvnode : ∀ x : Vnode, ((setVnode s v x).vnode w).vRefCount =
      if w = v then x.vRefCount else 0 := by
    intro x
    have happly : (setVnode s v x).vnode w = if w = v then x else s.vnode w :=
      Function.update_apply _ _ _ _
    rw [happly]
    split
    · rfl
    · exact hw
  unfold eatPath
  split
  · exact hvnode _
  · next hv =>
    rw [dupVnode, hvnode, if_neg, if_neg]
    all_goals
      rintro rfl
      exact hv hw

theorem eatPath_frame (v : ℕ) (kind : VKind) (vSize : ℕ) : (eatPath v kind vSize s).fproc = s.fproc ∧
    (eatPath v kind vSize s).filp = s.filp ∧ (eatPath v kind vSize s).selecting = s.selecting ∧
    ∀ f, filpOwes C (eatPath v kind vSize s) f = filpOwes C s f := by
  unfold eatPath
  split
  · exact ⟨rfl, rfl, rfl, fun f => rfl⟩
  · exact ⟨rfl, rfl, rfl, fun f => rfl⟩

theorem eatPath_linked (hs : Linked C s) : Linked C (eatPath v kind vSize s) := by
  unfold eatPath
  split
  · exact hs.setVnode
  · exact hs.setVnode

theorem claim_linked (hs : Linked C s) (hp : p < C.NR_PROCS) (hused : (s.fproc p).free = false)
    (hfd : fd < C.OPEN_MAX) (hf : f < C.NR_FILPS) :
    Linked C (claim p fd f v mode nonblock s) := by
  have hlinked : Linked C (setFilp s f ⟨mode, nonblock, 1, v⟩) := hs.setFilp hf
  refine hlinked.setFd fun g hg => ?_
  cases hg
  exact ⟨hp, hfd, hf, hused⟩

theorem claim_waits (hs : Waits C s) : Waits C (claim p fd f v mode nonblock s) := by
  have hclaimed : Waits C (setFilp s f ⟨mode, nonblock, 1, v⟩) := hs.congr rfl rfl
  exact hclaimed.setFd

theorem filpOwes_claim (hp : p < C.NR_PROCS) (hfd : fd < C.OPEN_MAX)
    (hnone : (s.fproc p).fpFilp fd = none) (hcount : (s.filp f).filpCount = 0) (g : ℕ) :
    filpOwes C (claim p fd f v mode nonblock s) g = filpOwes C s g := by
  have hempty : ((setFilp s f ⟨mode, nonblock, 1, v⟩).fproc p).fpFilp fd = none := hnone
  rw [claim, filpOwes_setFd hp hfd, filpOwes_setFilp, hempty, hcount]
  by_cases hg : g = f
  · simp [hg]
  · simp [hg, Ne.symm hg]

theorem vnodeOwes_claim (hf : f < C.NR_FILPS) (hcount : (s.filp f).filpCount = 0) (w : ℕ) :
    vnodeOwes C (claim p fd f v mode nonblock s) w = vnodeOwes C s w - if w = v then 1 else 0 := by
  rw [claim, vnodeOwes_setFd, vnodeOwes_setFilp hf]
  by_cases hw : w = v
  · simp [hw, Filp.On, hcount]
  · simp [hw, Ne.symm hw, Filp.On, hcount]

theorem claim_refs (hs : Linked C s) (hwaits : Waits C s) (hfilp : ∀ g, filpOwes C s g = 0)
    (hvnode : ∀ w, vnodeOwes C s w = L w + if w = v then 1 else 0) (hp : p < C.NR_PROCS)
    (hused : (s.fproc p).free = false) (hfd : fd < C.OPEN_MAX)
    (hnone : (s.fproc p).fpFilp fd = none) (hf : f < C.NR_FILPS)
    (hcount : (s.filp f).filpCount = 0) : Refs C L (claim p fd f v mode nonblock s) := by
  refine ⟨claim_linked hs hp hused hfd hf, claim_waits hwaits, fun g => ?_, fun w => ?_⟩
  · rw [filpOwes_claim hp hfd hnone hcount, hfilp g]
  · rw [vnodeOwes_claim hf hcount, hvnode w]
    omega

structure Claimed (s : VfsState) (p fd f v : ℕ) : Prop where
  fd_eq : (s.fproc p).fpFilp fd = some f
  count : (s.filp f).filpCount = 1
  vno : (s.filp f).filpVno = v

theorem claim_claimed : Claimed (claim p fd f v mode nonblock s) p fd f v where
  fd_eq := by
    rw [claim, fproc_setFd, if_pos rfl]
    exact Function.update_self _ _ _
  count := by
    have hfilp : (claim p fd f v mode nonblock s).filp f = ⟨mode, nonblock, 1, v⟩ :=
      Function.update_self _ _ _
    rw [hfilp]
  vno := by
    have hfilp : (claim p fd f v mode nonblock s).filp f = ⟨mode, nonblock, 1, v⟩ :=
      Function.update_self _ _ _
    rw [hfilp]

theorem Claimed.roused (hc : Claimed s p fd f v) (h : Roused s s') : Claimed s' p fd f v where
  fd_eq := by rw [(h.fproc p).fpFilp_eq, hc.fd_eq]
  count := by rw [h.filp, hc.count]
  vno := by rw [h.filp, hc.vno]

theorem unclaimed_refs (hs : Refs C L s) (hc : Claimed s p fd f v)
    (h : putVnode (setCount f 0 (setFd p fd none s)) v = .ok s') : Refs C L s' := by
  obtain ⟨hp, hfd, hf⟩ := hs.fds p fd f hc.fd_eq
  have hlinked : Linked C (setCount f 0 (setFd p fd none s)) :=
    (hs.toLinked.setFd (by simp)).setFilp hf
  have hwaits : Waits C (setCount f 0 (setFd p fd none s)) := hs.waits.setFd.congr rfl rfl
  have hput := h
  obtain ⟨-, hs'⟩ := putVnode_ok h
  subst hs'
  have hfilp : ∀ x, (setFd p fd x s).filp = s.filp := fun _ => rfl
  refine ⟨hlinked.setVnode, hwaits.congr rfl rfl, fun g => ?_, fun w => ?_⟩
  · rw [filpOwes_setVnode, filpOwes_setCount, filpOwes_setFd hp hfd, hs.filpOwes g, hc.fd_eq,
      hfilp, hc.count]
    by_cases hg : g = f
    · simp [hg]
    · simp [hg, Ne.symm hg]
  · rw [vnodeOwes_putVnode hput, vnodeOwes_setCount hf, vnodeOwes_setFd, hs.vnodeOwes w, hfilp,
      hc.vno, hc.count]
    by_cases hw : w = v
    · simp [hw]
    · simp [hw, Ne.symm hw]

theorem unclaim_refs (hs : Refs C L s) (hc : Claimed s p fd f v) (h : unclaim p fd f v s = .ok s') :
    Refs C L s' := unclaimed_refs hs hc h

theorem failOpen_refs {e : Errno} (hs : Refs C L s) (h : failOpen p fd e s = .ok s') : Refs C L s' := by
  unfold failOpen at h
  split at h
  · cases h
  · next f hf =>
    dsimp only at h
    have hfilp : (setFd p fd none s).filp = s.filp := rfl
    rw [hfilp] at h
    split at h
    · cases h
    · next hcount =>
      obtain ⟨s₁, hput, rfl⟩ := ok_of_map h
      exact (unclaimed_refs hs ⟨hf, Classical.not_not.mp hcount, rfl⟩ hput).reply

theorem revive_refs {r : Except Errno ℕ} (hs : Refs C L s)
    (hselect : (s.fproc p).fpBlockedOn ≠ .SELECT) (h : revive p r s = .ok s') : Refs C L s' := by
  by_cases hopen : (s.fproc p).fpBlockedOn = .DOPEN → ∃ n, r = .ok n
  · exact hs.roused (hs.waits.revive_roused h hselect hopen)
  · cases revive_cases h with
    | idle => exact hs
    | revived _ _ hblocked =>
      refine absurd (fun hdopen => ?_) hopen
      rw [hdopen] at hblocked
      rcases hblocked with hb | hb <;> cases hb
    | answered _ _ hrev _ hpipe =>
      have hunblocked : Roused s (unblock p s) := by
        refine ⟨rfl, rfl, rfl, rfl, rfl, roused_update (.unblocked hrev hpipe), fun q hq => ?_⟩
        refine ⟨hq, Function.update_of_ne (fun hqp => hselect ?_) _ _⟩
        rw [← hqp]
        exact (hs.waits.selecting q hq).2
      exact (hs.roused hunblocked).reply
    | failed e _ _ hrev hdopen _ hfail =>
      have hpipe : (s.fproc p).fpBlockedOn ≠ .PIPE := by
        rw [hdopen]
        decide
      have hunblocked : Roused s (unblock p s) := by
        refine ⟨rfl, rfl, rfl, rfl, rfl, roused_update (.unblocked hrev hpipe), fun q hq => ?_⟩
        refine ⟨hq, Function.update_of_ne (fun hqp => hselect ?_) _ _⟩
        rw [← hqp]
        exact (hs.waits.selecting q hq).2
      exact failOpen_refs (hs.roused hunblocked) hfail

theorem Caller.well {x : Fproc} (hs : Waits C s) (hp : Caller C s p)
    (hrev : x.fpRevived = (s.fproc p).fpRevived)
    (hselect : x.fpBlockedOn = .SELECT → x.fpBlockCallnr = .SELECT)
    (hlock : x.fpBlockedOn = .LOCK → x.fpBlockCallnr = .FCNTL) :
    x.WaitsWell (s.selecting p = true) (p < C.NR_PROCS) where
  selecting h := by
    have hb := (hs.selecting p h).2
    rw [hp.runs] at hb
    cases hb
  select _ := hselect
  lock _ := hlock
  revived _ h := by
    have hb := hs.revived p hp.used (hrev ▸ h)
    rw [hp.runs] at hb
    rcases hb with hb | hb <;> cases hb
  slot _ _ := hp.slot

theorem Refs.suspCount (hs : Refs C L s) (n m : ℤ) :
    Refs C L { s with suspCount := n, reviving := m } :=
  hs.roused ⟨rfl, rfl, rfl, rfl, rfl, fun _ => .same, fun _ h => ⟨h, rfl⟩⟩

theorem suspend_refs {why : BlockedOn} (hs : Refs C L s) (hp : Caller C s p)
    (hselect : why = .SELECT → callnr = .SELECT) (hlock : why = .LOCK → callnr = .FCNTL) :
    Refs C L (suspend p why fd callnr s) := by
  unfold suspend
  dsimp only
  split
  · have hwell := hp.well (x := { s.fproc p with
        fpBlockedOn := why, fpBlockFd := fd, fpBlockCallnr := callnr }) hs.waits rfl hselect hlock
    exact (hs.suspCount (s.suspCount + 1) s.reviving).setProc rfl rfl rfl rfl hwell
  · exact hs.setProc rfl rfl rfl rfl (hp.well hs.waits rfl hselect hlock)

theorem pipeOpen_refs {r : Option (Except Errno Unit)} (hs : Refs C L s) (hp : Caller C s p)
    (hc : Claimed s p fd f v) (h : pipeOpen C p fd v bits nonblock callnr s = .ok (r, s')) :
    Refs C L s' ∧ Claimed s' p fd f v ∧ ∀ e, r = some (.error e) → e = ENXIO := by
  unfold pipeOpen at h
  generalize (if bits.w = true then R_BIT else W_BIT) = other at h
  split at h
  · cases h
    exact ⟨hs, hc, fun e he => by cases he; rfl⟩
  · split at h
    · split at h
      · cases h
        refine ⟨hs, hc, fun e he => ?_⟩
        split at he
        · cases he
          rfl
        · cases he
      · cases h
        have hsuspended : Refs C L (suspend p .POPEN fd callnr s) :=
          suspend_refs hs hp (fun h => by cases h) (fun h => by cases h)
        refine ⟨hsuspended, ⟨?_, hc.count, hc.vno⟩, fun e he => by cases he⟩
        have hproc : ((suspend p .POPEN fd callnr s).fproc p).fpFilp = (s.fproc p).fpFilp := by
          unfold suspend
          dsimp only
          rw [if_pos rfl, fproc_setProc, Function.update_self]
        rw [hproc, hc.fd_eq]
    · split at h
      · obtain ⟨s₂, hboth, hpair⟩ := ok_of_map h
        cases hpair
        obtain ⟨s₁, hfirst, hsecond⟩ := ok_of_bind hboth
        have hr₁ := release_roused (by decide) hs.waits hfirst
        have hs₁ := hs.roused hr₁
        have hr₂ := release_roused (by decide) hs₁.waits hsecond
        exact ⟨hs₁.roused hr₂, (hc.roused hr₁).roused hr₂, fun e he => by cases he⟩
      · cases h
        exact ⟨hs, hc, fun e he => by cases he⟩

theorem shareFilp_refs (hs : Refs C L s) (hused : (s.fproc p).free = false)
    (hc : Claimed s p fd f v) (h : shareFilp C p fd f v bits nonblock s = .ok s') : Refs C L s' := by
  obtain ⟨hp, hfd, hf⟩ := hs.fds p fd f hc.fd_eq
  have hzero : (setCount f 0 s).filp f = { s.filp f with filpCount := 0 } :=
    Function.update_self _ _ _
  unfold shareFilp at h
  dsimp only at h
  split at h
  · cases h
    refine ⟨(hs.toLinked.setFilp hf).setFilp hf, hs.waits.congr rfl rfl, fun g => ?_, fun w => ?_⟩
    · rw [filpOwes_setCount, filpOwes_setCount, hs.filpOwes g, hzero, hc.count]
      split <;> simp
    · rw [vnodeOwes_setCount hf, vnodeOwes_setCount hf, hs.vnodeOwes w, hzero, hc.count]
      split <;> simp_all
  · next g hfind =>
    obtain ⟨hg, hcount, hvno, -⟩ := findFilp_some hfind
    have hgf : g ≠ f := by
      intro hgf
      rw [hgf, hzero] at hcount
      exact hcount rfl
    have hfilp : (setCount f 0 s).filp g = s.filp g := Function.update_of_ne hgf _ _
    rw [hfilp] at hcount hvno h
    have hshared : Linked C (setFilp (setCount f 0 s) g
        { s.filp g with filpCount := (s.filp g).filpCount + 1, nonblock := nonblock }) :=
      (hs.toLinked.setFilp hf).setFilp hg
    have hwaits : Waits C (setFilp (setCount f 0 s) g
        { s.filp g with filpCount := (s.filp g).filpCount + 1, nonblock := nonblock }) :=
      hs.waits.congr rfl rfl
    have hsame : ((setFilp (setCount f 0 s) g
        { s.filp g with filpCount := (s.filp g).filpCount + 1, nonblock := nonblock }).fproc p).fpFilp fd
        = some f := hc.fd_eq
    have hput := h
    obtain ⟨-, hs'⟩ := putVnode_ok h
    subst hs'
    refine ⟨(hshared.setFd fun g' hg' => ?_).setVnode, hwaits.setFd.congr rfl rfl, fun g' => ?_,
      fun w => ?_⟩
    · cases hg'
      exact ⟨hp, hfd, hg, hused⟩
    · rw [filpOwes_setVnode, filpOwes_setFd hp hfd, filpOwes_setFilp, filpOwes_setCount,
        hs.filpOwes g', hsame, hfilp, hc.count]
      by_cases hg'f : g' = f
      · simp [hg'f, hgf, hgf.symm]
      · by_cases hg'g : g' = g
        · simp [hg'g, hgf, hgf.symm]
        · simp [hg'f, hg'g, Ne.symm hg'f, Ne.symm hg'g]
    · rw [vnodeOwes_putVnode hput, vnodeOwes_setFd, vnodeOwes_setFilp hg, vnodeOwes_setCount hf,
        hs.vnodeOwes w, hfilp, hc.vno, hc.count]
      by_cases hw : w = v
      · simp [hw, Filp.On, hcount, hvno]
      · simp [hw, Ne.symm hw, Filp.On, hvno]

end Open

end Vfs
