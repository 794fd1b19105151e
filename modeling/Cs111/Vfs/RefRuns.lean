import Cs111.Vfs.RefWork

namespace Vfs
open Tally TransitionSystem

section Work
variable {C : VfsConfig} {L : ℕ → ℕ} {s s' : VfsState} {p fd f v nbytes : ℕ} {flag : RwFlag} {woken : Woken}
  {buf : List Byte} {outcome : LockOutcome}

theorem pipeCheck_roused {nonblock : Bool} {bytes pos : ℕ} {r : Check} (hs : Waits C s)
    (h : pipeCheck C v flag nonblock bytes pos woken s = .ok (r, s')) : Roused s s' := by
  rcases pipeCheck_cases C v flag nonblock bytes pos woken s with ⟨r', hr⟩ | ⟨callnr, r', hcall, hr⟩
  · rw [hr] at h
    cases h
    exact .refl _
  · rw [hr] at h
    obtain ⟨s₁, hrelease, hpair⟩ := ok_of_map h
    cases hpair
    exact release_roused hcall.1 hs hrelease

theorem setPartial_refs (hs : Refs C L s) (n : ℕ) : Refs C L (setPartial p n s) :=
  hs.setProc rfl rfl rfl rfl ⟨hs.waits.selecting p, hs.waits.select p, hs.waits.lock p,
    hs.waits.revived p, hs.waits.slot p⟩

theorem pipeSuspend_refs (hs : Refs C L s) (hp : Caller C s p) :
    Refs C L (pipeSuspend p flag fd buf nbytes s) := by
  have hwell := hp.well (x := { s.fproc p with
      fpBlockedOn := .PIPE
      fpBlockFd := fd
      fpBlockCallnr := if flag = .READING then .READ else .WRITE
      fpBuffer := buf
      fpNbytes := nbytes }) hs.waits rfl (fun h => by cases h) (fun h => by cases h)
  exact (hs.suspCount (s.suspCount + 1) s.reviving).setProc rfl rfl rfl rfl hwell

theorem readPipe_refs (hs : Refs C L s) : Refs C L (readPipe v nbytes s).2 := by
  refine hs.setVnode ?_
  split
  all_goals split <;> rfl

theorem movePipe_refs {nonblock : Bool} {cumIo : ℕ} {r : Check} (hs : Refs C L s)
    (hp : Caller C s p) : Refs C L (movePipe flag p fd v nonblock buf nbytes cumIo r s).2 := by
  unfold movePipe
  cases r with
  | error e => exact hs
  | suspend => exact pipeSuspend_refs hs hp
  | bytes size =>
    dsimp only
    split
    · exact hs
    · cases flag with
      | READING => exact setPartial_refs (readPipe_refs hs) 0
      | WRITING =>
        have hwritten : Refs C L (writePipe v (buf.take size) s) := hs.setVnode rfl
        dsimp only
        split
        · refine pipeSuspend_refs (setPartial_refs hwritten _) (hp.congr ?_ ?_)
          all_goals rw [setPartial, fproc_setProc, Function.update_self]; rfl
        · exact setPartial_refs hwritten 0

theorem rwPipe_refs {m : Moved} (hs : Refs C L s) (hp : Caller C s p)
    (h : rwPipe C flag p fd f buf nbytes woken s = .ok (m, s')) : Refs C L s' := by
  obtain ⟨⟨r, s₁⟩, hcheck, hmoved⟩ := ok_of_map h
  have hroused := pipeCheck_roused hs.waits hcheck
  have hs' : Refs C L (movePipe flag p fd (s.filp f).filpVno (s.filp f).nonblock buf nbytes
      (s.fproc p).fpCumIoPartial r s₁).2 := movePipe_refs (hs.roused hroused) (hp.roused hroused)
  dsimp only at hmoved
  rwa [hmoved] at hs'

theorem finish_refs {m : Moved × VfsState} (hs : Refs C L m.2) : Refs C L (finish p m) := by
  unfold finish
  split
  · exact hs
  · exact hs.reply

theorem readWrite_refs {m : Moved} (hs : Refs C L s) (hp : Caller C s p)
    (h : readWrite C flag p fd buf nbytes woken s = .ok (m, s')) : Refs C L s' := by
  unfold readWrite at h
  generalize (if flag = .READING then R_BIT else W_BIT) = bits at h
  split at h
  · cases h
    exact hs
  · split at h
    · cases h
      exact hs
    · split at h
      · cases h
        exact hs
      · split at h
        · cases h
        · exact rwPipe_refs hs hp h

theorem lockOp_refs (hs : Refs C L s) (hp : Caller C s p)
    (h : lockOp C p fd outcome s = .ok s') : Refs C L s' := by
  unfold lockOp at h
  cases outcome with
  | waits =>
    cases h
    exact suspend_refs hs hp (fun h => by cases h) fun _ => rfl
  | done r unlocks =>
    obtain ⟨s₁, hlocks, rfl⟩ := ok_of_map h
    split at hlocks
    · exact (hs.roused (lockRevive_roused hs.waits hlocks)).reply
    · cases hlocks
      exact hs.reply

theorem wake_refs (hs : Refs C L s) (hp : p < C.NR_PROCS) (hrev : (s.fproc p).reviving) :
    Refs C L (wake p s) ∧ Caller C (wake p s) p := by
  have hself : (wake p s).fproc p =
      { s.fproc p with fpBlockedOn := .NONE, fpRevived := false } := by
    rw [wake, fproc_setProc, Function.update_self]
  refine ⟨(hs.suspCount s.suspCount (s.reviving - 1)).setProc rfl rfl rfl rfl ⟨fun hsel => ?_,
    fun _ hb => ?_, fun _ hb => ?_, fun _ hr => ?_, fun _ hb => absurd rfl hb⟩, ⟨hp, ?_, ?_⟩⟩
  · have hb := (hs.waits.selecting p hsel).2
    rcases hs.waits.revived p hrev.1 hrev.2 with hb' | hb' <;> rw [hb'] at hb <;> cases hb
  · cases hb
  · cases hb
  · cases hr
  · rw [hself]
    exact hrev.1
  · rw [hself]

theorem getWork_refs (hs : Refs C L s)
    (hp : (∃ q < C.NR_PROCS, (s.fproc q).reviving) → p < C.NR_PROCS ∧ (s.fproc p).reviving)
    (h : getWork C p woken outcome s = .ok s') : Refs C L s' := by
  obtain ⟨hsome, hwork⟩ := getWork_ok h
  obtain ⟨hslot, hrev⟩ := hp hsome
  obtain ⟨hwoken, hcaller⟩ := wake_refs hs hslot hrev
  rcases hwork with ⟨-, m, s₁, hretry, rfl⟩ | ⟨-, hlock⟩
  · obtain ⟨f, -, hmoved⟩ := retryPipe_ok hretry
    exact finish_refs (rwPipe_refs hwoken hcaller hmoved)
  · exact lockOp_refs hwoken hcaller hlock

end Work

section Passing
variable {C : VfsConfig} {L : ℕ → ℕ} {s s' : VfsState} {p fd f major : ℕ} {woken closing : Woken}

theorem passFilp_refs (hs : Refs C L s) (hf : (s.filp f).filpCount ≠ 0) : Refs C L (passFilp f s) := by
  have hlt := hs.filps f hf
  have hlinked : Linked C (setCount f ((s.filp f).filpCount + 1) s) := hs.toLinked.setFilp hlt
  refine ⟨⟨hlinked.fds, hlinked.filps, hlinked.freeFds, hlinked.freeDirs, hlinked.sel⟩,
    hs.waits.congr rfl rfl, fun g => ?_, fun v => ?_⟩
  · have hset := filpOwes_setCount (C := C) (s := s) (f := g) (g := f)
      (n := (s.filp f).filpCount + 1)
    have hflight : (passFilp f s).inFlight g = s.inFlight g + if g = f then 1 else 0 := by
      have happly : (passFilp f s).inFlight g = if g = f then s.inFlight f + 1 else s.inFlight g :=
        Function.update_apply _ _ _ _
      rw [happly]
      split
      · next hg => rw [hg]
      · rfl
    have hrefs : filpRefs C (passFilp f s) g = filpRefs C s g + if g = f then 1 else 0 := by
      rw [filpRefs, hflight, filpRefs]
      exact (Nat.add_assoc _ _ _).symm
    have hcount : (passFilp f s).filp = (setCount f ((s.filp f).filpCount + 1) s).filp := rfl
    have hsame : filpRefs C (setCount f ((s.filp f).filpCount + 1) s) g = filpRefs C s g := rfl
    have hzero := hs.filpOwes g
    rw [filpOwes, hcount, hrefs]
    rw [filpOwes, hsame, hzero] at hset
    split_ifs at hset ⊢ <;> push_cast <;> omega
  · have hset := vnodeOwes_setCount (C := C) (s := s) (v := v) (n := (s.filp f).filpCount + 1) hlt
    rw [hs.vnodeOwes v] at hset
    refine Eq.trans (Eq.trans rfl hset) ?_
    by_cases hv : (s.filp f).filpVno = v
    · simp [hv, hf]
    · simp [hv]

theorem copyFilp_refs (hs : Refs C L s) (hp : Used C s p) (hf : (s.filp f).filpCount ≠ 0) :
    Refs C L (copyFilp C p f s) := by
  unfold copyFilp
  split
  · exact hs
  · next j hj =>
    obtain ⟨hlt, hnone⟩ := mem_of_find hj
    exact attach_refs hs hp.1 hp.2 hlt hnone hf

theorem putFilp_refs (hs : Refs C L s) (hf : s.inFlight f ≠ 0)
    (h : putFilp C f woken s = .ok s') : Refs C L s' := by
  obtain ⟨s₁, hclose, rfl⟩ := ok_of_map h
  have hcount : (s.filp f).filpCount ≠ 0 := by
    rw [hs.filpCount f, filpRefs]
    omega
  have hdropped := closeFilp_dropped hs.toLinked hs.waits hs.vnodeOwes hcount hclose
  refine ⟨⟨hdropped.fds, hdropped.filps, hdropped.freeFds, hdropped.freeDirs, hdropped.sel⟩,
    hdropped.waits.congr rfl rfl, fun g => ?_, fun v => hdropped.vnodeOwes v⟩
  have howes := hdropped.filpOwes g
  rw [hs.filpOwes g] at howes
  have hflight : s₁.inFlight f ≠ 0 := by
    rw [hdropped.inFlight]
    exact hf
  rw [filpOwes, filpRefs] at howes ⊢
  have hsame : fdRefs C { s₁ with inFlight := Function.update s₁.inFlight f (s₁.inFlight f - 1) } g =
      fdRefs C s₁ g := rfl
  rw [hsame]
  dsimp only
  rw [Function.update_apply]
  by_cases hg : g = f
  · subst hg
    rw [if_pos rfl] at howes ⊢
    push_cast at howes ⊢
    omega
  · rw [if_neg hg] at howes ⊢
    exact howes

theorem cancelFd_refs (hs : Refs C L s)
    (hshared : ∀ f, (s.fproc p).fpFilp fd = some f → 1 < (s.filp f).filpCount) :
    Refs C L (cancelFd p fd s) := by
  unfold cancelFd
  split
  · exact hs
  · next f hf =>
    have hmany := hshared f hf
    obtain ⟨hp, hfd, hlt⟩ := hs.fds p fd f hf
    have hlinked : Linked C (setCount f ((s.filp f).filpCount - 1) s) := hs.toLinked.setFilp hlt
    have hwaits : Waits C (setCount f ((s.filp f).filpCount - 1) s) := hs.waits.congr rfl rfl
    have hsame : ((setCount f ((s.filp f).filpCount - 1) s).fproc p).fpFilp fd = some f := hf
    refine ⟨hlinked.setFd (by simp), hwaits.setFd, fun g => ?_, fun v => ?_⟩
    · rw [filpOwes_setFd hp hfd, filpOwes_setCount, hs.filpOwes g, hsame]
      by_cases hg : g = f
      · subst hg
        simp only [if_true]
        rw [if_neg (by simp)]
        omega
      · simp [hg, Ne.symm hg]
    · rw [vnodeOwes_setFd, vnodeOwes_setCount hlt, hs.vnodeOwes v]
      have hleft : (s.filp f).filpCount - 1 ≠ 0 := by omega
      have hright : (s.filp f).filpCount ≠ 0 := by omega
      by_cases hv : (s.filp f).filpVno = v
      · simp only [hv, hleft, hright, ne_eq, not_false_eq_true, and_self, if_true]
        omega
      · simp [hv]

theorem selRefs_update {x : Option ℕ} (hm : major < C.NR_DEVICES) (g : ℕ) :
    (tally C.NR_DEVICES (· = some g) (Function.update s.dmapSelFilp major x) : ℤ) =
      tally C.NR_DEVICES (· = some g) s.dmapSelFilp -
        (if s.dmapSelFilp major = some g then 1 else 0) + if x = some g then 1 else 0 := by
  have hupdate := tally_update (p := (· = some g)) (f := s.dmapSelFilp) (v := x) hm
  split_ifs at hupdate ⊢ <;> omega

theorem selectAsynch_refs (hs : Refs C L s) (hf : (s.filp f).filpCount ≠ 0)
    (hm : major < C.NR_DEVICES) : Refs C L (selectAsynch f major s) := by
  have hlt := hs.filps f hf
  unfold selectAsynch
  split
  · exact hs
  · next hnone =>
    have hlinked : Linked C (setCount f ((s.filp f).filpCount + 1) s) := hs.toLinked.setFilp hlt
    refine ⟨⟨hlinked.fds, hlinked.filps, hlinked.freeFds, hlinked.freeDirs, fun m g hg => ?_⟩,
      hs.waits.congr rfl rfl, fun g => ?_, fun v => ?_⟩
    · dsimp only at hg
      rw [Function.update_apply] at hg
      split at hg
      · next hmm =>
        cases hg
        exact ⟨hmm ▸ hm, hlt⟩
      · exact hs.sel m g hg
    · have hset := filpOwes_setCount (C := C) (s := s) (f := g) (g := f)
        (n := (s.filp f).filpCount + 1)
      have hsel := selRefs_update (C := C) (s := s) (x := some f) hm g
      rw [hnone] at hsel
      rw [hs.filpOwes g, filpOwes, filpRefs] at hset
      have hsame : (setCount f ((s.filp f).filpCount + 1) s).dmapSelFilp = s.dmapSelFilp := rfl
      rw [hsame] at hset
      rw [filpOwes, filpRefs]
      have hfds : fdRefs C { setCount f ((s.filp f).filpCount + 1) s with
          dmapSelFilp := Function.update s.dmapSelFilp major (some f) } g =
          fdRefs C (setCount f ((s.filp f).filpCount + 1) s) g := rfl
      rw [hfds]
      dsimp only
      push_cast at hset ⊢
      rw [hsel]
      by_cases hg : g = f
      · subst hg
        simp only [if_true] at hset ⊢
        rw [if_neg (by simp)]
        omega
      · rw [if_neg hg] at hset
        rw [if_neg (by simp), if_neg (by simp [Ne.symm hg])]
        omega
    · have hset := vnodeOwes_setCount (C := C) (s := s) (v := v) (n := (s.filp f).filpCount + 1) hlt
      rw [hs.vnodeOwes v] at hset
      refine Eq.trans (Eq.trans rfl hset) ?_
      by_cases hv : (s.filp f).filpVno = v
      · simp [hv, hf]
      · simp [hv]

theorem selectReply1_refs (hs : Refs C L s) (h : selectReply1 C major woken closing s = .ok s') :
    Refs C L s' := by
  unfold selectReply1 at h
  split at h
  · cases h
    exact hs
  · next f hsel =>
    obtain ⟨hm, hlt⟩ := hs.sel major f hsel
    -- the filp is counted once too often until the end
    let s₀ : VfsState := { s with dmapSelFilp := Function.update s.dmapSelFilp major none }
    have hlinked : Linked C s₀ := by
      refine ⟨hs.fds, hs.filps, hs.freeFds, hs.freeDirs, fun m g hg => ?_⟩
      dsimp only [s₀] at hg
      rw [Function.update_apply] at hg
      split at hg
      · cases hg
      · exact hs.sel m g hg
    have hwaits : Waits C s₀ := hs.waits.congr rfl rfl
    have howes : ∀ g, filpOwes C s₀ g = if g = f then 1 else 0 := by
      intro g
      have hrefs := selRefs_update (C := C) (s := s) (x := none) hm g
      have hzero := hs.filpOwes g
      have hfds : fdRefs C s₀ g = fdRefs C s g := rfl
      rw [hsel, if_neg (by simp : ¬ (none : Option ℕ) = some g)] at hrefs
      rw [filpOwes, filpRefs] at hzero ⊢
      rw [hfds]
      dsimp only [s₀]
      push_cast at hzero ⊢
      rw [hrefs]
      by_cases hg : g = f
      · rw [if_pos (by rw [hg]), if_pos hg]
        omega
      · rw [if_neg (by simp [Ne.symm hg]), if_neg hg]
        omega
    obtain ⟨s₁, hwoken, hrest⟩ := ok_of_bind h
    have hroused : Roused s₀ s₁ := selectCallback_roused _ hwaits hwoken
    have hlinked₁ := hlinked.roused hroused
    have hwaits₁ := hwaits.roused hroused
    have howes₁ : ∀ g, filpOwes C s₁ g = if g = f then 1 else 0 := fun g =>
      (filpOwes_roused hroused g).trans (howes g)
    have hvnode₁ : ∀ v, vnodeOwes C s₁ v = L v := fun v =>
      (vnodeOwes_roused hroused v).trans (hs.vnodeOwes v)
    split at hrest
    · next hmany =>
      cases hrest
      refine ⟨hlinked₁.setFilp hlt, hwaits₁.congr rfl rfl, fun g => ?_, fun v => ?_⟩
      · rw [filpOwes_setCount, howes₁ g]
        split <;> omega
      · rw [vnodeOwes_setCount hlt, hvnode₁ v]
        have hleft : (s₁.filp f).filpCount - 1 ≠ 0 := by omega
        have hright : (s₁.filp f).filpCount ≠ 0 := by omega
        by_cases hv : (s₁.filp f).filpVno = v
        · simp only [hv, hleft, hright, ne_eq, not_false_eq_true, and_self, if_true]
          omega
        · simp [hv]
    · split at hrest
      · cases hrest
      · next hone =>
        have hcount : (s₁.filp f).filpCount ≠ 0 := by omega
        have hdropped := closeFilp_dropped hlinked₁ hwaits₁ hvnode₁ hcount hrest
        refine ⟨hdropped.toLinked, hdropped.waits, fun g => ?_, hdropped.vnodeOwes⟩
        rw [hdropped.filpOwes g, howes₁ g]
        omega

end Passing

section Runs
variable {C : VfsConfig} {L : ℕ → ℕ} {s s' : VfsState} {req : Request}

def Request.lost : Request → List Lookup
  | .openFifo _ lost _ _ _ _ _ | .openOther _ lost _ _ _ _ _ _ _ _ | .openMissing _ lost _ => lost
  | _ => []

def KeepsRefs (s : VfsState) : Request → Prop
  | .cancelFd p fd => ∀ f, (s.fproc p).fpFilp fd = some f → 1 < (s.filp f).filpCount
  | .openOther _ _ _ _ _ _ _ _ _ result => result ≠ .ok .overwritten
  | _ => True

def KeepsCounts (s : VfsState) (req : Request) : Prop := KeepsRefs s req ∧ req.lost = []

theorem refs_of_initial (h : Initial C s) : Refs C (fun _ => 0) s := by
  refine ⟨⟨fun p fd f hf => ?_, fun f hf => absurd (h.filps f) hf, fun p _ fd => h.fds p fd,
    h.dirs, fun m f hf => ?_⟩, waits_of_well fun p => ⟨fun hsel => ?_, fun _ hb => ?_,
      fun _ hb => ?_, fun _ hr => ?_, fun _ hb => absurd (h.blocked p) hb⟩, fun f => ?_, fun v => ?_⟩
  · rw [h.fds p fd] at hf
    cases hf
  · rw [h.sel m] at hf
    cases hf
  · rw [h.selecting p] at hsel
    cases hsel
  · rw [h.blocked p] at hb
    cases hb
  · rw [h.blocked p] at hb
    cases hb
  · rw [h.revived p] at hr
    cases hr
  · have hfds : fdRefs C s f = 0 := total_zero fun p _ => tally_zero_iff.mpr fun fd _ hf => by
      rw [h.fds p fd] at hf
      cases hf
    have hsel : tally C.NR_DEVICES (· = some f) s.dmapSelFilp = 0 :=
      tally_zero_iff.mpr fun m _ hm => by
        rw [h.sel m] at hm
        cases hm
    rw [filpOwes, filpRefs, hfds, hsel, h.inFlight, h.filps]
    rfl
  · have hfilps : tally C.NR_FILPS (Filp.On v) s.filp = 0 :=
      tally_zero_iff.mpr fun f _ hf => hf.1 (h.filps f)
    rw [vnodeOwes, vnodeRefs, hfilps, h.refs v]
    omega

theorem Caller.select_refs (hs : Refs C L s) {p : ℕ} (hp : Caller C s p) (n : ℕ) :
    Refs C L { suspend p .SELECT n .SELECT s with
      selecting := Function.update s.selecting p true } := by
  have hsuspended : Refs C L (suspend p .SELECT n .SELECT s) :=
    suspend_refs hs hp (fun _ => rfl) fun h => by cases h
  have hself : (suspend p .SELECT n .SELECT s).fproc p = { s.fproc p with
      fpBlockedOn := .SELECT, fpBlockFd := n, fpBlockCallnr := .SELECT } := Function.update_self _ _ _
  refine ⟨⟨hsuspended.fds, hsuspended.filps, hsuspended.freeFds, hsuspended.freeDirs,
    hsuspended.sel⟩, waits_of_well fun q => ?_, hsuspended.filpOwes, hsuspended.vnodeOwes⟩
  have hwell := hsuspended.waits.well q
  refine ⟨fun hsel => ?_, hwell.select, hwell.lock, hwell.revived, hwell.slot⟩
  by_cases hq : q = p
  · subst hq
    dsimp only
    rw [hself]
    exact ⟨hp.used, rfl⟩
  · dsimp only at hsel
    rw [Function.update_of_ne hq] at hsel
    exact hwell.selecting hsel

theorem handle_kept (hs : Refs C L s) (hsent : Sent C s req) (hkeeps : KeepsCounts s req)
    (h : handle C s req = .ok s') : Refs C L s' := by
  obtain ⟨hkeeps, hlost⟩ := hkeeps
  cases req with
  | read p fd nbytes woken =>
    obtain ⟨⟨m, s₁⟩, hread, rfl⟩ := ok_of_map h
    exact finish_refs (readWrite_refs hs hsent.2.1 hread)
  | write p fd buf woken =>
    obtain ⟨⟨m, s₁⟩, hwrite, rfl⟩ := ok_of_map h
    exact finish_refs (readWrite_refs hs hsent.2.1 hwrite)
  | openFifo p lost v vSize bits nonblock callnr =>
    obtain rfl : lost = [] := hlost
    exact openFifo_refs hs hsent.2.1 h
  | openOther p lost v vSize kind bits nonblock waits callnr result =>
    obtain rfl : lost = [] := hlost
    exact openOther_refs hs hsent.2.1 hsent.2.2.2.2.2.1 hkeeps h
  | openMissing p lost r =>
    obtain rfl : lost = [] := hlost
    cases h
    unfold openMissing
    split <;> exact hs.reply
  | pipe p v created =>
    cases h
    exact doPipe_refs hs hsent.2.1 hsent.2.2
  | close p fd woken unlocks => exact doClose_refs hs h
  | dup p fd start =>
    cases h
    exact doDup_refs hs hsent.2
  | dup2 p fd fd2 woken unlocks => exact doDup2_refs hs hsent.2 h
  | setfl p fd nonblock =>
    cases h
    unfold setfl
    split
    · exact hs.reply
    · next f hf =>
      exact (hs.setFilp (x := { s.filp f with nonblock := nonblock }) (hs.fds p fd f hf).2.2 rfl
        rfl).reply
  | lock p fd outcome => exact lockOp_refs hs hsent.2.1 h
  | device p fd callnr =>
    cases h
    exact suspend_refs hs hsent.2.1 (fun h => by cases h) fun h => by cases h
  | selectPipe f pos woken =>
    obtain ⟨⟨r, s₁⟩, hcheck, rfl⟩ := ok_of_map h
    exact hs.roused (pipeCheck_roused hs.waits hcheck)
  | select p nfds =>
    cases h
    exact hsent.select_refs hs nfds
  | selectWake woken => exact hs.roused (selectCallback_roused _ hs.waits h)
  | driverRevive p r =>
    refine revive_refs hs ?_ h
    rcases hsent.2.1 with hb | hb <;> rw [hb] <;> decide
  | signal p cancelled =>
    cases h
    exact unpause_refs hs
  | fork p c =>
    cases h
    exact pmFork_refs hs hsent.2.1 hsent.2.2.1 hsent.2.2.2
  | exit p a => exact freeProc_refs hs hsent.2 h
  | getWork p woken outcome => exact getWork_refs hs hsent.2 h
  | passFilp f =>
    cases h
    exact passFilp_refs hs hsent.2.2
  | copyFilp p f =>
    cases h
    exact copyFilp_refs hs hsent.2.1 hsent.2.2.2
  | putFilp f woken => exact putFilp_refs hs hsent.2 h
  | cancelFd p fd =>
    cases h
    exact cancelFd_refs hs hkeeps
  | selectAsynch f major =>
    cases h
    exact selectAsynch_refs hs hsent.2.2.1 hsent.2.2.2
  | selectReply major woken closing => exact selectReply1_refs hs h

theorem handle_refs (hs : Refs C L s) (hsent : Sent C s req) (hkeeps : KeepsRefs s req)
    (h : handle C s req = .ok s') : ∃ L', Refs C L' s' := by
  cases req with
  | openFifo p lost v vSize bits nonblock callnr =>
    obtain ⟨L', hs'⟩ := strayed_refs lost hs
    rcases openFifo_strayed h with ⟨r, hfails⟩ | hagain
    · cases hfails
      exact ⟨L, hs.reply⟩
    · exact ⟨L', openFifo_refs hs' (strayed_caller lost hsent.2.1) hagain⟩
  | openOther p lost v vSize kind bits nonblock waits callnr result =>
    obtain ⟨L', hs'⟩ := strayed_refs lost hs
    rcases openOther_strayed h with ⟨r, hfails⟩ | hagain
    · cases hfails
      exact ⟨L, hs.reply⟩
    · exact ⟨L', openOther_refs hs' (strayed_caller lost hsent.2.1) hsent.2.2.2.2.2.1 hkeeps hagain⟩
  | openMissing p lost r =>
    obtain ⟨L', hs'⟩ := strayed_refs lost hs
    rcases openMissing_strayed (Except.ok.inj h) with ⟨r', rfl⟩ | rfl
    · exact ⟨L, hs.reply⟩
    · exact ⟨L', hs'.reply⟩
  | _ => exact ⟨L, handle_kept hs hsent ⟨hkeeps, rfl⟩ h⟩

theorem refs_of_run {past : List (VfsState × Request)}
    (h : Run (vfsSystem C) (fun _ s req => KeepsCounts s req) past s) : Refs C (fun _ => 0) s :=
  h.invariant (fun _ => refs_of_initial) fun _ _ _ _ hs hok hstep =>
    handle_kept hs hstep.1 hok hstep.2

end Runs

section Small

def smallVfs : VfsConfig where
  NR_PROCS := 2
  NR_DEVICES := 1
  NR_FILPS := 2
  OPEN_MAX := 2
  PIPE_BUF := 4
  pipe_buf_pos := Nat.zero_lt_succ 3

def idleProc : Fproc where
  free := false
  fpRd := none
  fpWd := none
  fpFilp _ := none
  fpBlockFd := 0
  fpBlockCallnr := .READ
  fpBuffer := []
  fpNbytes := 0
  fpCumIoPartial := 0
  fpRevived := false
  fpBlockedOn := .NONE

def emptyVfs : VfsState where
  fproc _ := idleProc
  filp _ := ⟨R_BIT, false, 0, 0⟩
  vnode _ := ⟨.FILE, 0, 0, 0, 0, fun _ => 0⟩
  selecting _ := false
  dmapSelFilp _ := none
  mounts _ := 0
  inFlight _ := 0
  suspCount := 0
  reviving := 0
  replied := []

theorem emptyVfs_initial : Initial smallVfs emptyVfs where
  filps _ := rfl
  fds _ _ := rfl
  blocked _ := rfl
  revived _ := rfl
  partials _ := rfl
  dirs _ hfree := by cases hfree
  refs v := by
    have hnone : tally smallVfs.NR_PROCS (·.fpRd = some v) emptyVfs.fproc = 0 :=
      tally_zero_iff.mpr fun _ _ h => by cases h
    have hnone' : tally smallVfs.NR_PROCS (·.fpWd = some v) emptyVfs.fproc = 0 :=
      tally_zero_iff.mpr fun _ _ h => by cases h
    rw [hnone, hnone']
    rfl
  pipes _ h := by cases h
  selecting _ := rfl
  sel _ := rfl
  inFlight _ := rfl
  susp := rfl
  reviving := rfl

def oneFile : VfsState :=
  reply (claim 0 0 0 0 R_BIT false (eatPath 0 .FILE 0 emptyVfs)) 0 (.ok 0)

theorem oneFile_step : (vfsSystem smallVfs).step emptyVfs
    (.openOther 0 [] 0 0 .FILE R_BIT false false .OPEN (.ok .same)) oneFile :=
  ⟨⟨rfl, ⟨Nat.zero_lt_succ 1, rfl, rfl⟩, trivial, by decide, .inl rfl, trivial, .inl rfl⟩, rfl⟩

theorem oneFile_run {ok : List (VfsState × Request) → VfsState → Request → Prop}
    (hok : ok [] emptyVfs (.openOther 0 [] 0 0 .FILE R_BIT false false .OPEN (.ok .same))) :
    Run (vfsSystem smallVfs) ok
      [(emptyVfs, .openOther 0 [] 0 0 .FILE R_BIT false false .OPEN (.ok .same))] oneFile :=
  .next (.start emptyVfs_initial) hok oneFile_step

end Small

end Vfs
