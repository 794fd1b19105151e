import Cs111.Vfs.RefProcs

namespace Vfs
open Tally

section Exit
variable {C : VfsConfig} {L : ℕ → ℕ} {s s' : VfsState} {p v : ℕ} {a : ExitArgs} {e : Option Errno}

structure Interrupted (p : ℕ) (s s' : VfsState) : Prop where
  used : (s.fproc p).free = false
  blocked : (s.fproc p).fpBlockedOn ≠ .NONE
  fproc : s'.fproc = Function.update s.fproc p
    { s.fproc p with fpBlockedOn := .NONE, fpRevived := false }
  selecting : s'.selecting = if (s.fproc p).fpBlockedOn = .SELECT then
    Function.update s.selecting p false else s.selecting
  filp : s'.filp = s.filp
  vnode : s'.vnode = s.vnode
  dmapSelFilp : s'.dmapSelFilp = s.dmapSelFilp
  mounts : s'.mounts = s.mounts
  inFlight : s'.inFlight = s.inFlight
  suspCount : s'.suspCount = s.suspCount - if ((s.fproc p).fpBlockedOn = .PIPE ∨
    (s.fproc p).fpBlockedOn = .POPEN) ∧ (s.fproc p).fpRevived = false then 1 else 0
  reviving : s'.reviving = s.reviving - if (s.fproc p).fpRevived = true then 1 else 0

theorem unpause_cases (hs : Waits C s) :
    (unpause p e s = s ∧ ((s.fproc p).free = true ∨ (s.fproc p).fpBlockedOn = .NONE ∨
      (s.fproc p).fpBlockedOn = .DOPEN ∨ (s.fproc p).fpBlockedOn = .OTHER)) ∨
      Interrupted p s (unpause p e s) := by
  unfold unpause
  dsimp only
  split
  · next hidle => exact .inl ⟨rfl, hidle.imp_right .inl⟩
  · next hidle =>
    push Not at hidle
    obtain ⟨hfree, hblocked⟩ := hidle
    have hfree : (s.fproc p).free = false := Bool.not_eq_true _ ▸ hfree
    cases hrev : (s.fproc p).fpRevived with
    | true =>
      have hlater := hs.revived p hfree hrev
      have hselect : (s.fproc p).fpBlockedOn ≠ .SELECT := by
        rcases hlater with hb | hb <;> rw [hb] <;> decide
      have hends : interrupts (s.fproc p).fpBlockedOn e = some .EINTR := by
        rcases hlater with hb | hb <;> rw [hb] <;> rfl
      rw [hends]
      right
      refine ⟨hfree, hblocked, ?_, ?_, ?_, ?_, ?_, ?_, ?_, ?_, ?_⟩
      all_goals
        simp [hrev, hselect, unblock, setProc, reply, Function.update_idem]
    | false =>
      cases hends : interrupts (s.fproc p).fpBlockedOn e with
      | none =>
        left
        refine ⟨by simp, .inr (.inr ?_)⟩
        cases hb : (s.fproc p).fpBlockedOn <;> rw [hb] at hends <;> first
          | exact .inl rfl
          | exact .inr rfl
          | cases hends
      | some status =>
        right
        refine ⟨hfree, hblocked, ?_, ?_, ?_, ?_, ?_, ?_, ?_, ?_, ?_⟩
        all_goals
          simp only [hrev, unblock, setProc, reply, Bool.false_eq_true, if_false, not_false_eq_true,
            and_true]
          split_ifs <;> simp_all

theorem Interrupted.refs (hs : Refs C L s) (h : Interrupted p s s') : Refs C L s' := by
  have hcleared : Refs C L (setProc s p { s.fproc p with fpBlockedOn := .NONE, fpRevived := false }) ∨
      (s.fproc p).fpBlockedOn = .SELECT := by
    by_cases hselect : (s.fproc p).fpBlockedOn = .SELECT
    · exact .inr hselect
    · refine .inl (hs.setProc rfl rfl rfl rfl ⟨fun hsel => ?_, fun _ hb => ?_, fun _ hb => ?_,
        fun _ hr => ?_, fun _ hb => absurd rfl hb⟩)
      · exact absurd (hs.waits.selecting p hsel).2 hselect
      all_goals first | cases hb | cases hr
  have hproc : ∀ q, (s'.fproc q).fpFilp = (s.fproc q).fpFilp ∧ (s'.fproc q).fpRd = (s.fproc q).fpRd ∧
      (s'.fproc q).fpWd = (s.fproc q).fpWd ∧ (s'.fproc q).free = (s.fproc q).free := by
    intro q
    rw [h.fproc, Function.update_apply]
    split
    · next hq =>
      subst hq
      exact ⟨rfl, rfl, rfl, rfl⟩
    · exact ⟨rfl, rfl, rfl, rfl⟩
  refine ⟨⟨fun q fd f hf => ?_, fun f hf => ?_, fun q hq fd => ?_, fun q hq => ?_, fun m f hf => ?_⟩,
    waits_of_well fun q => ?_, fun f => ?_, fun v => ?_⟩
  · rw [(hproc q).1] at hf
    exact hs.fds q fd f hf
  · rw [h.filp] at hf
    exact hs.filps f hf
  · rw [(hproc q).2.2.2] at hq
    rw [(hproc q).1]
    exact hs.freeFds q hq fd
  · rw [(hproc q).2.2.2] at hq
    rw [(hproc q).2.1, (hproc q).2.2.1]
    exact hs.freeDirs q hq
  · rw [h.dmapSelFilp] at hf
    exact hs.sel m f hf
  · rw [h.fproc, h.selecting]
    by_cases hq : q = p
    · subst hq
      rw [Function.update_self]
      refine ⟨fun hsel => ?_, fun _ hb => ?_, fun _ hb => ?_, fun _ hr => ?_,
        fun _ hb => absurd rfl hb⟩
      · split at hsel
        · rw [Function.update_self] at hsel
          cases hsel
        · next hne => exact absurd (hs.waits.selecting q hsel).2 hne
      all_goals first | cases hb | cases hr
    · rw [Function.update_of_ne hq]
      split
      · rw [Function.update_of_ne hq]
        exact hs.waits.well q
      · exact hs.waits.well q
  · have hrefs : filpRefs C s' f = filpRefs C s f :=
      filpRefs_congr (fun q => (hproc q).1) h.dmapSelFilp h.inFlight
    rw [Vfs.filpOwes, hrefs, h.filp]
    exact hs.filpOwes f
  · have hrefs : vnodeRefs C s' v = vnodeRefs C s v :=
      vnodeRefs_congr (fun q => (hproc q).2.1) (fun q => (hproc q).2.2.1) h.mounts h.filp
    rw [Vfs.vnodeOwes, hrefs, h.vnode]
    exact hs.vnodeOwes v

theorem unpause_refs (hs : Refs C L s) : Refs C L (unpause p e s) := by
  rcases unpause_cases (p := p) (e := e) hs.waits with h | h
  · rw [h.1]
    exact hs
  · exact h.refs hs

theorem unpause_not_select (hs : Waits C s) (hused : (s.fproc p).free = false) :
    ((unpause p e s).fproc p).fpBlockedOn ≠ .SELECT := by
  rcases unpause_cases (p := p) (e := e) hs with h | h
  · rw [h.1]
    rcases h.2 with hfree | hb | hb | hb
    · rw [hused] at hfree
      cases hfree
    all_goals rw [hb]; decide
  · rw [h.fproc, Function.update_self]
    exact fun hb => by cases hb

theorem closeAll_refs (fds : List ℕ) (hs : Refs C L s) (h : closeAll C p a fds s = .ok s') :
    Refs C L s' ∧ (∀ fd, (s'.fproc p).fpFilp fd = if fd ∈ fds then none else (s.fproc p).fpFilp fd) ∧
      (s'.fproc p).free = (s.fproc p).free ∧ ((s'.fproc p).fpBlockedOn = .NONE ∨
        (s'.fproc p).fpBlockedOn = (s.fproc p).fpBlockedOn) := by
  induction fds generalizing s with
  | nil =>
    cases h
    exact ⟨hs, fun fd => (if_neg List.not_mem_nil).symm, rfl, .inr rfl⟩
  | cons fd fds ih =>
    obtain ⟨s₁, hclose, hrest⟩ := ok_of_bind h
    have hclosed := closeFd_closed hs hclose
    obtain ⟨hs', hfds, hfree, hblocked⟩ := ih hclosed.toRefs hrest
    refine ⟨hs', fun fd' => ?_, hfree.trans (hclosed.free_eq p), ?_⟩
    · rw [hfds, hclosed.fd_eq]
      by_cases hmem : fd' ∈ fds
      · rw [if_pos hmem, if_pos (List.mem_cons_of_mem _ hmem)]
      · rw [if_neg hmem]
        by_cases heq : fd' = fd
        · rw [if_pos ⟨rfl, heq⟩, if_pos (List.mem_cons.mpr (.inl heq))]
        · rw [if_neg fun h => heq h.2, if_neg fun h => (List.mem_cons.mp h).elim heq hmem]
    · rcases hblocked with hb | hb
      · exact .inl hb
      · rw [hb]
        exact hclosed.blocked_or p

theorem putDir_cases {dir : Option ℕ} (h : putDir dir s = .ok s') : s'.fproc = s.fproc ∧
    s'.filp = s.filp ∧ s'.selecting = s.selecting ∧ s'.dmapSelFilp = s.dmapSelFilp ∧
    (∀ f, filpOwes C s' f = filpOwes C s f) ∧
    ∀ v, vnodeOwes C s' v = vnodeOwes C s v - if dir = some v then 1 else 0 := by
  unfold putDir at h
  split at h
  · cases h
    exact ⟨rfl, rfl, rfl, rfl, fun _ => rfl, fun v => by simp⟩
  · next w =>
    have hput := h
    obtain ⟨-, rfl⟩ := putVnode_ok h
    refine ⟨rfl, rfl, rfl, rfl, fun _ => rfl, fun v => ?_⟩
    rw [vnodeOwes_putVnode hput]
    by_cases hv : v = w
    · simp [hv]
    · simp [hv, Ne.symm hv]

theorem tally_cleared {q : Fproc → Prop} [DecidablePred q] {x : Fproc} (hp : p < C.NR_PROCS)
    (hnot : ¬ q x) : (tally C.NR_PROCS q (Function.update s.fproc p x) : ℤ) =
      tally C.NR_PROCS q s.fproc - if q (s.fproc p) then 1 else 0 := by
  have hupdate := tally_update (p := q) (f := s.fproc) (v := x) hp
  rw [if_neg hnot] at hupdate
  split_ifs at hupdate ⊢ <;> omega

theorem retire_vnodeOwes {rfp : Fproc} (hp : p < C.NR_PROCS) (hrd : rfp.fpRd = none)
    (hwd : rfp.fpWd = none) (v : ℕ) : vnodeOwes C (setProc s p rfp) v =
      vnodeOwes C s v + (if (s.fproc p).fpRd = some v then 1 else 0) +
        if (s.fproc p).fpWd = some v then 1 else 0 := by
  have hr := tally_cleared (s := s) (q := fun rfp : Fproc => rfp.fpRd = some v) (x := rfp) hp
    (by simp [hrd])
  have hw := tally_cleared (s := s) (q := fun rfp : Fproc => rfp.fpWd = some v) (x := rfp) hp
    (by simp [hwd])
  rw [← fproc_setProc] at hr hw
  have hvnode : (setProc s p rfp).vnode = s.vnode := rfl
  have hmounts : (setProc s p rfp).mounts = s.mounts := rfl
  have hfilp : (setProc s p rfp).filp = s.filp := rfl
  rw [vnodeOwes, vnodeOwes, vnodeRefs, vnodeRefs, hvnode, hmounts, hfilp]
  push_cast
  rw [hr, hw]
  omega

theorem retire_refs {rfp : Fproc} (hs : Linked C s) (hwaits : Waits C s)
    (hfilp : ∀ f, filpOwes C s f = 0)
    (hvnode : ∀ v, vnodeOwes C s v = L v - (if (s.fproc p).fpRd = some v then 1 else 0) -
      if (s.fproc p).fpWd = some v then 1 else 0)
    (hp : p < C.NR_PROCS) (hselect : (s.fproc p).fpBlockedOn ≠ .SELECT)
    (hnone : ∀ fd, (s.fproc p).fpFilp fd = none) (hfd : rfp.fpFilp = (s.fproc p).fpFilp)
    (hrd : rfp.fpRd = none) (hwd : rfp.fpWd = none) (hfree : rfp.free = true) :
    Refs C L (setProc s p rfp) := by
  refine ⟨⟨fun q fd f hf => ?_, hs.filps, fun q hq fd => ?_, fun q hq => ?_, hs.sel⟩,
    hwaits.setProc ⟨fun hsel => ?_, ?_, ?_, ?_, ?_⟩, fun f => ?_, fun v => ?_⟩
  · rw [fproc_setProc, Function.update_apply] at hf
    split at hf
    · rw [hfd, hnone] at hf
      cases hf
    · exact hs.fds q fd f hf
  · rw [fproc_setProc, Function.update_apply] at hq ⊢
    split
    · rw [hfd, hnone]
    · next hqp =>
      rw [if_neg hqp] at hq
      exact hs.freeFds q hq fd
  · rw [fproc_setProc, Function.update_apply] at hq ⊢
    split
    · exact ⟨hrd, hwd⟩
    · next hqp =>
      rw [if_neg hqp] at hq
      exact hs.freeDirs q hq
  · exact absurd (hwaits.selecting p hsel).2 hselect
  all_goals first | exact fun hused => absurd (hfree.symm.trans hused) (by decide) | skip
  · exact (filpOwes_setProc hfd).trans (hfilp f)
  · rw [retire_vnodeOwes hp hrd hwd, hvnode]
    omega

theorem freeProc_refs (hs : Refs C L s) (hp : Used C s p) (h : freeProc C p a s = .ok s') :
    Refs C L s' := by
  obtain ⟨hslot, hused⟩ := hp
  have hstart := unpause_refs (p := p) (e := a.cancelled) hs
  have hnot := unpause_not_select (e := a.cancelled) hs.waits hused
  obtain ⟨s₁, hclose, h⟩ := ok_of_bind h
  obtain ⟨s₂, horphans, h⟩ := ok_of_bind h
  obtain ⟨s₃, hselects, h⟩ := ok_of_bind h
  obtain ⟨s₄, hrd, h⟩ := ok_of_bind h
  obtain ⟨s₅, hwd, rfl⟩ := ok_of_map h
  obtain ⟨hs₁, hfds, -, hblocked₁⟩ := closeAll_refs _ hstart hclose
  have hr₂ := unsuspend_roused hs₁.waits horphans
  have hs₂ := hs₁.roused hr₂
  have hr₃ := selectCallback_roused _ hs₂.waits hselects
  have hs₃ := hs₂.roused hr₃
  have hall : ∀ fd, (s₃.fproc p).fpFilp fd = none := by
    intro fd
    rw [(hr₃.fproc p).fpFilp_eq, (hr₂.fproc p).fpFilp_eq]
    by_cases hfd : fd < C.OPEN_MAX
    · rw [hfds, if_pos (List.mem_range.mpr hfd)]
    · cases hf : (s₁.fproc p).fpFilp fd with
      | none => rfl
      | some f => exact absurd (hs₁.fds p fd f hf).2.1 hfd
  have hselect : (s₃.fproc p).fpBlockedOn ≠ .SELECT := by
    have hb₁ : (s₁.fproc p).fpBlockedOn ≠ .SELECT := by
      rcases hblocked₁ with hb | hb <;> rw [hb]
      · decide
      · exact hnot
    have hb₂ : (s₂.fproc p).fpBlockedOn ≠ .SELECT := by
      rcases (hr₂.fproc p).blocked_or with hb | hb <;> rw [hb]
      · decide
      · exact hb₁
    rcases (hr₃.fproc p).blocked_or with hb | hb <;> rw [hb]
    · decide
    · exact hb₂
  obtain ⟨hproc₄, hfilp₄, hsel₄, hdmap₄, howes₄, hvnode₄⟩ := putDir_cases (C := C) hrd
  obtain ⟨hproc₅, hfilp₅, hsel₅, hdmap₅, howes₅, hvnode₅⟩ := putDir_cases (C := C) hwd
  have hproc : s₅.fproc = s₃.fproc := hproc₅.trans hproc₄
  have hself : s₅.fproc p = s₃.fproc p := congrFun hproc p
  have hlinked₅ : Linked C s₅ := by
    refine hs₃.toLinked.congr hproc (fun f hf => ?_) (hdmap₅.trans hdmap₄)
    rw [hfilp₅, hfilp₄] at hf
    exact hs₃.filps f hf
  have hwaits₅ : Waits C s₅ := hs₃.waits.congr hproc (hsel₅.trans hsel₄)
  refine retire_refs hlinked₅ hwaits₅ (fun f => ?_) (fun v => ?_) hslot ?_ ?_ rfl rfl rfl rfl
  · rw [howes₅, howes₄, hs₃.filpOwes]
  · rw [hvnode₅, hvnode₄, hs₃.vnodeOwes, hself, hproc₄]
  · rw [hself]
    exact hselect
  · rw [hself]
    exact hall

end Exit

end Vfs
