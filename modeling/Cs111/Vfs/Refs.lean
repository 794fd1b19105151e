import Cs111.Vfs.System
import Cs111.Vfs.Roused

namespace Vfs
open Tally

-- Reference counts, as check_filp_locks() and check_vrefs() count them.
section Counts
variable (C : VfsConfig) (s : VfsState)

def fdRefs (f : ℕ) : ℕ :=
  total C.NR_PROCS (fun rfp => tally C.OPEN_MAX (· = some f) rfp.fpFilp) s.fproc

def filpRefs (f : ℕ) : ℕ :=
  fdRefs C s f + tally C.NR_DEVICES (· = some f) s.dmapSelFilp + s.inFlight f

def Filp.On (v : ℕ) (x : Filp) : Prop := x.filpCount ≠ 0 ∧ x.filpVno = v

instance (v : ℕ) (x : Filp) : Decidable (x.On v) := inferInstanceAs (Decidable (_ ∧ _))

def vnodeRefs (v : ℕ) : ℕ :=
  tally C.NR_PROCS (·.fpRd = some v) s.fproc + tally C.NR_PROCS (·.fpWd = some v) s.fproc +
    s.mounts v + tally C.NR_FILPS (Filp.On v) s.filp

def filpOwes (f : ℕ) : ℤ := (s.filp f).filpCount - filpRefs C s f

def vnodeOwes (v : ℕ) : ℤ := (s.vnode v).vRefCount - vnodeRefs C s v

end Counts

section Owes
variable {C : VfsConfig} {L : ℕ → ℕ} {s s' : VfsState} {p fd f g v w n : ℕ}

theorem filpRefs_congr (hfds : ∀ p, (s'.fproc p).fpFilp = (s.fproc p).fpFilp)
    (hsel : s'.dmapSelFilp = s.dmapSelFilp) (hflight : s'.inFlight = s.inFlight) :
    filpRefs C s' f = filpRefs C s f := by
  have hsum : fdRefs C s' f = fdRefs C s f :=
    total_congr fun p _ => congrArg (tally C.OPEN_MAX (· = some f)) (hfds p)
  rw [filpRefs, filpRefs, hsum, hsel, hflight]

theorem vnodeRefs_congr (hrd : ∀ p, (s'.fproc p).fpRd = (s.fproc p).fpRd)
    (hwd : ∀ p, (s'.fproc p).fpWd = (s.fproc p).fpWd) (hmounts : s'.mounts = s.mounts)
    (hfilp : s'.filp = s.filp) : vnodeRefs C s' v = vnodeRefs C s v := by
  have hr : tally C.NR_PROCS (fun rfp => rfp.fpRd = some v) s'.fproc =
      tally C.NR_PROCS (fun rfp => rfp.fpRd = some v) s.fproc :=
    tally_congr fun p _ => by rw [hrd p]
  have hw : tally C.NR_PROCS (fun rfp => rfp.fpWd = some v) s'.fproc =
      tally C.NR_PROCS (fun rfp => rfp.fpWd = some v) s.fproc :=
    tally_congr fun p _ => by rw [hwd p]
  rw [vnodeRefs, vnodeRefs, hr, hw, hmounts, hfilp]

theorem setFd_refs {x : Option ℕ} (hp : p < C.NR_PROCS) (hfd : fd < C.OPEN_MAX) :
    filpRefs C (setFd p fd x s) f + (if (s.fproc p).fpFilp fd = some f then 1 else 0) =
      filpRefs C s f + if x = some f then 1 else 0 := by
  have hall : fdRefs C (setFd p fd x s) f + tally C.OPEN_MAX (· = some f) (s.fproc p).fpFilp =
      fdRefs C s f + tally C.OPEN_MAX (· = some f) (Function.update (s.fproc p).fpFilp fd x) :=
    total_update (w := fun rfp : Fproc => tally C.OPEN_MAX (· = some f) rfp.fpFilp) hp
  have hone := tally_update (p := (· = some f)) (f := (s.fproc p).fpFilp) (v := x) hfd
  have hsel : (setFd p fd x s).dmapSelFilp = s.dmapSelFilp := rfl
  have hflight : (setFd p fd x s).inFlight = s.inFlight := rfl
  rw [filpRefs, filpRefs, hsel, hflight]
  split_ifs at hone ⊢ <;> omega

theorem filpOwes_setFd {x : Option ℕ} (hp : p < C.NR_PROCS) (hfd : fd < C.OPEN_MAX) :
    filpOwes C (setFd p fd x s) f = filpOwes C s f +
      (if (s.fproc p).fpFilp fd = some f then 1 else 0) - if x = some f then 1 else 0 := by
  have hrefs := setFd_refs (C := C) (s := s) (f := f) (x := x) hp hfd
  have hfilp : (setFd p fd x s).filp = s.filp := rfl
  rw [filpOwes, filpOwes, hfilp]
  split_ifs at hrefs ⊢ <;> omega

theorem fproc_setFd (q : ℕ) {x : Option ℕ} : (setFd p fd x s).fproc q =
    if q = p then { s.fproc p with fpFilp := Function.update (s.fproc p).fpFilp fd x }
    else s.fproc q := Function.update_apply _ _ _ _

theorem vnodeOwes_setFd {x : Option ℕ} : vnodeOwes C (setFd p fd x s) v = vnodeOwes C s v := by
  have hrefs : vnodeRefs C (setFd p fd x s) v = vnodeRefs C s v := by
    refine vnodeRefs_congr (fun q => ?_) (fun q => ?_) rfl rfl
    · rw [fproc_setFd]
      split
      · next hq => rw [hq]
      · rfl
    · rw [fproc_setFd]
      split
      · next hq => rw [hq]
      · rfl
  rw [vnodeOwes, vnodeOwes, hrefs]
  rfl

theorem filpOwes_setFilp {x : Filp} : filpOwes C (setFilp s g x) f =
    filpOwes C s f + if f = g then (x.filpCount : ℤ) - (s.filp g).filpCount else 0 := by
  have hrefs : filpRefs C (setFilp s g x) f = filpRefs C s f := rfl
  have hfilp : (setFilp s g x).filp f = if f = g then x else s.filp f :=
    Function.update_apply _ _ _ _
  rw [filpOwes, filpOwes, hrefs, hfilp]
  split
  · next hf =>
    rw [hf]
    omega
  · omega

theorem vnodeOwes_setFilp {x : Filp} (hg : g < C.NR_FILPS) : vnodeOwes C (setFilp s g x) v =
    vnodeOwes C s v + (if (s.filp g).On v then 1 else 0) - if x.On v then 1 else 0 := by
  have hupdate := tally_update (p := Filp.On v) (f := s.filp) (v := x) hg
  have hset : vnodeRefs C (setFilp s g x) v =
      tally C.NR_PROCS (·.fpRd = some v) s.fproc + tally C.NR_PROCS (·.fpWd = some v) s.fproc +
        s.mounts v + tally C.NR_FILPS (Filp.On v) (Function.update s.filp g x) := rfl
  have hvnode : (setFilp s g x).vnode = s.vnode := rfl
  rw [vnodeOwes, vnodeOwes, hset, hvnode, vnodeRefs]
  split_ifs at hupdate ⊢ <;> omega

theorem filpOwes_setCount : filpOwes C (setCount g n s) f =
    filpOwes C s f + if f = g then (n : ℤ) - (s.filp g).filpCount else 0 := filpOwes_setFilp

theorem vnodeOwes_setCount (hg : g < C.NR_FILPS) : vnodeOwes C (setCount g n s) v =
    vnodeOwes C s v + (if (s.filp g).filpCount ≠ 0 ∧ (s.filp g).filpVno = v then 1 else 0) -
      if n ≠ 0 ∧ (s.filp g).filpVno = v then 1 else 0 := vnodeOwes_setFilp hg

theorem filpOwes_setVnode {x : Vnode} : filpOwes C (setVnode s v x) f = filpOwes C s f := rfl

theorem vnodeOwes_setVnode {x : Vnode} : vnodeOwes C (setVnode s w x) v =
    vnodeOwes C s v + if v = w then (x.vRefCount : ℤ) - (s.vnode w).vRefCount else 0 := by
  have hrefs : vnodeRefs C (setVnode s w x) v = vnodeRefs C s v := rfl
  have hvnode : (setVnode s w x).vnode v = if v = w then x else s.vnode v :=
    Function.update_apply _ _ _ _
  rw [vnodeOwes, vnodeOwes, hrefs, hvnode]
  split
  · next hv =>
    rw [hv]
    omega
  · omega

theorem putVnode_ok (h : putVnode s v = .ok s') :
    (s.vnode v).vRefCount ≠ 0 ∧
      s' = setVnode s v { s.vnode v with vRefCount := (s.vnode v).vRefCount - 1 } := by
  unfold putVnode at h
  split at h
  · cases h
  · next hpos =>
    cases h
    exact ⟨hpos, rfl⟩

theorem vnodeOwes_putVnode (h : putVnode s w = .ok s') :
    vnodeOwes C s' v = vnodeOwes C s v - if v = w then 1 else 0 := by
  obtain ⟨hpos, rfl⟩ := putVnode_ok h
  rw [vnodeOwes_setVnode]
  dsimp only
  split <;> omega

theorem vnodeOwes_dupVnode : vnodeOwes C (dupVnode s w) v =
    vnodeOwes C s v + if v = w then 1 else 0 := by
  rw [dupVnode, vnodeOwes_setVnode]
  dsimp only
  split <;> omega

end Owes

structure Linked (C : VfsConfig) (s : VfsState) : Prop where
  fds : ∀ p fd f, (s.fproc p).fpFilp fd = some f → p < C.NR_PROCS ∧ fd < C.OPEN_MAX ∧ f < C.NR_FILPS
  filps : ∀ f, (s.filp f).filpCount ≠ 0 → f < C.NR_FILPS
  freeFds : ∀ p, (s.fproc p).free = true → ∀ fd, (s.fproc p).fpFilp fd = none
  freeDirs : ∀ p, (s.fproc p).free = true → (s.fproc p).fpRd = none ∧ (s.fproc p).fpWd = none
  sel : ∀ major f, s.dmapSelFilp major = some f → major < C.NR_DEVICES ∧ f < C.NR_FILPS

structure Refs (C : VfsConfig) (L : ℕ → ℕ) (s : VfsState) : Prop extends Linked C s where
  waits : Waits C s
  filpOwes : ∀ f, filpOwes C s f = 0
  vnodeOwes : ∀ v, vnodeOwes C s v = L v

section Refs
variable {C : VfsConfig} {L : ℕ → ℕ} {s s' : VfsState} {p fd f v : ℕ}

theorem Refs.filpCount (hs : Refs C L s) (f : ℕ) : (s.filp f).filpCount = filpRefs C s f := by
  have h := hs.filpOwes f
  rw [Vfs.filpOwes] at h
  omega

theorem Refs.vRefCount (hs : Refs C L s) (v : ℕ) :
    (s.vnode v).vRefCount = vnodeRefs C s v + L v := by
  have h := hs.vnodeOwes v
  rw [Vfs.vnodeOwes] at h
  omega

theorem Linked.fd_counted (hs : Linked C s) (h : (s.fproc p).fpFilp fd = some f) :
    0 < filpRefs C s f := by
  obtain ⟨hp, hfd, -⟩ := hs.fds p fd f h
  have hone : 0 < tally C.OPEN_MAX (· = some f) (s.fproc p).fpFilp := tally_pos hfd h
  have hall : tally C.OPEN_MAX (· = some f) (s.fproc p).fpFilp ≤ fdRefs C s f :=
    weight_le (w := fun rfp : Fproc => tally C.OPEN_MAX (· = some f) rfp.fpFilp) hp
  rw [filpRefs]
  omega

theorem Refs.fd_used (hs : Refs C L s) (h : (s.fproc p).fpFilp fd = some f) :
    (s.filp f).filpCount ≠ 0 := by
  have hpos := hs.toLinked.fd_counted h
  rw [hs.filpCount f]
  omega

theorem Refs.filp_vnode (hs : Refs C L s) (h : (s.filp f).filpCount ≠ 0) :
    (s.vnode (s.filp f).filpVno).vRefCount ≠ 0 := by
  have hpos : 0 < tally C.NR_FILPS (Filp.On (s.filp f).filpVno) s.filp :=
    tally_pos (hs.filps f h) ⟨h, rfl⟩
  rw [hs.vRefCount, vnodeRefs]
  omega

theorem Linked.roused (hs : Linked C s) (h : Roused s s') : Linked C s' where
  fds p fd f hf := by
    rw [(h.fproc p).fpFilp_eq] at hf
    exact hs.fds p fd f hf
  filps f hf := by
    rw [h.filp] at hf
    exact hs.filps f hf
  freeFds p hp fd := by
    rw [(h.fproc p).free_eq] at hp
    rw [(h.fproc p).fpFilp_eq]
    exact hs.freeFds p hp fd
  freeDirs p hp := by
    rw [(h.fproc p).free_eq] at hp
    rw [(h.fproc p).fpRd_eq, (h.fproc p).fpWd_eq]
    exact hs.freeDirs p hp
  sel major f hf := by
    rw [h.dmapSelFilp] at hf
    exact hs.sel major f hf

theorem filpOwes_roused (h : Roused s s') (f : ℕ) : filpOwes C s' f = filpOwes C s f := by
  rw [filpOwes, filpOwes, h.filp,
    filpRefs_congr (fun p => (h.fproc p).fpFilp_eq) h.dmapSelFilp h.inFlight]

theorem vnodeOwes_roused (h : Roused s s') (v : ℕ) : vnodeOwes C s' v = vnodeOwes C s v := by
  rw [vnodeOwes, vnodeOwes, h.vnode, vnodeRefs_congr (fun p => (h.fproc p).fpRd_eq)
    (fun p => (h.fproc p).fpWd_eq) h.mounts h.filp]

theorem Refs.roused (hs : Refs C L s) (h : Roused s s') : Refs C L s' where
  toLinked := hs.toLinked.roused h
  waits := hs.waits.roused h
  filpOwes f := (filpOwes_roused h f).trans (hs.filpOwes f)
  vnodeOwes v := (vnodeOwes_roused h v).trans (hs.vnodeOwes v)

end Refs

section Frames
variable {C : VfsConfig} {L : ℕ → ℕ} {s s' : VfsState} {p fd f g v w n : ℕ}

theorem Waits.congr (hs : Waits C s) (hproc : s'.fproc = s.fproc)
    (hsel : s'.selecting = s.selecting) : Waits C s' where
  selecting := by
    rw [hsel, hproc]
    exact hs.selecting
  select := by
    rw [hproc]
    exact hs.select
  lock := by
    rw [hproc]
    exact hs.lock
  revived := by
    rw [hproc]
    exact hs.revived
  slot := by
    rw [hproc]
    exact hs.slot

structure Fproc.WaitsWell (rfp : Fproc) (selecting inTable : Prop) : Prop where
  selecting : selecting → rfp.free = false ∧ rfp.fpBlockedOn = .SELECT
  select : rfp.free = false → rfp.fpBlockedOn = .SELECT → rfp.fpBlockCallnr = .SELECT
  lock : rfp.free = false → rfp.fpBlockedOn = .LOCK → rfp.fpBlockCallnr = .FCNTL
  revived : rfp.free = false → rfp.fpRevived = true →
    rfp.fpBlockedOn = .PIPE ∨ rfp.fpBlockedOn = .LOCK
  slot : rfp.free = false → rfp.fpBlockedOn ≠ .NONE → inTable

theorem Waits.well (hs : Waits C s) (p : ℕ) :
    (s.fproc p).WaitsWell (s.selecting p = true) (p < C.NR_PROCS) :=
  ⟨hs.selecting p, hs.select p, hs.lock p, hs.revived p, hs.slot p⟩

theorem waits_of_well (h : ∀ p, (s.fproc p).WaitsWell (s.selecting p = true) (p < C.NR_PROCS)) :
    Waits C s :=
  ⟨fun p => (h p).selecting, fun p => (h p).select, fun p => (h p).lock, fun p => (h p).revived,
    fun p => (h p).slot⟩

theorem Waits.setProc {rfp : Fproc} (hs : Waits C s)
    (h : rfp.WaitsWell (s.selecting p = true) (p < C.NR_PROCS)) :
    Waits C (setProc s p rfp) := by
  refine waits_of_well fun q => ?_
  rw [fproc_setProc]
  by_cases hq : q = p
  · subst hq
    rw [Function.update_self]
    exact h
  · rw [Function.update_of_ne hq]
    exact hs.well q

theorem Waits.setFd {x : Option ℕ} (hs : Waits C s) : Waits C (setFd p fd x s) :=
  hs.setProc ⟨hs.selecting p, hs.select p, hs.lock p, hs.revived p, hs.slot p⟩

theorem Linked.congr (hs : Linked C s) (hproc : s'.fproc = s.fproc)
    (hfilps : ∀ f, (s'.filp f).filpCount ≠ 0 → f < C.NR_FILPS)
    (hsel : s'.dmapSelFilp = s.dmapSelFilp) : Linked C s' where
  fds := by
    rw [hproc]
    exact hs.fds
  filps := hfilps
  freeFds := by
    rw [hproc]
    exact hs.freeFds
  freeDirs := by
    rw [hproc]
    exact hs.freeDirs
  sel := by
    rw [hsel]
    exact hs.sel

theorem Linked.setVnode {vp : Vnode} (hs : Linked C s) : Linked C (setVnode s v vp) :=
  hs.congr rfl hs.filps rfl

theorem Linked.setFilp {x : Filp} (hs : Linked C s) (hf : f < C.NR_FILPS) :
    Linked C (setFilp s f x) := by
  refine hs.congr rfl (fun g hg => ?_) rfl
  by_cases hgf : g = f
  · rwa [hgf]
  · have hfilp : (Vfs.setFilp s f x).filp g = s.filp g := Function.update_of_ne hgf _ _
    rw [hfilp] at hg
    exact hs.filps g hg

theorem Linked.setProc {rfp : Fproc} (hs : Linked C s) (hfd : rfp.fpFilp = (s.fproc p).fpFilp)
    (hrd : rfp.fpRd = (s.fproc p).fpRd) (hwd : rfp.fpWd = (s.fproc p).fpWd)
    (hfree : rfp.free = (s.fproc p).free) : Linked C (setProc s p rfp) where
  fds q fd f h := by
    rw [fproc_setProc, Function.update_apply] at h
    split at h
    · next hq =>
      rw [hfd, ← hq] at h
      exact hs.fds q fd f h
    · exact hs.fds q fd f h
  filps := hs.filps
  freeFds q h fd := by
    rw [fproc_setProc, Function.update_apply] at h ⊢
    split at h
    · next hq =>
      rw [if_pos hq, hfd]
      exact hs.freeFds p (hfree ▸ h) fd
    · next hq =>
      rw [if_neg hq]
      exact hs.freeFds q h fd
  freeDirs q h := by
    rw [fproc_setProc, Function.update_apply] at h ⊢
    split at h
    · next hq =>
      rw [if_pos hq, hrd, hwd]
      exact hs.freeDirs p (hfree ▸ h)
    · next hq =>
      rw [if_neg hq]
      exact hs.freeDirs q h
  sel := hs.sel

theorem Linked.setFd {x : Option ℕ} (hs : Linked C s)
    (hx : ∀ f, x = some f → p < C.NR_PROCS ∧ fd < C.OPEN_MAX ∧ f < C.NR_FILPS ∧
      (s.fproc p).free = false) : Linked C (setFd p fd x s) where
  fds q fd' f h := by
    rw [fproc_setFd] at h
    split at h
    · next hq =>
      dsimp only at h
      rw [Function.update_apply] at h
      split at h
      · next hfd =>
        obtain ⟨hp, hlt, hf, -⟩ := hx f h
        exact ⟨hq ▸ hp, hfd ▸ hlt, hf⟩
      · exact hs.fds q fd' f (hq ▸ h)
    · exact hs.fds q fd' f h
  filps := hs.filps
  freeFds q h fd' := by
    rw [fproc_setFd] at h ⊢
    split at h
    · next hq =>
      rw [if_pos hq]
      dsimp only at h ⊢
      rw [Function.update_apply]
      split
      · cases hxf : x with
        | none => rfl
        | some f =>
          have hused := (hx f hxf).2.2.2
          rw [h] at hused
          cases hused
      · exact hs.freeFds p h fd'
    · next hq =>
      rw [if_neg hq]
      exact hs.freeFds q h fd'
  freeDirs q h := by
    rw [fproc_setFd] at h ⊢
    split at h
    · next hq =>
      rw [if_pos hq]
      exact hs.freeDirs p h
    · next hq =>
      rw [if_neg hq]
      exact hs.freeDirs q h
  sel := hs.sel

theorem Refs.reply {r : Except Errno ℕ} (hs : Refs C L s) : Refs C L (reply s p r) :=
  hs.roused ⟨rfl, rfl, rfl, rfl, rfl, fun _ => .same, fun _ h => ⟨h, rfl⟩⟩

theorem filpOwes_setProc {rfp : Fproc} (hfd : rfp.fpFilp = (s.fproc p).fpFilp) :
    filpOwes C (setProc s p rfp) f = filpOwes C s f := by
  have hrefs : filpRefs C (Vfs.setProc s p rfp) f = filpRefs C s f := by
    refine filpRefs_congr (fun q => ?_) rfl rfl
    rw [fproc_setProc, Function.update_apply]
    split
    · next hq => rw [hq, hfd]
    · rfl
  rw [filpOwes, filpOwes, hrefs]
  rfl

theorem vnodeOwes_setProc {rfp : Fproc} (hrd : rfp.fpRd = (s.fproc p).fpRd)
    (hwd : rfp.fpWd = (s.fproc p).fpWd) : vnodeOwes C (setProc s p rfp) v = vnodeOwes C s v := by
  have hrefs : vnodeRefs C (Vfs.setProc s p rfp) v = vnodeRefs C s v := by
    refine vnodeRefs_congr (fun q => ?_) (fun q => ?_) rfl rfl
    · rw [fproc_setProc, Function.update_apply]
      split
      · next hq => rw [hq, hrd]
      · rfl
    · rw [fproc_setProc, Function.update_apply]
      split
      · next hq => rw [hq, hwd]
      · rfl
  rw [vnodeOwes, vnodeOwes, hrefs]
  rfl

theorem Refs.setProc {rfp : Fproc} (hs : Refs C L s) (hfd : rfp.fpFilp = (s.fproc p).fpFilp)
    (hrd : rfp.fpRd = (s.fproc p).fpRd) (hwd : rfp.fpWd = (s.fproc p).fpWd)
    (hfree : rfp.free = (s.fproc p).free)
    (hwaits : rfp.WaitsWell (s.selecting p = true) (p < C.NR_PROCS)) :
    Refs C L (setProc s p rfp) where
  toLinked := hs.toLinked.setProc hfd hrd hwd hfree
  waits := hs.waits.setProc hwaits
  filpOwes f := (filpOwes_setProc hfd).trans (hs.filpOwes f)
  vnodeOwes v := (vnodeOwes_setProc hrd hwd).trans (hs.vnodeOwes v)

theorem Refs.setVnode {vp : Vnode} (hs : Refs C L s) (h : vp.vRefCount = (s.vnode v).vRefCount) :
    Refs C L (setVnode s v vp) where
  toLinked := hs.toLinked.setVnode
  waits := hs.waits.congr rfl rfl
  filpOwes f := hs.filpOwes f
  vnodeOwes w := by
    rw [vnodeOwes_setVnode, hs.vnodeOwes w, h]
    split <;> omega

theorem Refs.setFilp {x : Filp} (hs : Refs C L s) (hf : f < C.NR_FILPS)
    (hcount : x.filpCount = (s.filp f).filpCount) (hvno : x.filpVno = (s.filp f).filpVno) :
    Refs C L (setFilp s f x) where
  toLinked := hs.toLinked.setFilp hf
  waits := hs.waits.congr rfl rfl
  filpOwes g := by
    rw [filpOwes_setFilp, hs.filpOwes g, hcount]
    split <;> omega
  vnodeOwes v := by
    have hon : x.On v ↔ (s.filp f).On v := by rw [Filp.On, Filp.On, hcount, hvno]
    rw [vnodeOwes_setFilp hf, hs.vnodeOwes v, if_congr hon rfl rfl]
    omega

end Frames

structure Dropped (C : VfsConfig) (L : ℕ → ℕ) (f : ℕ) (s s' : VfsState) : Prop extends Linked C s' where
  waits : Waits C s'
  filpOwes : ∀ g, filpOwes C s' g = filpOwes C s g - if g = f then 1 else 0
  vnodeOwes : ∀ v, vnodeOwes C s' v = L v
  fproc : ∀ p, (s.fproc p).Roused (s'.fproc p)
  dmapSelFilp : s'.dmapSelFilp = s.dmapSelFilp
  inFlight : s'.inFlight = s.inFlight

section Close
variable {C : VfsConfig} {L : ℕ → ℕ} {s s' : VfsState} {p fd f v n : ℕ} {woken : Woken} {unlocks : Bool}

theorem drop_dropped (hs : Linked C s) (hwaits : Waits C s)
    (howes : ∀ v, Vfs.vnodeOwes C s v = L v) (hf : (s.filp f).filpCount ≠ 0)
    (h : (if (s.filp f).filpCount - 1 = 0 then
        putVnode (setCount f ((s.filp f).filpCount - 1) s) (s.filp f).filpVno
      else .ok (setCount f ((s.filp f).filpCount - 1) s)) = .ok s') : Dropped C L f s s' := by
  have hlt := hs.filps f hf
  have hlinked : Linked C (setCount f ((s.filp f).filpCount - 1) s) := hs.setFilp hlt
  have hwaits : Waits C (setCount f ((s.filp f).filpCount - 1) s) := hwaits.congr rfl rfl
  have hfilp : ∀ g, Vfs.filpOwes C (setCount f ((s.filp f).filpCount - 1) s) g =
      Vfs.filpOwes C s g - if g = f then 1 else 0 := by
    intro g
    rw [filpOwes_setCount]
    split <;> omega
  have hvnode : ∀ w, Vfs.vnodeOwes C (setCount f ((s.filp f).filpCount - 1) s) w =
      L w + if (s.filp f).filpCount - 1 = 0 ∧ w = (s.filp f).filpVno then 1 else 0 := by
    intro w
    rw [vnodeOwes_setCount hlt, howes w]
    by_cases hw : w = (s.filp f).filpVno
    · by_cases hlast : (s.filp f).filpCount - 1 = 0
      · rw [if_pos ⟨hf, hw.symm⟩, if_neg fun h => h.1 hlast, if_pos ⟨hlast, hw⟩, Int.sub_zero]
      · rw [if_pos ⟨hf, hw.symm⟩, if_pos ⟨hlast, hw.symm⟩, if_neg fun h => hlast h.1]
        omega
    · rw [if_neg fun h => hw h.2.symm, if_neg fun h => hw h.2.symm, if_neg fun h => hw h.2,
        Int.sub_zero]
  split at h
  · next hlast =>
    have hput := h
    obtain ⟨-, hs'⟩ := putVnode_ok h
    subst hs'
    refine ⟨hlinked.setVnode, hwaits.congr rfl rfl, hfilp, fun w => ?_, fun _ => .same, rfl, rfl⟩
    rw [vnodeOwes_putVnode hput, hvnode]
    by_cases hw : w = (s.filp f).filpVno
    · rw [if_pos ⟨hlast, hw⟩, if_pos hw]
      omega
    · rw [if_neg fun h => hw h.2, if_neg hw]
      omega
  · next hlast =>
    cases h
    refine ⟨hlinked, hwaits, hfilp, fun w => ?_, fun _ => .same, rfl, rfl⟩
    rw [hvnode, if_neg fun h => hlast h.1, Int.add_zero]

theorem closeFilp_cases (hs : Waits C s) (h : closeFilp C f woken s = .ok s') :
    ∃ s₁, Roused s s₁ ∧ (if (s₁.filp f).filpCount - 1 = 0 then
        putVnode (setCount f ((s₁.filp f).filpCount - 1) s₁) (s₁.filp f).filpVno
      else .ok (setCount f ((s₁.filp f).filpCount - 1) s₁)) = .ok s' := by
  unfold closeFilp at h
  dsimp only at h
  have hend : ∀ s₁, Roused s s₁ →
      (if ((setCount f ((s₁.filp f).filpCount - 1) s₁).filp f).filpCount = 0 then
        putVnode (setCount f ((s₁.filp f).filpCount - 1) s₁) (s.filp f).filpVno
      else .ok (setCount f ((s₁.filp f).filpCount - 1) s₁)) = .ok s' →
      (if (s₁.filp f).filpCount - 1 = 0 then
        putVnode (setCount f ((s₁.filp f).filpCount - 1) s₁) (s₁.filp f).filpVno
      else .ok (setCount f ((s₁.filp f).filpCount - 1) s₁)) = .ok s' := by
    intro s₁ hroused h
    have hcount : (setCount f ((s₁.filp f).filpCount - 1) s₁).filp f =
        { s₁.filp f with filpCount := (s₁.filp f).filpCount - 1 } := Function.update_self _ _ _
    rw [hcount] at h
    rwa [hroused.filp] at h ⊢
  obtain ⟨s₁, hrelease, hrest⟩ := ok_of_bind h
  have hcall : (if (s.filp f).filpMode.r then CallNr.WRITE else CallNr.READ) ≠ .SELECT := by
    split <;> decide
  have hroused : Roused s s₁ := by
    split at hrelease
    · exact release_roused hcall hs hrelease
    · cases hrelease
      exact .refl _
  exact ⟨s₁, hroused, hend s₁ hroused hrest⟩

theorem closeFilp_dropped (hs : Linked C s) (hwaits : Waits C s)
    (howes : ∀ v, Vfs.vnodeOwes C s v = L v) (hf : (s.filp f).filpCount ≠ 0)
    (h : closeFilp C f woken s = .ok s') : Dropped C L f s s' := by
  obtain ⟨s₁, hroused, hdrop⟩ := closeFilp_cases hwaits h
  rw [← hroused.filp] at hf
  have hdropped := drop_dropped (hs.roused hroused) (hwaits.roused hroused)
    (fun v => (vnodeOwes_roused hroused v).trans (howes v)) hf hdrop
  exact
    { toLinked := hdropped.toLinked
      waits := hdropped.waits
      filpOwes := fun g => by rw [hdropped.filpOwes, filpOwes_roused hroused]
      vnodeOwes := hdropped.vnodeOwes
      fproc := fun p => (hroused.fproc p).trans (hdropped.fproc p)
      dmapSelFilp := hdropped.dmapSelFilp.trans hroused.dmapSelFilp
      inFlight := hdropped.inFlight.trans hroused.inFlight }

theorem Dropped.clear (hs : Refs C L s) (h : Dropped C L f s s') (hfd : (s.fproc p).fpFilp fd = some f) :
    Refs C L (setFd p fd none s') := by
  have hsame : (s'.fproc p).fpFilp fd = some f := by rw [(h.fproc p).fpFilp_eq, hfd]
  obtain ⟨hp, hlt, -⟩ := h.fds p fd f hsame
  refine ⟨h.toLinked.setFd (by simp), h.waits.setFd, fun g => ?_, fun v => ?_⟩
  · rw [filpOwes_setFd hp hlt, h.filpOwes g, hs.filpOwes g, hsame]
    by_cases hg : g = f
    · simp [hg]
    · simp [hg, Ne.symm hg]
  · rw [vnodeOwes_setFd, h.vnodeOwes v]

end Close

theorem Fproc.Roused.refile {rp rfp rp' rp'' : Fproc} (hfirst : rp.Roused rfp)
    (heq : rp' = { rfp with fpFilp := rp'.fpFilp }) (hnext : rp'.Roused rp'') :
    ∃ rfp', rp.Roused rfp' ∧ rp'' = { rfp' with fpFilp := rp''.fpFilp } := by
  cases hnext with
  | same => exact ⟨rfp, hfirst, heq⟩
  | unblocked hrev hpipe =>
    rw [heq] at hrev hpipe
    refine ⟨{ rfp with fpBlockedOn := .NONE }, hfirst.trans (.unblocked hrev hpipe), ?_⟩
    rw [heq]
  | revived hrev hblocked =>
    rw [heq] at hrev hblocked
    refine ⟨{ rfp with fpRevived := true }, hfirst.trans (.revived hrev hblocked), ?_⟩
    rw [heq]

structure Closed (C : VfsConfig) (L : ℕ → ℕ) (p fd : ℕ) (s s' : VfsState) : Prop extends Refs C L s' where
  fd_eq : ∀ q fd', (s'.fproc q).fpFilp fd' =
    if q = p ∧ fd' = fd then none else (s.fproc q).fpFilp fd'
  rest : ∀ q, ∃ rfp, (s.fproc q).Roused rfp ∧
    s'.fproc q = { rfp with fpFilp := (s'.fproc q).fpFilp }

namespace Closed
variable {C : VfsConfig} {p fd : ℕ} {s s' : VfsState}

theorem free_eq (h : Closed C L p fd s s') (q : ℕ) : (s'.fproc q).free = (s.fproc q).free := by
  obtain ⟨rfp, hroused, heq⟩ := h.rest q
  rw [heq, ← hroused.free_eq]

theorem blocked_or (h : Closed C L p fd s s') (q : ℕ) : (s'.fproc q).fpBlockedOn = .NONE ∨
    (s'.fproc q).fpBlockedOn = (s.fproc q).fpBlockedOn := by
  obtain ⟨rfp, hroused, heq⟩ := h.rest q
  rw [heq]
  exact hroused.blocked_or

end Closed

section CloseFd
variable {C : VfsConfig} {L : ℕ → ℕ} {s s' : VfsState} {p fd : ℕ} {woken : Woken} {unlocks : Bool}

theorem closeFd_closed (hs : Refs C L s) (h : closeFd C p fd woken unlocks s = .ok s') :
    Closed C L p fd s s' := by
  unfold closeFd at h
  split at h
  · next hnone =>
    cases h
    refine ⟨hs, fun q fd' => ?_, fun q => ⟨_, .same, rfl⟩⟩
    split
    · next hq => rw [hq.1, hq.2, hnone]
    · rfl
  · next f hf =>
    obtain ⟨s₁, hclose, hrest⟩ := ok_of_bind h
    have hdropped := closeFilp_dropped hs.toLinked hs.waits hs.vnodeOwes (hs.fd_used hf) hclose
    have hcleared := hdropped.clear hs hf
    have hclosed : Closed C L p fd s (setFd p fd none s₁) := by
      refine ⟨hcleared, fun q fd' => ?_, fun q => ⟨_, hdropped.fproc q, ?_⟩⟩
      · rw [fproc_setFd]
        split
        · next hq =>
          dsimp only
          rw [Function.update_apply, (hdropped.fproc p).fpFilp_eq, hq]
          split
          · next hfd => rw [if_pos ⟨rfl, hfd⟩]
          · next hfd => rw [if_neg fun h => hfd h.2]
        · next hq => rw [(hdropped.fproc q).fpFilp_eq, if_neg fun h => hq h.1]
      · rw [fproc_setFd]
        split
        · next hq => rw [hq]
        · rfl
    split at hrest
    · have hroused := lockRevive_roused hcleared.waits hrest
      refine ⟨hcleared.roused hroused,
        fun q fd' => (congrFun (hroused.fproc q).fpFilp_eq fd').trans (hclosed.fd_eq q fd'),
        fun q => ?_⟩
      obtain ⟨rfp, hfirst, heq⟩ := hclosed.rest q
      exact Fproc.Roused.refile hfirst heq (hroused.fproc q)
    · cases hrest
      exact hclosed

theorem doClose_refs (hs : Refs C L s) (h : doClose C p fd woken unlocks s = .ok s') : Refs C L s' := by
  obtain ⟨s₁, hclose, rfl⟩ := ok_of_map h
  exact (closeFd_closed hs hclose).toRefs.reply

end CloseFd

end Vfs
