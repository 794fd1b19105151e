import Cs111.Vfs.RefRuns

namespace Vfs
open Tally

def Safe {α : Type*} (P : α → Prop) : Except Panic α → Prop
  | .ok a => P a
  | .error e => e ≠ .suspCountNegative ∧ e ≠ .nobodyToRevive

section Safe
variable {α β : Type*} {P : α → Prop} {Q : β → Prop} {x : Except Panic α}

theorem Safe.bind {k : α → Except Panic β} (h : Safe P x)
    (hk : ∀ a, x = .ok a → P a → Safe Q (k a)) : Safe Q (x.bind k) := by
  cases x with
  | error e => exact h
  | ok a => exact hk a rfl h

theorem Safe.map {k : α → β} (h : Safe P x) (hk : ∀ a, x = .ok a → P a → Q (k a)) :
    Safe Q (x.map k) := by
  cases x with
  | error e => exact h
  | ok a => exact hk a rfl h

theorem Safe.mono {R : α → Prop} (h : Safe P x) (hk : ∀ a, x = .ok a → P a → R a) :
    Safe R x := by
  cases x with
  | error e => exact h
  | ok a => exact hk a rfl h

end Safe

def Fproc.suspended (rp : Fproc) : Prop :=
  rp.free = false ∧ rp.fpRevived = false ∧ (rp.fpBlockedOn = .PIPE ∨ rp.fpBlockedOn = .POPEN)

instance (rp : Fproc) : Decidable rp.suspended := inferInstanceAs (Decidable (_ ∧ _))

def Fproc.onFile (rp : Fproc) : Prop :=
  rp.free = false ∧ (rp.fpBlockedOn = .OTHER ∨ rp.fpBlockedOn = .DOPEN ∨ rp.fpBlockedOn = .PIPE)

def kindOf (s : VfsState) (f : ℕ) : VKind := (s.vnode (s.filp f).filpVno).kind

structure Balanced (C : VfsConfig) (s : VfsState) : Prop where
  susp : s.suspCount = tally C.NR_PROCS Fproc.suspended s.fproc
  reviving : s.reviving = tally C.NR_PROCS Fproc.reviving s.fproc
  file : ∀ p f, (s.fproc p).onFile → (s.fproc p).fpFilp (s.fproc p).fpBlockFd = some f →
    (kindOf s f = .NAMED_PIPE ↔ (s.fproc p).fpBlockedOn = .PIPE)

structure Fproc.SameBlock (rp rp' : Fproc) : Prop where
  free : rp'.free = rp.free
  blockedOn : rp'.fpBlockedOn = rp.fpBlockedOn
  revived : rp'.fpRevived = rp.fpRevived
  blockFd : rp'.fpBlockFd = rp.fpBlockFd

namespace Fproc.SameBlock
variable {rp rp' rp'' : Fproc}

theorem refl (rp : Fproc) : SameBlock rp rp := ⟨rfl, rfl, rfl, rfl⟩

theorem trans (h : SameBlock rp rp') (h' : SameBlock rp' rp'') : SameBlock rp rp'' :=
  ⟨h'.free.trans h.free, h'.blockedOn.trans h.blockedOn, h'.revived.trans h.revived,
    h'.blockFd.trans h.blockFd⟩

theorem suspended_iff (h : SameBlock rp rp') : rp'.suspended ↔ rp.suspended := by
  rw [suspended, suspended, h.free, h.revived, h.blockedOn]

theorem reviving_iff (h : SameBlock rp rp') : rp'.reviving ↔ rp.reviving := by
  rw [reviving, reviving, h.free, h.revived]

theorem onFile_iff (h : SameBlock rp rp') : rp'.onFile ↔ rp.onFile := by
  rw [onFile, onFile, h.free, h.blockedOn]

end Fproc.SameBlock

structure Calm (s s' : VfsState) : Prop where
  suspCount : s'.suspCount = s.suspCount
  reviving : s'.reviving = s.reviving
  block : ∀ p, (s.fproc p).SameBlock (s'.fproc p)
  file : ∀ p f, (s.fproc p).onFile → (s'.fproc p).fpFilp (s.fproc p).fpBlockFd = some f →
    (s.fproc p).fpFilp (s.fproc p).fpBlockFd = some f ∧ kindOf s' f = kindOf s f

section Calm
variable {C : VfsConfig} {L : ℕ → ℕ} {s s' s'' : VfsState} {p fd f v n : ℕ}

theorem Calm.trans (h : Calm s s') (h' : Calm s' s'') : Calm s s'' where
  suspCount := h'.suspCount.trans h.suspCount
  reviving := h'.reviving.trans h.reviving
  block p := (h.block p).trans (h'.block p)
  file p f hp hf := by
    have hp' := (h.block p).onFile_iff.mpr hp
    have hfd := (h.block p).blockFd
    obtain ⟨hf', hkind'⟩ := h'.file p f hp' (hfd ▸ hf)
    rw [hfd] at hf'
    obtain ⟨hf₀, hkind⟩ := h.file p f hp hf'
    exact ⟨hf₀, hkind'.trans hkind⟩

theorem Balanced.calm (hs : Balanced C s) (h : Calm s s') : Balanced C s' where
  susp := by
    rw [h.suspCount, hs.susp]
    exact congrArg Nat.cast (tally_congr fun p _ => (h.block p).suspended_iff.symm)
  reviving := by
    rw [h.reviving, hs.reviving]
    exact congrArg Nat.cast (tally_congr fun p _ => (h.block p).reviving_iff.symm)
  file p f hp hf := by
    have hp' := (h.block p).onFile_iff.mp hp
    rw [(h.block p).blockFd] at hf
    obtain ⟨hf', hkind⟩ := h.file p f hp' hf
    rw [hkind, (h.block p).blockedOn]
    exact hs.file p f hp' hf'

theorem calm_of_files (hproc : s'.fproc = s.fproc) (hsusp : s'.suspCount = s.suspCount)
    (hrev : s'.reviving = s.reviving)
    (hkind : ∀ p fd f, (s.fproc p).fpFilp fd = some f → kindOf s' f = kindOf s f) : Calm s s' where
  suspCount := hsusp
  reviving := hrev
  block p := by
    rw [hproc]
    exact .refl _
  file p f _ hf := by
    rw [hproc] at hf
    exact ⟨hf, hkind p _ f hf⟩

theorem calm_reply {r : Except Errno ℕ} : Calm s (reply s p r) :=
  calm_of_files rfl rfl rfl fun _ _ _ _ => rfl

theorem Calm.refl (s : VfsState) : Calm s s := calm_of_files rfl rfl rfl fun _ _ _ _ => rfl

theorem kindOf_setFilp {x : Filp} (hkind : (s.vnode x.filpVno).kind = kindOf s f) (g : ℕ) :
    kindOf (setFilp s f x) g = kindOf s g := by
  have hfilp : (setFilp s f x).filp g = if g = f then x else s.filp g :=
    Function.update_apply _ _ _ _
  have hvnode : (setFilp s f x).vnode = s.vnode := rfl
  rw [kindOf, hfilp, hvnode]
  split
  · next hg => rw [hg, hkind]
  · rfl

theorem calm_setFilp {x : Filp} (hkind : (s.vnode x.filpVno).kind = kindOf s f) :
    Calm s (setFilp s f x) :=
  calm_of_files rfl rfl rfl fun _ _ g _ => kindOf_setFilp hkind g

theorem calm_setCount : Calm s (setCount f n s) := calm_setFilp rfl

theorem vnode_setVnode {x : Vnode} (w : ℕ) :
    (setVnode s v x).vnode w = if w = v then x else s.vnode w := Function.update_apply _ _ _ _

theorem kindOf_setVnode {x : Vnode} {g : ℕ}
    (hkind : (s.filp g).filpVno = v → x.kind = (s.vnode v).kind) :
    kindOf (setVnode s v x) g = kindOf s g := by
  have hfilp : (setVnode s v x).filp = s.filp := rfl
  rw [kindOf, kindOf, hfilp, vnode_setVnode]
  split
  · next hv => rw [hkind hv, hv]
  · rfl

theorem calm_setVnode_of {x : Vnode} (hkind : ∀ p fd g, (s.fproc p).fpFilp fd = some g →
    (s.filp g).filpVno = v → x.kind = (s.vnode v).kind) : Calm s (setVnode s v x) :=
  calm_of_files rfl rfl rfl fun q fd g hg => kindOf_setVnode (hkind q fd g hg)

theorem calm_setVnode {x : Vnode} (hkind : x.kind = (s.vnode v).kind) : Calm s (setVnode s v x) :=
  calm_setVnode_of fun _ _ _ _ _ => hkind

theorem calm_putVnode (h : putVnode s v = .ok s') : Calm s s' := by
  obtain ⟨-, rfl⟩ := putVnode_ok h
  exact calm_setVnode rfl

theorem calm_dupVnode : Calm s (dupVnode s v) := calm_setVnode rfl

theorem sameBlock_setFd {x : Option ℕ} (q : ℕ) :
    (s.fproc q).SameBlock ((setFd p fd x s).fproc q) := by
  rw [fproc_setFd]
  split
  · next hq =>
    rw [hq]
    exact ⟨rfl, rfl, rfl, rfl⟩
  · exact .refl _

theorem calm_setFd_none : Calm s (setFd p fd none s) where
  suspCount := rfl
  reviving := rfl
  block := sameBlock_setFd
  file q f _ hf := by
    rw [fproc_setFd] at hf
    split at hf
    · next hq =>
      subst hq
      dsimp only at hf
      rw [Function.update_apply] at hf
      split at hf
      · cases hf
      · exact ⟨hf, rfl⟩
    · exact ⟨hf, rfl⟩

theorem calm_setFd {x : Option ℕ} (hp : ¬ (s.fproc p).onFile) :
    Calm s (setFd p fd x s) where
  suspCount := rfl
  reviving := rfl
  block := sameBlock_setFd
  file q f hq hf := by
    rw [fproc_setFd] at hf
    split at hf
    · next hqp =>
      rw [hqp] at hq
      exact absurd hq hp
    · exact ⟨hf, rfl⟩

theorem not_onFile {rp : Fproc} (h : rp.fpBlockedOn = .NONE ∨ rp.fpBlockedOn = .POPEN) :
    ¬ rp.onFile := by
  rintro ⟨-, hb | hb | hb⟩ <;> rcases h with h | h <;> exact absurd (h.symm.trans hb) (by decide)

theorem Linked.fd_ne (hs : Linked C s) (howes : ∀ g, filpOwes C s g = 0)
    (hcount : (s.filp f).filpCount = 0) {q g : ℕ} (hg : (s.fproc q).fpFilp fd = some g) :
    g ≠ f := by
  rintro rfl
  have hpos := hs.fd_counted hg
  have hzero := howes g
  rw [filpOwes, hcount] at hzero
  omega

theorem kindOf_other {x : Filp} {g : ℕ} (hne : g ≠ f) : kindOf (setFilp s f x) g = kindOf s g := by
  have hfilp : (setFilp s f x).filp g = s.filp g := Function.update_of_ne hne _ _
  rw [kindOf, kindOf, hfilp]
  rfl

theorem calm_claim {mode : FilpMode} {nonblock : Bool} (hp : ¬ (s.fproc p).onFile)
    (hne : ∀ q fd' g, (s.fproc q).fpFilp fd' = some g → g ≠ f) :
    Calm s (claim p fd f v mode nonblock s) := by
  have hfilp : Calm s (setFilp s f ⟨mode, nonblock, 1, v⟩) :=
    calm_of_files rfl rfl rfl fun q fd' g hg => kindOf_other (hne q fd' g hg)
  exact hfilp.trans (calm_setFd hp)

theorem Refs.fd_vnode (hs : Refs C L s) {g : ℕ} (hg : (s.fproc p).fpFilp fd = some g) :
    (s.vnode (s.filp g).filpVno).vRefCount ≠ 0 := hs.filp_vnode (hs.fd_used hg)

theorem calm_unused (hs : Refs C L s) (hv : (s.vnode v).vRefCount = 0) {x : Vnode} :
    Calm s (setVnode s v x) :=
  calm_setVnode_of fun _ _ _ hg hgv => absurd hv (hgv ▸ hs.fd_vnode hg)

theorem calm_eatPath (hs : Refs C L s) {kind : VKind} {vSize : ℕ} :
    Calm s (eatPath v kind vSize s) := by
  unfold eatPath
  split
  · next hv => exact calm_unused hs hv
  · exact calm_dupVnode

theorem calm_strayed (lost : List Lookup) (hs : Refs C L s) : Calm s (strayed lost s) := by
  induction lost generalizing L s with
  | nil => exact .refl s
  | cons found lost ih =>
    have hfirst : Calm s (eatPath found.v found.kind found.vSize s) := calm_eatPath hs
    exact hfirst.trans (ih (eatPath_refs hs))

theorem putVnode_frame (h : putVnode s v = .ok s') : s'.fproc = s.fproc ∧ s'.filp = s.filp ∧
    ∀ w, (s'.vnode w).kind = (s.vnode w).kind := by
  obtain ⟨-, rfl⟩ := putVnode_ok h
  refine ⟨rfl, rfl, fun w => ?_⟩
  rw [vnode_setVnode]
  split
  · next hw => rw [hw]
  · rfl

theorem calm_cloneOpcl {w : ℕ} (hs : Refs C L s) (hc : Claimed s p fd f v)
    (hkind : (s.vnode v).kind = .CHAR_SPECIAL) (hw : w = v ∨ (s.vnode w).vRefCount = 0)
    (h : cloneOpcl f v w s = .ok s') : Calm s s' := by
  obtain ⟨s₁, hput, rfl⟩ := ok_of_map h
  obtain ⟨hproc, hfilp, hkinds⟩ := putVnode_frame hput
  have hused : ∀ q fd' g, (s₁.fproc q).fpFilp fd' = some g → (s₁.filp g).filpVno = w →
      .CHAR_SPECIAL = (s₁.vnode w).kind := by
    intro q fd' g hg hgw
    rw [hproc] at hg
    rw [hfilp] at hgw
    rw [hkinds]
    rcases hw with rfl | hw
    · exact hkind.symm
    · exact absurd hw (hgw ▸ hs.fd_vnode hg)
  have hput : Calm s s₁ := calm_putVnode hput
  have hset : Calm s₁ (setVnode s₁ w { s₁.vnode w with kind := .CHAR_SPECIAL, vRefCount := 1 }) :=
    calm_setVnode_of hused
  refine (hput.trans hset).trans (calm_setFilp ?_)
  have hfd : (s₁.fproc p).fpFilp fd = some f := by
    rw [hproc]
    exact hc.fd_eq
  have hold : kindOf (setVnode s₁ w { s₁.vnode w with kind := .CHAR_SPECIAL, vRefCount := 1 }) f =
      .CHAR_SPECIAL := by
    refine (kindOf_setVnode (hused p fd f hfd)).trans ?_
    rw [kindOf, hfilp, hc.vno, hkinds, hkind]
  rw [hold, vnode_setVnode, if_pos rfl]

theorem eatPath_kind {kind : VKind} {vSize : ℕ} (hfound : Found s v kind) :
    ((eatPath v kind vSize s).vnode v).kind = kind := by
  unfold eatPath
  split
  · rw [vnode_setVnode, if_pos rfl]
  · next hv =>
    rw [dupVnode, vnode_setVnode, if_pos rfl]
    exact hfound.resolve_left hv

end Calm

end Vfs
