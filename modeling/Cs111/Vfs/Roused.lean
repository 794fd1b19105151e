import Cs111.Vfs.Calls

namespace Vfs

inductive Fproc.Roused (rp : Fproc) : Fproc → Prop
  | same : Roused rp rp
  | unblocked : rp.fpRevived = false → rp.fpBlockedOn ≠ .PIPE →
      Roused rp { rp with fpBlockedOn := .NONE }
  | revived : rp.fpRevived = false → rp.fpBlockedOn = .PIPE ∨ rp.fpBlockedOn = .LOCK →
      Roused rp { rp with fpRevived := true }

namespace Fproc.Roused
variable {rp rp' rp'' : Fproc}

theorem trans (h : rp.Roused rp') (h' : rp'.Roused rp'') : rp.Roused rp'' := by
  cases h with
  | same => exact h'
  | unblocked hr hb =>
    cases h' with
    | same => exact .unblocked hr hb
    | unblocked _ => exact .unblocked hr hb
    | revived _ hblocked => rcases hblocked with hb | hb <;> cases hb
  | revived hr hblocked =>
    cases h' with
    | same => exact .revived hr hblocked
    | unblocked hr' _ => cases hr'
    | revived hr' => cases hr'

theorem fpFilp_eq (h : rp.Roused rp') : rp'.fpFilp = rp.fpFilp := by cases h <;> rfl

theorem fpRd_eq (h : rp.Roused rp') : rp'.fpRd = rp.fpRd := by cases h <;> rfl

theorem fpWd_eq (h : rp.Roused rp') : rp'.fpWd = rp.fpWd := by cases h <;> rfl

theorem free_eq (h : rp.Roused rp') : rp'.free = rp.free := by cases h <;> rfl

theorem fpBlockCallnr_eq (h : rp.Roused rp') : rp'.fpBlockCallnr = rp.fpBlockCallnr := by
  cases h <;> rfl

theorem fpCumIoPartial_eq (h : rp.Roused rp') : rp'.fpCumIoPartial = rp.fpCumIoPartial := by
  cases h <;> rfl

theorem blocked_or (h : rp.Roused rp') :
    rp'.fpBlockedOn = .NONE ∨ rp'.fpBlockedOn = rp.fpBlockedOn := by
  cases h with
  | same => exact .inr rfl
  | unblocked => exact .inl rfl
  | revived => exact .inr rfl

end Fproc.Roused

structure Roused (s s' : VfsState) : Prop where
  filp : s'.filp = s.filp
  vnode : s'.vnode = s.vnode
  dmapSelFilp : s'.dmapSelFilp = s.dmapSelFilp
  mounts : s'.mounts = s.mounts
  inFlight : s'.inFlight = s.inFlight
  fproc : ∀ p, (s.fproc p).Roused (s'.fproc p)
  selecting : ∀ p, s'.selecting p = true → s.selecting p = true ∧ s'.fproc p = s.fproc p

theorem Roused.refl (s : VfsState) : Roused s s where
  filp := rfl
  vnode := rfl
  dmapSelFilp := rfl
  mounts := rfl
  inFlight := rfl
  fproc _ := .same
  selecting _ h := ⟨h, rfl⟩

theorem Roused.trans {s s' s'' : VfsState} (h : Roused s s') (h' : Roused s' s'') : Roused s s'' where
  filp := h'.filp.trans h.filp
  vnode := h'.vnode.trans h.vnode
  dmapSelFilp := h'.dmapSelFilp.trans h.dmapSelFilp
  mounts := h'.mounts.trans h.mounts
  inFlight := h'.inFlight.trans h.inFlight
  fproc p := (h.fproc p).trans (h'.fproc p)
  selecting p hp := by
    obtain ⟨hsel', hsame'⟩ := h'.selecting p hp
    obtain ⟨hsel, hsame⟩ := h.selecting p hsel'
    exact ⟨hsel, hsame'.trans hsame⟩

structure Waits (C : VfsConfig) (s : VfsState) : Prop where
  selecting : ∀ p, s.selecting p = true → (s.fproc p).free = false ∧ (s.fproc p).fpBlockedOn = .SELECT
  select : ∀ p, (s.fproc p).free = false → (s.fproc p).fpBlockedOn = .SELECT →
    (s.fproc p).fpBlockCallnr = .SELECT
  lock : ∀ p, (s.fproc p).free = false → (s.fproc p).fpBlockedOn = .LOCK →
    (s.fproc p).fpBlockCallnr = .FCNTL
  revived : ∀ p, (s.fproc p).free = false → (s.fproc p).fpRevived = true →
    (s.fproc p).fpBlockedOn = .PIPE ∨ (s.fproc p).fpBlockedOn = .LOCK
  slot : ∀ p, (s.fproc p).free = false → (s.fproc p).fpBlockedOn ≠ .NONE → p < C.NR_PROCS

section Waits
variable {C : VfsConfig} {s s' : VfsState} {p : ℕ} {r : Except Errno ℕ}

theorem Waits.roused (hs : Waits C s) (h : Roused s s') : Waits C s' where
  selecting p hp := by
    obtain ⟨hsel, hsame⟩ := h.selecting p hp
    rw [hsame]
    exact hs.selecting p hsel
  select p hfree hb := by
    have hp := h.fproc p
    rw [hp.free_eq] at hfree
    rw [hp.fpBlockCallnr_eq]
    rcases hp.blocked_or with hnone | hsame
    · rw [hnone] at hb
      cases hb
    · exact hs.select p hfree (hsame.symm.trans hb)
  lock p hfree hb := by
    have hp := h.fproc p
    rw [hp.free_eq] at hfree
    rw [hp.fpBlockCallnr_eq]
    rcases hp.blocked_or with hnone | hsame
    · rw [hnone] at hb
      cases hb
    · exact hs.lock p hfree (hsame.symm.trans hb)
  revived p hfree hr := by
    have hp := h.fproc p
    rw [hp.free_eq] at hfree
    generalize s'.fproc p = rp at hp hr
    cases hp with
    | same => exact hs.revived p hfree hr
    | unblocked hr' _ => exact absurd (hr'.symm.trans hr) (by decide)
    | revived _ hblocked => exact hblocked
  slot p hfree hb := by
    have hp := h.fproc p
    rw [hp.free_eq] at hfree
    rcases hp.blocked_or with hnone | hsame
    · exact absurd hnone hb
    · exact hs.slot p hfree fun hn => hb (hsame.trans hn)

inductive Revived (p : ℕ) (r : Except Errno ℕ) (s : VfsState) : VfsState → Prop
  | idle : ((s.fproc p).free = true ∨ (s.fproc p).fpBlockedOn = .NONE ∨
      (s.fproc p).fpRevived = true) → Revived p r s s
  | revived : (s.fproc p).free = false → (s.fproc p).fpRevived = false →
      ((s.fproc p).fpBlockedOn = .PIPE ∨ (s.fproc p).fpBlockedOn = .LOCK) →
      Revived p r s (setProc { s with reviving := s.reviving + 1 } p
        { s.fproc p with fpRevived := true })
  | answered (res : Except Errno ℕ) : (s.fproc p).free = false → (s.fproc p).fpRevived = false →
      (s.fproc p).fpBlockedOn ≠ .NONE → (s.fproc p).fpBlockedOn ≠ .PIPE →
      (s.fproc p).fpBlockedOn ≠ .LOCK → Revived p r s (reply (unblock p s) p res)
  | failed (e : Errno) (s' : VfsState) : (s.fproc p).free = false → (s.fproc p).fpRevived = false →
      (s.fproc p).fpBlockedOn = .DOPEN → r = .error e →
      failOpen p (s.fproc p).fpBlockFd e (unblock p s) = .ok s' → Revived p r s s'

theorem revive_cases (h : revive p r s = .ok s') : Revived p r s s' := by
  unfold revive at h
  dsimp only at h
  split at h
  case isTrue hidle =>
    cases h
    exact .idle hidle
  case isFalse hidle =>
    push Not at hidle
    obtain ⟨hfree, hnone, hrev⟩ := hidle
    have hfree : (s.fproc p).free = false := Bool.not_eq_true _ ▸ hfree
    have hrev : (s.fproc p).fpRevived = false := Bool.not_eq_true _ ▸ hrev
    split at h
    case isTrue hlater =>
      cases h
      exact .revived hfree hrev hlater
    case isFalse hlater =>
      push Not at hlater
      split at h
      case isTrue hdopen =>
        split at h
        · exact .failed _ _ hfree hrev hdopen rfl h
        · cases h
          exact .answered _ hfree hrev hnone hlater.1 hlater.2
      case isFalse hdopen =>
        split at h
        · cases h
          exact .answered _ hfree hrev hnone hlater.1 hlater.2
        · cases h
          exact .answered _ hfree hrev hnone hlater.1 hlater.2

theorem fproc_setProc (s : VfsState) (p : ℕ) (rfp : Fproc) :
    (setProc s p rfp).fproc = Function.update s.fproc p rfp := rfl

theorem roused_update {rfp : Fproc} (h : (s.fproc p).Roused rfp) (q : ℕ) :
    (s.fproc q).Roused (Function.update s.fproc p rfp q) := by
  by_cases hq : q = p
  · subst hq
    rw [Function.update_self]
    exact h
  · rw [Function.update_of_ne hq]
    exact .same

theorem Revived.roused (h : Revived p r s s')
    (hopen : (s.fproc p).fpBlockedOn = .DOPEN → ∃ n, r = .ok n) :
    Roused s { s' with selecting := Function.update s'.selecting p false } := by
  have hsel : ∀ {fproc : ℕ → Fproc}, (∀ q, q ≠ p → fproc q = s.fproc q) → ∀ q,
      Function.update s.selecting p false q = true → s.selecting q = true ∧ fproc q = s.fproc q := by
    intro fproc hsame q hq
    by_cases hqp : q = p
    · subst hqp
      rw [Function.update_self] at hq
      cases hq
    · rw [Function.update_of_ne hqp] at hq
      exact ⟨hq, hsame q hqp⟩
  cases h with
  | idle =>
    exact ⟨rfl, rfl, rfl, rfl, rfl, fun _ => .same, hsel fun _ _ => rfl⟩
  | revived hfree hrev hblocked =>
    refine ⟨rfl, rfl, rfl, rfl, rfl, roused_update (.revived hrev hblocked), ?_⟩
    exact hsel fun q hq => Function.update_of_ne hq _ _
  | answered res hfree hrev _ hpipe =>
    refine ⟨rfl, rfl, rfl, rfl, rfl, roused_update (.unblocked hrev hpipe), ?_⟩
    exact hsel fun q hq => Function.update_of_ne hq _ _
  | failed e _ _ _ hdopen he =>
    obtain ⟨n, hn⟩ := hopen hdopen
    exact absurd (he.symm.trans hn) (by simp)

theorem Waits.not_selecting (hs : Waits C s) (h : (s.fproc p).fpBlockedOn ≠ .SELECT) :
    s.selecting p = false := by
  by_contra hsel
  exact h (hs.selecting p (Bool.not_eq_false _ ▸ hsel)).2

theorem Waits.revive_roused (hs : Waits C s) (h : revive p r s = .ok s')
    (hselect : (s.fproc p).fpBlockedOn ≠ .SELECT)
    (hopen : (s.fproc p).fpBlockedOn = .DOPEN → ∃ n, r = .ok n) : Roused s s' := by
  have hcases := revive_cases h
  have hroused := hcases.roused hopen
  have hsel : s'.selecting = s.selecting := by
    cases hcases with
    | failed e _ _ _ hdopen he =>
      obtain ⟨n, hn⟩ := hopen hdopen
      exact absurd (he.symm.trans hn) (by simp)
    | _ => rfl
  have hsame : Function.update s'.selecting p false = s'.selecting := by
    rw [hsel, ← hs.not_selecting hselect, Function.update_eq_self]
  rwa [hsame] at hroused

end Waits

section Release
variable {C : VfsConfig} {s s' : VfsState} {v p : ℕ} {callnr : CallNr}

theorem selectReturn_roused {r : Except Errno ℕ} (hs : Waits C s)
    (h : selectReturn p r s = .ok s') : Roused s s' := by
  unfold selectReturn at h
  split at h
  case isTrue hsel =>
    obtain ⟨s₁, hr, rfl⟩ := ok_of_map h
    have hblocked := (hs.selecting p hsel).2
    refine (revive_cases hr).roused fun hdopen => ?_
    rw [hblocked] at hdopen
    cases hdopen
  case isFalse =>
    cases h
    exact .refl _

theorem selectCallback_roused (woken : Woken) (hs : Waits C s)
    (h : selectCallback woken s = .ok s') : Roused s s' := by
  induction woken generalizing s with
  | nil =>
    cases h
    exact .refl _
  | cons pr woken ih =>
    obtain ⟨p, r⟩ := pr
    unfold selectCallback at h
    obtain ⟨s₁, hr, hrest⟩ := ok_of_bind h
    have hfirst := selectReturn_roused hs hr
    exact hfirst.trans (ih (hs.roused hfirst) hrest)

theorem hangs_true (hs : Waits C s) (hcall : callnr ≠ .SELECT)
    (h : hangs v callnr s (s.fproc p) = .ok true) :
    (s.fproc p).free = false ∧ (s.fproc p).fpBlockedOn ≠ .NONE ∧ (s.fproc p).fpRevived = false ∧
      (s.fproc p).fpBlockCallnr = callnr ∧ (s.fproc p).fpBlockedOn ≠ .SELECT ∧
      ∃ f, (s.fproc p).fpFilp (s.fproc p).fpBlockFd = some f ∧ (s.filp f).filpVno = v := by
  unfold hangs at h
  split at h
  case isFalse => cases h
  case isTrue hhangs =>
    obtain ⟨hfree, hblocked, hrev, hnr⟩ := hhangs
    have hfree : (s.fproc p).free = false := Bool.not_eq_true _ ▸ hfree
    refine ⟨hfree, hblocked, Bool.not_eq_true _ ▸ hrev, hnr, fun hselect => ?_, ?_⟩
    · exact hcall (hnr.symm.trans (hs.select p hfree hselect))
    · split at h
      · cases h
      · next f hf => exact ⟨f, hf, of_decide_eq_true (Except.ok.inj h)⟩

theorem releaseFrom_roused (hcall : callnr ≠ .SELECT) (slots : List ℕ) (count : ℤ)
    (hs : Waits C s) (h : releaseFrom v callnr slots count s = .ok s') : Roused s s' := by
  induction slots generalizing s count with
  | nil =>
    cases h
    exact .refl _
  | cons p slots ih =>
    unfold releaseFrom at h
    split at h
    · cases h
      exact .refl _
    · split at h
      · cases h
      · exact ih _ hs h
      · next hhangs =>
        have hselect := (hangs_true hs hcall hhangs).2.2.2.2.1
        split at h
        · cases h
        · next s₁ hr =>
          have hfirst := hs.revive_roused hr hselect fun _ => ⟨0, rfl⟩
          have hfirst : Roused s { s₁ with suspCount := s₁.suspCount - 1 } :=
            ⟨hfirst.filp, hfirst.vnode, hfirst.dmapSelFilp, hfirst.mounts, hfirst.inFlight,
              hfirst.fproc, hfirst.selecting⟩
          dsimp only at h
          split at h
          · cases h
          · split at h
            · cases h
              exact hfirst
            · exact hfirst.trans (ih _ (hs.roused hfirst) h)

theorem release_roused {count : ℤ} {woken : Woken} (hcall : callnr ≠ .SELECT) (hs : Waits C s)
    (h : release C v callnr count woken s = .ok s') : Roused s s' := by
  unfold release at h
  obtain ⟨s₁, hselects, hrest⟩ := ok_of_bind h
  have hfirst : Roused s s₁ := by
    split at hselects
    · exact selectCallback_roused woken hs hselects
    · cases hselects
      exact .refl _
  exact hfirst.trans (releaseFrom_roused hcall _ _ (hs.roused hfirst) hrest)

theorem lockRevive_roused (hs : Waits C s) (h : lockRevive C s = .ok s') : Roused s s' := by
  unfold lockRevive at h
  generalize List.range C.NR_PROCS = slots at h
  induction slots generalizing s with
  | nil =>
    cases h
    exact .refl _
  | cons p slots ih =>
    rw [List.foldlM_cons] at h
    split at h
    case isTrue hlock =>
      obtain ⟨s₁, hr, hrest⟩ := ok_of_bind h
      have hselect : (s.fproc p).fpBlockedOn ≠ .SELECT := by
        rw [hlock.2]
        decide
      have hfirst := hs.revive_roused hr hselect fun _ => ⟨0, rfl⟩
      exact hfirst.trans (ih (hs.roused hfirst) hrest)
    case isFalse => exact ih hs h

theorem unsuspend_roused {orphans : List ℕ} (hs : Waits C s) (h : unsuspend orphans s = .ok s') :
    Roused s s' := by
  unfold unsuspend at h
  induction orphans generalizing s with
  | nil =>
    cases h
    exact .refl _
  | cons p orphans ih =>
    rw [List.foldlM_cons] at h
    split at h
    case isTrue hother =>
      obtain ⟨s₁, hr, hrest⟩ := ok_of_bind h
      have hselect : (s.fproc p).fpBlockedOn ≠ .SELECT := by
        rw [hother]
        decide
      have hopen : (s.fproc p).fpBlockedOn ≠ .DOPEN := by
        rw [hother]
        decide
      have hfirst := hs.revive_roused hr hselect fun h => absurd h hopen
      exact hfirst.trans (ih (hs.roused hfirst) hrest)
    case isFalse => exact ih hs h

end Release

end Vfs
