import Cs111.Vfs.PipeRuns

namespace Vfs
open Tally TransitionSystem

def Fproc.asleep (rp : Fproc) : Prop :=
  rp.free = false ∧ rp.fpBlockedOn = .PIPE ∧ rp.fpRevived = false

def HasEnd (C : VfsConfig) (s : VfsState) (v : ℕ) (bits : FilpMode) : Prop :=
  ∃ f < C.NR_FILPS, (s.filp f).filpCount ≠ 0 ∧ (s.filp f).filpVno = v ∧
    (s.filp f).filpMode.has bits = true

theorem findFilp_ne_none {C : VfsConfig} {s : VfsState} {v : ℕ} {bits : FilpMode} :
    findFilp C s v bits ≠ none ↔ HasEnd C s v bits := by
  constructor
  · intro h
    obtain ⟨f, hf⟩ := Option.ne_none_iff_exists'.mp h
    exact ⟨f, findFilp_some hf⟩
  · rintro ⟨f, hf, hon⟩ hnone
    exact findFilp_none hnone hf hon

def otherEnd (callnr : CallNr) : FilpMode := if callnr = .READ then W_BIT else R_BIT

structure Steady (C : VfsConfig) (s s' : VfsState) : Prop where
  asleep : ∀ q f, (s'.fproc q).asleep → (s'.fproc q).fpFilp (s'.fproc q).fpBlockFd = some f →
    (s.fproc q).asleep ∧ (s.fproc q).fpFilp (s.fproc q).fpBlockFd = some f ∧
      (s'.fproc q).fpBlockCallnr = (s.fproc q).fpBlockCallnr ∧
      (s'.fproc q).fpNbytes = (s.fproc q).fpNbytes ∧ (s'.filp f).filpVno = (s.filp f).filpVno ∧
      (s.vnode (s.filp f).filpVno).SameData (s'.vnode (s.filp f).filpVno) ∧
      (HasEnd C s (s.filp f).filpVno (otherEnd (s.fproc q).fpBlockCallnr) →
        HasEnd C s' (s.filp f).filpVno (otherEnd (s.fproc q).fpBlockCallnr))

def Modes (s : VfsState) : Prop :=
  ∀ f, (s.filp f).filpCount ≠ 0 → kindOf s f = .NAMED_PIPE →
    ¬ ((s.filp f).filpMode.r = true ∧ (s.filp f).filpMode.w = true)

section Release
variable {C : VfsConfig} {L : ℕ → ℕ} {s s' : VfsState} {p q v : ℕ} {callnr : CallNr}

theorem Fproc.Roused.asleep {rp rp' : Fproc} (h : rp.Roused rp') (ha : rp'.asleep) : rp' = rp := by
  cases h with
  | same => rfl
  | unblocked => cases ha.2.1
  | revived => cases ha.2.2

theorem Fproc.Roused.suspended {rp rp' : Fproc} (h : rp.Roused rp') (ha : rp'.suspended) :
    rp.suspended := by
  cases h with
  | same => exact ha
  | unblocked => rcases ha.2.2 with hb | hb <;> cases hb
  | revived => cases ha.2.1

def Hanging (s : VfsState) (v : ℕ) (callnr : CallNr) (q : ℕ) : Prop :=
  (s.fproc q).free = false ∧ (s.fproc q).fpBlockedOn ≠ .NONE ∧ (s.fproc q).fpRevived = false ∧
    (s.fproc q).fpBlockCallnr = callnr ∧
    ∃ f, (s.fproc q).fpFilp (s.fproc q).fpBlockFd = some f ∧ (s.filp f).filpVno = v

theorem hangs_of_hanging (h : Hanging s v callnr q) : hangs v callnr s (s.fproc q) = .ok true := by
  obtain ⟨hfree, hb, hrev, hnr, f, hf, hv⟩ := h
  unfold hangs
  rw [if_pos ⟨by rw [hfree]; decide, hb, by rw [hrev]; decide, hnr⟩, hf]
  exact congrArg _ (decide_eq_true hv)

theorem Roused.hanging (h : Roused s s') (hh : Hanging s' v callnr q) : Hanging s v callnr q := by
  obtain ⟨hfree, hb, hrev, hnr, f, hf, hv⟩ := hh
  have hq := h.fproc q
  have hsame : s'.fproc q = s.fproc q := by
    generalize s'.fproc q = rp at *
    cases hq with
    | same => rfl
    | unblocked => exact absurd rfl hb
    | revived => cases hrev
  rw [hsame] at hfree hb hrev hnr hf
  rw [h.filp] at hv
  exact ⟨hfree, hb, hrev, hnr, f, hf, hv⟩

theorem revive_suspCount (h : revive p (.ok 0) s = .ok s') : s'.suspCount = s.suspCount := by
  cases revive_cases h with
  | failed e _ _ _ _ he => cases he
  | _ => rfl

theorem revived_not_hanging (hsusp : (s.fproc p).suspended) (h : revive p (.ok 0) s = .ok s') :
    ¬ Hanging s' v callnr p := by
  rintro ⟨hfree, hb, hrev, -⟩
  cases revive_cases h with
  | idle hidle =>
    obtain ⟨hused, hnot, hpipe⟩ := hsusp
    rw [hused, hnot] at hidle
    rcases hidle with h | h | h
    · cases h
    · exact hb h
    · cases h
  | revived =>
    rw [fproc_setProc, Function.update_self] at hrev
    cases hrev
  | answered =>
    have hself : (unblock p s).fproc p = { s.fproc p with fpBlockedOn := .NONE } :=
      Function.update_self _ _ _
    exact hb (congrArg Fproc.fpBlockedOn hself)
  | failed e _ _ _ _ he => cases he

theorem releaseFrom_complete (hcall : callnr ≠ .SELECT ∧ callnr ≠ .FCNTL) (slots : List ℕ)
    (count : ℤ) (hs : Balanced C s) (hw : Waits C s) (hkind : (s.vnode v).kind = .NAMED_PIPE)
    (hcount : s.suspCount ≤ count) (h : releaseFrom v callnr slots count s = .ok s') :
    ∀ q ∈ slots, ¬ Hanging s' v callnr q := by
  have hnone : ∀ {s₁ : VfsState}, Balanced C s₁ → Waits C s₁ → (s₁.vnode v).kind = .NAMED_PIPE →
      s₁.suspCount ≤ 0 → ∀ q, ¬ Hanging s₁ v callnr q := by
    intro s₁ hs₁ hw₁ hkind₁ hzero q hq
    obtain ⟨hslot, hsusp⟩ := hangs_suspended hs₁ hw₁ hkind₁ hcall (hangs_of_hanging hq)
    have hpos : 0 < tally C.NR_PROCS Fproc.suspended s₁.fproc := tally_pos hslot hsusp
    rw [hs₁.susp] at hzero
    omega
  induction slots generalizing s count with
  | nil => exact fun q hq => absurd hq List.not_mem_nil
  | cons p slots ih =>
    unfold releaseFrom at h
    split at h
    · next hle =>
      cases h
      exact fun q _ => hnone hs hw hkind (by omega) q
    · split at h
      · cases h
      · next hfalse =>
        have hrest := ih count hs hw hkind hcount h
        have hroused := releaseFrom_roused hcall.1 slots count hw h
        intro q hq
        rcases List.mem_cons.mp hq with rfl | hmem
        · intro hh
          have htrue := hangs_of_hanging (hroused.hanging hh)
          rw [hfalse] at htrue
          cases htrue
        · exact hrest q hmem
      · next hhangs =>
        obtain ⟨hslot, hsusp⟩ := hangs_suspended hs hw hkind hcall hhangs
        have hrevive := revive_suspended hs hslot hsusp
        split at h
        · cases h
        · next s₁ hr =>
          rw [hr] at hrevive
          obtain ⟨hpos, hs₁⟩ := hrevive
          have hfirst := hw.revive_roused hr (hangs_true hw hcall.1 hhangs).2.2.2.2.1
            fun _ => ⟨0, rfl⟩
          have hfirst : Roused s { s₁ with suspCount := s₁.suspCount - 1 } :=
            ⟨hfirst.filp, hfirst.vnode, hfirst.dmapSelFilp, hfirst.mounts, hfirst.inFlight,
              hfirst.fproc, hfirst.selecting⟩
          have hw₁ := hw.roused hfirst
          have hkind₁ : (({ s₁ with suspCount := s₁.suspCount - 1 } : VfsState).vnode v).kind =
              .NAMED_PIPE := by
            rw [hfirst.vnode]
            exact hkind
          have hcount₁ : s₁.suspCount - 1 ≤ count - 1 := by
            have hbefore : s₁.suspCount = s.suspCount := revive_suspCount hr
            omega
          -- p has been woken, or answered
          have hgone : ¬ Hanging s₁ v callnr p := revived_not_hanging hsusp hr
          dsimp only at h
          split at h
          · cases h
          · split at h
            · next hlast =>
              cases h
              exact fun q _ => hnone hs₁ hw₁ hkind₁ (by dsimp only; omega) q
            · have hrest := ih (count - 1) hs₁ hw₁ hkind₁ hcount₁ h
              have hroused := releaseFrom_roused hcall.1 slots _ hw₁ h
              intro q hq
              rcases List.mem_cons.mp hq with rfl | hmem
              · exact fun hh => hgone (hroused.hanging hh)
              · exact hrest q hmem

theorem release_complete {count : ℤ} {woken : Woken} (hcall : callnr ≠ .SELECT ∧ callnr ≠ .FCNTL)
    (hs : Balanced C s) (hw : Waits C s) (hkind : (s.vnode v).kind = .NAMED_PIPE)
    (hcount : s.suspCount ≤ count) (h : release C v callnr count woken s = .ok s') :
    ∀ q, ¬ Hanging s' v callnr q := by
  unfold release at h
  obtain ⟨s₁, hselects, hrest⟩ := ok_of_bind h
  have hfirst : Roused s s₁ ∧ Balanced C s₁ := by
    split at hselects
    · have hsafe := selectCallback_safe woken hs hw
      rw [hselects] at hsafe
      exact ⟨selectCallback_roused woken hw hselects, hsafe⟩
    · cases hselects
      exact ⟨.refl _, hs⟩
  obtain ⟨hroused, hs₁⟩ := hfirst
  have hw₁ := hw.roused hroused
  have hfewer : s₁.suspCount ≤ s.suspCount := by
    rw [hs₁.susp, hs.susp]
    exact_mod_cast tally_le fun q _ hq => (hroused.fproc q).suspended hq
  have hkind₁ : (s₁.vnode v).kind = .NAMED_PIPE := by
    rw [hroused.vnode]
    exact hkind
  have hall := releaseFrom_complete hcall _ count hs₁ hw₁ hkind₁ (hfewer.trans hcount) hrest
  intro q hq
  have hslot := (hw₁.roused (releaseFrom_roused hcall.1 _ _ hw₁ hrest)).slot q hq.1 hq.2.1
  exact hall q (List.mem_range.mpr hslot) hq

end Release

def Undisturbed (s s' : VfsState) : Prop := ∀ q, (s'.fproc q).asleep → s'.fproc q = s.fproc q

def KeepsFiles (out : ℕ → Prop) (s s' : VfsState) : Prop :=
  ∀ g, ¬ out g → ((s'.filp g).filpCount = 0 ↔ (s.filp g).filpCount = 0) ∧
    (s'.filp g).filpVno = (s.filp g).filpVno ∧ (s'.filp g).filpMode = (s.filp g).filpMode

section Frames
variable {C : VfsConfig} {L : ℕ → ℕ} {s s' s'' : VfsState} {p f v n : ℕ} {out : ℕ → Prop}

theorem Undisturbed.trans (h : Undisturbed s s') (h' : Undisturbed s' s'') : Undisturbed s s'' := by
  intro q hq
  have hsame := h' q hq
  rw [hsame] at hq ⊢
  exact h q hq

theorem undisturbed_same (h : s'.fproc = s.fproc) : Undisturbed s s' := fun q _ => congrFun h q

theorem Roused.undisturbed (h : Roused s s') : Undisturbed s s' := fun q hq =>
  (h.fproc q).asleep hq

theorem undisturbed_setProc {x : Fproc} (h : ¬ x.asleep) : Undisturbed s (setProc s p x) := by
  intro q hq
  rw [fproc_setProc, Function.update_apply] at hq ⊢
  split at hq
  · exact absurd hq h
  · next hqp => rw [if_neg hqp]

theorem undisturbed_setFd {fd : ℕ} {x : Option ℕ} (h : ¬ (s.fproc p).asleep) :
    Undisturbed s (setFd p fd x s) := undisturbed_setProc h

theorem KeepsFiles.trans (h : KeepsFiles out s s') (h' : KeepsFiles out s' s'') :
    KeepsFiles out s s'' := by
  intro g hg
  obtain ⟨hcount, hvno, hmode⟩ := h g hg
  obtain ⟨hcount', hvno', hmode'⟩ := h' g hg
  exact ⟨hcount'.trans hcount, hvno'.trans hvno, hmode'.trans hmode⟩

theorem keeps_same (h : s'.filp = s.filp) : KeepsFiles out s s' := fun g _ => by
  rw [h]
  exact ⟨Iff.rfl, rfl, rfl⟩

theorem keeps_setFilp {x : Filp} (h : ¬ out f → ((x.filpCount = 0 ↔ (s.filp f).filpCount = 0) ∧
    x.filpVno = (s.filp f).filpVno ∧ x.filpMode = (s.filp f).filpMode)) :
    KeepsFiles out s (setFilp s f x) := by
  intro g hg
  have hfilp : (setFilp s f x).filp g = if g = f then x else s.filp g :=
    Function.update_apply _ _ _ _
  rw [hfilp]
  split
  · next hgf =>
    rw [hgf] at hg ⊢
    exact h hg
  · exact ⟨Iff.rfl, rfl, rfl⟩

theorem Steady.trans (h : Steady C s s') (h' : Steady C s' s'') : Steady C s s'' where
  asleep q f hq hf := by
    obtain ⟨hq', hf', hnr', hn', hvno', hdata', hend'⟩ := h'.asleep q f hq hf
    obtain ⟨hq₀, hf₀, hnr, hn, hvno, hdata, hend⟩ := h.asleep q f hq' hf'
    rw [hvno, hnr] at hend'
    rw [hvno] at hdata'
    exact ⟨hq₀, hf₀, hnr'.trans hnr, hn'.trans hn, hvno'.trans hvno, hdata.trans hdata',
      fun he => hend' (hend he)⟩

theorem steady_data (hk : KeepsFiles (fun _ => False) s s')
    (hdata : ∀ w, (s.vnode w).SameData (s'.vnode w)) (h : Undisturbed s s') : Steady C s s' where
  asleep q f hq hf := by
    have hsame := h q hq
    rw [hsame] at hq hf ⊢
    refine ⟨hq, hf, rfl, rfl, (hk f id).2.1, hdata _, ?_⟩
    rintro ⟨g, hg, hcount, hvno, hbits⟩
    obtain ⟨hcount', hvno', hmode'⟩ := hk g id
    exact ⟨g, hg, fun h => hcount (hcount'.mp h), hvno'.trans hvno, by rw [hmode', hbits]⟩

theorem steady_same (hfilp : s'.filp = s.filp) (hvnode : s'.vnode = s.vnode)
    (h : Undisturbed s s') : Steady C s s' :=
  steady_data (keeps_same hfilp) (fun w => by
    rw [hvnode]
    exact .refl _) h

theorem Roused.steady (h : Roused s s') : Steady C s s' :=
  steady_same h.filp h.vnode h.undisturbed

theorem steady_of_frames (hs : Refs C L s) (hb : Balanced C s)
    (hout : ∀ g, out g → (s.filp g).filpCount = 0 ∨ kindOf s g ≠ .NAMED_PIPE)
    (hu : Undisturbed s s') (hk : KeepsFiles out s s')
    (hdata : ∀ w, (s.vnode w).vRefCount ≠ 0 → (s.vnode w).SameData (s'.vnode w)) :
    Steady C s s' where
  asleep q f hq hf := by
    have hsame := hu q hq
    rw [hsame] at hq hf ⊢
    have hused := hs.fd_used hf
    have hpipe : kindOf s f = .NAMED_PIPE := (hb.file q f ⟨hq.1, .inr (.inr hq.2.1)⟩ hf).mpr hq.2.1
    have hin : ¬ out f := fun h => (hout f h).elim hused fun hne => hne hpipe
    refine ⟨hq, hf, rfl, rfl, (hk f hin).2.1, hdata _ (hs.filp_vnode hused), ?_⟩
    rintro ⟨g, hg, hcount, hvno, hbits⟩
    have hgpipe : kindOf s g = .NAMED_PIPE := by
      rw [kindOf, hvno]
      exact hpipe
    have hgin : ¬ out g := fun h => (hout g h).elim hcount fun hne => hne hgpipe
    obtain ⟨hcount', hvno', hmode'⟩ := hk g hgin
    exact ⟨g, hg, fun h => hcount (hcount'.mp h), hvno'.trans hvno, by rw [hmode', hbits]⟩

theorem modes_of_frames (hs : Refs C L s) (hm : Modes s) (hk : KeepsFiles out s s')
    (hdata : ∀ w, (s.vnode w).vRefCount ≠ 0 → (s.vnode w).SameData (s'.vnode w))
    (hout : ∀ g, out g → (s'.filp g).filpCount ≠ 0 → kindOf s' g = .NAMED_PIPE →
      ¬ ((s'.filp g).filpMode.r = true ∧ (s'.filp g).filpMode.w = true)) : Modes s' := by
  intro g hcount hkind
  by_cases hg : out g
  · exact hout g hg hcount hkind
  · obtain ⟨hcount', hvno, hmode⟩ := hk g hg
    have hused : (s.filp g).filpCount ≠ 0 := fun h => hcount (hcount'.mpr h)
    rw [hmode]
    refine hm g hused ?_
    rw [kindOf, hvno, (hdata _ (hs.filp_vnode hused)).kind] at hkind
    exact hkind

end Frames

open Errno

structure Aside (out : ℕ → Prop) (s s' : VfsState) : Prop where
  proc : Undisturbed s s'
  files : KeepsFiles out s s'

section Aside
variable {C : VfsConfig} {L : ℕ → ℕ} {s s' s'' : VfsState} {p fd f v n : ℕ} {out : ℕ → Prop}

theorem Aside.trans (h : Aside out s s') (h' : Aside out s' s'') : Aside out s s'' :=
  ⟨h.proc.trans h'.proc, h.files.trans h'.files⟩

theorem aside_same (hfilp : s'.filp = s.filp) (h : Undisturbed s s') : Aside out s s' :=
  ⟨h, keeps_same hfilp⟩

theorem Roused.aside (h : Roused s s') : Aside out s s' := aside_same h.filp h.undisturbed

theorem aside_tables (hproc : s'.fproc = s.fproc) (hfilp : s'.filp = s.filp) : Aside out s s' :=
  aside_same hfilp (undisturbed_same hproc)

theorem aside_reply {r : Except Errno ℕ} : Aside out s (reply s p r) := aside_tables rfl rfl

theorem aside_setFilp {x : Filp} (h : ¬ out f → ((x.filpCount = 0 ↔ (s.filp f).filpCount = 0) ∧
    x.filpVno = (s.filp f).filpVno ∧ x.filpMode = (s.filp f).filpMode)) :
    Aside out s (setFilp s f x) := ⟨undisturbed_same rfl, keeps_setFilp h⟩

theorem aside_setCount_out (h : out f) : Aside out s (setCount f n s) :=
  aside_setFilp fun hnot => absurd h hnot

theorem aside_counted (hf : (s.filp f).filpCount ≠ 0) (hn : n ≠ 0) : Aside out s (setCount f n s) :=
  aside_setFilp fun _ => ⟨⟨fun h => absurd h hn, fun h => absurd h hf⟩, rfl, rfl⟩

theorem aside_putVnode (h : putVnode s v = .ok s') : Aside out s s' := by
  obtain ⟨-, rfl⟩ := putVnode_ok h
  exact aside_tables rfl rfl

theorem aside_setFd {x : Option ℕ} (h : ¬ (s.fproc p).asleep) : Aside out s (setFd p fd x s) :=
  aside_same rfl (undisturbed_setFd h)

theorem Aside.not_asleep (h : Aside out s s') (hp : ¬ (s.fproc p).asleep) :
    ¬ (s'.fproc p).asleep := by
  intro hq
  have hsame := h.proc p hq
  rw [hsame] at hq
  exact hp hq

theorem Caller.not_asleep (hp : Caller C s p) : ¬ (s.fproc p).asleep := fun h => by
  have hb := h.2.1
  rw [hp.runs] at hb
  cases hb

theorem aside_suspend {why : BlockedOn} {callnr : CallNr} (hwhy : why ≠ .PIPE) :
    Aside out s (suspend p why fd callnr s) := by
  unfold suspend
  dsimp only
  split
  · have hcount : Aside out s { s with suspCount := s.suspCount + 1 } := aside_tables rfl rfl
    exact hcount.trans (aside_same rfl (undisturbed_setProc fun h => hwhy h.2.1))
  · exact aside_same rfl (undisturbed_setProc fun h => hwhy h.2.1)

theorem aside_attach (hp : ¬ (s.fproc p).asleep) (hf : (s.filp f).filpCount ≠ 0) :
    Aside out s (attach p fd f s) := by
  have hcount : Aside out s (setCount f ((s.filp f).filpCount + 1) s) :=
    aside_counted hf (Nat.succ_ne_zero _)
  exact hcount.trans (aside_setFd hp)

end Aside

section Calls
variable {C : VfsConfig} {L : ℕ → ℕ} {s s' : VfsState} {p fd f v vSize start : ℕ} {kind : VKind}
  {mode bits : FilpMode} {nonblock waits : Bool} {callnr : CallNr} {out : ℕ → Prop}

theorem aside_doDup (hs : Refs C L s) (hp : Caller C s p) : Aside out s (doDup C p fd start s) := by
  unfold doDup
  split
  · exact aside_reply
  · next f hf =>
    split
    · exact aside_reply
    · exact (aside_attach hp.not_asleep (hs.fd_used hf)).trans aside_reply

theorem aside_claim (hp : ¬ (s.fproc p).asleep) (hf : out f) :
    Aside out s (claim p fd f v mode nonblock s) := by
  have hfilp : Aside out s (setFilp s f ⟨mode, nonblock, 1, v⟩) :=
    aside_setFilp fun hnot => absurd hf hnot
  exact hfilp.trans (aside_setFd hp)

theorem aside_eatPath : Aside out s (eatPath v kind vSize s) := by
  unfold eatPath
  split
  · exact aside_tables rfl rfl
  · exact aside_tables rfl rfl

theorem unclaim_aside (hp : ¬ (s.fproc p).asleep) (hf : out f)
    (h : unclaim p fd f v s = .ok s') : Aside out s s' := by
  have hcleared : Aside out s (setFd p fd none s) := aside_setFd hp
  exact (hcleared.trans (aside_setCount_out hf)).trans (aside_putVnode h)

theorem pipeOpen_aside {r : Option (Except Errno Unit)} (hw : Waits C s)
    (h : pipeOpen C p fd v bits nonblock callnr s = .ok (r, s')) :
    Aside out s s' ∧ s'.filp = s.filp := by
  unfold pipeOpen at h
  generalize (if bits.w = true then R_BIT else W_BIT) = other at h
  split at h
  · cases h
    exact ⟨aside_tables rfl rfl, rfl⟩
  · split at h
    · split at h
      · cases h
        exact ⟨aside_tables rfl rfl, rfl⟩
      · cases h
        exact ⟨aside_suspend (by decide), rfl⟩
    · split at h
      · obtain ⟨s₂, hboth, hpair⟩ := ok_of_map h
        cases hpair
        obtain ⟨s₁, hfirst, hsecond⟩ := ok_of_bind hboth
        have hr₁ := release_roused (by decide) hw hfirst
        have hr₂ := release_roused (by decide) (hw.roused hr₁) hsecond
        exact ⟨hr₁.aside.trans hr₂.aside, hr₂.filp.trans hr₁.filp⟩
      · cases h
        exact ⟨aside_tables rfl rfl, rfl⟩

theorem filp_setCount (g : ℕ) : (setCount f n s).filp g =
    if g = f then { s.filp f with filpCount := n } else s.filp g := Function.update_apply _ _ _ _

theorem mode_setCount (g : ℕ) : ((setCount f n s).filp g).filpMode = (s.filp g).filpMode := by
  rw [filp_setCount]
  split
  · next hg => rw [hg]
  · rfl

theorem shareFilp_aside (hp : ¬ (s.fproc p).asleep) (hf : out f)
    (h : shareFilp C p fd f v bits nonblock s = .ok s') :
    Aside out s s' ∧ ∀ g, (s'.filp g).filpMode = (s.filp g).filpMode := by
  unfold shareFilp at h
  dsimp only at h
  have hzero : Aside out s (setCount f 0 s) := aside_setCount_out hf
  split at h
  · cases h
    exact ⟨hzero.trans (aside_setCount_out hf), fun g => (mode_setCount g).trans (mode_setCount g)⟩
  · next f2 hfound =>
    have hcount := (findFilp_some hfound).2.1
    have hshared : Aside out (setCount f 0 s) (setFilp (setCount f 0 s) f2
        { (setCount f 0 s).filp f2 with
          filpCount := ((setCount f 0 s).filp f2).filpCount + 1, nonblock := nonblock }) :=
      aside_setFilp fun _ =>
        ⟨⟨fun h => absurd h (Nat.succ_ne_zero _), fun h => absurd h hcount⟩, rfl, rfl⟩
    have hput := h
    obtain ⟨-, rfl⟩ := putVnode_ok h
    refine ⟨((hzero.trans hshared).trans (aside_setFd hp)).trans (aside_putVnode hput), fun g => ?_⟩
    have hfilp : (setFilp (setCount f 0 s) f2 { (setCount f 0 s).filp f2 with
        filpCount := ((setCount f 0 s).filp f2).filpCount + 1, nonblock := nonblock }).filp g =
        if g = f2 then { (setCount f 0 s).filp f2 with
          filpCount := ((setCount f 0 s).filp f2).filpCount + 1, nonblock := nonblock }
        else (setCount f 0 s).filp g := Function.update_apply _ _ _ _
    refine (congrArg Filp.filpMode hfilp).trans ?_
    rw [← mode_setCount (n := 0) (f := f) g]
    split
    · next hg => rw [hg]
    · rfl

theorem openClaimed_aside (hs : Refs C L s) (hp : Caller C s p) (hc : Claimed s p fd f v) (hf : out f)
    (h : openClaimed C p fd f v bits nonblock callnr s = .ok s') :
    Aside out (cleared v s) s' ∧ ((s'.filp f).filpCount ≠ 0 →
      (s'.filp f).filpMode = (s.filp f).filpMode ∧ ¬ (bits.r = true ∧ bits.w = true)) := by
  obtain ⟨hs₀, hp₀, -⟩ := cleared_refs hs hp hc
  have hfilp₀ : (cleared v s).filp = s.filp := by
    unfold cleared
    split <;> rfl
  unfold openClaimed at h
  dsimp only at h
  generalize hcleared : (if (s.vnode v).vRefCount = 1 then setVnode s v
    { s.vnode v with vPipeRdPos := 0, vPipeWrPos := 0, vSize := 0 } else s) = s₀ at h
  obtain rfl : cleared v s = s₀ := hcleared
  obtain ⟨⟨r, s₁⟩, hopen, hrest⟩ := ok_of_bind h
  dsimp only at hrest
  obtain ⟨hopened, hfilp₁⟩ : Aside out (cleared v s) s₁ ∧ _ := pipeOpen_aside hs₀.waits hopen
  have hawake := hopened.not_asleep hp₀.not_asleep
  have hboth : bits.r = true ∧ bits.w = true → r = some (.error ENXIO) := by
    intro hb
    unfold pipeOpen at hopen
    rw [if_pos hb] at hopen
    cases hopen
    rfl
  obtain ⟨s₂, hshare, hend⟩ := ok_of_bind hrest
  have hshared : Aside out s₁ s₂ ∧ ∀ g, (s₂.filp g).filpMode = (s₁.filp g).filpMode := by
    split at hshare
    · cases hshare
      exact ⟨aside_tables rfl rfl, fun _ => rfl⟩
    · exact shareFilp_aside hawake hf hshare
  have hmode : (s₂.filp f).filpMode = (s.filp f).filpMode := by
    rw [hshared.2, hfilp₁, hfilp₀]
  have hall := hopened.trans hshared.1
  split at hend
  · cases hend
    exact ⟨hall, fun _ => ⟨hmode, fun hb => by cases hboth hb⟩⟩
  · cases hend
    exact ⟨hall.trans aside_reply, fun _ => ⟨hmode, fun hb => by cases hboth hb⟩⟩
  · obtain ⟨s₃, hundo, rfl⟩ := ok_of_map hend
    refine ⟨(hall.trans (unclaim_aside (hshared.1.not_asleep hawake) hf hundo)).trans aside_reply,
      fun hcount => absurd ?_ hcount⟩
    obtain ⟨-, rfl⟩ := putVnode_ok hundo
    have hzero : (setCount f 0 (setFd p fd none s₂)).filp f =
        { s₂.filp f with filpCount := 0 } := Function.update_self _ _ _
    exact congrArg Filp.filpCount hzero

end Calls

end Vfs
