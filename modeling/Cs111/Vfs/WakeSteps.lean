import Cs111.Vfs.Wakeups

namespace Vfs
open Tally TransitionSystem Errno

def PipeCalls (s : VfsState) : Prop :=
  ∀ p, (s.fproc p).free = false → (s.fproc p).fpBlockedOn = .PIPE →
    (s.fproc p).fpBlockCallnr = .READ ∨ (s.fproc p).fpBlockCallnr = .WRITE ∧
      (s.fproc p).fpNbytes = (s.fproc p).fpBuffer.length ∧ 0 < (s.fproc p).fpNbytes

structure Passive (C : VfsConfig) (s s' : VfsState) : Prop where
  data : ∀ w, (s.vnode w).vRefCount ≠ 0 → (s.vnode w).SameData (s'.vnode w)
  fresh : ∀ w, (s.vnode w).vRefCount = 0 → (s'.vnode w).vRefCount = 0 ∨
    (s'.vnode w).kind ≠ .NAMED_PIPE ∨ ((s'.vnode w).vSize = 0 ∧
      (s'.vnode w).vPipeRdPos = 0 ∧ (s'.vnode w).vPipeWrPos = 0)
  proc : ∀ q, (s'.fproc q).free = false →
    (s.fproc q).Kept (s'.fproc q) ∨ (s'.fproc q).fpBlockedOn ≠ .PIPE
  steady : Steady C s s'
  modes : Modes s'

section Passive
variable {C : VfsConfig} {L : ℕ → ℕ} {s s' : VfsState} {p fd fd2 f v vSize start : ℕ} {kind : VKind}
  {bits : FilpMode} {nonblock waits unlocks : Bool} {callnr : CallNr} {woken : Woken}
  {out : ℕ → Prop}

theorem PipeCalls.kept (hc : PipeCalls s) (h : ∀ q, (s'.fproc q).free = false →
    (s.fproc q).Kept (s'.fproc q) ∨ (s'.fproc q).fpBlockedOn ≠ .PIPE) : PipeCalls s' := by
  intro q hfree hb
  rcases h q hfree with hk | hnot
  · have hb₀ := hk.back hb
    rw [(hk.pipe hb₀).2, hk.nbytes, hk.buffer]
    exact hc q (hk.free hfree) hb₀
  · exact absurd hb hnot

theorem Still.passive (h : Still s s') (hsteady : Steady C s s') (hm : Modes s') : Passive C s s' :=
  ⟨fun w _ => h.data w, fun w h0 => .inl (h.unused w h0), fun q _ => .inl (h.proc q), hsteady, hm⟩

theorem Fresh.passive (hs : Refs C L s) (hb : Balanced C s) (hm : Modes s) (h : Fresh s s')
    (ha : Aside out s s')
    (hout : ∀ g, out g → (s.filp g).filpCount = 0 ∨ kindOf s g ≠ .NAMED_PIPE)
    (hopen : ∀ g, out g → (s'.filp g).filpCount ≠ 0 → kindOf s' g = .NAMED_PIPE →
      ¬ ((s'.filp g).filpMode.r = true ∧ (s'.filp g).filpMode.w = true)) : Passive C s s' :=
  ⟨h.data, h.fresh, fun q _ => .inl (h.proc q),
    steady_of_frames hs hb hout ha.proc ha.files h.data, modes_of_frames hs hm ha.files h.data hopen⟩

theorem Fresh.passive_aside (hs : Refs C L s) (hb : Balanced C s) (hm : Modes s) (h : Fresh s s')
    (ha : Aside (fun _ => False) s s') : Passive C s s' :=
  h.passive hs hb hm ha (fun _ h => h.elim) fun _ h => h.elim

theorem Still.passive_aside (hs : Refs C L s) (hb : Balanced C s) (hm : Modes s) (h : Still s s')
    (ha : Aside (fun _ => False) s s') : Passive C s s' :=
  h.fresh.passive_aside hs hb hm ha

theorem strayed_passive (lost : List Lookup) (hs : Refs C L s) (hb : Balanced C s) (hm : Modes s)
    (hused : PipesUsed s lost) : Passive C s (strayed lost s) := by
  have hframe := strayed_frame lost s
  have hfresh : Fresh s (strayed lost s) :=
    (strayed_taken lost hused).then_fresh (Still.refl _).fresh
  exact hfresh.passive_aside hs hb hm (aside_tables hframe.1 hframe.2)

theorem Passive.behind {lost : List Lookup} (hs : Refs C L s) (hb : Balanced C s) (hm : Modes s)
    (hused : PipesUsed s lost) (hfresh : Fresh s s') (h : Passive C (strayed lost s) s') :
    Passive C s s' :=
  ⟨hfresh.data, hfresh.fresh, fun q _ => .inl (hfresh.proc q),
    (strayed_passive lost hs hb hm hused).steady.trans h.steady, h.modes⟩

theorem openFifo_found_passive (hs : Refs C L s) (hb : Balanced C s) (hm : Modes s)
    (hp : Caller C s p) (h : openFifo C p [] v vSize bits nonblock callnr s = .ok s') :
    Passive C s s' := by
  have hfresh := openFifo_found_fresh hs hp h
  unfold openFifo at h
  split at h
  · cases h
    exact still_reply.passive_aside hs hb hm aside_reply
  · next fd f hget =>
    obtain ⟨-, -, -, -, hcount⟩ := getFd_ok hget
    obtain ⟨hrefs, hcaller⟩ := claim_found_refs (C := C) hs hp hget
    have hfound : Aside (· = f) s (eatPath v .NAMED_PIPE vSize s) := aside_eatPath
    have hclaim : Aside (· = f) s (claim p fd f v bits nonblock (eatPath v .NAMED_PIPE vSize s)) :=
      hfound.trans (aside_claim (hfound.not_asleep hp.not_asleep) rfl)
    have hcleared : ∀ {s₀ : VfsState}, Aside (· = f) s₀ (cleared v s₀) := fun {s₀} => by
      unfold cleared
      split <;> exact aside_tables rfl rfl
    obtain ⟨hopened, hmode⟩ : Aside (· = f) (cleared v _) s' ∧ _ :=
      openClaimed_aside hrefs hcaller claim_claimed rfl h
    refine hfresh.passive hs hb hm ((hclaim.trans hcleared).trans hopened) (fun g hg => ?_)
      fun g hg hcount' _ => ?_
    · subst hg
      exact .inl hcount
    · subst hg
      obtain ⟨hbits, hnot⟩ := hmode hcount'
      have hfilp : (claim p fd g v bits nonblock (eatPath v .NAMED_PIPE vSize s)).filp g =
          ⟨bits, nonblock, 1, v⟩ := Function.update_self _ _ _
      rw [hbits, hfilp]
      exact hnot

theorem openFifo_passive {lost : List Lookup} (hs : Refs C L s) (hb : Balanced C s) (hm : Modes s)
    (hp : Caller C s p) (hused : PipesUsed s lost)
    (h : openFifo C p lost v vSize bits nonblock callnr s = .ok s') : Passive C s s' := by
  have hfresh := openFifo_fresh hs hp hused h
  rcases openFifo_strayed h with ⟨r, hfails⟩ | hagain
  · cases hfails
    exact still_reply.passive_aside hs hb hm aside_reply
  · obtain ⟨L', hs'⟩ := strayed_refs lost hs
    refine Passive.behind hs hb hm hused hfresh ?_
    exact openFifo_found_passive hs' (hb.calm (calm_strayed lost hs))
      (strayed_passive lost hs hb hm hused).modes (strayed_caller lost hp) hagain

theorem cloneOpcl_aside {w : ℕ} (hf : out f) (h : cloneOpcl f v w s = .ok s') :
    Aside out s s' ∧ kindOf s' f = .CHAR_SPECIAL := by
  obtain ⟨s₁, hput, rfl⟩ := ok_of_map h
  have hset : Aside out s₁ (setVnode s₁ w { s₁.vnode w with kind := .CHAR_SPECIAL, vRefCount := 1 }) :=
    aside_tables rfl rfl
  refine ⟨((aside_putVnode hput).trans hset).trans (aside_setFilp fun hnot => absurd hf hnot), ?_⟩
  have hnew : ∀ {t : VfsState} {y : Filp}, kindOf (setFilp t f y) f = (t.vnode y.filpVno).kind :=
    fun {t y} => by
      have hself : (setFilp t f y).filp f = y := Function.update_self _ _ _
      rw [kindOf, hself]
      rfl
  refine hnew.trans ?_
  rw [vnode_setVnode, if_pos rfl]

theorem openOther_found_passive {result : Except Errno Opened} (hs : Refs C L s)
    (hb : Balanced C s) (hm : Modes s) (hp : Caller C s p) (hkind : kind ≠ .NAMED_PIPE)
    (hfound : Found s v kind) (hclones : Clones s v kind result) (hfree : result ≠ .ok .overwritten)
    (h : openOther C p [] v vSize kind bits nonblock waits callnr result s = .ok s') :
    Passive C s s' := by
  have hfresh := openOther_found_fresh hs hp hkind hfound hclones hfree h
  unfold openOther at h
  split at h
  · cases h
    exact still_reply.passive_aside hs hb hm aside_reply
  · next fd f hget =>
    obtain ⟨-, -, -, -, hcount⟩ := getFd_ok hget
    have hate : Aside (· = f) s (eatPath v kind vSize s) := aside_eatPath
    have hkind₀ : ((eatPath v kind vSize s).vnode v).kind = kind := eatPath_kind hfound
    have hclaim : Aside (· = f) s (claim p fd f v bits nonblock (eatPath v kind vSize s)) :=
      hate.trans (aside_claim (hate.not_asleep hp.not_asleep) rfl)
    have hawake := hclaim.not_asleep hp.not_asleep
    have hfilp : (claim p fd f v bits nonblock (eatPath v kind vSize s)).filp f =
        ⟨bits, nonblock, 1, v⟩ := Function.update_self _ _ _
    have hkindf : kindOf (claim p fd f v bits nonblock (eatPath v kind vSize s)) f ≠ .NAMED_PIPE := by
      rw [kindOf, hfilp]
      exact fun h => hkind (hkind₀.symm.trans h)
    have hend : Aside (· = f) s s' ∧ ((s'.filp f).filpCount ≠ 0 → kindOf s' f ≠ .NAMED_PIPE) := by
      dsimp only at h
      split at h
      · cases h
        exact ⟨hclaim.trans (aside_suspend (by decide)), fun _ => hkindf⟩
      · split at h
        · cases h
          exact ⟨hclaim.trans aside_reply, fun _ => hkindf⟩
        · obtain ⟨s₁, hclone, rfl⟩ := ok_of_map h
          have hcloned : Aside (· = f) _ s₁ ∧ kindOf s₁ f = .CHAR_SPECIAL :=
            cloneOpcl_aside rfl hclone
          refine ⟨(hclaim.trans hcloned.1).trans aside_reply, fun _ hpipe => ?_⟩
          exact absurd (hcloned.2.symm.trans hpipe) (by decide)
        · exact absurd rfl hfree
        · obtain ⟨s₁, hundo, rfl⟩ := ok_of_map h
          refine ⟨(hclaim.trans (unclaim_aside hawake rfl hundo)).trans aside_reply,
            fun hcount' => absurd ?_ hcount'⟩
          obtain ⟨-, rfl⟩ := putVnode_ok hundo
          have hzero : (setCount f 0 (setFd p fd none (claim p fd f v bits nonblock
              (eatPath v kind vSize s)))).filp f = ⟨bits, nonblock, 0, v⟩ :=
            (Function.update_self _ _ _).trans (congrArg (fun x : Filp => { x with filpCount := 0 })
              hfilp)
          exact congrArg Filp.filpCount hzero
    refine hfresh.passive hs hb hm hend.1 (fun g hg => ?_) fun g hg hcount' hpipe => ?_
    · subst hg
      exact .inl hcount
    · subst hg
      exact absurd hpipe (hend.2 hcount')

theorem openOther_passive {lost : List Lookup} {result : Except Errno Opened} (hs : Refs C L s)
    (hb : Balanced C s) (hm : Modes s) (hp : Caller C s p) (hused : PipesUsed s lost)
    (hkind : kind ≠ .NAMED_PIPE) (hfound : Found (strayed lost s) v kind)
    (hclones : Clones (strayed lost s) v kind result) (hfree : result ≠ .ok .overwritten)
    (h : openOther C p lost v vSize kind bits nonblock waits callnr result s = .ok s') :
    Passive C s s' := by
  have hfresh := openOther_fresh hs hp hused hkind hfound hclones hfree h
  rcases openOther_strayed h with ⟨r, hfails⟩ | hagain
  · cases hfails
    exact still_reply.passive_aside hs hb hm aside_reply
  · obtain ⟨L', hs'⟩ := strayed_refs lost hs
    refine Passive.behind hs hb hm hused hfresh ?_
    exact openOther_found_passive hs' (hb.calm (calm_strayed lost hs))
      (strayed_passive lost hs hb hm hused).modes (strayed_caller lost hp) hkind hfound hclones hfree
      hagain

theorem openMissing_passive {lost : List Lookup} {r : Errno} (hs : Refs C L s) (hb : Balanced C s)
    (hm : Modes s) (hused : PipesUsed s lost) : Passive C s (openMissing C p lost r s) := by
  have hfresh : Fresh s (openMissing C p lost r s) := openMissing_fresh hused
  refine hfresh.passive_aside hs hb hm ?_
  have hframe := strayed_frame lost s
  unfold openMissing
  split
  · exact aside_reply
  · exact aside_tables hframe.1 hframe.2

theorem doPipe_passive {created : Except Errno Unit} (hs : Refs C L s) (hb : Balanced C s)
    (hm : Modes s) (hp : Caller C s p) (hv : (s.vnode v).vRefCount = 0) :
    Passive C s (doPipe C p v created s) := by
  have hfresh : Fresh s (doPipe C p v created s) := doPipe_fresh hv
  have hreply : ∀ {r : Except Errno ℕ}, Passive C s (reply s p r) := fun {r} =>
    still_reply.passive_aside hs hb hm aside_reply
  unfold doPipe at hfresh ⊢
  split
  · exact hreply
  · next fd₀ f₀ hget₀ =>
    obtain ⟨-, -, -, -, hcount₀⟩ := getFd_ok hget₀
    rw [hget₀] at hfresh
    dsimp only at hfresh ⊢
    split
    · exact hreply
    · next fd₁ f₁ hget₁ =>
      obtain ⟨-, -, -, -, hcount₁⟩ := getFd_ok hget₁
      rw [hget₁] at hfresh
      dsimp only at hfresh
      split
      · exact hreply
      · dsimp only at hfresh
        have hfilp₀ : (setFd p fd₀ (some f₀) (setFilp s f₀ ⟨R_BIT, false, 1, v⟩)).filp =
            Function.update s.filp f₀ ⟨R_BIT, false, 1, v⟩ := rfl
        have hne : f₁ ≠ f₀ := by
          rintro rfl
          rw [hfilp₀, Function.update_self] at hcount₁
          cases hcount₁
        rw [hfilp₀, Function.update_of_ne hne] at hcount₁
        have hfirst : Aside (fun g => g = f₀ ∨ g = f₁) s (claim p fd₀ f₀ v R_BIT false s) :=
          aside_claim hp.not_asleep (.inl rfl)
        have hsecond : Aside (fun g => g = f₀ ∨ g = f₁) s
            (claim p fd₁ f₁ v W_BIT false (claim p fd₀ f₀ v R_BIT false s)) :=
          hfirst.trans (aside_claim (hfirst.not_asleep hp.not_asleep) (.inr rfl))
        have hnew : ∀ {s₁ : VfsState} {x : Vnode} {r : Except Errno ℕ},
            Aside (fun g => g = f₀ ∨ g = f₁) s₁ (reply (setVnode s₁ v x) p r) :=
          aside_tables rfl rfl
        refine hfresh.passive hs hb hm (hsecond.trans hnew)
          (fun g hg => ?_)
          fun g hg _ _ => ?_
        · rcases hg with rfl | rfl
          · exact .inl hcount₀
          · exact .inl hcount₁
        · have hfilp : ∀ {s₁ : VfsState} {x : Vnode} {r : Except Errno ℕ},
              (reply (setVnode (setFd p fd₁ (some f₁) (setFilp s₁ f₁ ⟨W_BIT, false, 1, v⟩)) v x)
                p r).filp g = Function.update s₁.filp f₁ ⟨W_BIT, false, 1, v⟩ g := rfl
          rw [hfilp]
          rcases hg with rfl | rfl
          · rw [Function.update_of_ne hne.symm, hfilp₀, Function.update_self]
            exact fun h => by cases h.2
          · rw [Function.update_self]
            exact fun h => by cases h.1

end Passive

section Closing
variable {C : VfsConfig} {L : ℕ → ℕ} {s s' : VfsState} {p fd fd2 f : ℕ} {unlocks : Bool} {woken : Woken}
  {a : ExitArgs}

theorem modes_data (hm : Modes s) (hk : KeepsFiles (fun _ => False) s s')
    (hdata : ∀ w, (s.vnode w).SameData (s'.vnode w)) : Modes s' := by
  intro g hcount hkind
  obtain ⟨hcount', hvno, hmode⟩ := hk g id
  rw [kindOf, hvno, (hdata _).kind] at hkind
  rw [hmode]
  exact hm g (fun h => hcount (hcount'.mpr h)) hkind

theorem modes_same (hm : Modes s) (hfilp : s'.filp = s.filp) (hvnode : s'.vnode = s.vnode) :
    Modes s' := by
  unfold Modes kindOf
  rw [hfilp, hvnode]
  exact hm

theorem Roused.pipeCalls (h : Roused s s') (hc : PipeCalls s) : PipeCalls s' :=
  hc.kept fun q _ => .inl (h.fproc q).kept

theorem tally_bound {n : ℕ} {q : Fproc → Prop} [DecidablePred q] {g : ℕ → Fproc} :
    tally n q g ≤ n :=
  (Finset.card_filter_le _ _).trans_eq (Finset.card_range n)

theorem closeFilp_woken (hb : Balanced C s) (hw : Waits C s)
    (h : closeFilp C f woken s = .ok s') : ∃ s₁, Roused s s₁ ∧
      (kindOf s f = .NAMED_PIPE → ∀ q, ¬ Hanging s₁ (s.filp f).filpVno
        (if (s.filp f).filpMode.r then .WRITE else .READ) q) ∧
      s'.fproc = s₁.fproc ∧
      s'.filp = Function.update s₁.filp f
        { s₁.filp f with filpCount := (s₁.filp f).filpCount - 1 } := by
  unfold closeFilp at h
  dsimp only at h
  obtain ⟨s₁, hrelease, hdrop⟩ := ok_of_bind h
  have hcall : (if (s.filp f).filpMode.r then CallNr.WRITE else CallNr.READ) ≠ .SELECT ∧
      (if (s.filp f).filpMode.r then CallNr.WRITE else CallNr.READ) ≠ .FCNTL := by
    split <;> exact ⟨by decide, by decide⟩
  have hcount : s.suspCount ≤ C.NR_PROCS := by
    rw [hb.susp]
    exact_mod_cast tally_bound
  have hfirst : Roused s s₁ ∧ (kindOf s f = .NAMED_PIPE → ∀ q, ¬ Hanging s₁ (s.filp f).filpVno
      (if (s.filp f).filpMode.r then .WRITE else .READ) q) := by
    split at hrelease
    · next hpipe =>
      exact ⟨release_roused hcall.1 hw hrelease,
        fun _ => release_complete hcall hb hw hpipe hcount hrelease⟩
    · next hpipe =>
      cases hrelease
      exact ⟨.refl _, fun h => absurd h hpipe⟩
  refine ⟨s₁, hfirst.1, hfirst.2, ?_⟩
  split at hdrop
  · obtain ⟨-, rfl⟩ := putVnode_ok hdrop
    exact ⟨rfl, rfl⟩
  · cases hdrop
    exact ⟨rfl, rfl⟩

theorem closeFilp_steady (hb : Balanced C s) (hw : Waits C s) (hm : Modes s) (hc : PipeCalls s)
    (h : closeFilp C f woken s = .ok s') : Steady C s s' ∧ Modes s' := by
  have hdata := (closeFilp_still hw h).data
  obtain ⟨s₁, hroused, hgone, hproc, hfilp⟩ := closeFilp_woken hb hw h
  rw [hroused.filp] at hfilp
  have hat : ∀ g, (s'.filp g).filpVno = (s.filp g).filpVno ∧
      (s'.filp g).filpMode = (s.filp g).filpMode ∧
      ((s'.filp g).filpCount ≠ 0 → (s.filp g).filpCount ≠ 0) ∧
      (g ≠ f → (s'.filp g).filpCount = (s.filp g).filpCount) := by
    intro g
    rw [hfilp, Function.update_apply]
    split
    · next hg =>
      subst hg
      exact ⟨rfl, rfl, fun h h0 => h (by dsimp only; omega), fun h => absurd rfl h⟩
    · exact ⟨rfl, rfl, id, fun _ => rfl⟩
  refine ⟨⟨fun q g hq hg => ?_⟩, fun g hcount hkind => ?_⟩
  · rw [hproc] at hq hg ⊢
    have hsame : s₁.fproc q = s.fproc q := hroused.undisturbed q hq
    have hq₁ := hq
    rw [hsame] at hq hg ⊢
    have hpipe : kindOf s g = .NAMED_PIPE :=
      (hb.file q g ⟨hq.1, .inr (.inr hq.2.1)⟩ hg).mpr hq.2.1
    refine ⟨hq, hg, rfl, rfl, (hat g).1, hdata _, ?_⟩
    rintro ⟨k, hk, hcount, hvno, hbits⟩
    refine ⟨k, hk, fun hzero => ?_, (hat k).1.trans hvno, by rw [(hat k).2.1, hbits]⟩
    -- only the closed file can have gone, but then the process was woken
    have hkf : k = f := by
      by_contra hne
      rw [(hat k).2.2.2 hne] at hzero
      exact hcount hzero
    subst hkf
    have hkpipe : kindOf s k = .NAMED_PIPE := by
      rw [kindOf, hvno]
      exact hpipe
    have hcalls := hc q hq.1 hq.2.1
    have hnr : (if (s.filp k).filpMode.r then CallNr.WRITE else CallNr.READ) =
        (s.fproc q).fpBlockCallnr := by
      rcases hcalls with hread | ⟨hwrite, -⟩
      · rw [hread] at hbits ⊢
        have hw' : (s.filp k).filpMode.w = true := by
          simpa [otherEnd, FilpMode.has, W_BIT] using hbits
        rw [if_neg fun hr => hm k hcount hkpipe ⟨hr, hw'⟩]
      · rw [hwrite] at hbits ⊢
        have hr' : (s.filp k).filpMode.r = true := by
          simpa [otherEnd, FilpMode.has, R_BIT] using hbits
        rw [if_pos hr']
    refine hgone hkpipe q ⟨hq₁.1, ?_, hq₁.2.2, ?_, g, ?_, ?_⟩
    · rw [hq₁.2.1]
      decide
    · rw [hsame, hnr]
    · rw [hsame, hg]
    · rw [hroused.filp, hvno]
  · rw [kindOf, (hat g).1, (hdata _).kind] at hkind
    rw [(hat g).2.1]
    exact hm g ((hat g).2.2.1 hcount) hkind

theorem closeFd_steady (hs : Refs C L s) (hb : Balanced C s) (hm : Modes s) (hc : PipeCalls s)
    (hp : ¬ (s.fproc p).asleep) (h : closeFd C p fd woken unlocks s = .ok s') :
    Steady C s s' ∧ Modes s' ∧ ¬ (s'.fproc p).asleep := by
  have hclosed := closeFd_closed hs h
  have hawake : ∀ {s₁ : VfsState}, Undisturbed s s₁ → ¬ (s₁.fproc p).asleep := fun hu hq => by
    have hsame := hu p hq
    rw [hsame] at hq
    exact hp hq
  unfold closeFd at h
  split at h
  · cases h
    exact ⟨(Roused.refl s).steady, hm, hp⟩
  · next f hf =>
    obtain ⟨s₁, hclose, hrest⟩ := ok_of_bind h
    have hdropped := closeFilp_dropped hs.toLinked hs.waits hs.vnodeOwes (hs.fd_used hf) hclose
    obtain ⟨hsteady, hm₁⟩ := closeFilp_steady hb hs.waits hm hc hclose
    have hu₁ : Undisturbed s s₁ := fun q hq => (hdropped.fproc q).asleep hq
    have hcleared : Steady C s (setFd p fd none s₁) :=
      hsteady.trans (steady_same rfl rfl (undisturbed_setFd (hawake hu₁)))
    have hp₁ : ¬ ((setFd p fd none s₁).fproc p).asleep := by
      rw [fproc_setFd, if_pos rfl]
      exact hawake hu₁
    split at hrest
    · have hroused := lockRevive_roused hdropped.waits.setFd hrest
      have haside : Aside (fun _ => False) (setFd p fd none s₁) s' := hroused.aside
      exact ⟨hcleared.trans hroused.steady, modes_same hm₁ hroused.filp hroused.vnode,
        haside.not_asleep hp₁⟩
    · cases hrest
      exact ⟨hcleared, modes_same hm₁ rfl rfl, hp₁⟩

theorem closeFd_balanced (hs : Refs C L s) (hb : Balanced C s)
    (h : closeFd C p fd woken unlocks s = .ok s') : Balanced C s' := by
  have hsafe : Safe (Balanced C) (closeFd C p fd woken unlocks s) := closeFd_safe hs hb
  rw [h] at hsafe
  exact hsafe

theorem doClose_passive (hs : Refs C L s) (hb : Balanced C s) (hm : Modes s) (hc : PipeCalls s)
    (hp : Caller C s p) (h : doClose C p fd woken unlocks s = .ok s') : Passive C s s' := by
  have hstill := doClose_still hs h
  obtain ⟨s₁, hclose, rfl⟩ := ok_of_map h
  obtain ⟨hsteady, hm₁, -⟩ := closeFd_steady hs hb hm hc hp.not_asleep hclose
  exact hstill.passive (hsteady.trans (steady_same rfl rfl (undisturbed_same rfl)))
    (modes_same hm₁ rfl rfl)

theorem doDup2_passive (hs : Refs C L s) (hb : Balanced C s) (hm : Modes s) (hc : PipeCalls s)
    (hp : Caller C s p) (h : doDup2 C p fd fd2 woken unlocks s = .ok s') : Passive C s s' := by
  have hstill := doDup2_still hs h
  have hreply : ∀ {r : Except Errno ℕ}, Passive C s (reply s p r) := fun {r} =>
    still_reply.passive_aside hs hb hm aside_reply
  unfold doDup2 at h
  split at h
  · cases h
    exact hreply
  · next f hf =>
    split at h
    · cases h
      exact hreply
    · split at h
      · cases h
        exact hreply
      · next hne =>
        obtain ⟨s₁, hclose, rfl⟩ := ok_of_map h
        obtain ⟨hsteady, hm₁, hp₁⟩ := closeFd_steady hs hb hm hc hp.not_asleep hclose
        have hclosed := closeFd_closed hs hclose
        have hb₁ := closeFd_balanced hs hb hclose
        have hkept : (s₁.fproc p).fpFilp fd = some f := by
          rw [hclosed.fd_eq, if_neg fun h => hne h.2, hf]
        have hattach : Passive C s₁ (reply (attach p fd2 f s₁) p (.ok fd2)) :=
          (still_attach.trans still_reply).passive_aside hclosed.toRefs hb₁ hm₁
            ((aside_attach hp₁ (hclosed.fd_used hkept)).trans aside_reply)
        exact hstill.passive (hsteady.trans hattach.steady) hattach.modes

theorem closeAll_steady (fds : List ℕ) (hs : Refs C L s) (hb : Balanced C s) (hm : Modes s)
    (hc : PipeCalls s) (hp : ¬ (s.fproc p).asleep) (h : closeAll C p a fds s = .ok s') :
    Steady C s s' ∧ Modes s' := by
  induction fds generalizing s with
  | nil =>
    cases h
    exact ⟨(Roused.refl _).steady, hm⟩
  | cons fd fds ih =>
    obtain ⟨s₁, hclose, hrest⟩ := ok_of_bind h
    obtain ⟨hsteady, hm₁, hp₁⟩ := closeFd_steady hs hb hm hc hp hclose
    have hc₁ : PipeCalls s₁ := hc.kept fun q _ => .inl ((closeFd_still hs hclose).proc q)
    obtain ⟨hsteady', hm'⟩ := ih (closeFd_closed hs hclose).toRefs (closeFd_balanced hs hb hclose)
      hm₁ hc₁ hp₁ hrest
    exact ⟨hsteady.trans hsteady', hm'⟩

theorem putFilp_passive (hs : Refs C L s) (hb : Balanced C s) (hm : Modes s) (hc : PipeCalls s)
    (h : putFilp C f woken s = .ok s') : Passive C s s' := by
  obtain ⟨s₁, hclose, rfl⟩ := ok_of_map h
  obtain ⟨hsteady, hm₁⟩ := closeFilp_steady hb hs.waits hm hc hclose
  have hend : Still s₁ { s₁ with inFlight := Function.update s₁.inFlight f (s₁.inFlight f - 1) } :=
    still_files rfl rfl
  exact ((closeFilp_still hs.waits hclose).trans hend).passive
    (hsteady.trans (steady_same rfl rfl (undisturbed_same rfl))) (modes_same hm₁ rfl rfl)

theorem selectReply1_passive {major : ℕ} {closing : Woken} (hs : Refs C L s) (hb : Balanced C s)
    (hm : Modes s) (hc : PipeCalls s) (h : selectReply1 C major woken closing s = .ok s') :
    Passive C s s' := by
  have hstill := selectReply1_still hs.waits h
  unfold selectReply1 at h
  split at h
  · cases h
    exact hstill.passive (Roused.refl s).steady hm
  · next f hsel =>
    have hw₀ : Waits C { s with dmapSelFilp := Function.update s.dmapSelFilp major none } :=
      hs.waits.congr rfl rfl
    have hb₀ : Balanced C { s with dmapSelFilp := Function.update s.dmapSelFilp major none } :=
      ⟨hb.susp, hb.reviving, hb.file⟩
    have hstart : Steady C s { s with dmapSelFilp := Function.update s.dmapSelFilp major none } :=
      steady_same rfl rfl (undisturbed_same rfl)
    obtain ⟨s₁, hwoken, hrest⟩ := ok_of_bind h
    have hroused := selectCallback_roused _ hw₀ hwoken
    have hsafe := selectCallback_safe woken hb₀ hw₀
    rw [hwoken] at hsafe
    have hm₁ : Modes s₁ := modes_same (modes_same hm rfl rfl) hroused.filp hroused.vnode
    have hs₁ := hstart.trans hroused.steady
    split at hrest
    · next hmany =>
      cases hrest
      have hcount : Aside (fun _ => False) s₁ (setCount f ((s₁.filp f).filpCount - 1) s₁) :=
        aside_counted (by omega) (by omega)
      have hstill₁ : Still s₁ (setCount f ((s₁.filp f).filpCount - 1) s₁) := still_setCount
      exact hstill.passive (hs₁.trans (steady_data hcount.files hstill₁.data hcount.proc))
        (modes_data hm₁ hcount.files hstill₁.data)
    · split at hrest
      · cases hrest
      · have hc₁ : PipeCalls s₁ := hroused.pipeCalls hc
        obtain ⟨hsteady, hm'⟩ := closeFilp_steady hsafe (hw₀.roused hroused) hm₁ hc₁ hrest
        exact hstill.passive (hs₁.trans hsteady) hm'

end Closing

section Processes
variable {C : VfsConfig} {L : ℕ → ℕ} {s s' : VfsState} {p c : ℕ} {a : ExitArgs} {r : Except Errno ℕ}
  {out : ℕ → Prop}

theorem revive_passive (hs : Refs C L s) (hb : Balanced C s) (hm : Modes s)
    (h : revive p r s = .ok s') : Passive C s s' := by
  have hstill := revive_still h
  cases revive_cases h with
  | idle => exact hstill.passive (Roused.refl s).steady hm
  | revived =>
    exact hstill.passive (steady_same rfl rfl (undisturbed_setProc fun h => by cases h.2.2))
      (modes_same hm rfl rfl)
  | answered =>
    exact hstill.passive (steady_same rfl rfl (undisturbed_setProc fun h => by cases h.2.1))
      (modes_same hm rfl rfl)
  | failed e _ hfree _ hdopen _ hfail =>
    unfold failOpen at hfail
    split at hfail
    · cases hfail
    · next f hf =>
      dsimp only at hfail
      split at hfail
      · cases hfail
      · obtain ⟨s₁, hput, rfl⟩ := ok_of_map hfail
        have hself : (unblock p s).fproc p = { s.fproc p with fpBlockedOn := .NONE } :=
          Function.update_self _ _ _
        have hnot : ¬ ((unblock p s).fproc p).asleep := by
          rw [hself]
          exact fun h => by cases h.2.1
        have hunblock : Aside (· = f) s (unblock p s) :=
          aside_same rfl (undisturbed_setProc fun h => by cases h.2.1)
        have hcleared : Aside (· = f) s (setCount f 0 (setFd p (s.fproc p).fpBlockFd none
            (unblock p s))) :=
          (hunblock.trans (aside_setFd hnot)).trans (aside_setCount_out rfl)
        have hfd : (s.fproc p).fpFilp (s.fproc p).fpBlockFd = some f := by
          rw [hself] at hf
          exact hf
        have hkind : kindOf s f ≠ .NAMED_PIPE := fun hk => by
          have hb' := (hb.file p f ⟨hfree, .inr (.inl hdopen)⟩ hfd).mp hk
          rw [hdopen] at hb'
          cases hb'
        refine hstill.fresh.passive hs hb hm
          ((hcleared.trans (aside_putVnode hput)).trans aside_reply) (fun g hg => ?_)
          fun g hg hcount _ => absurd ?_ hcount
        · subst hg
          exact .inr hkind
        · subst hg
          obtain ⟨-, rfl⟩ := putVnode_ok hput
          have hzero : (setCount g 0 (setFd p (s.fproc p).fpBlockFd none (unblock p s))).filp g =
              { s.filp g with filpCount := 0 } := Function.update_self _ _ _
          exact congrArg Filp.filpCount hzero

theorem Interrupted.passive (hm : Modes s) (h : Interrupted p s s') : Passive C s s' := by
  have hproc : ∀ q, (s.fproc q).Kept (s'.fproc q) ∨ (s'.fproc q).fpBlockedOn ≠ .PIPE := by
    intro q
    by_cases hq : q = p
    · right
      rw [h.fproc, hq, Function.update_self]
      exact fun hb => by cases hb
    · exact .inl (h.kept hq)
  refine ⟨fun w _ => ?_, fun w hw => .inl ?_, fun q _ => hproc q, steady_same h.filp h.vnode ?_,
    modes_same hm h.filp h.vnode⟩
  · rw [h.vnode]
    exact .refl _
  · rw [h.vnode]
    exact hw
  · intro q hq
    rw [h.fproc] at hq ⊢
    by_cases hqp : q = p
    · rw [hqp, Function.update_self] at hq
      cases hq.2.1
    · exact Function.update_of_ne hqp _ _

theorem Passive.refl (hm : Modes s) : Passive C s s :=
  (Still.refl s).passive (Roused.refl s).steady hm

theorem unpause_passive {e : Option Errno} (hw : Waits C s) (hm : Modes s) :
    Passive C s (unpause p e s) := by
  rcases unpause_cases (p := p) (e := e) hw with hsame | hends
  · rw [hsame.1]
    exact .refl hm
  · exact hends.passive hm

theorem countFds_aside (fds : List ℕ)
    (h : ∀ fd f, (s.fproc c).fpFilp fd = some f → (s.filp f).filpCount ≠ 0) :
    Aside out s (countFds c fds s) := by
  induction fds generalizing s with
  | nil => exact aside_tables rfl rfl
  | cons fd fds ih =>
    unfold countFds
    split
    · exact ih h
    · next f hf =>
      have hfirst : Aside out s (setCount f ((s.filp f).filpCount + 1) s) :=
        aside_counted (h fd f hf) (Nat.succ_ne_zero _)
      refine hfirst.trans (ih fun fd' g hg => ?_)
      rw [filp_setCount]
      split
      · exact Nat.succ_ne_zero _
      · exact h fd' g hg

theorem dupDir_aside {dir : Option ℕ} : Aside out s (dupDir dir s) := by
  unfold dupDir
  split
  · exact aside_tables rfl rfl
  · exact aside_tables rfl rfl

theorem pmFork_passive (hs : Refs C L s) (hb : Balanced C s) (hm : Modes s) (hp : Caller C s p) :
    Passive C s (pmFork C p c s) := by
  have hstill := pmFork_still (c := c) hs hp.slot
  have hself : (setProc s c (s.fproc p)).fproc c = s.fproc p := Function.update_self _ _ _
  have hdata : ∀ w, (s.vnode w).SameData ((pmFork C p c s).vnode w) := hstill.data
  have haside : Aside (fun _ => False) s (pmFork C p c s) := by
    have hcopy : Aside (fun _ => False) s (setProc s c (s.fproc p)) :=
      aside_same rfl (undisturbed_setProc hp.not_asleep)
    have hcount : Aside (fun _ => False) (setProc s c (s.fproc p))
        (countFds c (List.range C.OPEN_MAX) (setProc s c (s.fproc p))) :=
      countFds_aside _ fun fd f hf => by
        rw [hself] at hf
        exact hs.fd_used hf
    exact ((hcopy.trans hcount).trans dupDir_aside).trans dupDir_aside
  refine ⟨fun w _ => hdata w, fun w hw => .inl (hstill.unused w hw), fun q _ => ?_,
    steady_of_frames hs hb (fun _ h => h.elim) haside.proc haside.files fun w _ => hdata w,
    modes_of_frames hs hm haside.files (fun w _ => hdata w) fun _ h => h.elim⟩
  have hk := hstill.proc q
  by_cases hq : q = c
  · right
    subst hq
    rw [hself] at hk
    intro hbq
    have hb' := hk.back hbq
    rw [hp.runs] at hb'
    cases hb'
  · left
    have hother : (setProc s c (s.fproc p)).fproc q = s.fproc q := Function.update_of_ne hq _ _
    rw [hother] at hk
    exact hk

theorem putDir_same {dir : Option ℕ} (h : putDir dir s = .ok s') :
    s'.fproc = s.fproc ∧ s'.filp = s.filp ∧ ∀ w, (s.vnode w).SameData (s'.vnode w) := by
  have hdata := (putDir_still h).data
  unfold putDir at h
  split at h
  · cases h
    exact ⟨rfl, rfl, hdata⟩
  · obtain ⟨-, rfl⟩ := putVnode_ok h
    exact ⟨rfl, rfl, hdata⟩

theorem freeProc_passive (hs : Refs C L s) (hb : Balanced C s) (hm : Modes s) (hc : PipeCalls s)
    (h : freeProc C p a s = .ok s') : Passive C s s' := by
  obtain ⟨hdata, hunused, hkept, hfree⟩ := freeProc_still hs h
  have hs₀ := unpause_refs (p := p) (e := a.cancelled) hs
  have hsignal : Passive C s (unpause p a.cancelled s) := unpause_passive hs.waits hm
  have hb₀ : Balanced C (unpause p a.cancelled s) := unpause_balanced hb hs.waits
  have hawake : ¬ ((unpause p a.cancelled s).fproc p).asleep := by
    rintro ⟨hused, hpipe, -⟩
    rcases unpause_cases (p := p) (e := a.cancelled) hs.waits with ⟨hsame, hidle⟩ | hends
    · rw [hsame] at hused hpipe
      rw [hused, hpipe] at hidle
      rcases hidle with h | h | h | h <;> cases h
    · rw [hends.fproc, Function.update_self] at hpipe
      cases hpipe
  obtain ⟨s₁, hclose, h⟩ := ok_of_bind h
  obtain ⟨s₂, horphans, h⟩ := ok_of_bind h
  obtain ⟨s₃, hselects, h⟩ := ok_of_bind h
  obtain ⟨s₄, hrd, h⟩ := ok_of_bind h
  obtain ⟨s₅, hwd, rfl⟩ := ok_of_map h
  have hs₁ := (closeAll_refs _ hs₀ hclose).1
  obtain ⟨hsteady₁, hm₁⟩ := closeAll_steady _ hs₀ hb₀ hsignal.modes (hc.kept hsignal.proc) hawake
    hclose
  have hr₂ := unsuspend_roused hs₁.waits horphans
  have hr₃ := hr₂.trans (selectCallback_roused _ (hs₁.roused hr₂).waits hselects)
  obtain ⟨hproc₄, hfilp₄, hdata₄⟩ := putDir_same hrd
  obtain ⟨hproc₅, hfilp₅, hdata₅⟩ := putDir_same hwd
  have hdirs : Steady C s₃ s₅ :=
    (steady_data (keeps_same hfilp₄) hdata₄ (undisturbed_same hproc₄)).trans
      (steady_data (keeps_same hfilp₅) hdata₅ (undisturbed_same hproc₅))
  have hm₅ : Modes s₅ :=
    modes_data (modes_data (modes_same hm₁ hr₃.filp hr₃.vnode) (keeps_same hfilp₄) hdata₄)
      (keeps_same hfilp₅) hdata₅
  refine ⟨fun w _ => hdata w, fun w hw => .inl (hunused w hw), fun q hused => .inl (hkept q ?_),
    (((hsignal.steady.trans hsteady₁).trans hr₃.steady).trans hdirs).trans ?_,
    modes_same hm₅ rfl rfl⟩
  · rintro rfl
    rw [hfree] at hused
    cases hused
  · exact steady_same rfl rfl (undisturbed_setProc fun h => by cases h.1)

end Processes

section Requests
variable {C : VfsConfig} {L : ℕ → ℕ} {s s' : VfsState} {p fd : ℕ} {outcome : LockOutcome} {woken : Woken}
  {req : Request} {out : ℕ → Prop}

theorem lockOp_aside (hw : Waits C s) (h : lockOp C p fd outcome s = .ok s') : Aside out s s' := by
  unfold lockOp at h
  cases outcome with
  | waits =>
    cases h
    exact aside_suspend (by decide)
  | done r unlocks =>
    obtain ⟨s₁, hlocks, rfl⟩ := ok_of_map h
    split at hlocks
    · exact (lockRevive_roused hw hlocks).aside.trans aside_reply
    · cases hlocks
      exact aside_reply

theorem getWork_passive (hs : Refs C L s) (hb : Balanced C s) (hm : Modes s)
    (hp : (∃ q < C.NR_PROCS, (s.fproc q).reviving) → p < C.NR_PROCS ∧ (s.fproc p).reviving)
    (hcall : pipeCall C s (.getWork p woken outcome) = none)
    (h : getWork C p woken outcome s = .ok s') : Passive C s s' := by
  obtain ⟨hsome, hwork⟩ := getWork_ok h
  obtain ⟨hslot, hrev⟩ := hp hsome
  obtain ⟨hwoken, hcaller⟩ := wake_refs hs hslot hrev
  rcases hwork with ⟨hpipe, m, s₁, hretry, rfl⟩ | ⟨hpipe, hlock⟩
  · rw [pipeCall, if_pos hpipe, hretry] at hcall
    cases hcall
  · have haside : Aside (fun _ => False) s (wake p s) :=
      aside_same rfl (undisturbed_setProc fun h => by cases h.2.1)
    exact ((wake_still hpipe).trans (lockOp_still hwoken.waits hcaller hlock)).passive_aside hs hb hm
      (haside.trans (lockOp_aside hwoken.waits hlock))

theorem handle_passive (hs : Refs C L s) (hb : Balanced C s) (hm : Modes s) (hc : PipeCalls s)
    (hsent : Sent C s req) (hown : OwnFds req) (hclones : ClonesFree req)
    (hused : PipesUsed s req.lost) (hcall : pipeCall C s req = none)
    (h : handle C s req = .ok s') : Passive C s s' := by
  cases req with
  | read p fd nbytes woken =>
    obtain ⟨⟨m, s₁⟩, hread, rfl⟩ := ok_of_map h
    rw [pipeCall, hread] at hcall
    cases hcall
  | write p fd buf woken =>
    obtain ⟨⟨m, s₁⟩, hwrite, rfl⟩ := ok_of_map h
    rw [pipeCall, hwrite] at hcall
    cases hcall
  | openFifo p lost v vSize bits nonblock callnr =>
    exact openFifo_passive hs hb hm hsent.2.1 hused h
  | openOther p lost v vSize kind bits nonblock waits callnr result =>
    obtain ⟨-, hp, -, hnot, hfound, hclone, -⟩ := hsent
    exact openOther_passive hs hb hm hp hused hnot hfound hclone hclones h
  | openMissing p lost r =>
    cases h
    exact openMissing_passive hs hb hm hused
  | pipe p v created =>
    cases h
    exact doPipe_passive hs hb hm hsent.2.1 hsent.2.2
  | close p fd woken unlocks => exact doClose_passive hs hb hm hc hsent.2 h
  | dup p fd start =>
    cases h
    exact still_doDup.passive_aside hs hb hm (aside_doDup hs hsent.2)
  | dup2 p fd fd2 woken unlocks => exact doDup2_passive hs hb hm hc hsent.2 h
  | setfl p fd nonblock =>
    cases h
    unfold setfl
    split
    · exact still_reply.passive_aside hs hb hm aside_reply
    · next f hf =>
      have hfilp : Aside (fun _ => False) s (setFilp s f { s.filp f with nonblock := nonblock }) :=
        aside_setFilp fun _ => ⟨Iff.rfl, rfl, rfl⟩
      exact (still_setFilp.trans still_reply).passive_aside hs hb hm (hfilp.trans aside_reply)
  | lock p fd outcome =>
    exact (lockOp_still hs.waits hsent.2.1 h).passive_aside hs hb hm (lockOp_aside hs.waits h)
  | device p fd callnr =>
    cases h
    exact (still_suspend hsent.2.1 (by decide)).passive_aside hs hb hm (aside_suspend (by decide))
  | selectPipe f pos woken =>
    obtain ⟨⟨r, s₁⟩, hcheck, rfl⟩ := ok_of_map h
    have hroused := pipeCheck_roused hs.waits hcheck
    exact hroused.still.passive_aside hs hb hm hroused.aside
  | select p nfds =>
    cases h
    have hsuspend : Still s (suspend p .SELECT nfds .SELECT s) :=
      still_suspend hsent (by decide)
    have haside : Aside (fun _ => False) s (suspend p .SELECT nfds .SELECT s) :=
      aside_suspend (by decide)
    refine Still.passive_aside hs hb hm ?_ (haside.trans (aside_tables rfl rfl))
    exact hsuspend.trans (still_files rfl rfl)
  | selectWake woken =>
    have hroused := selectCallback_roused _ hs.waits h
    exact hroused.still.passive_aside hs hb hm hroused.aside
  | driverRevive p r => exact revive_passive hs hb hm h
  | signal p cancelled =>
    cases h
    exact unpause_passive hs.waits hm
  | fork p c =>
    cases h
    exact pmFork_passive hs hb hm hsent.2.1
  | exit p a => exact freeProc_passive hs hb hm hc h
  | getWork p woken outcome => exact getWork_passive hs hb hm hsent.2 hcall h
  | passFilp f =>
    cases h
    have hcount : Aside (fun _ => False) s (setCount f ((s.filp f).filpCount + 1) s) :=
      aside_counted hsent.2.2 (Nat.succ_ne_zero _)
    refine Still.passive_aside hs hb hm ?_ (hcount.trans (aside_tables rfl rfl))
    exact still_files rfl rfl
  | copyFilp p f => exact hown.elim
  | putFilp f woken => exact putFilp_passive hs hb hm hc h
  | cancelFd p fd => exact hown.elim
  | selectAsynch f major =>
    cases h
    unfold selectAsynch
    split
    · exact .refl hm
    · have hcount : Aside (fun _ => False) s (setCount f ((s.filp f).filpCount + 1) s) :=
        aside_counted hsent.2.2.1 (Nat.succ_ne_zero _)
      refine Still.passive_aside hs hb hm ?_ (hcount.trans (aside_tables rfl rfl))
      exact still_files rfl rfl
  | selectReply major woken closing => exact selectReply1_passive hs hb hm hc h

end Requests

end Vfs
