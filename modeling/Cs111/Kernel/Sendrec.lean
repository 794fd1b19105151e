import Cs111.Kernel.WaitGraph
import Cs111.Kernel.IpcStatus

namespace Kernel
open Minix FlagWord Chain
variable {H : Headers} {M : Type}

def SendrecSends (s : KState H M) (p : Slot H) (c : IpcCall M) : Prop :=
  c.m.isSome = true ∧ ∀ d, isokendpt s c.srcDstE = some d →
    (s.proc d).rtsIsset RTS_NO_ENDPOINT = false ∧
    ((s.proc d).willReceive (s.proc p).endpoint = true ∨ deadlock s .SEND p c.srcDstE = .ok 0)

section Sendrec
variable {s t s' : KState H M} {p d : Slot H} {e : ℤ} {r : Errno}

theorem miniSend_ok {m : Option (Message M)} {flags : SendFlags} (hm : m.isSome = true)
    (hd : procAddr H (H.endpointP e) = .ok d) (halive : (s.proc d).rtsIsset RTS_NO_ENDPOINT = false)
    (hready : (s.proc d).willReceive (s.proc p).endpoint = true ∨
      flags.nonBlocking = false ∧ ∀ n, deadlock s .SEND p e = .ok n → n = 0)
    (h : miniSend s p e m flags = .ok (r, s')) : r = .OK := by
  obtain ⟨msg, rfl⟩ := Option.isSome_iff_exists.mp hm
  simp only [miniSend, bind_ok, hd, Except.ok.injEq] at h
  obtain ⟨d', rfl, h⟩ := h
  rw [if_neg (by simp [halive])] at h
  split at h
  · obtain ⟨-, h⟩ := kassert_bind_ok.mp h
    obtain ⟨t, -, h⟩ := bind_ok.mp h
    exact (Prod.mk.inj (pure_ok.mp h)).1.symm
  · rename_i hbusy
    obtain ⟨hblocking, hfree⟩ := hready.resolve_left hbusy
    rw [if_neg (by simp [hblocking])] at h
    obtain ⟨n, hn, h⟩ := bind_ok.mp h
    rw [hfree n hn, if_neg (by simp)] at h
    obtain ⟨t, -, h⟩ := bind_ok.mp h
    obtain ⟨-, h⟩ := kassert_bind_ok.mp h
    split at h
    · cases h
    · exact (Prod.mk.inj (pure_ok.mp h)).1.symm

theorem miniReceive_ok {mBuffUsr : ℕ}
    (halive : ∀ d, procAddr H (H.endpointP e) = .ok d → (s.marks d).ended = false)
    (hfree : ∀ u n, s.marks.Looked p u.marks → deadlock u .RECEIVE p e = .ok n → n = 0)
    (h : miniReceive s p e mBuffUsr false = .ok (r, s')) : r = .OK := by
  rw [miniReceive] at h
  obtain ⟨-, h⟩ := kassert_bind_ok.mp h
  obtain ⟨src, hsrc, h⟩ := bind_ok.mp h
  have hsame : (s.upd p fun x => { x with delivermsgVir := mBuffUsr }).marks = s.marks :=
    marks_upd_same rfl
  have hthere :
      sourceGone (s.upd p fun x => { x with delivermsgVir := mBuffUsr }) src = false := by
    rw [receiveSource] at hsrc
    split at hsrc
    · obtain rfl := pure_ok.mp hsrc
      rfl
    · obtain ⟨d, hd, hsrc⟩ := bind_ok.mp hsrc
      obtain rfl := pure_ok.mp hsrc
      rw [okendpt_ok, isokendpt_named] at hd
      have hended := halive d (procAddr_named hd)
      rw [← hsame] at hended
      exact hended
  rw [if_neg (by simp [hthere])] at h
  obtain ⟨⟨found, u⟩, hu, h⟩ := bind_ok.mp h
  dsimp only at h
  split at h
  · exact (Prod.mk.inj (pure_ok.mp h)).1.symm
  · rename_i hfound
    rw [Bool.not_eq_true] at hfound
    subst hfound
    rw [if_neg (by simp)] at h
    obtain ⟨n, hn, h⟩ := bind_ok.mp h
    have hlooked : s.marks.Looked p u.marks := by
      rcases receiveAvailable_marks hu e with ⟨-, hlooked⟩ | ⟨hyes, -⟩
      · rw [hsame] at hlooked
        exact hlooked
      · cases hyes
    rw [hfree u n hlooked hn, if_neg (by simp)] at h
    obtain ⟨w, -, h⟩ := bind_ok.mp h
    exact (Prod.mk.inj (pure_ok.mp h)).1.symm

theorem blockedOn_mark (i : Slot H) : (s.marks i).blockedOn = (s.proc i).blockedOn := rfl

theorem deadlockLoop_free {V : Peers H M} {f : CallNr} {fuel groupSize n : ℕ}
    (hends : V.Ends (V p).endpoint e) (hfirst : ∀ xp, V.named e = some xp → xp ≠ p)
    (hcp : (t.proc p).endpoint = (V p).endpoint)
    (hblocked : ∀ i, i ≠ p → (t.proc i).blockedOn = (V i).blockedOn)
    (h : deadlockLoop t f p fuel groupSize e = .ok n) : n = 0 := by
  have hcome : ∀ {fuel groupSize e xp}, V.named e = some xp →
      deadlockLoop t f p (fuel + 1) groupSize e = .ok n → e ≠ H.any ∧ t.peers.named e = some xp := by
    intro fuel groupSize e xp hxp h
    have he : e ≠ H.any := fun he => by simp [he, Peers.named_any] at hxp
    rw [deadlockLoop, if_neg he] at h
    obtain ⟨yp, hyp, -⟩ := bind_ok.mp h
    rw [okendpt_ok, isokendpt_named] at hyp
    have hsame := (procAddr_named hyp).symm.trans (procAddr_named hxp)
    obtain rfl := Except.ok.inj hsame
    exact ⟨he, hyp⟩
  induction hends generalizing fuel groupSize with
  | any =>
    cases fuel with
    | zero => cases h
    | succ fuel =>
      rw [deadlockLoop, if_pos rfl] at h
      exact (Except.ok.inj h).symm
  | @idle e xp hxp hnone =>
    cases fuel with
    | zero => cases h
    | succ fuel =>
      obtain ⟨he, hyp⟩ := hcome hxp h
      have hsame : (t.peers xp).blockedOn = (V xp).blockedOn := by
        rw [KState.peers, blockedOn_peer, hblocked xp (hfirst xp hxp)]
      rcases deadlockLoop_succ he hyp h with ⟨-, hn⟩ | ⟨hne, -⟩ | ⟨hne, -⟩
      · exact hn
      · exact absurd (hsame.trans hnone) hne
      · exact absurd (hsame.trans hnone) hne
  | @next e xp hxp hnone hback _ ih =>
    cases fuel with
    | zero => cases h
    | succ fuel =>
      obtain ⟨he, hyp⟩ := hcome hxp h
      have hsame : (t.peers xp).blockedOn = (V xp).blockedOn := by
        rw [KState.peers, blockedOn_peer, hblocked xp (hfirst xp hxp)]
      rcases deadlockLoop_succ he hyp h with ⟨hno, -⟩ | ⟨-, hyes, -⟩ | ⟨-, -, hrest⟩
      · exact absurd (hsame.symm.trans hno) hnone
      · exact absurd (hsame.symm.trans (hyes.trans hcp)) hback
      · rw [hsame] at hrest
        refine ih ?_ hrest
        rintro yp hnext rfl
        exact hback (named_some hnext).2.2.symm

theorem deadlock_named {f : CallNr} {n : ℕ} (hd : procAddr H (H.endpointP e) = .ok d)
    (he : e ≠ H.any) (h : deadlock t f p e = .ok n) : t.peers.named e = some d := by
  rw [deadlock, bound, deadlockLoop, if_neg he] at h
  obtain ⟨yp, hyp, -⟩ := bind_ok.mp h
  rw [okendpt_ok, isokendpt_named] at hyp
  obtain rfl := Except.ok.inj ((procAddr_named hyp).symm.trans hd)
  exact hyp

theorem deadlock_unblocked {f : CallNr} {n : ℕ} (hd : procAddr H (H.endpointP e) = .ok d)
    (hidle : (t.proc d).blockedOn = H.none) (h : deadlock t f p e = .ok n) : n = 0 := by
  rw [deadlock, bound, deadlockLoop] at h
  split at h
  · exact (Except.ok.inj h).symm
  · obtain ⟨yp, hyp, h⟩ := bind_ok.mp h
    rw [okendpt_ok, isokendpt_named] at hyp
    obtain rfl := Except.ok.inj ((procAddr_named hyp).symm.trans hd)
    obtain ⟨-, h⟩ := kassert_bind_ok.mp h
    split at h
    · cases h
    rw [if_pos hidle] at h
    exact (pure_ok.mp h).symm

theorem set_pend_peers : (s.upd p (·.setMisc MF_REPLY_PEND)).peers = s.peers :=
  peers_upd_same (peer_setMisc (by decide))

theorem set_pend_marks : (s.upd p (·.setMisc MF_REPLY_PEND)).marks = s.marks.startPend p := by
  rw [marks_upd, mark_set_pend]
  rfl

theorem deadlock_zero_pend {n : ℕ} (hzero : deadlock s .SEND p e = .ok 0)
    (h : deadlock (s.upd p (·.setMisc MF_REPLY_PEND)) .SEND p e = .ok n) : n = 0 := by
  have hcp : ((s.upd p (·.setMisc MF_REPLY_PEND)).proc p).endpoint = (s.proc p).endpoint := by
    rw [upd_proc_self]
    rfl
  rcases deadlockLoop_zero (.inl rfl) le_rfl hzero with hends | ⟨hexempt, -⟩
  · refine deadlockLoop_ends ?_ h
    rw [set_pend_peers, hcp]
    exact hends
  · refine deadlockLoop_exempt (.inl rfl) ?_ h
    rw [set_pend_peers, hcp]
    exact hexempt

theorem sent_receive_free {m : Option (Message M)} {u : KState H M} {n : ℕ}
    (hnamed : s.peers.named e = some d) (hidle : (s.peers p).Idle)
    (h : miniSend s p e m ⟨false, false⟩ = .ok (.OK, t)) (hlooked : t.marks.Looked p u.marks)
    (hn : deadlock u .RECEIVE p e = .ok n) : n = 0 := by
  have hd := procAddr_named hnamed
  have hsent := miniSend_marks h
  have hlook : ∀ i, (u.proc i).blockedOn = (t.marks i).blockedOn := by
    intro i
    obtain ⟨a, hsame⟩ := hlooked.apply i
    rw [← blockedOn_mark, hsame]
    rfl
  generalize ht : t.marks = T at hsent
  cases hsent with
  | refused hr => exact absurd rfl hr
  | @delivered d' msg hd' _ hready hm =>
    obtain rfl := Except.ok.inj (hd'.symm.trans hd)
    refine deadlock_unblocked hd ?_ hn
    obtain ⟨l, hl⟩ := Mark.receiveSent_eq (x := s.marks d') ⟨false, false⟩
      ((s.marks p).sendCall ⟨false, false⟩) msg (s.marks p).endpoint
    have hoff : (s.marks d').sending = false := by
      rw [Mark.willReceive] at hready
      simp only [Bool.and_eq_true, Bool.not_eq_true'] at hready
      exact hready.1.2
    rw [hlook, ht, Function.update_self, hl, Mark.blockedOn, hoff]
    rfl
  | @blocked d' msg xpp hd' _ hbusy _ hm =>
    obtain rfl := Except.ok.inj (hd'.symm.trans hd)
    have hzero : deadlock s .SEND p e = .ok 0 := by
      cases miniSend_outcome h with
      | refused hr => exact absurd rfl hr
      | delivered hd'' _ hready =>
        obtain rfl := Except.ok.inj (hd''.symm.trans hd)
        rw [← willReceive_mark] at hready
        exact absurd (hready.symm.trans hbusy) (by decide)
      | blocked _ _ _ _ hgroup => exact hgroup
    have hmarks : ∀ i, ∃ c l, t.marks i =
        { Function.update s.marks p ((s.marks p).hold ⟨false, false⟩ msg e) i with
          callerQ := c, qLink := l } := by
      intro i
      rw [ht]
      exact setCallers_apply ..
    have hend : (u.proc p).endpoint = (s.proc p).endpoint := by
      obtain ⟨a, hsame⟩ := hlooked.apply p
      obtain ⟨c, l, hheld⟩ := hmarks p
      rw [Function.update_self] at hheld
      change (u.marks p).endpoint = _
      rw [hsame, hheld]
      rfl
    have hblocked : ∀ i, i ≠ p → (u.proc i).blockedOn = (s.peers i).blockedOn := by
      intro i hi
      obtain ⟨c, l, hheld⟩ := hmarks i
      rw [hlook, hheld, Function.update_of_ne hi, KState.peers, blockedOn_peer]
      rfl
    by_cases hself : d' = p
    · subst hself
      have hin : (u.proc d').rtsIsset RTS_SENDING = true ∧ (u.proc d').sendtoE = e := by
        obtain ⟨a, hsame⟩ := hlooked.apply d'
        obtain ⟨c, l, hheld⟩ := hmarks d'
        rw [Function.update_self] at hheld
        change (u.marks d').sending = true ∧ (u.marks d').sendtoE = e
        rw [hsame, hheld]
        exact ⟨rfl, rfl⟩
      have hwaits : (u.peers d').blockedOn = e := by
        rw [KState.peers, blockedOn_peer, Proc.blockedOn, if_pos hin.1, hin.2]
      refine deadlockLoop_exempt (.inr rfl) ⟨d', ?_, ?_, ?_, ?_⟩ hn
      · exact deadlock_named hd (fun he => by simp [he, Peers.named_any] at hnamed) hn
      · rw [hwaits]
        exact fun he => by simp [he, Peers.named_none] at hnamed
      · rw [hwaits, hend]
        exact (named_some hnamed).2.2.symm
      · simp [KState.peers, Proc.peer, hin.1]
    · rcases deadlockLoop_zero (.inl rfl) le_rfl hzero with hends | ⟨hexempt, -⟩
      · refine deadlockLoop_free (V := s.peers) hends ?_ hend hblocked hn
        intro xp hxp
        rw [hnamed] at hxp
        exact Option.some.inj hxp ▸ hself
      · obtain ⟨xp, hxp, hnone, hback, hsends⟩ := hexempt
        obtain rfl := Option.some.inj (hnamed.symm.trans hxp)
        have hoff : (s.peers d').sending = none := by
          rw [← Option.not_isSome_iff_eq_none]
          exact fun hsome => hsends.mp hsome rfl
        have hready := Peers.willReceive_of_receiving hoff hnone
        rw [hback, KState.peers, willReceive_peer] at hready
        exact absurd (hready.symm.trans hbusy) (by decide)

theorem Marks.Sent.apply_ended {V V' : Marks H M} {m : Option (Message M)} {flags : SendFlags}
    (h : V.Sent p e m flags r V') (i : Slot H) : (V' i).ended = (V i).ended := by
  cases h with
  | refused => rfl
  | @delivered d msg =>
    by_cases hi : i = d
    · subst hi
      obtain ⟨l, hl⟩ := Mark.receiveSent_eq (x := V i) flags ((V p).sendCall flags) msg
        (V p).endpoint
      rw [Function.update_self, hl]
    · rw [Function.update_of_ne hi]
  | @blocked d msg xpp =>
    obtain ⟨c, l, hsame⟩ := setCallers_apply (Function.update V p ((V p).hold flags msg e)) d xpp
      (some p) i
    rw [hsame]
    by_cases hi : i = p
    · subst hi
      rw [Function.update_self]
      rfl
    · rw [Function.update_of_ne hi]

theorem sendrec_succeeds {c : IpcCall M} (hrun : (s.proc p).isRunnable = true)
    (hnr : c.callNr = .SENDREC) (hrefuse : refuseIpc s p c = none) (hsends : SendrecSends s p c)
    (h : doSyncIpc s p c = .ok (r, s')) : r = .OK := by
  obtain ⟨hcopied, hdest⟩ := hsends
  obtain ⟨d, hd⟩ : ∃ d, s.peers.named c.srcDstE = some d := by
    rcases refuse_named hrefuse with ⟨-, hreceive⟩ | hnamed
    · rw [hnr] at hreceive
      cases hreceive
    · exact hnamed
  obtain ⟨halive, hready⟩ := hdest d (by rw [isokendpt_named, hd])
  have haddr := procAddr_named hd
  rw [doSyncIpc] at h
  obtain ⟨-, h⟩ := kassert_bind_ok.mp h
  rw [hrefuse] at h
  dsimp only at h
  rw [hnr] at h
  obtain ⟨⟨r₁, t⟩, hsend, h⟩ := bind_ok.mp h
  have hended : ∀ i,
      ((s.upd p (·.setMisc MF_REPLY_PEND)).marks i).ended = (s.marks i).ended := by
    intro i
    rw [set_pend_marks, Marks.startPend]
    by_cases hi : i = p
    · subst hi
      rw [Function.update_self]
    · rw [Function.update_of_ne hi]
  have hr₁ : r₁ = .OK := by
    refine miniSend_ok ?_ haddr ((hended d).trans halive) ?_ hsend
    · rw [IpcCall.message, Option.isSome_map]
      exact hcopied
    · refine hready.imp (fun hready => ?_) fun hzero => ⟨rfl, fun n => deadlock_zero_pend hzero⟩
      have hsame := willReceive_peer ((s.upd p (·.setMisc MF_REPLY_PEND)).proc d)
      change ∀ e, ((s.upd p (·.setMisc MF_REPLY_PEND)).peers d).willReceive e = _ at hsame
      rw [← hsame, set_pend_peers, KState.peers, willReceive_peer, upd_proc_self]
      exact hready
  dsimp only at h
  subst hr₁
  rw [if_neg (by simp)] at h
  have hidle : ((s.upd p (·.setMisc MF_REPLY_PEND)).peers p).Idle := by
    rw [set_pend_peers]
    exact idle_of_runnable hrun
  have hnamed : (s.upd p (·.setMisc MF_REPLY_PEND)).peers.named c.srcDstE = some d := by
    rw [set_pend_peers]
    exact hd
  refine miniReceive_ok (fun i hi => ?_)
    (fun u n hlooked hn => sent_receive_free hnamed hidle hsend hlooked hn) h
  obtain rfl := Except.ok.inj (hi.symm.trans haddr)
  rw [(miniSend_marks hsend).apply_ended, hended]
  exact halive

end Sendrec

end Kernel
