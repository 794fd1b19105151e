import Cs111.Kernel.Exchange

namespace Kernel
open Minix FlagWord Chain
variable {H : Headers} {M : Type} {s s' : KState H M} {p d : Slot H} {e : ℤ} {r : Errno}

section Fields
variable {x : Proc H M} {f : Flags}

theorem peer_misc (x : Proc H M) (g : Flags) : ({ x with miscFlags := g }).peer = { x.peer with
    box := if isset g MF_DELIVERMSG then some x.delivermsg else none
    quiet := !isset g MF_ASYNMSG && !isset g MF_SIG_DELAY } := rfl

def besideMail (f : Flags) : Prop :=
  f &&& MF_DELIVERMSG = 0 ∧ f &&& MF_ASYNMSG = 0 ∧ f &&& MF_SIG_DELAY = 0

instance : Decidable (besideMail f) := inferInstanceAs (Decidable (_ ∧ _ ∧ _))

theorem peer_setMisc (hf : besideMail f) : (x.setMisc f).peer = x.peer := by
  rw [Proc.setMisc, peer_misc, isset_or hf.1, isset_or hf.2.1, isset_or hf.2.2]
  rfl

theorem peer_clearMisc (hf : besideMail f) : (x.clearMisc f).peer = x.peer := by
  rw [Proc.clearMisc, peer_misc, isset_clear hf.1, isset_clear hf.2.1, isset_clear hf.2.2]
  rfl

theorem peer_ipcStatusAdd (item : StatusItem) : (x.ipcStatusAdd item).peer = x.peer := by
  rw [Proc.ipcStatusAdd]
  split <;> rfl

theorem peer_accept (m : Message M) (source : ℤ) :
    (x.accept m source).peer = { x.peer with box := some { m with mSource := source } } := by
  have hbox := peer_misc { x with delivermsg := { m with mSource := source } }
    (x.miscFlags ||| MF_DELIVERMSG)
  rw [isset_or_self, isset_or (by decide), isset_or (by decide)] at hbox
  exact hbox

theorem peer_receiveSent (flags : SendFlags) (call : CallNr) (m : Message M) (source : ℤ) :
    (x.receiveSent flags call m source).peer =
      { x.peer with box := some { m with mSource := source } } := by
  rw [Proc.receiveSent, peer_clearMisc (by decide), peer_ipcStatusAdd, peer_accept]
  split
  · rw [peer_ipcStatusAdd]
  · rfl

theorem peer_holdMessage (flags : SendFlags) (m : Message M) : (x.holdMessage flags m).peer =
    ({ x with sendmsg := m }).peer := by
  rw [Proc.holdMessage]
  split
  · exact peer_setMisc (by decide)
  · rfl

theorem holdMessage_comm (flags : SendFlags) (m : Message M) (e : ℤ) :
    { (x.holdMessage flags m).setRts f with sendtoE := e } =
      ({ x.setRts f with sendtoE := e }).holdMessage flags m ∧
    (x.holdMessage flags m).rtsFlags = x.rtsFlags := by
  rw [Proc.holdMessage, Proc.holdMessage]
  split <;> exact ⟨rfl, rfl⟩

theorem peer_hold (flags : SendFlags) (m : Message M) (e : ℤ) (h : x.peer.state ≠ .broken)
    (hfree : x.peer.state ≠ .free) :
    ({ (x.holdMessage flags m).setRts (x.rtsFlags ||| RTS_SENDING) with sendtoE := e }).peer =
      { x.peer with sending := some (e, m) } := by
  rw [(holdMessage_comm flags m e).1, peer_holdMessage]
  exact peer_set_sending (x := { x with sendtoE := e, sendmsg := m }) h hfree

end Fields

theorem Sane.of_kept (h : Sane s) (hptr : s'.procPtr = s.procPtr) (hkept : s.peers.Kept s'.peers) :
    Sane s' :=
  h.of_states hptr fun i => (hkept i).1

theorem alive_of_named (h : Sane s) (hnamed : s.peers.named e = some d)
    (hend : (s.proc d).rtsIsset RTS_NO_ENDPOINT = false) : (s.peers d).state = .alive := by
  have hfree := (named_some hnamed).2.1
  rw [KState.peers, Proc.peer] at hfree ⊢
  have hbit := (slotState_cases (h.unbroken d)).resolve_left fun hf => hfree (slotState_free.mpr hf)
  rw [slotState_of_isset hbit, if_neg]
  simpa [Proc.rtsIsset] using hend

theorem procAddr_named {V : Peers H M} (hnamed : V.named e = some d) :
    procAddr H (H.endpointP e) = .ok d := by
  rw [Peers.named] at hnamed
  split at hnamed
  · cases hnamed
  · rename_i i hi
    split_ifs at hnamed
    rw [hi, Option.some.inj hnamed]

theorem box_none (h : (s.proc d).miscIsset MF_DELIVERMSG = false) : (s.peers d).box = none := by
  simp [KState.peers, Proc.peer, h]

theorem deliver_peers (hsane : Sane s) {t : KState H M} {m : Message M}
    (hptr : t.procPtr = s.procPtr) (ht : t.peers = s.peers.pickUp d m)
    (hs : rtsUnset t d RTS_RECEIVING = .ok s') :
    Sane s' ∧ s'.procPtr = s.procPtr ∧ s'.peers = s.peers.deliver d m := by
  have htsane : Sane t := hsane.of_kept hptr (by rw [ht]; exact Peers.kept_pickUp)
  obtain ⟨hsane', hptr', hpeers⟩ := rtsUnset_peers htsane (by decide) hs
  refine ⟨hsane', hptr'.trans hptr, ?_⟩
  have hself : (t.proc d).peer = { s.peers d with box := some m } := by
    have hd := congrFun ht d
    rwa [Peers.pickUp, Function.update_self] at hd
  rw [hpeers, peer_clear_receiving (htsane.unbroken d), ht, hself, Peers.pickUp,
    Function.update_idem]
  rfl

theorem block_peers (hsane : Sane s) (hfree : (s.peers p).state ≠ .free) {t : KState H M}
    {flags : SendFlags} {m : Message M}
    (hs : rtsSet (s.upd p (·.holdMessage flags m)) p RTS_SENDING = .ok t) :
    t.procPtr = s.procPtr ∧
      (t.upd p fun x => { x with sendtoE := e }).peers = s.peers.hold p e m := by
  obtain ⟨hproc, hrest⟩ := Rescheduled.rtsSet hs
  obtain ⟨hptr, hpeers⟩ := rtsSet_peers hs
  refine ⟨hptr, ?_⟩
  have hself : t.proc p = ((s.proc p).holdMessage flags m).setRts
      ((s.proc p).rtsFlags ||| RTS_SENDING) := by
    rw [hproc, KState.setRts, upd_proc_self, upd_proc_self,
      (holdMessage_comm (f := 0) flags m e).2]
  rw [peers_upd, hself, peer_hold flags m e (hsane.unbroken p) hfree, hpeers,
    Function.update_idem, peers_upd, Function.update_idem]
  rfl

theorem miniSend_sent (hsane : Sane s) (hnamed : s.peers.named e = some d)
    (hfree : (s.peers p).state ≠ .free) {m : Option (Message M)} {flags : SendFlags}
    (h : miniSend s p e m flags = .ok (r, s')) :
    Sane s' ∧ s'.procPtr = s.procPtr ∧ s.peers.Sent p d e m flags.nonBlocking r s'.peers := by
  have haddr := procAddr_named hnamed
  cases miniSend_outcome h with
  | refused hr => exact ⟨hsane, rfl, .refused hr⟩
  | @delivered dst msg _ hdst halive hready hbox hm hunset =>
    obtain rfl : dst = d := Except.ok.inj (hdst.symm.trans haddr)
    obtain ⟨hsane', hptr, hpeers⟩ := deliver_peers (t := s.upd dst _) hsane rfl
      (by rw [peers_upd, peer_receiveSent]; rfl) hunset
    refine ⟨hsane', hptr, ?_⟩
    rw [hpeers]
    exact .delivered (alive_of_named hsane hnamed halive) ((willReceive_peer ..).trans hready)
      (box_none hbox) hm
  | @blocked dst msg t xpp hdst halive hbusy hblocking hgroup hm hset hlink hseek =>
    obtain rfl : dst = d := Except.ok.inj (hdst.symm.trans haddr)
    obtain ⟨hptr, hpeers⟩ := block_peers (e := e) hsane hfree hset
    have hready : (s.peers dst).willReceive (s.proc p).endpoint = false :=
      (willReceive_peer ..).trans hbusy
    have hends : s.peers.Ends (s.proc p).endpoint e := by
      refine (deadlockLoop_zero (.inl rfl) le_rfl hgroup).resolve_right ?_
      rintro ⟨⟨xp, hxp, hnone, hback, hexempt⟩, -⟩
      obtain rfl : xp = dst := Option.some.inj (hxp.symm.trans hnamed)
      have hidle : (s.peers xp).sending = none := by simpa using hexempt
      have hwill := Peers.willReceive_of_receiving hidle hnone
      rw [hback, hready] at hwill
      cases hwill
    have hfinal : ((t.upd p fun x => { x with sendtoE := e }).setCallers dst xpp (some p)).peers =
        s.peers.block p dst e msg xpp := by
      rw [peers_setCallers, hpeers]
      rfl
    have hlink' : (s.peers p).qLink = none := by
      have hself := congrArg Peer.qLink (congrFun hpeers p)
      rw [Peers.hold, Function.update_self] at hself
      rw [← hlink, ← hself, KState.peers, upd_proc_self]
      rfl
    rw [callers_peers, hpeers, Peers.callers_hold] at hseek
    have hptr' : ((t.upd p fun x => { x with sendtoE := e }).setCallers dst xpp
        (some p)).procPtr = s.procPtr := by
      cases xpp <;> exact hptr
    refine ⟨hsane.of_kept hptr' (by rw [hfinal]; exact Peers.kept_block), hptr', ?_⟩
    rw [hfinal]
    exact .blocked (alive_of_named hsane hnamed halive) hready hblocking hends hm hlink' hseek

theorem clearNotifyArg_same (src dst : Slot H) :
    (clearNotifyArg s src dst).proc = s.proc ∧ (clearNotifyArg s src dst).procPtr = s.procPtr := by
  rw [clearNotifyArg]
  split_ifs <;> exact ⟨rfl, rfl⟩

theorem acceptNotify_peers (src dst : Slot H) :
    (acceptNotify s src dst).procPtr = s.procPtr ∧
      (acceptNotify s src dst).peers = s.peers.pickUp dst (notifyMessage s src dst) := by
  obtain ⟨hproc, hptr⟩ := clearNotifyArg_same (s := s) src dst
  refine ⟨hptr, ?_⟩
  have hpeers : (clearNotifyArg s src dst).peers = s.peers := by
    funext i
    exact congrArg Proc.peer (congrFun hproc i)
  rw [acceptNotify, peers_upd, peer_ipcStatusAdd, peer_accept, hpeers, hproc]
  rfl

theorem miniNotify_notified (hsane : Sane s) (hnamed : s.peers.named e = some d)
    (h : miniNotify s p e = .ok (r, s')) :
    Sane s' ∧ s'.procPtr = s.procPtr ∧ r = .OK ∧ s.peers.Notified p d s'.peers := by
  rw [miniNotify, isokendpt_named, hnamed] at h
  dsimp only at h
  split at h
  · rename_i hready
    obtain ⟨hbox, h⟩ := kassert_bind_ok.mp h
    obtain ⟨t, ht, h⟩ := bind_ok.mp h
    obtain ⟨rfl, rfl⟩ := Prod.mk.inj (pure_ok.mp h)
    obtain ⟨hptr, hpeers⟩ := acceptNotify_peers (s := s) p d
    obtain ⟨hsane', hptr', hpeers'⟩ := deliver_peers hsane hptr hpeers ht
    refine ⟨hsane', hptr', rfl, ?_⟩
    rw [hpeers']
    rw [Bool.and_eq_true] at hready
    exact .delivered ((willReceive_peer ..).trans hready.1) (box_none (by simpa using hbox)) nofun
  · obtain ⟨rfl, rfl⟩ := Prod.mk.inj (pure_ok.mp h)
    exact ⟨hsane.of_states rfl fun _ => rfl, rfl, rfl, .pending⟩

section Receiving
variable {src : Option (Slot H)}

theorem receiveNotify_peers {t : KState H M} (h : receiveNotify s p src = .ok (some t)) :
    ∃ m : Message M, (∀ content, m.body ≠ .user content) ∧ t.procPtr = s.procPtr ∧
      t.peers = s.peers.pickUp p m := by
  rw [receiveNotify] at h
  split at h
  · cases h
  · obtain ⟨found, -, h⟩ := bind_ok.mp h
    cases found with
    | none => cases h
    | some found =>
      obtain ⟨srcId, srcProc⟩ := found
      obtain rfl := Option.some.inj (pure_ok.mp h)
      refine ⟨_, ?_, acceptNotify_peers ..⟩
      intro content
      nofun

theorem miscIsset_of_quiet (h : (s.peers d).quiet = true) :
    (s.proc d).miscIsset MF_ASYNMSG = false ∧ (s.proc d).miscIsset MF_SIG_DELAY = false := by
  simpa [KState.peers, Proc.peer] using h

theorem receiveAsync_quiet (h : (s.peers p).quiet = true) :
    receiveAsync s p src = .ok (false, s) := by
  rw [receiveAsync, (miscIsset_of_quiet h).1]
  rfl

theorem passKernelFlag_same (q : Slot H) : (passKernelFlag s p q).peers = s.peers ∧
    (passKernelFlag s p q).procPtr = s.procPtr := by
  rw [passKernelFlag]
  split
  · refine ⟨?_, rfl⟩
    rw [peers_upd_same (peer_clearMisc (by decide)), peers_upd_same (peer_ipcStatusAdd _)]
  · exact ⟨rfl, rfl⟩

theorem unlink_peers {u : KState H M} {W : Peers H M} (hu : u.peers = W) (p q : Slot H)
    (xpp : Cell (Slot H)) (v : Option (Slot H)) :
    ((u.setCallers p xpp v).upd q fun x => { x with qLink := none }).procPtr = u.procPtr ∧
    ((u.setCallers p xpp v).upd q fun x => { x with qLink := none }).peers =
      (W.setCallers p xpp v).offQueue q := by
  constructor
  · cases xpp <;> rfl
  · have hset := peers_setCallers u p xpp v
    rw [hu] at hset
    rw [peers_upd, hset]
    exact congrArg (Function.update _ q) (congrArg (fun x : Peer H M =>
      { x with qLink := none }) (congrFun hset q))

theorem receiveQueued_peers (hsane : Sane s) (hquiet : ∀ i, (s.peers i).quiet = true)
    {t : KState H M} (h : receiveQueued s p src = .ok (some t)) :
    Sane t ∧ t.procPtr = s.procPtr ∧ ∃ q xpp m,
      seek (s.peers.callers p) (acceptable src) (bound H) .head = some xpp ∧
      (s.peers.callers p).get xpp = some q ∧
      (∀ e' m', (s.peers q).sending = some (e', m') →
        m = { m' with mSource := (s.peers q).endpoint }) ∧
      t.peers = s.peers.take p q xpp m := by
  rw [receiveQueued] at h
  split at h
  · cases h
  · rename_i xpp hseek
    split at h
    · cases h
    · rename_i q hget
      obtain ⟨-, h⟩ := kassert_bind_ok.mp h
      obtain ⟨-, h⟩ := kassert_bind_ok.mp h
      obtain ⟨-, h⟩ := kassert_bind_ok.mp h
      obtain ⟨t₂, ht₂, h⟩ := bind_ok.mp h
      obtain ⟨t₃, ht₃, h⟩ := bind_ok.mp h
      obtain rfl := Option.some.inj (pure_ok.mp h)
      generalize hm : ({ (s.proc q).sendmsg with mSource := (s.proc q).endpoint } : Message M) = m
      have hpicked : (s.upd p fun x =>
          x.accept (s.proc q).sendmsg (s.proc q).endpoint).peers = s.peers.pickUp p m := by
        rw [peers_upd, peer_accept, hm]
        rfl
      have hsane₁ : Sane (s.upd p fun x => x.accept (s.proc q).sendmsg (s.proc q).endpoint) :=
        hsane.of_kept rfl (by rw [hpicked]; exact Peers.kept_pickUp)
      obtain ⟨hsane₂, hptr₂, hpeers₂⟩ := rtsUnset_peers hsane₁ (by decide) ht₂
      have hreleased : t₂.peers = (s.peers.pickUp p m).release q := by
        rw [hpeers₂, peer_clear_sending (hsane₁.unbroken q), hpicked]
        exact congrArg (Function.update _ q) (congrArg (fun x : Peer H M =>
          { x with sending := none }) (congrFun hpicked q))
      generalize hu : passKernelFlag _ p q = u at ht₃
      have hpassed : u.peers = (s.peers.pickUp p m).release q := by
        rw [← hu, (passKernelFlag_same q).1, peers_upd_same (peer_ipcStatusAdd _), hreleased]
      have hptr : u.procPtr = s.procPtr := by
        rw [← hu, (passKernelFlag_same q).2]
        exact hptr₂
      have hkept : s.peers.Kept ((s.peers.pickUp p m).release q) :=
        Peers.kept_pickUp.trans Peers.kept_release
      have hquiet₂ := hquiet q
      rw [← (hkept q).2.2, ← hpassed] at hquiet₂
      rw [sendDelayed, (miscIsset_of_quiet hquiet₂).2] at ht₃
      obtain rfl := Except.ok.inj ht₃
      have hlink : (u.proc q).qLink = (s.peers q).qLink := by
        refine (congrArg Peer.qLink (congrFun hpassed q)).trans ?_
        exact (Peers.release_queues q).2.trans (Peers.pickUp_queues q).2
      rw [hlink]
      obtain ⟨hptr', hpeers⟩ := unlink_peers hpassed p q xpp (s.peers q).qLink
      refine ⟨hsane.of_kept (hptr'.trans hptr) ?_, hptr'.trans hptr, q, xpp, m, hseek, hget, ?_,
        hpeers⟩
      · rw [hpeers]
        exact Peers.kept_take
      · intro e' m' hsending
        rw [← hm]
        rw [KState.peers, Proc.peer] at hsending
        split at hsending
        · cases hsending
          rfl
        · cases hsending

theorem sending_none : (s.peers p).sending = none ↔ (s.proc p).rtsIsset RTS_SENDING = false := by
  simp [KState.peers, Proc.peer]

theorem receiveQueued_none {t : Option (KState H M)} (h : receiveQueued s p src = .ok t)
    (ht : t = none) (xpp : Cell (Slot H))
    (hseek : seek (s.peers.callers p) (acceptable src) (bound H) .head = some xpp) :
    (s.peers.callers p).get xpp = none := by
  subst ht
  rw [receiveQueued, callers_peers, hseek] at h
  dsimp only at h
  split at h
  · assumption
  · obtain ⟨-, h⟩ := kassert_bind_ok.mp h
    obtain ⟨-, h⟩ := kassert_bind_ok.mp h
    obtain ⟨-, h⟩ := kassert_bind_ok.mp h
    obtain ⟨_, -, h⟩ := bind_ok.mp h
    obtain ⟨_, -, h⟩ := bind_ok.mp h
    cases h

theorem receiveAvailable_peers (hsane : Sane s) (hquiet : ∀ i, (s.peers i).quiet = true)
    (hbox : (s.peers p).box = none) {found : Bool} {t : KState H M}
    (h : receiveAvailable s p src = .ok (found, t)) :
    (found = true ∧ Sane t ∧ t.procPtr = s.procPtr ∧ s.peers.Received p src e .OK t.peers) ∨
    (found = false ∧ t = s ∧ ((s.peers p).sending = none → ∀ xpp,
      seek (s.peers.callers p) (acceptable src) (bound H) .head = some xpp →
      (s.peers.callers p).get xpp = none)) := by
  rw [receiveAvailable] at h
  split at h
  · rename_i hsending
    obtain ⟨rfl, rfl⟩ := Prod.mk.inj (pure_ok.mp h)
    refine .inr ⟨rfl, rfl, fun hnone => ?_⟩
    rw [sending_none, hsending] at hnone
    cases hnone
  · rename_i hsending
    have hidle : (s.peers p).sending = none := sending_none.mpr (by simpa using hsending)
    obtain ⟨noted, hnoted, h⟩ := bind_ok.mp h
    cases noted with
    | some t' =>
      obtain ⟨rfl, rfl⟩ := Prod.mk.inj (pure_ok.mp h)
      obtain ⟨m, hm, hptr, hpeers⟩ := receiveNotify_peers hnoted
      refine .inl ⟨rfl, hsane.of_kept hptr (by rw [hpeers]; exact Peers.kept_pickUp), hptr, ?_⟩
      rw [hpeers]
      exact .noted hidle hbox hm
    | none =>
      dsimp only at h
      obtain ⟨async, hasync, h⟩ := bind_ok.mp h
      rw [receiveAsync_quiet (hquiet p)] at hasync
      obtain rfl := Except.ok.inj hasync
      obtain ⟨queued, hqueued, h⟩ := bind_ok.mp h
      cases queued with
      | some t' =>
        obtain ⟨rfl, rfl⟩ := Prod.mk.inj (pure_ok.mp h)
        obtain ⟨hsane', hptr, q, xpp, m, hseek, hget, hm, hpeers⟩ :=
          receiveQueued_peers hsane hquiet hqueued
        refine .inl ⟨rfl, hsane', hptr, ?_⟩
        rw [hpeers]
        exact .took hidle hbox hseek hget hm
      | none =>
        obtain ⟨rfl, rfl⟩ := Prod.mk.inj (pure_ok.mp h)
        exact .inr ⟨rfl, rfl, fun _ => receiveQueued_none hqueued rfl⟩

theorem wait_peers (hsane : Sane s) (hfree : (s.peers p).state ≠ .free)
    (hs : rtsSet (s.upd p fun x => { x with getfromE := e }) p RTS_RECEIVING = .ok s') :
    Sane s' ∧ s'.procPtr = s.procPtr ∧ s'.peers = s.peers.wait p e := by
  obtain ⟨hptr, hpeers⟩ := rtsSet_peers hs
  have hself : s'.peers = s.peers.wait p e := by
    rw [hpeers, peers_upd, Function.update_idem, upd_proc_self]
    exact congrArg (Function.update _ p) (peer_set_receiving
      (x := { s.proc p with getfromE := e }) (hsane.unbroken p) hfree)
  exact ⟨hsane.of_kept hptr (by rw [hself]; exact Peers.kept_wait), hptr, hself⟩

theorem source_of_receiveSource (h : receiveSource s e = .ok src) : s.peers.Source src e := by
  rw [receiveSource] at h
  split at h
  · rename_i hany
    obtain rfl := pure_ok.mp h
    exact .inl ⟨hany, rfl⟩
  · obtain ⟨d, hd, h⟩ := bind_ok.mp h
    obtain rfl := pure_ok.mp h
    exact .inr ⟨d, rfl, by rw [← isokendpt_named, ← okendpt_ok, hd]⟩

theorem miniReceive_received (hsane : Sane s) (hquiet : ∀ i, (s.peers i).quiet = true)
    (hfree : (s.peers p).state ≠ .free) {mBuffUsr : ℕ}
    (h : miniReceive s p e mBuffUsr false = .ok (r, s')) :
    Sane s' ∧ s'.procPtr = s.procPtr ∧
      ∃ src, s.peers.Source src e ∧ s.peers.Received p src e r s'.peers := by
  rw [miniReceive] at h
  obtain ⟨hbox, h⟩ := kassert_bind_ok.mp h
  dsimp only at h
  generalize ht : (s.upd p fun x => { x with delivermsgVir := mBuffUsr }) = t at h
  have hpeers : t.peers = s.peers := by
    rw [← ht]
    exact peers_upd_same rfl
  have hptr : t.procPtr = s.procPtr := by rw [← ht]; rfl
  have htsane := hsane.of_kept hptr (by rw [hpeers]; exact .refl)
  obtain ⟨src, hsrc, h⟩ := bind_ok.mp h
  have hsource := source_of_receiveSource hsrc
  rw [hpeers] at hsource
  split at h
  · rename_i hgone
    obtain ⟨rfl, rfl⟩ := Prod.mk.inj (pure_ok.mp h)
    refine ⟨htsane, hptr, src, hsource, ?_⟩
    rw [hpeers]
    cases src with
    | none => cases hgone
    | some d =>
      refine .gone (d := d) rfl fun halive => ?_
      have hend : (t.proc d).rtsIsset RTS_NO_ENDPOINT = true := hgone
      rw [← hpeers, KState.peers, Proc.peer, slotState] at halive
      rw [Proc.rtsIsset] at hend
      simp only [hend, if_true] at halive
      split_ifs at halive
  · rename_i hpresent
    have halive : ∀ d, src = some d → (s.peers d).state = .alive := by
      rintro d rfl
      rw [← hpeers] at hsource ⊢
      rcases hsource with ⟨-, hnone⟩ | ⟨d', hd', hnamed⟩
      · cases hnone
      · obtain rfl := Option.some.inj hd'
        exact alive_of_named htsane hnamed (by simpa [sourceGone] using hpresent)
    obtain ⟨⟨found, u⟩, hu, hrest⟩ := bind_ok.mp h
    have hav := receiveAvailable_peers (e := e) htsane (by rw [hpeers]; exact hquiet)
      (by rw [hpeers]; exact box_none (by simpa using hbox)) hu
    rw [hpeers] at hav
    rcases hav with ⟨rfl, husane, huptr, hreceived⟩ | ⟨rfl, rfl, hqueue⟩
    · obtain ⟨rfl, rfl⟩ := Prod.mk.inj (pure_ok.mp hrest)
      have hsame : (u.upd p (·.clearMisc MF_REPLY_PEND)).peers = u.peers :=
        peers_upd_same (peer_clearMisc (by decide))
      refine ⟨husane.of_kept rfl (by rw [hsame]; exact .refl), huptr.trans hptr, src, hsource, ?_⟩
      rw [hsame]
      exact hreceived
    · simp only [Bool.false_eq_true, if_false] at hrest
      obtain ⟨group, hgroup, hrest⟩ := bind_ok.mp hrest
      have hendpoint : (u.proc p).endpoint = (s.peers p).endpoint :=
        congrArg Peer.endpoint (congrFun hpeers p)
      split at hrest
      · rename_i hlocked
        obtain ⟨rfl, rfl⟩ := Prod.mk.inj (pure_ok.mp hrest)
        refine ⟨htsane, hptr, src, hsource, ?_⟩
        rw [hpeers]
        refine .locked (fun hends => hlocked ?_) fun hexempt => hlocked ?_
        · rw [← hendpoint, ← hpeers] at hends
          exact deadlockLoop_ends hends hgroup
        · rw [← hendpoint, ← hpeers] at hexempt
          exact deadlockLoop_exempt (.inr rfl) hexempt hgroup
      · rename_i hfree'
        rw [not_not] at hfree'
        subst hfree'
        obtain ⟨v, hv, hrest⟩ := bind_ok.mp hrest
        obtain ⟨rfl, rfl⟩ := Prod.mk.inj (pure_ok.mp hrest)
        obtain ⟨hvsane, hvptr, hvpeers⟩ := wait_peers htsane (by rw [hpeers]; exact hfree) hv
        refine ⟨hvsane, hvptr.trans hptr, src, hsource, ?_⟩
        rw [hvpeers, hpeers]
        refine .waited hqueue halive ?_
        have hzero := deadlockLoop_zero (.inr rfl) le_rfl hgroup
        rw [hpeers, hendpoint] at hzero
        exact hzero.imp_right And.left

end Receiving

structure Peer.Idle (x : Peer H M) : Prop where
  state : x.state = .alive
  sending : x.sending = none
  receiving : x.receiving = none

theorem idle_of_runnable (h : (s.proc p).isRunnable = true) : (s.peers p).Idle := by
  have hflags : (s.proc p).rtsFlags = 0#16 := by
    simpa [Proc.isRunnable, rtsFIsRunnable] using h
  have hpeer : s.peers p = ((s.proc p).setRts 0#16).peer := by
    rw [← hflags]
    rfl
  rw [hpeer, peer_setRts]
  exact ⟨slotState_zero, rfl, rfl⟩

theorem refuse_named {c : IpcCall M} (h : refuseIpc s p c = none) :
    (c.srcDstE = H.any ∧ c.callNr = .RECEIVE) ∨ ∃ d, s.peers.named c.srcDstE = some d := by
  rw [refuseIpc] at h
  split at h
  · rename_i hany
    split_ifs at h with hcall
    exact .inl ⟨hany, not_not.mp hcall⟩
  · split at h
    · cases h
    · rename_i d hd
      exact .inr ⟨d, by rw [← isokendpt_named, hd]⟩

theorem refuse_error {c : IpcCall M} (h : refuseIpc s p c = some r) : r ≠ .OK := by
  rintro rfl
  rw [refuseIpc] at h
  split at h
  · split_ifs at h <;> cases h
  · split at h
    · cases h
    · split_ifs at h <;> cases h

theorem doSyncIpc_called {c : IpcCall M} (hsane : Sane s)
    (hquiet : ∀ i, (s.peers i).quiet = true) (hfree : (s.peers p).state ≠ .free)
    (h : doSyncIpc s p c = .ok (r, s')) :
    Sane s' ∧ s'.procPtr = s.procPtr ∧ s.peers.Called p c r s'.peers := by
  rw [doSyncIpc] at h
  obtain ⟨hsenda, h⟩ := kassert_bind_ok.mp h
  split at h
  · rename_i hrefused
    obtain ⟨rfl, rfl⟩ := Prod.mk.inj (pure_ok.mp h)
    exact ⟨hsane, rfl, .refused (refuse_error hrefused)⟩
  · rename_i hpassed
    have hdest := refuse_named hpassed
    have hmarked : ∀ t : KState H M, t.peers = s.peers → t.procPtr = s.procPtr → Sane t :=
      fun t hpeers hptr => hsane.of_kept hptr (by rw [hpeers]; exact .refl)
    split at h
    · rename_i hcall
      obtain ⟨d, hd⟩ := hdest.resolve_left fun hany => by simp [hcall] at hany
      have hpeers : (s.upd p (·.setMisc MF_REPLY_PEND)).peers = s.peers :=
        peers_upd_same (peer_setMisc (by decide))
      obtain ⟨⟨result, t⟩, ht, hrest⟩ := bind_ok.mp h
      obtain ⟨htsane, htptr, hsent⟩ := miniSend_sent (hmarked _ hpeers rfl)
        (by rw [hpeers]; exact hd) (by rw [hpeers]; exact hfree) ht
      rw [hpeers] at hsent
      dsimp only at hrest
      split at hrest
      · rename_i hfailed
        obtain ⟨rfl, rfl⟩ := Prod.mk.inj (pure_ok.mp hrest)
        rw [hsent.same_of_error hfailed]
        exact ⟨htsane, htptr, .refused hfailed⟩
      · rename_i hsucceeded
        rw [not_not] at hsucceeded
        subst hsucceeded
        have hkept := hsent.kept
        obtain ⟨hsane', hptr', src, hsource, hreceived⟩ := miniReceive_received htsane
          (fun i => (hkept i).2.2.trans (hquiet i)) (by rw [(hkept p).1]; exact hfree) hrest
        refine ⟨hsane', hptr'.trans htptr, .exchanged hcall hd hsent ?_⟩
        rcases hsource with ⟨hany, -⟩ | ⟨d', rfl, hd'⟩
        · rw [hany, Peers.named_any] at hd
          cases hd
        · rw [hkept.named, hd] at hd'
          obtain rfl := Option.some.inj hd'
          exact hreceived
    · rename_i hcall
      obtain ⟨d, hd⟩ := hdest.resolve_left fun hany => by simp [hcall] at hany
      obtain ⟨hsane', hptr, hsent⟩ := miniSend_sent hsane hd hfree h
      refine ⟨hsane', hptr, .sent (.inl hcall) hd ?_⟩
      rw [hcall]
      exact hsent
    · rename_i hcall
      have hpeers : (s.upd p fun x =>
          { x.clearMisc MF_REPLY_PEND with ipcStatus := [] }).peers = s.peers :=
        peers_upd_same (peer_clearMisc (x := s.proc p) (f := MF_REPLY_PEND) (by decide))
      obtain ⟨hsane', hptr, src, hsource, hreceived⟩ := miniReceive_received
        (hmarked _ hpeers rfl) (by rw [hpeers]; exact hquiet) (by rw [hpeers]; exact hfree) h
      rw [hpeers] at hsource hreceived
      exact ⟨hsane', hptr, .received hcall hsource hreceived⟩
    · rename_i hcall
      obtain ⟨d, hd⟩ := hdest.resolve_left fun hany => by simp [hcall] at hany
      obtain ⟨hsane', hptr, rfl, hnotified⟩ := miniNotify_notified hsane hd h
      exact ⟨hsane', hptr, .notified hcall hd hnotified⟩
    · rename_i hcall
      obtain ⟨d, hd⟩ := hdest.resolve_left fun hany => by simp [hcall] at hany
      obtain ⟨hsane', hptr, hsent⟩ := miniSend_sent hsane hd hfree h
      refine ⟨hsane', hptr, .sent (.inr hcall) hd ?_⟩
      rw [hcall]
      exact hsent
    · rename_i hcall
      simp [hcall] at hsenda

end Kernel
