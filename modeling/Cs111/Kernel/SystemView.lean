import Cs111.Kernel.System

namespace Kernel
open Minix FlagWord Chain
variable {H : Headers} {M : Type}

namespace Peers
variable (V : Peers H M)

def Unbroken : Prop := ∀ i, (V i).state ≠ .broken

def bury (rc : Slot H) : Peers H M := Function.update V rc { V rc with state := .dead }

def stopWaiting (rc : Slot H) : Peers H M :=
  Function.update V rc { V rc with receiving := none }

def freeRefs (e : ℤ) : Peers H M := fun i =>
  if (V i).state ≠ .free ∧ (V i).blockedOn = e then
    { V i with sending := none, receiving := none }
  else V i

inductive Unlinked (rc : Slot H) : Peers H M → Prop
  | idle : (V rc).sending = none → Unlinked rc V
  | absent {e m target xpp} : (V rc).sending = some (e, m) → V.named e = some target →
      seek (V.callers target) (· == rc) (bound H) .head = some xpp →
      (V.callers target).get xpp = none → Unlinked rc (V.release rc)
  | unlinked {e m target xpp xp} : (V rc).sending = some (e, m) → V.named e = some target →
      seek (V.callers target) (· == rc) (bound H) .head = some xpp →
      (V.callers target).get xpp = some xp →
      Unlinked rc ((V.setCallers target xpp (V xp).qLink).release rc)

inductive Cleared (rc : Slot H) : Peers H M → Prop
  | cleared {W} : (V rc).state ≠ .free → (V.bury rc).Unlinked rc W →
      Cleared rc ((W.stopWaiting rc).freeRefs (V rc).endpoint)

def vacate (rc : Slot H) : Peers H M :=
  Function.update V rc { V rc with state := .free, sending := none, receiving := none }

def fork (rpp rpc : Slot H) (e : ℤ) : Peers H M :=
  Function.update V rpc { V rpp with endpoint := e }

def swap (src dst : Slot H) : Peers H M :=
  Function.update
    (Function.update V src
      { V dst with endpoint := (V src).endpoint, callerQ := (V src).callerQ })
    dst { V src with endpoint := (V dst).endpoint, callerQ := (V dst).callerQ }

end Peers

section Exit
variable {s s' : KState H M} {p rc i : Slot H} {e : ℤ} {f : Flags}

theorem bury_peers (h : s.peers.Unbroken) (hfree : (s.peers rc).state ≠ .free)
    (hs : rtsSet s rc RTS_NO_ENDPOINT = .ok s') :
    s'.procPtr = s.procPtr ∧ s'.peers = s.peers.bury rc := by
  obtain ⟨hptr, hpeers⟩ := rtsSet_peers hs
  refine ⟨hptr, ?_⟩
  have hbit := (slotState_cases (h rc)).resolve_left fun hf => hfree (slotState_free.mpr hf)
  rw [hpeers, peer_setRts, slotState_of_isset (by rw [isset_or (by decide)]; exact hbit),
    isset_or_self, isset_or (by decide), isset_or (by decide)]
  rfl

theorem release_peers (h : s.peers.Unbroken) :
    (s.setRts rc ((s.proc rc).rtsFlags &&& ~~~RTS_SENDING)).peers = s.peers.release rc := by
  rw [KState.setRts, peers_upd, peer_clear_sending (h rc)]
  rfl

theorem stopWaiting_peers (h : s.peers.Unbroken) :
    (s.setRts rc ((s.proc rc).rtsFlags &&& ~~~RTS_RECEIVING)).peers = s.peers.stopWaiting rc := by
  rw [KState.setRts, peers_upd, peer_clear_receiving (h rc)]
  rfl

theorem Peers.unbroken_of_states {V V' : Peers H M} (h : V.Unbroken)
    (hstate : ∀ i, (V' i).state = (V i).state) : V'.Unbroken := by
  intro i
  rw [hstate]
  exact h i

theorem Peers.unbroken_bury {V : Peers H M} (h : V.Unbroken) : (V.bury rc).Unbroken := by
  intro i
  by_cases hi : i = rc
  · subst hi
    simp [Peers.bury]
  · simpa [Peers.bury, hi] using h i

theorem Peers.used_bury {V : Peers H M} (h : (V i).state ≠ .free) :
    (V.bury rc i).state ≠ .free := by
  by_cases hi : i = rc
  · subst hi
    simp [Peers.bury]
  · simpa [Peers.bury, hi] using h

theorem Peers.kept_stopWaiting (V : Peers H M) (rc : Slot H) : V.Kept (V.stopWaiting rc) :=
  .update ⟨rfl, rfl, rfl⟩

theorem unlinkSender_peers (h : s.peers.Unbroken) (hs : unlinkSender s rc = .ok s') :
    s'.procPtr = s.procPtr ∧ s.peers.Unlinked rc s'.peers := by
  rw [unlinkSender] at hs
  split at hs
  · rename_i hsending
    have hsend : (s.peers rc).sending = some ((s.proc rc).sendtoE, (s.proc rc).sendmsg) := by
      simp [KState.peers, Proc.peer, hsending]
    obtain ⟨target, htarget, hs⟩ := bind_ok.mp hs
    rw [okendpt_ok, isokendpt_named] at htarget
    split at hs
    · cases hs
    · rename_i xpp hseek
      obtain rfl := pure_ok.mp hs
      split
      · rename_i hget
        refine ⟨rfl, ?_⟩
        rw [release_peers h]
        exact .absent hsend htarget hseek hget
      · rename_i xp hget
        have hset := peers_setCallers s target xpp (s.proc xp).qLink
        constructor
        · cases xpp <;> rfl
        · have hkept : (s.setCallers target xpp (s.proc xp).qLink).peers.Unbroken :=
            Peers.unbroken_of_states h fun i => by
              rw [hset]
              exact (Peers.kept_setCallers i).1
          rw [release_peers hkept, hset]
          exact .unlinked hsend htarget hseek hget
  · rename_i hsending
    obtain rfl := Except.ok.inj hs
    exact ⟨rfl, .idle (by simp [KState.peers, Proc.peer, hsending])⟩

theorem Peers.Unlinked.same {V V' : Peers H M} (h : V.Unlinked rc V') :
    V.Kept V' ∧ (V' rc).sending = none ∧ (V' rc).receiving = (V rc).receiving := by
  cases h with
  | idle hidle => exact ⟨.refl, hidle, rfl⟩
  | absent =>
    refine ⟨kept_release, ?_⟩
    rw [Peers.release, Function.update_self]
    exact ⟨rfl, rfl⟩
  | @unlinked _ _ target xpp xp =>
    refine ⟨kept_setCallers.trans kept_release, ?_⟩
    rw [Peers.release, Function.update_self]
    exact ⟨rfl, (setCallers_mail rc).2.1⟩

theorem clearIpc_peers (h : s.peers.Unbroken) (hs : clearIpc s rc = .ok s') :
    s'.procPtr = s.procPtr ∧ ∃ W, s.peers.Unlinked rc W ∧ s'.peers = W.stopWaiting rc := by
  rw [clearIpc] at hs
  obtain ⟨t, ht, hs⟩ := bind_ok.mp hs
  obtain rfl := pure_ok.mp hs
  obtain ⟨hptr, hunlinked⟩ := unlinkSender_peers h ht
  refine ⟨hptr, t.peers, hunlinked, ?_⟩
  exact stopWaiting_peers (Peers.unbroken_of_states h fun i => (hunlinked.same.1 i).1)

theorem peer_clearIpc {x : Proc H M} (h : x.peer.state ≠ .broken) :
    (x.setRts (x.rtsFlags &&& ~~~(RTS_RECEIVING ||| RTS_SENDING))).peer =
      { x.peer with sending := none, receiving := none } := by
  rw [peer_setRts, slotState_clear (by decide) h, isset_clear_self (by decide) (by decide),
    isset_clear_self (by decide) (by decide)]
  rfl

theorem clearRef_peers {callerRet : Errno} (hsane : Sane s)
    (hs : clearRef rc callerRet s i = .ok s') :
    Sane s' ∧ s'.procPtr = s.procPtr ∧ s'.peers = Function.update s.peers i
      (s.peers.freeRefs (s.peers rc).endpoint i) := by
  rw [clearRef] at hs
  split at hs
  · rename_i hempty
    obtain rfl := Except.ok.inj hs
    refine ⟨hsane, rfl, ?_⟩
    rw [Peers.freeRefs, if_neg (by rw [isEmpty_iff] at hempty; exact fun h => h.1 hempty)]
    exact (Function.update_eq_self ..).symm
  · rename_i hused
    have hstate : (s.peers i).state ≠ .free := fun hfree => hused ((isEmpty_iff _).mpr hfree)
    dsimp only at hs
    split at hs
    · rename_i hwaits
      have hsame : ((s.updPriv (s.proc i).priv fun x =>
          { x with sNotifyPending := unsetSysBit x.sNotifyPending (s.proc rc).priv }).upd i
          fun x => { x with retreg := callerRet }).peers = s.peers := peers_upd_same rfl
      have hunset := fun h => rtsUnset_peers h (by decide) hs
      obtain ⟨hsane', hptr, hpeers⟩ := hunset (hsane.of_states rfl fun j => by rw [hsame])
      refine ⟨hsane', hptr, ?_⟩
      rw [hpeers, hsame, upd_proc_self, Peers.freeRefs,
        if_pos ⟨hstate, (blockedOn_peer _).trans hwaits⟩]
      exact congrArg (Function.update _ i)
        (peer_clearIpc (x := { s.proc i with retreg := callerRet }) (hsane.unbroken i))
    · rename_i hwaits
      obtain rfl := Except.ok.inj hs
      refine ⟨hsane.of_states rfl fun _ => rfl, rfl, ?_⟩
      rw [Peers.freeRefs, if_neg (fun h => hwaits ((blockedOn_peer _).symm.trans h.2))]
      exact (Function.update_eq_self ..).symm

theorem Peers.freeRefs_kept (V : Peers H M) (e : ℤ) : V.Kept (V.freeRefs e) := by
  intro i
  rw [Peers.freeRefs]
  split_ifs <;> exact ⟨rfl, rfl, rfl⟩

theorem clear_refs_loop {callerRet : Errno} (l : List (Slot H)) (hl : l.Nodup) (hsane : Sane s)
    (hs : l.foldlM (clearRef rc callerRet) s = .ok s') :
    Sane s' ∧ s'.procPtr = s.procPtr ∧ ∀ i, s'.peers i =
      if i ∈ l then s.peers.freeRefs (s.peers rc).endpoint i else s.peers i := by
  induction l generalizing s with
  | nil =>
    obtain rfl := pure_ok.mp hs
    exact ⟨hsane, rfl, fun i => by simp⟩
  | cons j l ih =>
    rw [List.foldlM_cons] at hs
    obtain ⟨t, ht, hs⟩ := bind_ok.mp hs
    rw [List.nodup_cons] at hl
    obtain ⟨htsane, htptr, htpeers⟩ := clearRef_peers hsane ht
    obtain ⟨hsane', hptr, hpeers⟩ := ih hl.2 htsane hs
    refine ⟨hsane', hptr.trans htptr, fun i => ?_⟩
    have hend : (t.peers rc).endpoint = (s.peers rc).endpoint := by
      rw [htpeers]
      exact (Peers.Kept.update (s.peers.freeRefs_kept _ j) rc).2.1
    rw [hpeers i, hend]
    by_cases hi : i = j
    · subst hi
      rw [if_neg hl.1, if_pos List.mem_cons_self, htpeers, Function.update_self]
    · have hsame : t.peers i = s.peers i := by rw [htpeers, Function.update_of_ne hi]
      simp only [List.mem_cons, hi, false_or, Peers.freeRefs, hsame]

theorem clearIpcRefs_peers {callerRet : Errno} (hsane : Sane s)
    (hs : clearIpcRefs s rc callerRet = .ok s') : Sane s' ∧ s'.procPtr = s.procPtr ∧
      s'.peers = s.peers.freeRefs (s.peers rc).endpoint := by
  obtain ⟨hsane', hptr, hpeers⟩ := clear_refs_loop _ (List.nodup_finRange _) hsane hs
  refine ⟨hsane', hptr, funext fun i => ?_⟩
  rw [hpeers i, if_pos (List.mem_finRange i)]

theorem clearEndpoint_peers (hsane : Sane s) (hs : clearEndpoint s rc = .ok s') :
    Sane s' ∧ s'.procPtr = s.procPtr ∧ s.peers.Cleared rc s'.peers := by
  rw [clearEndpoint] at hs
  split at hs
  · cases hs
  · rename_i hused
    have hfree : (s.peers rc).state ≠ .free := fun hfree => hused ((isEmpty_iff _).mpr hfree)
    obtain ⟨t, ht, hs⟩ := bind_ok.mp hs
    obtain ⟨u, hu, hs⟩ := bind_ok.mp hs
    obtain ⟨htptr, htpeers⟩ := bury_peers hsane.unbroken hfree ht
    have hasyn : (clearAsynsize t rc).peers = t.peers ∧ (clearAsynsize t rc).procPtr = t.procPtr := by
      rw [clearAsynsize]
      split_ifs <;> exact ⟨rfl, rfl⟩
    have hunbroken : t.peers.Unbroken := by
      rw [htpeers]
      exact Peers.unbroken_bury hsane.unbroken
    obtain ⟨huptr, W, hunlinked, hupeers⟩ := clearIpc_peers (by rw [hasyn.1]; exact hunbroken) hu
    rw [hasyn.1, htpeers] at hunlinked
    rw [hasyn.2, htptr] at huptr
    have hkept : (s.peers.bury rc).Kept u.peers := by
      rw [hupeers]
      exact hunlinked.same.1.trans (W.kept_stopWaiting rc)
    have husane : Sane u := by
      refine ⟨fun i => ?_, ?_⟩
      · rw [(hkept i).1, ← htpeers]
        exact hunbroken i
      · rw [huptr, (hkept _).1]
        exact Peers.used_bury hsane.running
    obtain ⟨hsane', hptr, hpeers⟩ := clearIpcRefs_peers husane hs
    refine ⟨hsane', hptr.trans huptr, ?_⟩
    have hend : (u.peers rc).endpoint = (s.peers rc).endpoint := by
      rw [(hkept rc).2.1, Peers.bury, Function.update_self]
    rw [hpeers, hend, hupeers]
    exact .cleared hfree hunlinked

theorem vacate_peers (hs : rtsSetflags s rc RTS_SLOT_FREE = .ok s') :
    s'.peers = s.peers.vacate rc := by
  rw [rtsSetflags] at hs
  have hproc : s'.proc = (s.setRts rc RTS_SLOT_FREE).proc := by
    split at hs
    · obtain ⟨t, ht, hs⟩ := bind_ok.mp hs
      obtain rfl := pure_ok.mp hs
      rw [KState.setRts, KState.upd, (Rescheduled.dequeue ht).1]
      rfl
    · obtain ⟨t, ht, hs⟩ := bind_ok.mp hs
      obtain rfl := pure_ok.mp ht
      obtain rfl := pure_ok.mp hs
      rfl
  have hpeers : s'.peers = (s.setRts rc RTS_SLOT_FREE).peers := by
    funext i
    exact congrArg Proc.peer (congrFun hproc i)
  rw [hpeers, KState.setRts, peers_upd, peer_setRts]
  rfl

theorem doClear_peers (hsane : Sane s) {r : Errno} (hs : doClear s e = .ok (r, s')) :
    (s'.peers = s.peers ∧ r ≠ .OK) ∨ ∃ rc W, r = .OK ∧ s.peers.named e = some rc ∧
      s.peers.Cleared rc W ∧ s'.peers = W.vacate rc := by
  rw [doClear] at hs
  split at hs
  · cases hs
    exact .inl ⟨rfl, nofun⟩
  · rename_i rc hrc
    rw [isokendpt_named] at hrc
    split at hs
    · rename_i hempty
      exact absurd ((isEmpty_iff _).mp hempty) (named_some hrc).2.1
    · obtain ⟨t, ht, hs⟩ := bind_ok.mp hs
      obtain ⟨u, hu, hs⟩ := bind_ok.mp hs
      obtain ⟨rfl, rfl⟩ := Prod.mk.inj (pure_ok.mp hs)
      refine .inr ⟨rc, t.peers, rfl, hrc, (clearEndpoint_peers hsane ht).2.2, ?_⟩
      have hsame : (releasePriv (u.upd rc (·.clearMisc MF_FPU_INITIALIZED)) rc).peers =
          (u.upd rc (·.clearMisc MF_FPU_INITIALIZED)).peers := by
        rw [releasePriv]
        split_ifs <;> rfl
      rw [hsame, peers_upd_same (peer_clearMisc (by decide)), vacate_peers hu]

end Exit

section Fork
variable {s s' : KState H M} {r : Errno}

theorem peer_forked {x : Proc H M} (e : ℤ) :
    (x.forked e).peer = { x.peer with endpoint := e } :=
  congrArg (fun y : Peer H M => { y with endpoint := e })
    (peer_clearMisc (x := x) (f := MF_VIRT_TIMER ||| MF_PROF_TIMER ||| MF_SC_TRACE) (by decide))

inductive Peers.Forked (V : Peers H M) (m : ForkCall) : Peers H M → Prop
  | refused : Forked V m V
  | forked {rpp rpc} : V.named m.prEndpt = some rpp → (V rpp).box = none →
      (V rpp).receiving.isSome = true → procNr rpc = m.prSlot → (V rpc).state = .free →
      (V rpc).sending = none → Forked V m (V.fork rpp rpc
        (H.endpoint (nextGeneration H (H.endpointG (V rpc).endpoint)) m.prSlot))

theorem free_idle {i : Slot H} (h : (s.peers i).state = .free) : (s.peers i).sending = none := by
  rw [sending_none, Proc.rtsIsset, slotState_free.mp h]
  decide

theorem dropPrivileges_peers (rpp rpc : Slot H) (h : (s.peers rpc).state ≠ .broken)
    (hfree : (s.peers rpc).state ≠ .free) :
    (dropPrivileges s rpp rpc).procPtr = s.procPtr ∧ (dropPrivileges s rpp rpc).peers = s.peers := by
  rw [dropPrivileges]
  split
  · refine ⟨rfl, peers_upd_same ?_⟩
    exact peer_or (x := { s.proc rpc with priv := H.userPrivId }) (f := RTS_NO_PRIV) (by decide) h
      hfree
  · exact ⟨rfl, rfl⟩

theorem inhibit_peers {rpc : Slot H} {vmInhibit : Bool} (h : (s.peers rpc).state ≠ .broken)
    (hfree : (s.peers rpc).state ≠ .free) (hs : inhibit s rpc vmInhibit = .ok s') :
    s'.procPtr = s.procPtr ∧ s'.peers = s.peers := by
  rw [inhibit] at hs
  split at hs
  · exact rtsSet_same (by decide) h hfree hs
  · obtain rfl := Except.ok.inj hs
    exact ⟨rfl, rfl⟩

theorem rtsSet_ptr {i j : Slot H} {f : Flags} (hs : rtsSet s i f = .ok s') :
    (s'.proc j).priv = (s.proc j).priv := by
  rw [(Rescheduled.of_rtsSet hs).view_eq (v := Proc.priv) (fun _ => rfl) j, KState.setRts,
    proc_upd_apply]
  split
  · rename_i hj
    rw [hj]
    rfl
  · rfl

theorem rtsUnset_ptr {i j : Slot H} {f : Flags} (hs : rtsUnset s i f = .ok s') :
    (s'.proc j).priv = (s.proc j).priv := by
  rw [(Rescheduled.rtsUnset hs).view_eq (v := Proc.priv) (fun _ => rfl) j, KState.setRts,
    proc_upd_apply]
  split
  · rename_i hj
    rw [hj]
    rfl
  · rfl

theorem upd_ptr {i j : Slot H} {g : Proc H M → Proc H M} (hg : ∀ x, (g x).priv = x.priv) :
    ((s.upd i g).proc j).priv = (s.proc j).priv := by
  rw [proc_upd_apply]
  split
  · rename_i hj
    rw [hg, hj]
  · rfl

theorem inhibit_ptr {rpc j : Slot H} {vmInhibit : Bool} (hs : inhibit s rpc vmInhibit = .ok s') :
    (s'.proc j).priv = (s.proc j).priv := by
  rw [inhibit] at hs
  split at hs
  · exact rtsSet_ptr hs
  · cases hs
    rfl

theorem dropPrivileges_ptr {t : KState H M} {rpp rpc : Slot H}
    (hrpp : (t.privOf rpp) = s.privOf rpp) (j : Slot H) :
    ((dropPrivileges t rpp rpc).proc j).priv =
      if j = rpc ∧ (s.privOf rpp).has SYS_PROC = true then H.userPrivId else (t.proc j).priv := by
  rw [dropPrivileges, hrpp]
  by_cases hsys : (s.privOf rpp).has SYS_PROC = true
  · rw [if_pos hsys, proc_upd_apply]
    by_cases hj : j = rpc
    · rw [if_pos hj, if_pos ⟨hj, hsys⟩]
    · rw [if_neg hj, if_neg fun h => hj h.1]
  · rw [if_neg hsys, if_neg fun h => hsys h.2]

structure Forks (s : KState H M) (m : ForkCall) (rpp rpc : Slot H) (s' : KState H M) : Prop where
  parent : s.peers.named m.prEndpt = some rpp
  box : (s.peers rpp).box = none
  receiving : (s.peers rpp).receiving.isSome = true
  slot : procNr rpc = m.prSlot
  free : (s.peers rpc).state = .free
  peers : s'.peers = s.peers.fork rpp rpc
    (H.endpoint (nextGeneration H (H.endpointG (s.proc rpc).endpoint)) m.prSlot)
  ptr : ∀ i, (s'.proc i).priv =
    if i = rpc then if (s.privOf rpp).has SYS_PROC then H.userPrivId else (s.proc rpp).priv
    else (s.proc i).priv
  priv : s'.priv = s.priv

theorem doFork_cases (hsane : Sane s) {m : ForkCall} (hs : doFork s m = .ok (r, s')) :
    s' = s ∨ ∃ rpp rpc, Forks s m rpp rpc s' := by
  rw [doFork] at hs
  split at hs
  · cases hs
    exact .inl rfl
  · rename_i rpp hrpp
    rw [isokendpt_named] at hrpp
    obtain ⟨rpc, hrpc, hs⟩ := bind_ok.mp hs
    split at hs
    · obtain ⟨rfl, rfl⟩ := Prod.mk.inj (pure_ok.mp hs)
      exact .inl rfl
    · rename_i hslots
      obtain ⟨hbox, hs⟩ := kassert_bind_ok.mp hs
      split at hs
      · obtain ⟨rfl, rfl⟩ := Prod.mk.inj (pure_ok.mp hs)
        exact .inl rfl
      · rename_i hreceiving
        obtain ⟨t, ht, hs⟩ := bind_ok.mp hs
        obtain ⟨u, hu, hs⟩ := bind_ok.mp hs
        obtain ⟨v, hv, hs⟩ := bind_ok.mp hs
        obtain ⟨rfl, rfl⟩ := Prod.mk.inj (pure_ok.mp hs)
        have haddr := procAddr_ok hrpc
        simp only [Bool.or_eq_true, not_or, Bool.not_eq_true', Bool.not_eq_false] at hslots
        have hfree : (s.peers rpc).state = .free := (isEmpty_iff _).mp hslots.2
        have hparent := (named_some hrpp).2.1
        have hnever : rpc ≠ rpp := by
          rintro rfl
          exact hparent hfree
        generalize he : H.endpoint (nextGeneration H (H.endpointG (s.proc rpc).endpoint)) m.prSlot
          = e at ht
        have hcopied : (copySlot s rpp rpc e).peers = s.peers.fork rpp rpc e := by
          rw [Peers.fork, KState.peers, ← peer_forked]
          exact peers_upd fun _ => (s.proc rpp).forked e
        have hused : ∀ w : KState H M, w.peers = s.peers.fork rpp rpc e →
            (w.peers rpc).state = (s.peers rpp).state := by
          intro w hw
          rw [hw, Peers.fork, Function.update_self]
        have hbroken := hsane.unbroken rpp
        obtain ⟨htptr, htpeers⟩ := rtsSet_same (by decide)
          (by rw [hused _ hcopied]; exact hbroken) (by rw [hused _ hcopied]; exact hparent) ht
        have hdropped := dropPrivileges_peers (s := t.upd rpc fun x => { x with cpuTimeLeft := 0 })
          rpp rpc (by rw [peers_upd_same rfl, hused t (htpeers.trans hcopied)]; exact hbroken)
          (by rw [peers_upd_same rfl, hused t (htpeers.trans hcopied)]; exact hparent)
        rw [peers_upd_same rfl, htpeers, hcopied] at hdropped
        have hinhibited := inhibit_peers (by rw [hused _ hdropped.2]; exact hbroken)
          (by rw [hused _ hdropped.2]; exact hparent) hu
        have hupeers : u.peers = s.peers.fork rpp rpc e := hinhibited.2.trans hdropped.2
        have huptr : u.procPtr = s.procPtr := hinhibited.1.trans (hdropped.1.trans htptr)
        have hucurrent : s.procPtr ≠ rpc := by
          rintro rfl
          exact hsane.running hfree
        have husane : Sane u := by
          refine ⟨fun i => ?_, ?_⟩
          · rw [hupeers, Peers.fork]
            by_cases hi : i = rpc
            · subst hi
              rw [Function.update_self]
              exact hbroken
            · rw [Function.update_of_ne hi]
              exact hsane.unbroken i
          · rw [huptr, hupeers, Peers.fork, Function.update_of_ne hucurrent]
            exact hsane.running
        obtain ⟨-, -, hvpeers⟩ := rtsUnset_same (by decide) husane hv
        have htpriv : t.priv = s.priv := by
          rw [(Rescheduled.of_rtsSet ht).priv_eq]
          rfl
        have hcopiedptr : ∀ i, ((copySlot s rpp rpc e).proc i).priv =
            if i = rpc then (s.proc rpp).priv else (s.proc i).priv := by
          intro i
          change ((s.upd rpc fun _ => (s.proc rpp).forked e).proc i).priv = _
          rw [proc_upd_apply]
          split <;> rfl
        have htptrs : ∀ i, ((t.upd rpc fun x => { x with cpuTimeLeft := 0 }).proc i).priv =
            if i = rpc then (s.proc rpp).priv else (s.proc i).priv := by
          intro i
          refine (upd_ptr (by exact fun _ => rfl)).trans ?_
          rw [rtsSet_ptr ht, hcopiedptr]
        have hparentpriv : (t.upd rpc fun x => { x with cpuTimeLeft := 0 }).privOf rpp =
            s.privOf rpp := by
          rw [KState.privOf, KState.privOf, htptrs, if_neg hnever.symm, upd_priv, htpriv]
        refine .inr ⟨rpp, rpc, hrpp, box_none (by simpa using hbox),
          by simpa [KState.peers, Proc.peer] using hreceiving, haddr, hfree, ?_, fun i => ?_, ?_⟩
        · rw [peers_upd_same rfl, hvpeers, hupeers, ← he]
        · refine (upd_ptr (by exact fun _ => rfl)).trans ?_
          rw [rtsUnset_ptr hv, inhibit_ptr hu, dropPrivileges_ptr hparentpriv, htptrs]
          by_cases hi : i = rpc
          · by_cases hsys : (s.privOf rpp).has SYS_PROC = true
            · rw [if_pos ⟨hi, hsys⟩, if_pos hi, if_pos hsys]
            · rw [if_neg fun h => hsys h.2, if_pos hi, if_pos hi, if_neg hsys]
          · rw [if_neg fun h => hi h.1, if_neg hi, if_neg hi]
        · change v.priv = s.priv
          rw [(Rescheduled.rtsUnset hv).priv_eq]
          change u.priv = s.priv
          have hinhibit : u.priv = (dropPrivileges (t.upd rpc fun x =>
              { x with cpuTimeLeft := 0 }) rpp rpc).priv := by
            rw [inhibit] at hu
            split at hu
            · rw [(Rescheduled.of_rtsSet hu).priv_eq]
              rfl
            · cases hu
              rfl
          rw [hinhibit, dropPrivileges]
          split
          · exact htpriv
          · exact htpriv

theorem doFork_peers (hsane : Sane s) {m : ForkCall} (hs : doFork s m = .ok (r, s')) :
    s.peers.Forked m s'.peers := by
  rcases doFork_cases hsane hs with rfl | ⟨rpp, rpc, h⟩
  · exact .refused
  · rw [h.peers]
    exact .forked h.parent h.box h.receiving h.slot h.free (free_idle h.free)

end Fork

section Update
variable {s : KState H M} {src dst : Slot H}

theorem inheritMask_same (src dst : Slot H) :
    (inheritMask s src dst).proc = s.proc ∧ (inheritMask s src dst).procPtr = s.procPtr := by
  rw [inheritMask]
  generalize List.finRange H.nrSysProcs = l
  induction l generalizing s with
  | nil => exact ⟨rfl, rfl⟩
  | cons i l ih =>
    have hbit : (inheritBit src dst s i).proc = s.proc ∧
        (inheritBit src dst s i).procPtr = s.procPtr := by
      simp only [inheritBit, setSendtoBit]
      split_ifs <;> exact ⟨rfl, rfl⟩
    rw [List.foldl_cons]
    exact ⟨(ih ..).1.trans hbit.1, (ih ..).2.trans hbit.2⟩

theorem peer_adjust {x y : Proc H M} (hquiet : y.peer.quiet = true) :
    (x.adjust y).peer = { x.peer with endpoint := y.endpoint, callerQ := y.callerQ } := by
  have hoff : isset y.miscFlags MF_ASYNMSG = false := by
    rw [Proc.peer, Bool.and_eq_true, Bool.not_eq_true'] at hquiet
    exact hquiet.1
  have hasyn : y.miscFlags &&& MF_ASYNMSG = 0#16 :=
    and_eq_zero_of_twoPow (i := 4) (by decide) hoff
  rw [Proc.adjust, hasyn, BitVec.or_zero]
  rfl

theorem swapSlots_peers (hquiet : ∀ i, (s.peers i).quiet = true) :
    (swapSlots s src dst).peers = s.peers.swap src dst := by
  have hproc : (swapSlots s src dst).proc = Function.update (Function.update
      (swapValues s.proc src dst) src ((swapValues s.proc src dst src).adjust (s.proc src)))
      dst ((Function.update (swapValues s.proc src dst) src
        ((swapValues s.proc src dst src).adjust (s.proc src)) dst).adjust (s.proc dst)) := rfl
  funext i
  rw [KState.peers, hproc, Peers.swap]
  by_cases hdst : i = dst
  · subst hdst
    rw [Function.update_self, Function.update_self, peer_adjust (hquiet i)]
    by_cases hsrc : i = src
    · subst hsrc
      rw [Function.update_self, peer_adjust (hquiet i), swapValues, Function.update_self]
      rfl
    · rw [Function.update_of_ne hsrc, swapValues, Function.update_self]
      rfl
  · rw [Function.update_of_ne hdst, Function.update_of_ne hdst]
    by_cases hsrc : i = src
    · subst hsrc
      rw [Function.update_self, Function.update_self, peer_adjust (hquiet i), swapValues,
        Function.update_of_ne hdst, Function.update_self]
      rfl
    · rw [Function.update_of_ne hsrc, Function.update_of_ne hsrc, swapValues,
        Function.update_of_ne hdst, Function.update_of_ne hsrc]
      rfl

structure UpdateCall.Passes (s : KState H M) (m : UpdateCall) (src dst : Slot H) : Prop where
  srcE : isokendpt s m.srcE = some src
  dstE : isokendpt s m.dstE = some dst
  privileged : (s.privOf src).has SYS_PROC = true ∧ (s.privOf dst).has SYS_PROC = true
  updatable : (s.proc src).isUpdatable = true ∧ (s.proc dst).isUpdatable = true

theorem doUpdate_peers (hquiet : ∀ i, (s.peers i).quiet = true) (m : UpdateCall) :
    (doUpdate s m).2.peers = s.peers ∨ ∃ src dst, m.Passes s src dst ∧
      (doUpdate s m).2.peers = s.peers.swap src dst := by
  rw [doUpdate]
  split
  · exact .inl rfl
  · rename_i src hsrc
    split
    · exact .inl rfl
    · rename_i hpriv
      split
      · exact .inl rfl
      · rename_i dst hdst
        split_ifs with hpriv' hbusy
        · exact .inl rfl
        · exact .inl rfl
        · refine .inr ⟨src, dst, ⟨hsrc, hdst, ?_, ?_⟩, ?_⟩
          · simpa using And.intro hpriv hpriv'
          · simpa using hbusy
          · have hsame : (inheritMask s src dst).peers = s.peers := by
              funext i
              exact congrArg Proc.peer (congrFun (inheritMask_same src dst).1 i)
            rw [swapSlots_peers (by rw [hsame]; exact hquiet), hsame]

end Update

end Kernel
