import Cs111.Kernel.DeadlockFree
import Cs111.Kernel.SchedCalls
import Cs111.Kernel.Ledger

-- The message that tells a scheduler that a quantum is used up.
namespace Kernel
open Minix FlagWord Chain TransitionSystem
variable {H : Headers} {M : Type} {s s' t : KState H M} {p q d rc : Slot H} {e : ℤ} {r : Errno}

-- The run queues stay in order while processes exchange messages.
section QueuesInOrder

theorem RunQueues.updPriv (h : RunQueues s) (id : PrivId H) (g : Priv → Priv) :
    RunQueues (s.updPriv id g) := h.congr ⟨rfl, rfl, rfl⟩ fun _ => ⟨rfl, rfl⟩

theorem RunQueues.switchTo (h : RunQueues s) : RunQueues (s.switchTo p) :=
  h.congr ⟨rfl, rfl, rfl⟩ fun _ => ⟨rfl, rfl⟩

theorem miniNotify_runQueues (h : RunQueues s) (hs : miniNotify s p e = .ok (r, s')) :
    RunQueues s' := by
  rw [miniNotify] at hs
  split at hs
  · cases hs
    exact h
  · split at hs
    · obtain ⟨-, hs⟩ := kassert_bind_ok.mp hs
      obtain ⟨t, ht, hs⟩ := bind_ok.mp hs
      cases hs
      exact rtsUnset_runQueues (acceptNotify_queues h ..) ht
    · cases hs
      exact h.updPriv ..

theorem sendSig_runQueues {sigNr : ℕ} (h : RunQueues s) (hs : sendSig s e sigNr = .ok s') :
    RunQueues s' := by
  rw [sendSig] at hs
  obtain ⟨rp, -, hs⟩ := bind_ok.mp hs
  obtain ⟨⟨r, t⟩, ht, hs⟩ := bind_ok.mp hs
  cases hs
  exact miniNotify_runQueues (h.updPriv ..) ht

theorem Caused.runQueues (h : RunQueues s) (hs : Caused p s s') : RunQueues s' := by
  induction hs with
  | known => exact h
  | passed hunset _ ih => exact ih (rtsUnset_runQueues (h.updPriv ..) hunset)
  | own hsent => exact sendSig_runQueues (h.updPriv ..) hsent
  | noted => exact h.upd fun _ => ⟨rfl, rfl⟩
  | raised hset hsent =>
    refine sendSig_runQueues (rtsSet_runQueues ?_ hset) hsent
    exact h.upd fun _ => ⟨rfl, rfl⟩

theorem setAsynsize_runQueues (h : RunQueues s) (size : ℕ) :
    RunQueues (setAsynsize s p size) := h.updPriv ..

theorem accept_runQueues (h : RunQueues s) (m : Message M) (source : ℤ) :
    RunQueues (s.upd q (·.accept m source)) := h.upd fun _ => ⟨rfl, rfl⟩

theorem marked_done_runQueues (h : RunQueues s) (tables : Slot H → List (Asynmsg M)) :
    RunQueues { s with asyntab := tables } := h.congr ⟨rfl, rfl, rfl⟩ fun _ => ⟨rfl, rfl⟩

theorem tryOneLoop_runQueues (h : RunQueues s) (left i : ℕ) (done postponed : Bool) :
    RunQueues (tryOneLoop s p q left i done postponed).s := by
  induction left generalizing i done postponed with
  | zero =>
    rw [tryOneLoop]
    dsimp only
    split
    · exact setAsynsize_runQueues h 0
    · exact h
  | succ left ih =>
    rw [tryOneLoop]
    split
    · exact h
    · dsimp only
      split_ifs
      · exact ih ..
      · exact setAsynsize_runQueues h 0
      · exact ih ..
      · exact ih ..
      · exact ih ..
      · exact marked_done_runQueues (accept_runQueues h _ _) _

theorem tryOne_runQueues (h : RunQueues s) : RunQueues (tryOne s p q).s := by
  rw [tryOne]
  split_ifs
  · exact h
  · exact h
  · exact h
  · exact tryOneLoop_runQueues h ..

theorem tryAsyncLoop_runQueues {ids : List (PrivId H)} {postponed found : Bool}
    (h : RunQueues s) (hs : tryAsyncLoop p ids postponed s = .ok (found, s')) : RunQueues s' := by
  induction ids generalizing s postponed with
  | nil =>
    cases hs
    split
    · exact h
    · exact h.upd fun _ => ⟨rfl, rfl⟩
  | cons id ids ih =>
    rw [tryAsyncLoop] at hs
    split at hs
    · exact ih h hs
    · obtain ⟨src, -, hs⟩ := bind_ok.mp hs
      obtain ⟨-, hs⟩ := kassert_bind_ok.mp hs
      dsimp only at hs
      split at hs
      · cases hs
        exact tryOne_runQueues h
      · exact ih (tryOne_runQueues h) hs

theorem ipcStatus_runQueues (h : RunQueues s) (item : StatusItem) :
    RunQueues (s.upd p (·.ipcStatusAdd item)) := h.upd fun x => ipcStatusAdd_queues x item

theorem receiveAsync_runQueues {src : Option (Slot H)} {found : Bool} (h : RunQueues s)
    (hs : receiveAsync s p src = .ok (found, s')) : RunQueues s' := by
  rw [receiveAsync] at hs
  split at hs
  · have hadded : ∀ {t : KState H M} {found : Bool}, RunQueues t → RunQueues
        (if found = true then t.upd p fun x => x.ipcStatusAdd (.call .SENDA) else t) := by
      intro t found ht
      split
      · exact ipcStatus_runQueues ht _
      · exact ht
    cases src with
    | some src =>
      cases hs
      exact hadded (tryOne_runQueues h)
    | none =>
      obtain ⟨⟨found', t⟩, ht, hs⟩ := bind_ok.mp hs
      cases hs
      exact hadded (tryAsyncLoop_runQueues h ht)
  · cases hs
    exact h

theorem passKernelFlag_runQueues (h : RunQueues s) : RunQueues (passKernelFlag s p q) := by
  rw [passKernelFlag]
  split
  · exact (ipcStatus_runQueues h _).upd fun _ => ⟨rfl, rfl⟩
  · exact h

theorem sendDelayed_runQueues (h : RunQueues s) (hs : sendDelayed s p = .ok s') :
    RunQueues s' := by
  rw [sendDelayed] at hs
  split at hs
  · refine Caused.runQueues ?_ (causeSig_caused hs)
    exact h.upd fun _ => ⟨rfl, rfl⟩
  · cases hs
    exact h

theorem receiveQueued_runQueues {src : Option (Slot H)} (h : RunQueues s)
    (hs : receiveQueued s p src = .ok (some s')) : RunQueues s' := by
  rw [receiveQueued] at hs
  split at hs
  · cases hs
  · split at hs
    · cases hs
    · obtain ⟨-, hs⟩ := kassert_bind_ok.mp hs
      obtain ⟨-, hs⟩ := kassert_bind_ok.mp hs
      obtain ⟨-, hs⟩ := kassert_bind_ok.mp hs
      obtain ⟨t, ht, hs⟩ := bind_ok.mp hs
      obtain ⟨u, hu, hs⟩ := bind_ok.mp hs
      obtain rfl := Option.some.inj (pure_ok.mp hs)
      have hreleased := rtsUnset_runQueues (accept_runQueues h _ _) ht
      have hsent := sendDelayed_runQueues
        (passKernelFlag_runQueues (ipcStatus_runQueues hreleased _)) hu
      exact (hsent.setCallers ..).upd fun _ => ⟨rfl, rfl⟩

theorem receiveAvailable_runQueues {src : Option (Slot H)} {found : Bool} (h : RunQueues s)
    (hs : receiveAvailable s p src = .ok (found, s')) : RunQueues s' := by
  rw [receiveAvailable] at hs
  split at hs
  · cases hs
    exact h
  · obtain ⟨noted, hnoted, hs⟩ := bind_ok.mp hs
    cases noted with
    | some t =>
      cases hs
      rw [receiveNotify] at hnoted
      split at hnoted
      · cases hnoted
      · obtain ⟨pending, -, hnoted⟩ := bind_ok.mp hnoted
        cases pending with
        | none => cases hnoted
        | some x =>
          cases hnoted
          exact acceptNotify_queues (h.updPriv ..) ..
    | none =>
      dsimp only at hs
      obtain ⟨⟨found', t⟩, hasync, hs⟩ := bind_ok.mp hs
      have hqueues := receiveAsync_runQueues h hasync
      dsimp only at hs
      split at hs
      · cases hs
        exact hqueues
      · obtain ⟨queued, hqueued, hs⟩ := bind_ok.mp hs
        cases queued with
        | some u =>
          cases hs
          exact receiveQueued_runQueues hqueues hqueued
        | none =>
          cases hs
          exact hqueues

theorem miniReceive_runQueues {mBuffUsr : ℕ} {nonBlocking : Bool} (h : RunQueues s)
    (hs : miniReceive s p e mBuffUsr nonBlocking = .ok (r, s')) : RunQueues s' := by
  rw [miniReceive] at hs
  obtain ⟨-, hs⟩ := kassert_bind_ok.mp hs
  obtain ⟨src, -, hs⟩ := bind_ok.mp hs
  have hbuffer : RunQueues (s.upd p fun x => { x with delivermsgVir := mBuffUsr }) :=
    h.upd fun _ => ⟨rfl, rfl⟩
  split at hs
  · cases hs
    exact hbuffer
  · obtain ⟨⟨found, t⟩, ht, hs⟩ := bind_ok.mp hs
    have hqueues := receiveAvailable_runQueues hbuffer ht
    dsimp only at hs
    split at hs
    · cases hs
      exact hqueues.upd fun _ => ⟨rfl, rfl⟩
    · split at hs
      · cases hs
        exact hqueues
      · obtain ⟨group, -, hs⟩ := bind_ok.mp hs
        split at hs
        · cases hs
          exact hqueues
        · obtain ⟨u, hu, hs⟩ := bind_ok.mp hs
          cases hs
          refine rtsSet_runQueues ?_ hu
          exact hqueues.upd fun _ => ⟨rfl, rfl⟩

theorem doSyncIpc_runQueues {c : IpcCall M} (h : RunQueues s)
    (hs : doSyncIpc s p c = .ok (r, s')) : RunQueues s' := by
  rw [doSyncIpc] at hs
  obtain ⟨-, hs⟩ := kassert_bind_ok.mp hs
  split at hs
  · cases hs
    exact h
  · split at hs
    · obtain ⟨⟨result, t⟩, ht, hs⟩ := bind_ok.mp hs
      have hsent : RunQueues t := by
        refine miniSend_runQueues ?_ ht
        exact h.upd fun _ => ⟨rfl, rfl⟩
      dsimp only at hs
      split at hs
      · cases hs
        exact hsent
      · exact miniReceive_runQueues hsent hs
    · exact miniSend_runQueues h hs
    · refine miniReceive_runQueues ?_ hs
      exact h.upd fun _ => ⟨rfl, rfl⟩
    · exact miniNotify_runQueues h hs
    · exact miniSend_runQueues h hs
    · cases hs
      exact h

theorem RunQueues.setStopped {f : Flags} (h : RunQueues s)
    (hoff : (s.proc rc).isRunnable = false) (hf : rtsFIsRunnable f = false) :
    RunQueues (s.setRts rc f) := by
  obtain ⟨L, hL⟩ := h.queues
  have hon : ∀ p, ((s.setRts rc f).proc p).isRunnable = true ↔ (s.proc p).isRunnable = true := by
    intro p
    by_cases hp : p = rc
    · subst hp
      simp only [setRts_isRunnable, hf, hoff]
    · rw [setRts_proc_of_ne hp]
  refine ⟨fun p hrun => ?_, L, hL.setRts hon⟩
  rw [setRts_priority]
  exact h.priority_lt p ((hon p).mp hrun)

theorem stopped_of_isset {f g : Flags} (h : isset f g = true) (hg : g ≠ 0) :
    rtsFIsRunnable f = false := by
  rw [rtsFIsRunnable, beq_eq_false_iff_ne]
  rintro rfl
  rw [isset_iff, BitVec.zero_and] at h
  exact hg h.symm

theorem RunQueues.clearEnded {f : Flags} (h : RunQueues s)
    (hended : (s.proc rc).rtsIsset RTS_NO_ENDPOINT = true) (hf : f &&& RTS_NO_ENDPOINT = 0) :
    RunQueues (s.setRts rc ((s.proc rc).rtsFlags &&& ~~~f)) ∧
      ((s.setRts rc ((s.proc rc).rtsFlags &&& ~~~f)).proc rc).rtsIsset RTS_NO_ENDPOINT = true := by
  have hkept : isset ((s.proc rc).rtsFlags &&& ~~~f) RTS_NO_ENDPOINT = true :=
    (isset_clear hf).trans hended
  refine ⟨h.setStopped (stopped_of_isset hended (by decide)) (stopped_of_isset hkept (by decide)),
    ?_⟩
  rw [KState.setRts, upd_proc_self]
  exact hkept

theorem setCallers_flags (target : Slot H) (xpp : Cell (Slot H)) (v : Option (Slot H)) :
    ((s.setCallers target xpp v).proc rc).rtsFlags = (s.proc rc).rtsFlags := by
  cases xpp with
  | head =>
    rw [KState.setCallers, proc_upd_apply]
    split
    · rename_i hrc
      rw [hrc]
    · rfl
  | link i =>
    rw [KState.setCallers, proc_upd_apply]
    split
    · rename_i hrc
      rw [hrc]
    · rfl

theorem unlinkSender_runQueues (h : RunQueues s)
    (hended : (s.proc rc).rtsIsset RTS_NO_ENDPOINT = true) (hs : unlinkSender s rc = .ok s') :
    RunQueues s' ∧ (s'.proc rc).rtsIsset RTS_NO_ENDPOINT = true := by
  rw [unlinkSender] at hs
  split at hs
  · obtain ⟨target, -, hs⟩ := bind_ok.mp hs
    split at hs
    · cases hs
    · obtain rfl := pure_ok.mp hs
      split
      · exact h.clearEnded hended (by decide)
      · refine RunQueues.clearEnded (h.setCallers ..) ?_ (by decide)
        rw [Proc.rtsIsset, setCallers_flags]
        exact hended
  · cases hs
    exact ⟨h, hended⟩

theorem clearRef_runQueues {callerRet : Errno} (h : RunQueues s)
    (hs : clearRef rc callerRet s p = .ok s') : RunQueues s' := by
  rw [clearRef] at hs
  split at hs
  · cases hs
    exact h
  · dsimp only at hs
    split at hs
    · refine rtsUnset_runQueues ?_ hs
      exact (h.updPriv ..).upd fun _ => ⟨rfl, rfl⟩
    · cases hs
      exact h.updPriv ..

theorem clear_refs_runQueues {callerRet : Errno} {l : List (Slot H)} (h : RunQueues s)
    (hs : l.foldlM (clearRef rc callerRet) s = .ok s') : RunQueues s' := by
  induction l generalizing s with
  | nil =>
    cases hs
    exact h
  | cons i l ih =>
    rw [List.foldlM_cons] at hs
    obtain ⟨t, ht, hs⟩ := bind_ok.mp hs
    exact ih (clearRef_runQueues h ht) hs

theorem clearEndpoint_runQueues (h : RunQueues s) (hs : clearEndpoint s rc = .ok s') :
    RunQueues s' := by
  rw [clearEndpoint] at hs
  split at hs
  · cases hs
  · obtain ⟨t, ht, hs⟩ := bind_ok.mp hs
    obtain ⟨u, hu, hs⟩ := bind_ok.mp hs
    have hended : (t.proc rc).rtsIsset RTS_NO_ENDPOINT = true := by
      rw [Proc.rtsIsset, (Rescheduled.rtsSet ht).1, setRts_rtsFlags]
      exact isset_or_self
    have hcleared : RunQueues (clearAsynsize t rc) ∧
        ((clearAsynsize t rc).proc rc).rtsIsset RTS_NO_ENDPOINT = true := by
      rw [clearAsynsize]
      split
      · exact ⟨(rtsSet_runQueues h ht).updPriv .., hended⟩
      · exact ⟨rtsSet_runQueues h ht, hended⟩
    rw [clearIpc] at hu
    obtain ⟨v, hv, hu⟩ := bind_ok.mp hu
    obtain rfl := pure_ok.mp hu
    obtain ⟨hqueues, hkept⟩ := unlinkSender_runQueues hcleared.1 hcleared.2 hv
    exact clear_refs_runQueues (hqueues.clearEnded hkept (by decide)).1 hs

end QueuesInOrder

def blockedBy (s : KState H M) (i j : Slot H) : Prop :=
  isokendpt s (s.proc i).blockedOn = some j

def AcceptsMessage (s : KState H M) (p d : Slot H) : Prop :=
  (s.proc d).willReceive (s.proc p).endpoint = true ∧
    (s.proc d).miscIsset MF_DELIVERMSG = false ∧
    (rtsFIsRunnable ((s.proc d).rtsFlags &&& ~~~RTS_RECEIVING) = true →
      (s.proc d).priority < nrSchedQueues)

def JoinsCallers (s : KState H M) (p d : Slot H) : Prop :=
  (s.proc d).willReceive (s.proc p).endpoint = false ∧
    ¬ Relation.TransGen (blockedBy s) d p ∧ (s.proc p).qLink = none

section Send
open Peers
variable {function : CallNr} {fuel groupSize n : ℕ} {m : Message M} {flags : SendFlags}

theorem idle_used (h : (s.peers p).Idle) : (s.peers p).state ≠ .free := by
  rw [h.state]
  decide

theorem blockedBy_edge {i j : Slot H} : blockedBy s i j ↔ s.peers.edge i = some j := by
  rw [blockedBy, edge, ← isokendpt_named, KState.peers, blockedOn_peer]

theorem walk_edges : Relation.TransGen (blockedBy s) d p ↔
    Relation.TransGen (fun i j => s.peers.edge i = some j) d p := by
  have hsame : blockedBy s = fun i j => s.peers.edge i = some j :=
    funext fun i => funext fun j => propext blockedBy_edge
  rw [hsame]

theorem deadlockLoop_walk (hp : s.peers.named (s.proc p).endpoint = some p)
    (hd : s.peers.named e = some d)
    (h : deadlockLoop s function p fuel groupSize e = .ok n) (hn : n ≠ 0) :
    Relation.TransGen (fun i j => s.peers.edge i = some j) d p := by
  induction fuel generalizing groupSize e d with
  | zero => cases h
  | succ fuel ih =>
    have he : e ≠ H.any := by
      rintro rfl
      rw [named_any] at hd
      cases hd
    rcases deadlockLoop_succ he hd h with ⟨-, hzero⟩ | ⟨-, hback, -⟩ | ⟨-, -, hrest⟩
    · exact absurd hzero hn
    · refine .single ?_
      rw [edge, hback, hp]
    · by_cases hany : (s.peers d).blockedOn = H.any
      · cases fuel with
        | zero => cases hrest
        | succ fuel =>
          rw [hany, deadlockLoop, if_pos rfl] at hrest
          exact absurd (Except.ok.inj hrest).symm hn
      · obtain ⟨j, hj⟩ : ∃ j, s.peers.named (s.peers d).blockedOn = some j := by
          cases fuel with
          | zero => cases hrest
          | succ fuel =>
            rw [deadlockLoop, if_neg hany] at hrest
            obtain ⟨j, hj, -⟩ := bind_ok.mp hrest
            exact ⟨j, by rw [← isokendpt_named, ← okendpt_ok, hj]⟩
        exact .head hj (ih hj hrest)

theorem rtsUnset_waiting (h : RunQueues s)
    (hprio : rtsFIsRunnable ((s.proc d).rtsFlags &&& ~~~RTS_RECEIVING) = true →
      (s.proc d).priority < nrSchedQueues) : ∃ t, rtsUnset s d RTS_RECEIVING = .ok t := by
  by_cases hstarts : rtsFIsRunnable ((s.proc d).rtsFlags &&& ~~~RTS_RECEIVING) = true
  · exact rtsUnset_spec h (hprio hstarts)
  · refine ⟨s.setRts d ((s.proc d).rtsFlags &&& ~~~RTS_RECEIVING), ?_⟩
    rw [rtsUnset, if_neg]
    rw [setRts_isRunnable, Bool.and_eq_true]
    exact fun hboth => hstarts hboth.2

theorem miniSend_accepted (h : RunQueues s) (hd : s.peers.named e = some d)
    (halive : s.peers.Alive d) (hready : AcceptsMessage s p d) :
    ∃ t, miniSend s p e (some m) flags = .ok (.OK, t) := by
  obtain ⟨hwill, hbox, hprio⟩ := hready
  have hqueues : RunQueues (s.upd d (·.receiveSent flags (sendCall s p flags) m
      (s.proc p).endpoint)) := h.upd fun x => receiveSent_queues x ..
  obtain ⟨t, ht⟩ := rtsUnset_waiting (d := d) hqueues (by
    rw [upd_proc_self, (receiveSent_queues ..).1, (receiveSent_queues ..).2]
    exact hprio)
  refine ⟨t, ?_⟩
  rw [miniSend, procAddr_named hd]
  change (if (s.proc d).rtsIsset RTS_NO_ENDPOINT = true then _ else _) = _
  rw [endpointOf_alive halive]
  change (if (s.proc d).willReceive (s.proc p).endpoint = true then _ else _) = _
  rw [hwill]
  change (kassert (!(s.proc d).miscIsset MF_DELIVERMSG) >>= _) = _
  rw [hbox]
  change (rtsUnset _ d RTS_RECEIVING >>= _) = _
  rw [ht]
  rfl

theorem miniSend_joined (h : RunQueues s) (hsound : s.peers.Sound) (hwaiting : s.peers.Waiting)
    (hidle : (s.peers p).Idle) (hsane : Sane s) (hd : s.peers.named e = some d)
    (halive : s.peers.Alive d) (hblocking : flags.nonBlocking = false)
    (hready : JoinsCallers s p d) : ∃ t, miniSend s p e (some m) flags = .ok (.OK, t) := by
  obtain ⟨hbusy, hwalk, hlink⟩ := hready
  have hused := idle_used hidle
  obtain ⟨n, hn⟩ := deadlock_returns .SEND p hsound hwaiting (fun _ => blockedOn_idle hidle)
    (.inr ⟨d, hd⟩)
  obtain rfl : n = 0 := by
    by_contra hpos
    exact hwalk (walk_edges.mpr (deadlockLoop_walk (hsound.named hused) hd hn hpos))
  have hqueues : RunQueues (s.upd p (·.holdMessage flags m)) :=
    h.upd fun x => holdMessage_queues x ..
  obtain ⟨t, ht, -⟩ := rtsSet_spec hqueues p RTS_SENDING
  have hheld := (block_peers (e := e) hsane hused ht).2
  obtain ⟨L, hL⟩ := hwaiting.queued
  obtain ⟨pre, -, -, -, -, hseek⟩ :=
    (hL.holds d halive).seek (fun _ => false) (hL.length_lt halive)
  have hcallers : (t.upd p fun x => { x with sendtoE := e }).callers d = s.peers.callers d := by
    rw [callers_peers, hheld]
    exact congrFun (callers_congr hold_queues) d
  have hunlinked : ((t.upd p fun x => { x with sendtoE := e }).proc p).qLink = none := by
    have hview := congrArg Peer.qLink (congrFun hheld p)
    exact (hview.trans (hold_queues p).2).trans hlink
  refine ⟨(t.upd p fun x => { x with sendtoE := e }).setCallers d (cellFrom .head pre) (some p), ?_⟩
  rw [miniSend, procAddr_named hd]
  change (if (s.proc d).rtsIsset RTS_NO_ENDPOINT = true then _ else _) = _
  rw [endpointOf_alive halive]
  change (if (s.proc d).willReceive (s.proc p).endpoint = true then _ else _) = _
  rw [hbusy]
  change (if flags.nonBlocking = true then _ else _) = _
  rw [hblocking]
  change (deadlock s .SEND p e >>= _) = _
  rw [hn]
  change (rtsSet _ p RTS_SENDING >>= _) = _
  rw [ht]
  change (kassert ((t.upd p fun x => { x with sendtoE := e }).proc p).qLink.isNone >>= _) = _
  rw [hunlinked, hcallers, hseek]
  rfl

theorem miniSend_ready (hd : s.peers.named e = some d)
    (h : miniSend s p e (some m) flags = .ok (.OK, t)) :
    AcceptsMessage s p d ∨ JoinsCallers s p d := by
  have haddr := procAddr_named hd
  cases miniSend_outcome h with
  | refused hr => exact absurd rfl hr
  | delivered hdst _ hwill hbox _ hunset =>
    obtain rfl := Except.ok.inj (hdst.symm.trans haddr)
    refine .inl ⟨hwill, hbox, fun hstarts => ?_⟩
    rw [rtsUnset] at hunset
    rw [if_pos] at hunset
    · have hprio := enqueue_inQueues hunset
      rwa [setRts_priority, upd_proc_self, (receiveSent_queues ..).1] at hprio
    · rw [setRts_isRunnable, upd_proc_self, (receiveSent_queues ..).2, hstarts, Bool.and_true,
        Bool.not_eq_true', ← Bool.not_eq_true]
      intro hrun
      rw [Proc.willReceive, Bool.and_eq_true, Bool.and_eq_true] at hwill
      have hstopped := stopped_of_isset hwill.1.1 (by decide)
      rw [hrun] at hstopped
      cases hstopped
  | blocked hdst _ hbusy _ hgroup _ hset hlink _ =>
    obtain rfl := Except.ok.inj (hdst.symm.trans haddr)
    refine .inr ⟨hbusy, fun hwalk => ?_, ?_⟩
    · rw [walk_edges] at hwalk
      rcases deadlockLoop_zero (.inl rfl) le_rfl hgroup with
        hends | ⟨⟨xp, hxp, hnone, hback, hsends⟩, -⟩
      · exact hends.no_walk rfl hd hwalk
      · obtain rfl := Option.some.inj (hxp.symm.trans hd)
        have hready := willReceive_of_receiving (by simpa using hsends) hnone
        rw [hback, KState.peers, willReceive_peer] at hready
        exact absurd (hready.symm.trans hbusy) (by decide)
    · have hproc := (Rescheduled.rtsSet hset).1
      rw [hproc, KState.setRts, upd_proc_self, upd_proc_self] at hlink
      rw [Proc.holdMessage] at hlink
      split at hlink
      · exact hlink
      · exact hlink

end Send

inductive QuantumEvent (H : Headers) (M : Type) where
  | ipc (e : IpcEvent H M)
  | noTime
  | sched (req : SchedRequest) (result : Errno)

def QuantumEvent.Happens (flagKernel : BitVec 32) (s : KState H M) (p : Slot H)
    (s' : KState H M) : QuantumEvent H M → Prop
  | .ipc e => e.Happens s p s'
  | .noTime => (s.proc p).isRunnable = true ∧ procNoTime (s.switchTo p) p = .ok s'
  | .sched req r => (s.proc p).isRunnable = true ∧
      req.perform flagKernel (s.switchTo p) p = .ok (r, s')

def quantumSystem (flagKernel : BitVec 32) (H : Headers) (M : Type) :
    TransitionSystem (KState H M) (Slot H × QuantumEvent H M) where
  initial s := Booted s ∧ emptyQueues s
  step s e s' := e.2.Happens flagKernel s e.1 s'

def SyncOnly (s : KState H M) (p : Slot H) : QuantumEvent H M → Prop
  | .ipc e => ipcOnly e ∧ AvoidsItself s p e
  | .noTime => ∀ d, (s.proc p).scheduler = some d → live s d
  | .sched _ _ => True

structure SoundQueues (s : KState H M) : Prop where
  sound : s.peers.Sound
  waiting : s.peers.Waiting
  queues : RunQueues s

section Steps
open Peers
variable {flagKernel : BitVec 32}

theorem live_named (h : s.peers.Sound) (hlive : live s d) :
    s.peers.named (s.proc d).endpoint = some d ∧ s.peers.Alive d := by
  have hused : (s.peers d).state ≠ .free := by
    intro hfree
    have hempty := (isEmpty_iff _).mpr hfree
    rw [hlive.1] at hempty
    cases hempty
  have hnamed : s.peers.named (s.proc d).endpoint = some d := h.named hused
  have hsane : Sane (s.switchTo d) := sane_switchTo h.unbroken hused
  exact ⟨hnamed, alive_of_named (s := s.switchTo d) hsane hnamed hlive.2⟩

theorem running_sane (h : s.peers.Sound) (hrun : (s.proc p).isRunnable = true) :
    Sane (s.switchTo p) := sane_switchTo h.unbroken (idle_used (idle_of_runnable hrun))

theorem stop_peers (hsane : Sane s) (hused : (s.peers p).state ≠ .free)
    (hs : rtsSet s p RTS_NO_QUANTUM = .ok t) : Sane t ∧ t.peers = s.peers := by
  obtain ⟨hptr, hpeers⟩ := rtsSet_same (by decide) (hsane.unbroken p) hused hs
  exact ⟨hsane.of_kept hptr (by rw [hpeers]; exact .refl), hpeers⟩

theorem schedProc_peers {priority quantum : ℕ} (hsane : Sane s)
    (hused : (s.peers q).state ≠ .free) (hs : schedProc s q priority quantum = .ok (r, s')) :
    s'.peers = s.peers := by
  rw [schedProc] at hs
  split at hs
  · cases hs
    rfl
  · split at hs
    · cases hs
      rfl
    · obtain ⟨t, ht, hs⟩ := bind_ok.mp hs
      obtain ⟨u, hu, hs⟩ := bind_ok.mp hs
      cases hs
      have hstopped : Sane t ∧ t.peers = s.peers := by
        rw [stopRunnable] at ht
        split at ht
        · exact stop_peers hsane hused ht
        · cases ht
          exact ⟨hsane, rfl⟩
      generalize hv : (t.upd q fun x => { x with
        priority := priority, quantumSizeMs := quantum,
        cpuTimeLeft := H.ms2CpuTime quantum }) = v at hu
      have hpeers : v.peers = t.peers := by
        rw [← hv]
        exact peers_upd_same rfl
      have hptr : v.procPtr = t.procPtr := by rw [← hv]; rfl
      have hvsane : Sane v := hstopped.1.of_kept hptr (by rw [hpeers]; exact .refl)
      exact ((rtsUnset_same (by decide) hvsane hu).2.2.trans hpeers).trans hstopped.2

theorem schedRequest_peers {req : SchedRequest} (hsane : Sane s)
    (hs : req.perform flagKernel s p = .ok (r, s')) : s'.peers = s.peers := by
  have hused {e : ℤ} {q : Slot H} (hq : isokendpt s e = some q) :
      (s.peers q).state ≠ .free := by
    rw [isokendpt_named] at hq
    exact (named_some hq).2.1
  cases req with
  | schedule m =>
    rw [SchedRequest.perform, doSchedule] at hs
    split at hs
    · cases hs
      rfl
    · rename_i q hq
      split at hs
      · cases hs
        rfl
      · exact schedProc_peers hsane (hused hq) hs
  | schedctl m =>
    rw [SchedRequest.perform, doSchedctl] at hs
    split at hs
    · cases hs
      rfl
    · split at hs
      · cases hs
        rfl
      · rename_i q hq
        split at hs
        · obtain ⟨⟨r', t⟩, ht, hs⟩ := bind_ok.mp hs
          have hpeers := schedProc_peers hsane (hused hq) ht
          dsimp only at hs
          split at hs
          · cases hs
            exact hpeers
          · cases hs
            exact (peers_upd_same rfl).trans hpeers
        · cases hs
          exact peers_upd_same rfl

theorem schedRequest_runQueues {req : SchedRequest} (h : RunQueues s)
    (hs : req.perform flagKernel s p = .ok (r, s')) : RunQueues s' := by
  cases req with
  | schedule m =>
    rw [SchedRequest.perform, doSchedule] at hs
    split at hs
    · cases hs
      exact h
    · split at hs
      · cases hs
        exact h
      · exact schedProc_runQueues h hs
  | schedctl m =>
    rw [SchedRequest.perform, doSchedctl] at hs
    split at hs
    · cases hs
      exact h
    · split at hs
      · cases hs
        exact h
      · split at hs
        · obtain ⟨⟨r', t⟩, ht, hs⟩ := bind_ok.mp hs
          have hqueues := schedProc_runQueues h ht
          dsimp only at hs
          split at hs
          · cases hs
            exact hqueues
          · cases hs
            exact hqueues.upd fun _ => ⟨rfl, rfl⟩
        · cases hs
          exact h.upd fun _ => ⟨rfl, rfl⟩

theorem ipc_runQueues {e : IpcEvent H M} (h : RunQueues s) (hdomain : ipcOnly e)
    (hs : e.Happens s p s') : RunQueues s' := by
  cases e with
  | call c r => exact doSyncIpc_runQueues h.switchTo hs.2.2
  | deliver m =>
    obtain ⟨-, hs⟩ := hs
    rw [delivermsg] at hs
    obtain ⟨-, hs⟩ := kassert_bind_ok.mp hs
    obtain ⟨-, hs⟩ := kassert_bind_ok.mp hs
    cases hs
    exact h.switchTo.upd fun _ => ⟨rfl, rfl⟩
  | rtsSet q f => exact rtsSet_runQueues h.switchTo hs.2.2.2
  | rtsUnset q f => exact rtsUnset_runQueues h.switchTo hs.2.2
  | clearEndpoint rc => exact clearEndpoint_runQueues h.switchTo hs.2
  | _ => exact hdomain.elim

theorem notifyScheduler_sent (hscheduler : (s.proc p).scheduler = some d) (hother : d ≠ p)
    (h : RunQueues s) : ∃ t, rtsSet s p RTS_NO_QUANTUM = .ok t ∧ RunQueues t ∧
      t.proc = (s.setRts p ((s.proc p).rtsFlags ||| RTS_NO_QUANTUM)).proc ∧
      ∀ u, notifyScheduler s p = .ok u ↔
        miniSend t p (s.proc d).endpoint (some ⟨(s.proc p).endpoint, .schedulingNoQuantum⟩)
          ⟨false, true⟩ = .ok (.OK, u) := by
  obtain ⟨t, ht, hqueues⟩ := rtsSet_spec h p RTS_NO_QUANTUM
  have hproc := (Rescheduled.rtsSet ht).1
  refine ⟨t, ht, hqueues, hproc, fun u => ?_⟩
  have hself : (t.proc p).scheduler = some d ∧ (t.proc p).endpoint = (s.proc p).endpoint := by
    rw [hproc, KState.setRts, upd_proc_self]
    exact ⟨hscheduler, rfl⟩
  have hnext : t.proc d = s.proc d := by rw [hproc, setRts_proc_of_ne hother]
  constructor
  · intro hu
    rw [notifyScheduler] at hu
    obtain ⟨-, hu⟩ := kassert_bind_ok.mp hu
    obtain ⟨t', ht', hu⟩ := bind_ok.mp hu
    obtain rfl := Except.ok.inj (ht'.symm.trans ht)
    split at hu
    · cases hu
    · rename_i scheduler hfound
      obtain rfl := Option.some.inj (hfound.symm.trans hself.1)
      obtain ⟨⟨err, v⟩, hv, hu⟩ := bind_ok.mp hu
      dsimp only at hu
      split at hu
      · cases hu
      · rename_i herr
        rw [not_not] at herr
        cases hu
        rw [herr, hnext, hself.2] at hv
        exact hv
  · intro hu
    have hforeign : (s.proc p).kernelScheduler p = false := by
      simp [Proc.kernelScheduler, hscheduler, hother]
    rw [notifyScheduler]
    refine kassert_bind_ok.mpr ⟨by rw [hforeign]; rfl, bind_ok.mpr ⟨t, ht, ?_⟩⟩
    split
    · rename_i hnone
      rw [hself.1] at hnone
      cases hnone
    · rename_i scheduler hfound
      obtain rfl := Option.some.inj (hfound.symm.trans hself.1)
      rw [hnext, hself.2]
      exact bind_ok.mpr ⟨_, hu, rfl⟩

theorem procNoTime_notifies (hscheduler : (s.proc p).scheduler = some d) (hother : d ≠ p)
    (hpreemptible : (s.privOf p).has PREEMPTIBLE = true) :
    procNoTime s p = notifyScheduler s p := by
  have hforeign : (s.proc p).kernelScheduler p = false := by
    simp [Proc.kernelScheduler, hscheduler, hother]
  rw [procNoTime, hforeign, hpreemptible]
  rfl

theorem noTime_sends (hsound : s.peers.Sound) (hrun : (s.proc p).isRunnable = true)
    (h : RunQueues s) (hlive : ∀ d, (s.proc p).scheduler = some d → live s d)
    (hs : procNoTime (s.switchTo p) p = .ok s') : s'.peers = s.peers ∨
      ∃ d m, d ≠ p ∧ s.peers.named (s.proc d).endpoint = some d ∧
        Peers.Sent s.peers p d (s.proc d).endpoint (some m) false .OK s'.peers := by
  have hsane := running_sane hsound hrun
  have hused := idle_used (idle_of_runnable hrun)
  by_cases hnotifies : (!((s.switchTo p).proc p).kernelScheduler p &&
      ((s.switchTo p).privOf p).has PREEMPTIBLE) = true
  · rw [procNoTime, if_pos hnotifies] at hs
    rw [Bool.and_eq_true, Bool.not_eq_true', Proc.kernelScheduler,
      Bool.or_eq_false_iff] at hnotifies
    obtain ⟨⟨hnull, hself⟩, -⟩ := hnotifies
    rw [Option.isNone_eq_false_iff, Option.isSome_iff_exists] at hnull
    obtain ⟨d, hd⟩ := hnull
    have hscheduler : (s.proc p).scheduler = some d := hd
    have hother : d ≠ p := by
      rintro rfl
      rw [hd, beq_self_eq_true] at hself
      cases hself
    obtain ⟨t, ht, -, hproc, hnotify⟩ := notifyScheduler_sent hd hother h.switchTo
    obtain ⟨htsane, hpeers⟩ := stop_peers hsane hused ht
    have htpeers : t.peers = s.peers := hpeers
    have hsent := miniSend_sent htsane (d := d) (by
      rw [htpeers]
      exact (live_named hsound (hlive d hscheduler)).1) (by
      rw [htpeers]
      exact hused) ((hnotify s').mp hs)
    rw [htpeers] at hsent
    exact .inr ⟨d, _, hother, (live_named hsound (hlive d hscheduler)).1, hsent.2.2⟩
  · rw [procNoTime, if_neg hnotifies] at hs
    cases hs
    exact .inl (peers_upd_same rfl)

theorem quantum_step {e : QuantumEvent H M} (h : SoundQueues s) (hok : SyncOnly s p e)
    (hs : e.Happens flagKernel s p s') : SoundQueues s' := by
  cases e with
  | ipc e =>
    exact ⟨stepped_sound h.sound (happens_stepped h.sound hs),
      happens_waiting h.waiting h.sound hok.1 hok.2 hs, ipc_runQueues h.queues hok.1 hs⟩
  | noTime =>
    obtain ⟨hrun, hs⟩ := hs
    have hqueues := procNoTime_runQueues h.queues.switchTo hs
    have hidle := idle_of_runnable hrun
    rcases noTime_sends h.sound hrun h.queues hok hs with hsame | ⟨d, m, hother, hd, hsent⟩
    · exact ⟨by rw [hsame]; exact h.sound, by rw [hsame]; exact h.waiting, hqueues⟩
    · exact ⟨h.sound.of_kept hsent.kept (h.sound.paired.sent hidle hsent).1,
        h.waiting.sent h.sound hidle hd hsent fun hself => absurd hself hother, hqueues⟩
  | sched req r =>
    obtain ⟨hrun, hs⟩ := hs
    have hpeers : s'.peers = s.peers :=
      schedRequest_peers (s := s.switchTo p) (running_sane h.sound hrun) hs
    exact ⟨by rw [hpeers]; exact h.sound, by rw [hpeers]; exact h.waiting,
      schedRequest_runQueues h.queues.switchTo hs⟩

theorem quantum_run {past : List (KState H M × (Slot H × QuantumEvent H M))}
    (h : Run (quantumSystem flagKernel H M) (fun _ s e => SyncOnly s e.1 e.2) past s) :
    SoundQueues s :=
  h.invariant
    (fun _ hinit => ⟨booted_sound hinit.1, booted_waiting hinit.1, runQueues_initial hinit.2⟩)
    fun _ _ _ _ hprev hok hstep => quantum_step hprev hok hstep

end Steps

section Theorem
variable {flagKernel : BitVec 32}

theorem accepts_congr (hd : t.proc d = s.proc d) (hp : (t.proc p).endpoint = (s.proc p).endpoint) :
    AcceptsMessage t p d ↔ AcceptsMessage s p d := by
  rw [AcceptsMessage, AcceptsMessage, hd, hp]

theorem joins_congr (hd : t.proc d = s.proc d) (hpeers : t.peers = s.peers) :
    JoinsCallers t p d ↔ JoinsCallers s p d := by
  have hend : (t.proc p).endpoint = (s.proc p).endpoint :=
    congrArg Peer.endpoint (congrFun hpeers p)
  have hlink : (t.proc p).qLink = (s.proc p).qLink := congrArg Peer.qLink (congrFun hpeers p)
  rw [JoinsCallers, JoinsCallers, hd, hend, hlink, walk_edges, walk_edges, hpeers]

theorem quantum_message_iff {past : List (KState H M × (Slot H × QuantumEvent H M))}
    (h : Run (quantumSystem flagKernel H M) (fun _ s e => SyncOnly s e.1 e.2) past s)
    (hrun : (s.proc p).isRunnable = true) (hpreemptible : (s.privOf p).has PREEMPTIBLE = true)
    (hscheduler : (s.proc p).scheduler = some d) (hother : d ≠ p) (hlive : live s d) :
    (∃ t, procNoTime (s.switchTo p) p = .ok t) ↔ AcceptsMessage s p d ∨ JoinsCallers s p d := by
  obtain ⟨hsound, hwaiting, hqueues⟩ := quantum_run h
  have hidle := idle_of_runnable hrun
  have hused := idle_used hidle
  obtain ⟨hnamed, halive⟩ := live_named hsound hlive
  obtain ⟨t, ht, htqueues, hproc, hnotify⟩ :=
    notifyScheduler_sent (s := s.switchTo p) hscheduler hother hqueues.switchTo
  obtain ⟨htsane, hpeers⟩ := stop_peers (running_sane hsound hrun) hused ht
  have htpeers : t.peers = s.peers := hpeers
  have hnext : t.proc d = s.proc d := by
    rw [hproc, setRts_proc_of_ne hother]
    rfl
  have hend : (t.proc p).endpoint = (s.proc p).endpoint :=
    congrArg Peer.endpoint (congrFun htpeers p)
  have htnamed : t.peers.named (s.proc d).endpoint = some d := by
    rw [htpeers]
    exact hnamed
  have hpre : ((s.switchTo p).privOf p).has PREEMPTIBLE = true := hpreemptible
  rw [procNoTime_notifies (s := s.switchTo p) hscheduler hother hpre,
    ← accepts_congr hnext hend, ← joins_congr hnext htpeers]
  constructor
  · rintro ⟨u, hu⟩
    exact miniSend_ready htnamed ((hnotify u).mp hu)
  · intro hready
    have htalive : t.peers.Alive d := by
      rw [htpeers]
      exact halive
    rcases hready with haccepts | hjoins
    · obtain ⟨u, hu⟩ := miniSend_accepted htqueues htnamed htalive haccepts
      exact ⟨u, (hnotify u).mpr hu⟩
    · have hblocking : (⟨false, true⟩ : SendFlags).nonBlocking = false := rfl
      obtain ⟨u, hu⟩ := miniSend_joined htqueues (by rw [htpeers]; exact hsound)
        (by rw [htpeers]; exact hwaiting) (by rw [htpeers]; exact hidle) htsane htnamed htalive
        hblocking hjoins
      exact ⟨u, (hnotify u).mpr hu⟩

end Theorem

section Sample

def stoppedPair : KState Headers.sample ℕ :=
  KState.sample fun i => if i = 4 ∨ i = 5 then RTS_NO_QUANTUM else RTS_SLOT_FREE

theorem booted_stoppedPair : Booted stoppedPair where
  slots := by decide
  idle := by decide
  boxes := by decide
  quiet := by decide
  queues := by decide
  endpoints i := ⟨1, by decide, by decide, rfl⟩

theorem empty_stoppedPair : emptyQueues stoppedPair := ⟨fun _ _ => ⟨rfl, rfl⟩, by decide⟩

def takeOver (q : Slot Headers.sample) : SchedRequest :=
  .schedctl ⟨0, Headers.sample.endpoint 1 (procNr q), 0, 0⟩

theorem quantum_message_sent : ∃ past, ∃ s : KState Headers.sample ℕ,
    Run (quantumSystem 1 _ _) (fun _ s e => SyncOnly s e.1 e.2) past s ∧
    (s.proc 4).isRunnable = true ∧ (s.proc 4).scheduler = some 5 ∧
    (AcceptsMessage s 4 5 ∨ JoinsCallers s 4 5) := by
  have hrun : Run (quantumSystem 1 Headers.sample ℕ) (fun _ s e => SyncOnly s e.1 e.2)
      [(_, 5, .sched (takeOver 4) .OK), (_, 4, .ipc (.rtsUnset 5 RTS_NO_QUANTUM)),
        (stoppedPair, 4, .ipc (.rtsUnset 4 RTS_NO_QUANTUM))] _ :=
    .next (.next (.next (.start ⟨booted_stoppedPair, empty_stoppedPair⟩) ⟨trivial, trivial⟩
      ⟨rfl, by decide, rfl⟩) ⟨trivial, trivial⟩ ⟨rfl, by decide, rfl⟩) trivial ⟨rfl, rfl⟩
  exact ⟨_, _, hrun, rfl, rfl,
    (quantum_message_iff hrun rfl rfl rfl (by decide) ⟨rfl, rfl⟩).mp ⟨_, rfl⟩⟩

theorem sending_scheduler_panics : ¬ ∀ (flagKernel : BitVec 32) (H : Headers) (M : Type) past
    (s : KState H M) p d,
    Run (quantumSystem flagKernel H M) (fun _ s e => SyncOnly s e.1 e.2) past s →
    (s.proc p).isRunnable = true → (s.privOf p).has PREEMPTIBLE = true →
    (s.proc p).scheduler = some d → d ≠ p → live s d →
    ∃ t, procNoTime (s.switchTo p) p = .ok t := by
  intro hall
  have hrun : Run (quantumSystem 1 Headers.sample ℕ) (fun _ s e => SyncOnly s e.1 e.2)
      [(_, 5, .ipc (.call (sendTo 4) .OK)), (_, 5, .sched (takeOver 4) .OK),
        (_, 4, .ipc (.rtsUnset 5 RTS_NO_QUANTUM)),
        (stoppedPair, 4, .ipc (.rtsUnset 4 RTS_NO_QUANTUM))] _ :=
    .next (.next (.next (.next (.start ⟨booted_stoppedPair, empty_stoppedPair⟩) ⟨trivial, trivial⟩
      ⟨rfl, by decide, rfl⟩) ⟨trivial, trivial⟩ ⟨rfl, by decide, rfl⟩) trivial ⟨rfl, rfl⟩)
      ⟨trivial, fun hself => absurd hself.2.1 (by decide)⟩ ⟨rfl, rfl, rfl⟩
  obtain ⟨t, ht⟩ := hall 1 Headers.sample ℕ _ _ 4 5 hrun rfl rfl rfl (by decide) ⟨rfl, rfl⟩
  cases ht

end Sample

end Kernel
