import Cs111.Kernel.CallerQueues
import Cs111.Kernel.Marks

namespace Kernel
open Minix FlagWord Chain TransitionSystem
variable {H : Headers} {M : Type}

def sendsTo (s : KState H M) (q d : Slot H) : Prop :=
  (s.proc q).rtsIsset RTS_SENDING = true ∧ (s.proc q).sendtoE = (s.proc d).endpoint

instance (s : KState H M) (q d : Slot H) : Decidable (sendsTo s q d) :=
  inferInstanceAs (Decidable (_ ∧ _))

def exitsLast (s : KState H M) (rc : Slot H) : Prop :=
  (∀ q, q ≠ rc → ¬ sendsTo s q rc) ∧
    ((s.proc rc).rtsIsset RTS_SENDING = true → (s.proc rc).qLink = none)

structure ForkCall.Passes (s : KState H M) (m : ForkCall) (rpp rpc : Slot H) : Prop where
  parent : isokendpt s m.prEndpt = some rpp
  child : procNr rpc = m.prSlot
  empty : (s.proc rpc).isEmpty = true
  receiving : (s.proc rpp).rtsIsset RTS_RECEIVING = true

def KeepsCallers (s : KState H M) : IpcEvent H M → Prop
  | .clearEndpoint rc => exitsLast s rc
  | .clearIpcRefs rc _ => ∀ q, ¬ sendsTo s q rc
  | .doClear e _ => ∀ rc, isokendpt s e = some rc → exitsLast s rc
  | .doFork m _ => ∀ rpp rpc, m.Passes s rpp rpc →
      (s.proc rpp).callerQ = none ∧ (s.proc rpp).rtsIsset RTS_SENDING = false
  | .doUpdate m _ => ∀ src dst, m.Passes s src dst → src = dst ∨
      (s.proc src).rtsIsset RTS_SENDING = false ∧ (s.proc dst).rtsIsset RTS_SENDING = false
  | _ => True

def CallersQueued (s : KState H M) : Prop :=
  ∃ L : Slot H → List (Slot H), (∀ d, (s.callers d).Holds (L d)) ∧
    (∀ d q, (L d).count q = if sendsTo s q d then 1 else 0) ∧
    ∀ q, (∀ d, q ∉ L d) → (s.proc q).qLink = none

section Views
variable {s s' : KState H M} {p rc : Slot H}

theorem sendsTo_peers (q d : Slot H) : sendsTo s q d ↔ s.peers.SendsTo q d := by
  simp only [sendsTo, Peers.SendsTo, KState.peers, Proc.peer]
  cases (s.proc q).rtsIsset RTS_SENDING <;> simp

theorem sending_peers (q : Slot H) :
    (s.peers q).sending = none ↔ (s.proc q).rtsIsset RTS_SENDING = false := by
  simp only [KState.peers, Proc.peer]
  cases (s.proc q).rtsIsset RTS_SENDING <;> simp

theorem leavesQueues (h : exitsLast s rc) : s.peers.LeavesQueues rc := by
  refine ⟨fun q hq hto => h.1 q hq ((sendsTo_peers q rc).mpr hto), fun hsending => h.2 ?_⟩
  rwa [ne_eq, sending_peers, Bool.not_eq_false] at hsending

theorem booted_threaded (h : Booted s) : s.peers.Threaded := by
  have hidle : ∀ i, (s.peers i).sending = none := fun i => (sending_peers i).mpr (h.idle i).1
  refine ⟨⟨fun _ => [], fun d _ => (h.queues d).1, fun d _ q => ?_, fun q e m hsending => ?_⟩,
    fun i _ => (h.queues i).2⟩
  · refine ⟨fun hq => absurd hq List.not_mem_nil, ?_⟩
    rintro ⟨m, hm⟩
    rw [hidle q] at hm
    cases hm
  · rw [hidle q] at hsending
    cases hsending

theorem doUpdate_threaded (h : s.peers.Threaded) (hquiet : ∀ i, (s.peers i).quiet = true)
    {m : UpdateCall} (hkeeps : KeepsCallers s (.doUpdate m .OK)) :
    (doUpdate (s.switchTo p) m).2.peers.Threaded := by
  rcases doUpdate_peers (s := s.switchTo p) hquiet m with hpeers | ⟨src, dst, hpasses, hpeers⟩
  · rw [hpeers]
    exact h
  · rw [hpeers]
    have hsrc := hpasses.srcE
    have hdst := hpasses.dstE
    rw [isokendpt_named] at hsrc hdst
    refine h.swap ⟨(named_some hsrc).2.1, (named_some hdst).2.1⟩ ?_
    refine (hkeeps src dst ⟨hpasses.srcE, hpasses.dstE, hpasses.privileged,
      hpasses.updatable⟩).imp_right fun hidle => ?_
    exact ⟨(sending_peers src).mpr hidle.1, (sending_peers dst).mpr hidle.2⟩

theorem stepped_threaded {e : IpcEvent H M} {V' : Peers H M} (h : s.peers.Threaded)
    (hsound : s.peers.Sound) (hkeeps : KeepsCallers s e) (hupdate : ∀ m r, e ≠ .doUpdate m r)
    (hs : s.peers.Stepped p e V') : V'.Threaded := by
  cases hs with
  | call hidle _ hcalled => exact h.called hsound hidle hcalled
  | deliver hidle _ =>
    refine h.update ?_ rfl rfl ⟨rfl, rfl⟩
    rw [hidle.state]
    nofun
  | rtsSet => exact h
  | rtsUnset => exact h
  | clearEndpoint hcleared => exact (h.cleared hsound (leavesQueues hkeeps) hcleared).1
  | clearIpcRefs => exact h.freeRefs fun q hto => hkeeps q ((sendsTo_peers q _).mpr hto)
  | notCleared => exact h
  | @doClear _ _ rc W hnamed hcleared =>
    have hleaves := leavesQueues (hkeeps rc (by rw [isokendpt_named, hnamed]))
    obtain ⟨hthreaded, hnone⟩ := h.cleared hsound hleaves hcleared
    refine hthreaded.vacate ?_ hnone
    rw [(hcleared.fields rc).2.2.2.1, if_pos (.inl rfl)]
  | doFork hforked =>
    cases hforked with
    | refused => exact h
    | @forked rpp rpc hnamed _ hreceiving hnr hfree hidle =>
      have hparent := hkeeps rpp rpc ⟨by rw [isokendpt_named, hnamed], hnr,
        (isEmpty_iff _).mpr hfree, by simpa [KState.peers, Proc.peer] using hreceiving⟩
      rw [← hnr]
      exact h.fork hsound (Peers.slotEndpoint_next (hsound.endpoints rpc)) hfree hidle
        ⟨hparent.1, (sending_peers rpp).mpr hparent.2⟩
  | notUpdated => exact h
  | doUpdate => exact absurd rfl (hupdate _ _)

theorem happens_threaded {e : IpcEvent H M} (h : s.peers.Threaded) (hsound : s.peers.Sound)
    (hkeeps : KeepsCallers s e) (hs : e.Happens s p s') : s'.peers.Threaded := by
  have hview := happens_stepped hsound hs
  cases e with
  | doUpdate m r =>
    have hupdated := doUpdate_threaded (p := p) h hsound.quiet (m := m) hkeeps
    rwa [hs.2] at hupdated
  | _ => exact stepped_threaded h hsound hkeeps nofun hview

theorem Peers.Threaded.queued_once (h : s.peers.Threaded) : CallersQueued s := by
  obtain ⟨⟨L, hL⟩, hloose⟩ := h
  refine ⟨L, fun d => hL.holds d trivial, fun d q => ?_, fun q hnone => ?_⟩
  · have hmem := (hL.mem d trivial q).trans (sendsTo_peers q d).symm
    rw [List.Nodup.count (path_nodup (hL.holds d trivial))]
    simp only [hmem]
  · refine hloose q ?_
    cases hsending : (s.peers q).sending with
    | none => rfl
    | some x =>
      obtain ⟨e, m⟩ := x
      obtain ⟨d, -, -, hend⟩ := hL.dest q e m hsending
      exact absurd ((hL.mem d trivial q).mpr ⟨m, by rw [hsending, hend]⟩) (hnone d)

end Views

theorem run_threaded {past : List (KState H M × (Slot H × IpcEvent H M))} {s : KState H M}
    (h : Run (ipcSystem H M) (fun _ s e => KeepsCallers s e.2) past s) :
    s.peers.Sound ∧ s.peers.Threaded :=
  h.invariant (P := fun s => s.peers.Sound ∧ s.peers.Threaded)
    (fun _ hbooted => ⟨booted_sound hbooted, booted_threaded hbooted⟩)
    fun _ _ _ _ hprev hkeeps hstep =>
      ⟨Peers.stepped_sound hprev.1 (happens_stepped hprev.1 hstep),
        happens_threaded hprev.2 hprev.1 hkeeps hstep⟩

theorem callersQueued {past : List (KState H M × (Slot H × IpcEvent H M))} {s : KState H M}
    (h : Run (ipcSystem H M) (fun _ s e => KeepsCallers s e.2) past s) : CallersQueued s := by
  obtain ⟨-, hthreaded⟩ := run_threaded h
  exact hthreaded.queued_once

def twoRunning : KState Headers.sample ℕ :=
  KState.sample fun i => if i = 4 ∨ i = 5 then 0 else RTS_SLOT_FREE

theorem booted_twoRunning : Booted twoRunning where
  slots := by decide
  idle := by decide
  boxes := by decide
  quiet := by decide
  queues := by decide
  endpoints i := ⟨1, by decide, by decide, rfl⟩

def sendTo (q : Slot Headers.sample) : IpcCall ℕ where
  callNr := .SEND
  srcDstE := Headers.sample.endpoint 1 (procNr q)
  mPtr := 0
  m := some (0, 1)

theorem callersQueued_send : ∃ past, ∃ s : KState Headers.sample ℕ,
    Run (ipcSystem _ _) (fun _ s e => KeepsCallers s e.2) past s ∧ sendsTo s 4 5 ∧
      CallersQueued s := by
  have hrun : Run (ipcSystem Headers.sample ℕ) (fun _ s e => KeepsCallers s e.2)
      [(twoRunning, 4, .call (sendTo 5) .OK)] _ :=
    .next (.start booted_twoRunning) trivial ⟨rfl, rfl, rfl⟩
  exact ⟨_, _, hrun, ⟨rfl, rfl⟩, callersQueued hrun⟩

theorem exit_keeps_senders_queued : ∃ past s,
    Run (ipcSystem Headers.sample ℕ) always past s ∧ ¬ CallersQueued s := by
  have hrun : Run (ipcSystem Headers.sample ℕ) always
      [(_, 5, .clearEndpoint 5), (twoRunning, 4, .call (sendTo 5) .OK)] _ :=
    .next (.next (.start booted_twoRunning) trivial ⟨rfl, rfl, rfl⟩) trivial ⟨rfl, rfl⟩
  refine ⟨_, _, hrun, ?_⟩
  rintro ⟨L, hholds, hcount, -⟩
  have hqueue : L 5 = [4] := path_unique (hholds 5) ⟨rfl, rfl⟩
  have hfreed := hcount 5 4
  rw [hqueue] at hfreed
  exact absurd hfreed (by decide)

inductive CallEvent (H : Headers) (M : Type) where
  | call (c : IpcCall M) (result : Errno)
  | senda (c : SendaCall M) (result : Errno)
  | deliver (m : Message M)
  | rtsSet (q : Slot H) (f : Flags)
  | rtsUnset (q : Slot H) (f : Flags)

def CallEvent.Happens (s : KState H M) (p : Slot H) (s' : KState H M) : CallEvent H M → Prop
  | .call c r => (s.proc p).isRunnable = true ∧ (s.proc p).miscIsset MF_DELIVERMSG = false ∧
      doSyncIpc (s.switchTo p) p c = .ok (r, s')
  | .senda c r => (s.proc p).isRunnable = true ∧ (s.proc p).miscIsset MF_DELIVERMSG = false ∧
      doSenda (s.switchTo p) p c = .ok (r, s')
  | .deliver m => (s.proc p).isRunnable = true ∧ delivermsg (s.switchTo p) p = .ok (m, s')
  | .rtsSet q f => (s.proc q).isEmpty = false ∧ beyondIpc f ∧
      Kernel.rtsSet (s.switchTo p) q f = .ok s'
  | .rtsUnset q f => beyondIpc f ∧ Kernel.rtsUnset (s.switchTo p) q f = .ok s'

def CallEvent.statusBefore (s : KState H M) (p d : Slot H) : CallEvent H M → List StatusItem
  | .call c _ =>
    if d = p ∧ c.callNr = .RECEIVE ∧ refuseIpc (s.switchTo p) p c = none then []
    else (s.proc d).ipcStatus
  | _ => (s.proc d).ipcStatus

namespace Mark
variable (x : Mark H M)

structure Running : Prop where
  free : x.free = false
  ended : x.ended = false
  sending : x.sending = false
  receiving : x.receiving = false

def blockedOn : ℤ :=
  if x.sending then x.sendtoE else if x.receiving then x.getfromE else H.none

def takesAsync (source : ℤ) (flags : BitVec 32) : Bool :=
  x.willReceive source && (flags &&& AMF_NOREPLY == 0 || !x.pend)

def receiveAsync (content : M) (source : ℤ) : Mark H M :=
  { (x.accept ⟨0, .user content⟩ source).addStatus (.call .SENDA) with receiving := false }

def emptied : Mark H M := { x with delivermsg := { x.delivermsg with mSource := H.none } }

end Mark

namespace Marks
variable (V : Marks H M)

def startPend (p : Slot H) : Marks H M := Function.update V p { V p with pend := true }

def freshStatus (p : Slot H) : Marks H M :=
  Function.update V p { V p with pend := false, status := [] }

def found (p : Slot H) (c : IpcCall M) : Marks H M :=
  if c.callNr = .RECEIVE then V.freshStatus p else V

inductive Called (p : Slot H) (c : IpcCall M) : Errno → Marks H M → Prop
  | sent {r V'} : c.callNr = .SEND → V.Sent p c.srcDstE c.message ⟨false, false⟩ r V' →
      Called p c r V'
  | sentnb {r V'} : c.callNr = .SENDNB → V.Sent p c.srcDstE c.message ⟨true, false⟩ r V' →
      Called p c r V'
  | unsent {r V'} : c.callNr = .SENDREC → r ≠ .OK →
      (V.startPend p).Sent p c.srcDstE c.message ⟨false, false⟩ r V' → Called p c r V'
  | sendrec {r W V'} : c.callNr = .SENDREC →
      (V.startPend p).Sent p c.srcDstE c.message ⟨false, false⟩ .OK W →
      W.Received p c.srcDstE r V' → Called p c r V'
  | received {r V'} : c.callNr = .RECEIVE → (V.freshStatus p).Received p c.srcDstE r V' →
      Called p c r V'
  | notified {r V'} : c.callNr = .NOTIFY → V.Given V' → Called p c r V'

inductive Posted (p : Slot H) : Marks H M → Prop
  | start : Posted p V
  | given {V' : Marks H M} {d : Slot H} {flags} (content : M) : Posted p V' →
      (V' d).takesAsync (V' p).endpoint flags = true →
      Posted p (Function.update V' d ((V' d).receiveAsync content (V' p).endpoint))
  | hinted {V' : Marks H M} {d : Slot H} : Posted p V' →
      Posted p (Function.update V' d { V' d with asyn := true })

end Marks

section Operations
variable {s s' : KState H M} {p : Slot H} {r : Errno}

theorem marks_running (h : (s.proc p).isRunnable = true) : (s.marks p).Running := by
  have hzero : (s.proc p).rtsFlags = 0 := beq_iff_eq.mp h
  constructor <;> simp only [KState.marks, Proc.mark, Proc.rtsIsset, hzero] <;> rfl

theorem doSyncIpc_marks {c : IpcCall M} (h : doSyncIpc s p c = .ok (r, s')) :
    refuseIpc s p c = some r ∧ s' = s ∨
    refuseIpc s p c = none ∧ s.marks.Called p c r s'.marks := by
  rw [doSyncIpc] at h
  obtain ⟨hcall, h⟩ := kassert_bind_ok.mp h
  cases hrefuse : refuseIpc s p c with
  | some e =>
    rw [hrefuse] at h
    obtain ⟨rfl, rfl⟩ := Prod.mk.inj (pure_ok.mp h)
    exact .inl ⟨rfl, rfl⟩
  | none =>
    rw [hrefuse] at h
    dsimp only at h
    refine .inr ⟨rfl, ?_⟩
    cases hnr : c.callNr with
    | SENDREC =>
      rw [hnr] at h
      obtain ⟨⟨r₁, t⟩, hsend, h⟩ := bind_ok.mp h
      have hpend : (s.upd p (·.setMisc MF_REPLY_PEND)).marks = s.marks.startPend p := by
        rw [marks_upd, mark_set_pend]
        rfl
      have hsent := miniSend_marks hsend
      rw [hpend] at hsent
      dsimp only at h
      split at h
      · rename_i hr
        obtain ⟨rfl, rfl⟩ := Prod.mk.inj (pure_ok.mp h)
        exact .unsent hnr hr hsent
      · rename_i hr
        rw [not_not] at hr
        rw [hr] at hsent
        exact .sendrec hnr hsent (miniReceive_marks h)
    | SEND =>
      rw [hnr] at h
      exact .sent hnr (miniSend_marks h)
    | RECEIVE =>
      rw [hnr] at h
      have hfresh : (s.upd p fun x => { x.clearMisc MF_REPLY_PEND with ipcStatus := [] }).marks =
          s.marks.freshStatus p := by
        have hclear := mark_clear_pend { s.proc p with ipcStatus := [] }
        rw [marks_upd]
        exact congrArg _ hclear
      have hreceived := miniReceive_marks h
      rw [hfresh] at hreceived
      exact .received hnr hreceived
    | NOTIFY =>
      rw [hnr] at h
      exact .notified hnr (miniNotify_marks h)
    | SENDNB =>
      rw [hnr] at h
      exact .sentnb hnr (miniSend_marks h)
    | SENDA =>
      rw [hnr] at hcall
      cases hcall

theorem statusBefore_refused {c : IpcCall M} {d : Slot H} {e : Errno}
    (h : refuseIpc (s.switchTo p) p c = some e) :
    (CallEvent.call c r).statusBefore s p d = (s.proc d).ipcStatus := by
  rw [CallEvent.statusBefore, if_neg (by rw [h]; simp)]

theorem statusBefore_found {c : IpcCall M} {d : Slot H}
    (h : refuseIpc (s.switchTo p) p c = none) :
    (CallEvent.call c r).statusBefore s p d = (s.marks.found p c d).status := by
  rw [CallEvent.statusBefore, Marks.found]
  by_cases hnr : c.callNr = .RECEIVE
  · rw [if_pos hnr, Marks.freshStatus]
    by_cases hd : d = p
    · subst hd
      rw [if_pos ⟨rfl, hnr, h⟩, Function.update_self]
    · rw [if_neg fun hall => hd hall.1, Function.update_of_ne hd]
      rfl
  · rw [if_neg hnr, if_neg fun hall => hnr hall.2.1]
    rfl

theorem delivermsg_marks {m : Message M} (h : delivermsg s p = .ok (m, s')) :
    s'.marks = Function.update s.marks p (s.marks p).emptied := by
  rw [delivermsg] at h
  obtain ⟨-, h⟩ := kassert_bind_ok.mp h
  obtain ⟨-, h⟩ := kassert_bind_ok.mp h
  obtain ⟨-, rfl⟩ := Prod.mk.inj (pure_ok.mp h)
  rw [marks_upd]
  have hmisc := mark_clearMisc (f := MF_DELIVERMSG) (x := { s.proc p with
    delivermsg := { (s.proc p).delivermsg with mSource := H.none }
    retreg := if (s.proc p).miscIsset MF_CONTEXT_SET then (s.proc p).retreg else .OK })
    (by decide) (by decide) (by decide)
  exact congrArg _ hmisc

theorem giveAsync_marks {d : Slot H} {msg : M} (h : giveAsync s p d msg = .ok s') :
    s'.marks = Function.update s.marks d
      ((s.marks d).receiveAsync msg (s.marks p).endpoint) := by
  rw [giveAsync] at h
  have hmarks := rtsUnset_marks h
  rw [marks_upd, upd_proc_self, mark_clear_receiving, mark_ipcStatusAdd, mark_accept,
    Function.update_idem] at hmarks
  exact hmarks

theorem takesAsync_mark (d : Slot H) (flags : BitVec 32) :
    (s.marks d).takesAsync (s.marks p).endpoint flags = takesAsync s p d flags := rfl

theorem entrySent_marks {V : Marks H M} {copies : ℕ → Bool} {i : ℕ} {done done' : Bool}
    (hV : V.Posted p s.marks) (h : EntrySent p copies i s done done' s') : V.Posted p s'.marks := by
  cases h with
  | skipped => exact hV
  | failed => exact hV
  | unread => exact hV
  | @given tabent d t _ _ _ htakes _ hgive =>
    have hposted := Marks.Posted.given tabent.msg hV htakes
    rw [← giveAsync_marks hgive] at hposted
    exact hposted
  | @hinted tabent d =>
    rw [marks_upd, mark_set_asyn]
    exact hV.hinted

theorem doSenda_marks {c : SendaCall M} (h : doSenda s p c = .ok (r, s')) :
    s.marks.Posted p s'.marks := by
  rcases doSenda_cases h with ⟨-, rfl⟩ | ⟨-, -, ⟨-, -, rfl⟩ | ⟨done, t, hloop, hreturned⟩⟩
  · exact .start
  · exact .start
  · obtain ⟨j, hposted, -⟩ := sendaLoop_rule (P := fun _ _ t => s.marks.Posted p t.marks)
      (fun _ _ _ _ _ _ hP hsent => entrySent_marks hP hsent) hloop .start
    rcases hreturned with ⟨rfl, -⟩ | ⟨-, -, rfl⟩
    · exact hposted
    · exact hposted

end Operations

section Pointwise
variable {x : Mark H M}

theorem addStatus_eq (item : StatusItem) : ∃ l, x.addStatus item = { x with status := l } := by
  rw [Mark.addStatus]
  split
  · exact ⟨x.status, rfl⟩
  · exact ⟨item :: x.status, rfl⟩

@[simp] theorem addStatus_kernel (item : StatusItem) : (x.addStatus item).kernel = x.kernel := by
  obtain ⟨l, hl⟩ := addStatus_eq (x := x) item
  rw [hl]

variable {V V' : Marks H M} {p q d i : Slot H} {e : ℤ} {xpp : Cell (Slot H)}

theorem setCallers_apply (V : Marks H M) (d : Slot H) (xpp : Cell (Slot H))
    (v : Option (Slot H)) (i : Slot H) :
    ∃ c l, V.setCallers d xpp v i = { V i with callerQ := c, qLink := l } := by
  cases xpp with
  | head =>
    by_cases hi : i = d
    · subst hi
      exact ⟨v, (V i).qLink, Function.update_self ..⟩
    · exact ⟨(V i).callerQ, (V i).qLink, Function.update_of_ne hi ..⟩
  | link j =>
    by_cases hi : i = j
    · subst hi
      exact ⟨(V i).callerQ, v, Function.update_self ..⟩
    · exact ⟨(V i).callerQ, (V i).qLink, Function.update_of_ne hi ..⟩

theorem unlink_apply (V : Marks H M) (p q : Slot H) (xpp : Cell (Slot H)) (i : Slot H) :
    ∃ c l, V.unlink p q xpp i = { V i with callerQ := c, qLink := l } := by
  obtain ⟨c, l, hset⟩ := setCallers_apply V p xpp (V q).qLink i
  rw [Marks.unlink]
  by_cases hi : i = q
  · subst hi
    rw [Function.update_self, hset]
    exact ⟨c, none, rfl⟩
  · rw [Function.update_of_ne hi, hset]
    exact ⟨c, l, rfl⟩

theorem stopPend_self : V.stopPend p p = { V p with pend := false } := Function.update_self ..

theorem stopPend_of_ne (hi : i ≠ p) : V.stopPend p i = V i := Function.update_of_ne hi ..

theorem Marks.Looked.apply (h : V.Looked p V') (i : Slot H) :
    ∃ a, V' i = { V i with asyn := a } := by
  rcases h with rfl | rfl
  · exact ⟨(V' i).asyn, rfl⟩
  · by_cases hi : i = p
    · subst hi
      exact ⟨false, Function.update_self ..⟩
    · exact ⟨(V i).asyn, Function.update_of_ne hi ..⟩

theorem Marks.Given.apply (h : V.Given V') (i : Slot H) : V' i = V i ∨
    ∃ e m, (V i).willReceive e = true ∧ (V i).pend = false ∧
      V' i = { (V i).notify m with receiving := false } := by
  cases h with
  | none => exact .inl rfl
  | @notified d e m hready hpend =>
    by_cases hi : i = d
    · subst hi
      exact .inr ⟨e, m, hready, hpend, Function.update_self ..⟩
    · exact .inl (Function.update_of_ne hi ..)

theorem not_willReceive (h : (V i).receiving = false) : (V i).willReceive e = false := by
  rw [Mark.willReceive, h]
  rfl

theorem Marks.Given.apply_of_not (h : V.Given V') (hi : (V i).receiving = false) :
    V' i = V i := by
  rcases h.apply i with hsame | ⟨e, m, hready, -⟩
  · exact hsame
  · rw [not_willReceive hi] at hready
    cases hready

theorem pick_receiver (hsending : (V p).sending = false) (hself : q = p → (V p).kernel = false) :
    V.pick p q p =
      if (V q).kernel then (((V p).accept (V q).sendmsg (V q).endpoint).addStatus
        (.call (V.queuedCall q))).addStatus .msgFromKernel
      else ((V p).accept (V q).sendmsg (V q).endpoint).addStatus (.call (V.queuedCall q)) := by
  by_cases hqp : q = p
  · subst hqp
    have hkernel := hself rfl
    have hsame : { (V q).accept (V q).sendmsg (V q).endpoint with sending := false } =
        (V q).accept (V q).sendmsg (V q).endpoint := by
      rw [Mark.accept, ← hsending]
    have hunmarked : ∀ item,
        (((V q).accept (V q).sendmsg (V q).endpoint).addStatus item).kernel = false := by
      intro item
      rw [addStatus_kernel]
      exact hkernel
    simp only [Marks.pick, Marks.passFlag, Marks.queuedCall, Function.update_self,
      Function.update_idem, hkernel, hsame, hunmarked, Bool.false_eq_true, if_false]
    rfl
  · simp only [Marks.pick, Marks.passFlag, Marks.queuedCall, Function.update_self,
      Function.update_of_ne hqp, Function.update_of_ne (Ne.symm hqp)]
    split <;> simp [Function.update_of_ne (Ne.symm hqp)]

theorem pick_sender (hqp : q ≠ p) :
    V.pick p q q = { V q with sending := false, kernel := false } := by
  simp only [Marks.pick, Marks.passFlag, Function.update_self, Function.update_of_ne hqp]
  split
  · simp
  · rename_i hkernel
    rw [Function.update_of_ne hqp, Function.update_self, ← Bool.eq_false_iff.mpr hkernel]

theorem pick_other (hp : i ≠ p) (hq : i ≠ q) : V.pick p q i = V i := by
  simp only [Marks.pick, Marks.passFlag]
  split <;> simp [Function.update_of_ne hp, Function.update_of_ne hq]

end Pointwise

end Kernel
