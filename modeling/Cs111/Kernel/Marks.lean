import Cs111.Kernel.Senda
import Cs111.Kernel.System

namespace Kernel
open Minix FlagWord Chain
variable {H : Headers} {M : Type}

structure Mark (H : Headers) (M : Type) where
  free : Bool
  ended : Bool
  sending : Bool
  receiving : Bool
  pend : Bool
  kernel : Bool
  asyn : Bool
  endpoint : ℤ
  sendtoE : ℤ
  getfromE : ℤ
  sendmsg : Message M
  delivermsg : Message M
  status : List StatusItem
  callerQ : Option (Slot H)
  qLink : Option (Slot H)

abbrev Marks (H : Headers) (M : Type) := Slot H → Mark H M

def Marks.setCallers (V : Marks H M) (d : Slot H) (xpp : Cell (Slot H)) (v : Option (Slot H)) :
    Marks H M :=
  match xpp with
  | .head => Function.update V d { V d with callerQ := v }
  | .link i => Function.update V i { V i with qLink := v }

def Proc.mark (x : Proc H M) : Mark H M where
  free := x.rtsIsset RTS_SLOT_FREE
  ended := x.rtsIsset RTS_NO_ENDPOINT
  sending := x.rtsIsset RTS_SENDING
  receiving := x.rtsIsset RTS_RECEIVING
  pend := x.miscIsset MF_REPLY_PEND
  kernel := x.miscIsset MF_SENDING_FROM_KERNEL
  asyn := x.miscIsset MF_ASYNMSG
  endpoint := x.endpoint
  sendtoE := x.sendtoE
  getfromE := x.getfromE
  sendmsg := x.sendmsg
  delivermsg := x.delivermsg
  status := x.ipcStatus
  callerQ := x.callerQ
  qLink := x.qLink

def KState.marks (s : KState H M) : Marks H M := fun i => (s.proc i).mark

namespace Mark
variable (x : Mark H M)

def willReceive (sourceEp : ℤ) : Bool :=
  (x.receiving && !x.sending) && (x.getfromE == H.any || x.getfromE == sourceEp)

def accept (m : Message M) (source : ℤ) : Mark H M :=
  { x with delivermsg := { m with mSource := source } }

def addStatus (item : StatusItem) : Mark H M :=
  if x.pend then x else { x with status := item :: x.status }

def receiveSent (flags : SendFlags) (call : CallNr) (m : Message M) (source : ℤ) : Mark H M :=
  let x := if flags.fromKernel then x.addStatus .msgFromKernel else x
  { (x.accept m source).addStatus (.call call) with pend := false, receiving := false }

def hold (flags : SendFlags) (m : Message M) (e : ℤ) : Mark H M :=
  { x with sendmsg := m, kernel := x.kernel || flags.fromKernel, sending := true, sendtoE := e }

def sendCall (flags : SendFlags) : CallNr :=
  if x.pend then .SENDREC else if flags.nonBlocking then .SENDNB else .SEND

def notify (m : Message M) : Mark H M := (x.accept m m.mSource).addStatus (.call .NOTIFY)

end Mark

section Fields
variable {s : KState H M} {x : Proc H M} {i : Slot H} {f : Flags}

theorem marks_upd (g : Proc H M → Proc H M) :
    (s.upd i g).marks = Function.update s.marks i (g (s.proc i)).mark := by
  funext j
  by_cases hj : j = i
  · subst hj
    simp [KState.marks]
  · simp [KState.marks, upd_proc_of_ne hj, hj]

theorem marks_upd_same {g : Proc H M → Proc H M} (hg : (g (s.proc i)).mark = (s.proc i).mark) :
    (s.upd i g).marks = s.marks := by
  rw [marks_upd, hg]
  exact Function.update_eq_self ..

theorem mark_setRts (x : Proc H M) (f : Flags) : (x.setRts f).mark = { x.mark with
    free := isset f RTS_SLOT_FREE
    ended := isset f RTS_NO_ENDPOINT
    sending := isset f RTS_SENDING
    receiving := isset f RTS_RECEIVING } := rfl

theorem mark_misc (x : Proc H M) (g : Flags) : ({ x with miscFlags := g }).mark = { x.mark with
    pend := isset g MF_REPLY_PEND
    kernel := isset g MF_SENDING_FROM_KERNEL
    asyn := isset g MF_ASYNMSG } := rfl

theorem mark_or (hf : beyondIpc f) : (x.setRts (x.rtsFlags ||| f)).mark = x.mark := by
  rw [mark_setRts, isset_or hf.1, isset_or hf.2.1, isset_or hf.2.2.1, isset_or hf.2.2.2]
  rfl

theorem mark_clear (hf : beyondIpc f) : (x.setRts (x.rtsFlags &&& ~~~f)).mark = x.mark := by
  rw [mark_setRts, isset_clear hf.1, isset_clear hf.2.1, isset_clear hf.2.2.1,
    isset_clear hf.2.2.2]
  rfl

theorem mark_set_sending (x : Proc H M) :
    (x.setRts (x.rtsFlags ||| RTS_SENDING)).mark = { x.mark with sending := true } := by
  rw [mark_setRts, isset_or (by decide), isset_or (by decide), isset_or_self, isset_or (by decide)]
  rfl

theorem mark_set_receiving (x : Proc H M) :
    (x.setRts (x.rtsFlags ||| RTS_RECEIVING)).mark = { x.mark with receiving := true } := by
  rw [mark_setRts, isset_or (by decide), isset_or (by decide), isset_or (by decide), isset_or_self]
  rfl

theorem mark_set_ended (x : Proc H M) :
    (x.setRts (x.rtsFlags ||| RTS_NO_ENDPOINT)).mark = { x.mark with ended := true } := by
  rw [mark_setRts, isset_or (by decide), isset_or_self, isset_or (by decide), isset_or (by decide)]
  rfl

theorem mark_clear_sending (x : Proc H M) :
    (x.setRts (x.rtsFlags &&& ~~~RTS_SENDING)).mark = { x.mark with sending := false } := by
  rw [mark_setRts, isset_clear (by decide), isset_clear (by decide),
    isset_clear_self (by decide) (by decide), isset_clear (by decide)]
  rfl

theorem mark_clear_receiving (x : Proc H M) :
    (x.setRts (x.rtsFlags &&& ~~~RTS_RECEIVING)).mark = { x.mark with receiving := false } := by
  rw [mark_setRts, isset_clear (by decide), isset_clear (by decide), isset_clear (by decide),
    isset_clear_self (by decide) (by decide)]
  rfl

theorem mark_clear_both (x : Proc H M) :
    (x.setRts (x.rtsFlags &&& ~~~(RTS_RECEIVING ||| RTS_SENDING))).mark =
      { x.mark with sending := false, receiving := false } := by
  rw [mark_setRts, isset_clear (by decide), isset_clear (by decide),
    isset_clear_self (by decide) (by decide), isset_clear_self (by decide) (by decide)]
  rfl

theorem mark_set_pend (x : Proc H M) :
    (x.setMisc MF_REPLY_PEND).mark = { x.mark with pend := true } := by
  rw [Proc.setMisc, mark_misc, isset_or_self, isset_or (by decide), isset_or (by decide)]
  rfl

theorem mark_clear_pend (x : Proc H M) :
    (x.clearMisc MF_REPLY_PEND).mark = { x.mark with pend := false } := by
  rw [Proc.clearMisc, mark_misc, isset_clear_self (by decide) (by decide), isset_clear (by decide),
    isset_clear (by decide)]
  rfl

theorem mark_set_kernel (x : Proc H M) :
    (x.setMisc MF_SENDING_FROM_KERNEL).mark = { x.mark with kernel := true } := by
  rw [Proc.setMisc, mark_misc, isset_or (by decide), isset_or_self, isset_or (by decide)]
  rfl

theorem mark_clear_kernel (x : Proc H M) :
    (x.clearMisc MF_SENDING_FROM_KERNEL).mark = { x.mark with kernel := false } := by
  rw [Proc.clearMisc, mark_misc, isset_clear (by decide), isset_clear_self (by decide) (by decide),
    isset_clear (by decide)]
  rfl

theorem mark_set_asyn (x : Proc H M) :
    (x.setMisc MF_ASYNMSG).mark = { x.mark with asyn := true } := by
  rw [Proc.setMisc, mark_misc, isset_or (by decide), isset_or (by decide), isset_or_self]
  rfl

theorem mark_clear_asyn (x : Proc H M) :
    (x.clearMisc MF_ASYNMSG).mark = { x.mark with asyn := false } := by
  rw [Proc.clearMisc, mark_misc, isset_clear (by decide), isset_clear (by decide),
    isset_clear_self (by decide) (by decide)]
  rfl

theorem mark_clearMisc (hpend : f &&& MF_REPLY_PEND = 0) (hkernel : f &&& MF_SENDING_FROM_KERNEL = 0)
    (hasyn : f &&& MF_ASYNMSG = 0) : (x.clearMisc f).mark = x.mark := by
  rw [Proc.clearMisc, mark_misc, isset_clear hpend, isset_clear hkernel, isset_clear hasyn]
  rfl

theorem mark_accept (m : Message M) (source : ℤ) :
    (x.accept m source).mark = x.mark.accept m source := by
  have hmisc := mark_misc { x with delivermsg := { m with mSource := source } }
    (x.miscFlags ||| MF_DELIVERMSG)
  rw [isset_or (by decide), isset_or (by decide), isset_or (by decide)] at hmisc
  exact hmisc

theorem mark_ipcStatusAdd (item : StatusItem) :
    (x.ipcStatusAdd item).mark = x.mark.addStatus item := by
  rw [Proc.ipcStatusAdd, Mark.addStatus]
  change (if x.miscIsset MF_REPLY_PEND then x else _).mark =
    if x.miscIsset MF_REPLY_PEND then x.mark else _
  split <;> rfl

theorem willReceive_mark (e : ℤ) : x.mark.willReceive e = x.willReceive e := rfl

theorem mark_receiveSent (flags : SendFlags) (call : CallNr) (m : Message M) (source : ℤ) :
    ((x.receiveSent flags call m source).setRts ((x.receiveSent flags call m source).rtsFlags &&&
      ~~~RTS_RECEIVING)).mark = x.mark.receiveSent flags call m source := by
  rw [mark_clear_receiving, Proc.receiveSent, Mark.receiveSent, mark_clear_pend,
    mark_ipcStatusAdd, mark_accept]
  cases flags.fromKernel with
  | false => rfl
  | true => rw [if_pos rfl, if_pos rfl, mark_ipcStatusAdd]

theorem mark_hold (flags : SendFlags) (m : Message M) (e : ℤ) :
    ({ (x.holdMessage flags m).setRts ((x.holdMessage flags m).rtsFlags ||| RTS_SENDING) with
      sendtoE := e }).mark = x.mark.hold flags m e := by
  have hset := mark_set_sending { x.holdMessage flags m with sendtoE := e }
  refine hset.trans ?_
  rw [Proc.holdMessage, Mark.hold]
  cases hkernel : flags.fromKernel with
  | false =>
    rw [Bool.or_false]
    rfl
  | true =>
    rw [Bool.or_true, if_pos rfl]
    exact congrArg (fun y : Mark H M => { y with sending := true, sendtoE := e })
      (mark_set_kernel { x with sendmsg := m })

theorem Rescheduled.marks {s' : KState H M} (h : Rescheduled s s') : s'.marks = s.marks :=
  funext fun i => h.view_eq (v := Proc.mark) (fun _ => mark_or (by decide)) i

theorem rtsUnset_marks {s' : KState H M} (h : rtsUnset s i f = .ok s') : s'.marks =
    Function.update s.marks i ((s.proc i).setRts ((s.proc i).rtsFlags &&& ~~~f)).mark := by
  rw [(Rescheduled.rtsUnset h).marks]
  exact marks_upd _

theorem rtsSet_marks {s' : KState H M} (h : rtsSet s i f = .ok s') : s'.marks =
    Function.update s.marks i ((s.proc i).setRts ((s.proc i).rtsFlags ||| f)).mark := by
  rw [(Rescheduled.of_rtsSet h).marks]
  exact marks_upd _

theorem rtsUnset_beyond {s' : KState H M} (hf : beyondIpc f) (h : rtsUnset s i f = .ok s') :
    s'.marks = s.marks := by
  rw [rtsUnset_marks h, mark_clear hf]
  exact Function.update_eq_self ..

theorem rtsSet_beyond {s' : KState H M} (hf : beyondIpc f) (h : rtsSet s i f = .ok s') :
    s'.marks = s.marks := by
  rw [rtsSet_marks h, mark_or hf]
  exact Function.update_eq_self ..

end Fields

namespace Marks
variable (V : Marks H M)

inductive Given : Marks H M → Prop
  | none : Given V
  | notified {d e m} : (V d).willReceive e = true → (V d).pend = false →
      Given (Function.update V d { (V d).notify m with receiving := false })

inductive Sent (p : Slot H) (e : ℤ) (m : Option (Message M)) (flags : SendFlags) :
    Errno → Marks H M → Prop
  | refused {r} : r ≠ .OK → Sent p e m flags r V
  | delivered {d msg} : procAddr H (H.endpointP e) = .ok d → (V d).ended = false →
      (V d).willReceive (V p).endpoint = true → m = some msg → Sent p e m flags .OK
        (Function.update V d
          ((V d).receiveSent flags ((V p).sendCall flags) msg (V p).endpoint))
  | blocked {d msg xpp} : procAddr H (H.endpointP e) = .ok d → (V d).ended = false →
      (V d).willReceive (V p).endpoint = false → flags.nonBlocking = false → m = some msg →
      Sent p e m flags .OK
        (setCallers (Function.update V p ((V p).hold flags msg e)) d xpp (some p))

def Looked (p : Slot H) (V' : Marks H M) : Prop :=
  V' = V ∨ V' = Function.update V p { V p with asyn := false }

def queuedCall (q : Slot H) : CallNr := if (V q).pend then .SENDREC else .SEND

def passFlag (p q : Slot H) : Marks H M :=
  if (V q).kernel then
    let V : Marks H M := Function.update V p ((V p).addStatus .msgFromKernel)
    Function.update V q { V q with kernel := false }
  else V

def pick (p q : Slot H) : Marks H M :=
  let V : Marks H M := Function.update V p ((V p).accept (V q).sendmsg (V q).endpoint)
  let V : Marks H M := Function.update V q { V q with sending := false }
  passFlag (Function.update V p ((V p).addStatus (.call (V.queuedCall q)))) p q

def unlink (p q : Slot H) (xpp : Cell (Slot H)) : Marks H M :=
  let V : Marks H M := V.setCallers p xpp (V q).qLink
  Function.update V q { V q with qLink := none }

def callerAt (p : Slot H) : Cell (Slot H) → Option (Slot H)
  | .head => (V p).callerQ
  | .link i => (V i).qLink

def stopPend (p : Slot H) : Marks H M := Function.update V p { V p with pend := false }

inductive Received (p : Slot H) (e : ℤ) : Errno → Marks H M → Prop
  | failed {r V'} : r ≠ .OK → V.Looked p V' → Received p e r V'
  | notified {m} : (V p).sending = false → (V p).pend = false →
      Received p e .OK (stopPend (Function.update V p ((V p).notify m)) p)
  | async {content source} : (V p).sending = false → Received p e .OK
      (stopPend (Function.update V p
        (((V p).accept ⟨0, .user content⟩ source).addStatus (.call .SENDA))) p)
  | queued {q xpp V₀ W} : (V p).sending = false → V.Looked p V₀ → V₀.callerAt p xpp = some q →
      (V₀ q).free = false → (V₀ q).ended = false → Given (V₀.pick p q) W →
      Received p e .OK ((W.unlink p q xpp).stopPend p)
  | waits {V₀} : V.Looked p V₀ →
      Received p e .OK (Function.update V₀ p { V₀ p with receiving := true, getfromE := e })

end Marks

section Operations
variable {s s' : KState H M} {p q d : Slot H} {e : ℤ} {r : Errno}

theorem marks_setCallers (d : Slot H) (xpp : Cell (Slot H)) (v : Option (Slot H)) :
    (s.setCallers d xpp v).marks = s.marks.setCallers d xpp v := by
  cases xpp with
  | head => exact marks_upd fun x => { x with callerQ := v }
  | link i => exact marks_upd fun x => { x with qLink := v }

theorem miniSend_marks {m : Option (Message M)} {flags : SendFlags}
    (h : miniSend s p e m flags = .ok (r, s')) : s.marks.Sent p e m flags r s'.marks := by
  cases miniSend_outcome h with
  | refused hr => exact .refused hr
  | @delivered dst msg _ hdst halive hready hbox hm hunset =>
    have hmarks := rtsUnset_marks hunset
    rw [upd_proc_self, mark_receiveSent, marks_upd, Function.update_idem] at hmarks
    rw [hmarks]
    exact .delivered hdst halive hready hm
  | @blocked dst msg t xpp hdst halive hbusy hblocking hgroup hm hset hlink hseek =>
    have hproc := congrFun (Rescheduled.rtsSet hset).1 p
    have hmarks := rtsSet_marks hset
    have hheld : (t.upd p fun x => { x with sendtoE := e }).marks =
        Function.update s.marks p ((s.marks p).hold flags msg e) := by
      rw [marks_upd, hproc, hmarks, Function.update_idem, marks_upd, Function.update_idem,
        KState.setRts, upd_proc_self, upd_proc_self]
      exact congrArg _ (mark_hold flags msg e)
    rw [marks_setCallers, hheld]
    exact .blocked hdst halive hbusy hblocking hm

theorem acceptNotify_marks (src dst : Slot H) : (acceptNotify s src dst).marks =
    Function.update s.marks dst ((s.marks dst).notify (notifyMessage s src dst)) := by
  have hproc : (clearNotifyArg s src dst).proc = s.proc := by
    rw [clearNotifyArg]
    split_ifs <;> rfl
  have hmarks : (clearNotifyArg s src dst).marks = s.marks :=
    funext fun i => congrArg Proc.mark (congrFun hproc i)
  rw [acceptNotify, marks_upd, hproc, hmarks, mark_ipcStatusAdd, mark_accept]
  rfl

theorem miniNotify_marks (h : miniNotify s p e = .ok (r, s')) : s.marks.Given s'.marks := by
  rw [miniNotify] at h
  split at h
  · obtain ⟨-, rfl⟩ := Prod.mk.inj (pure_ok.mp h)
    exact .none
  · rename_i dst hdst
    split at h
    · rename_i hready
      simp only [Bool.and_eq_true, Bool.not_eq_true'] at hready
      obtain ⟨-, h⟩ := kassert_bind_ok.mp h
      obtain ⟨t, ht, h⟩ := bind_ok.mp h
      obtain ⟨-, rfl⟩ := Prod.mk.inj (pure_ok.mp h)
      have hself := congrFun (acceptNotify_marks (s := s) p dst) dst
      rw [Function.update_self] at hself
      rw [rtsUnset_marks ht, mark_clear_receiving, acceptNotify_marks, Function.update_idem]
      change s.marks.Given (Function.update s.marks dst
        { (acceptNotify s p dst).marks dst with receiving := false })
      rw [hself]
      exact .notified hready.1 hready.2
    · obtain ⟨-, rfl⟩ := Prod.mk.inj (pure_ok.mp h)
      exact .none

theorem sendSig_marks {ep : ℤ} {sigNr : ℕ} (h : sendSig s ep sigNr = .ok s') :
    s.marks.Given s'.marks := by
  simp only [sendSig, bind_ok] at h
  obtain ⟨i, -, ⟨r, t⟩, hnotify, h⟩ := h
  obtain rfl : t = s' := pure_ok.mp h
  have hgiven := miniNotify_marks hnotify
  exact hgiven

theorem caused_marks (h : Caused p s s') : s.marks.Given s'.marks := by
  induction h with
  | known => exact .none
  | passed hunset _ ih =>
    have hsame := rtsUnset_beyond (by decide) hunset
    rw [hsame] at ih
    exact ih
  | own hsent =>
    have hgiven := sendSig_marks hsent
    exact hgiven
  | noted =>
    rw [marks_upd_same rfl]
    exact .none
  | @raised s sigNr _ _ _ _ hset hsent =>
    have hsame := rtsSet_beyond (by decide) hset
    rw [marks_upd_same rfl] at hsame
    rw [← hsame]
    exact sendSig_marks hsent

theorem sendDelayed_marks (h : sendDelayed s p = .ok s') : s.marks.Given s'.marks := by
  rw [sendDelayed] at h
  split at h
  · have hsame : (s.upd p (·.clearMisc MF_SIG_DELAY)).marks = s.marks :=
      marks_upd_same (mark_clearMisc (by decide) (by decide) (by decide))
    rw [← hsame]
    exact caused_marks (causeSig_caused h)
  · cases h
    exact .none

theorem tryOne_marks (src : Slot H) : ((tryOne s src d).result ≠ .OK ∧
      (tryOne s src d).s.marks = s.marks) ∨
    (tryOne s src d).result = .OK ∧ ∃ content, (tryOne s src d).s.marks =
      Function.update s.marks d ((s.marks d).accept ⟨0, .user content⟩ (s.proc src).endpoint) := by
  have hloop : ∀ left i done postponed, ((tryOneLoop s src d left i done postponed).result ≠ .OK ∧
      (tryOneLoop s src d left i done postponed).s.marks = s.marks) ∨
      (tryOneLoop s src d left i done postponed).result = .OK ∧ ∃ content,
      (tryOneLoop s src d left i done postponed).s.marks = Function.update s.marks d
        ((s.marks d).accept ⟨0, .user content⟩ (s.proc src).endpoint) := by
    intro left
    induction left with
    | zero =>
      intro i done postponed
      refine .inl ⟨nofun, ?_⟩
      rw [tryOneLoop]
      split <;> rfl
    | succ left ih =>
      intro i done postponed
      rw [tryOneLoop]
      split
      · exact .inl ⟨nofun, rfl⟩
      · rename_i tabent _
        dsimp only
        split_ifs
        · exact ih ..
        · exact .inl ⟨nofun, rfl⟩
        · exact ih ..
        · exact ih ..
        · exact ih ..
        · have haccept := marks_upd (s := s) (i := d) fun x =>
            x.accept ⟨0, .user tabent.msg⟩ (s.proc src).endpoint
          rw [mark_accept] at haccept
          exact .inr ⟨rfl, tabent.msg, haccept⟩
  rw [tryOne]
  split_ifs
  · exact .inl ⟨nofun, rfl⟩
  · exact .inl ⟨nofun, rfl⟩
  · exact .inl ⟨nofun, rfl⟩
  · exact hloop ..

theorem tryAsync_marks {found : Bool} (h : tryAsync s d = .ok (found, s')) :
    found = false ∧ s.marks.Looked d s'.marks ∨ found = true ∧ ∃ content source, s'.marks =
      Function.update s.marks d ((s.marks d).accept ⟨0, .user content⟩ source) := by
  have hloop : ∀ ids postponed (t : KState H M), t.marks = s.marks →
      tryAsyncLoop d ids postponed t = .ok (found, s') →
      found = false ∧ s.marks.Looked d s'.marks ∨ found = true ∧ ∃ content source, s'.marks =
        Function.update s.marks d ((s.marks d).accept ⟨0, .user content⟩ source) := by
    intro ids
    induction ids with
    | nil =>
      intro postponed t ht h
      rw [tryAsyncLoop] at h
      obtain ⟨rfl, rfl⟩ := Prod.mk.inj (pure_ok.mp h)
      refine .inl ⟨rfl, ?_⟩
      split
      · exact .inl ht
      · rw [marks_upd, mark_clear_asyn, ht]
        refine .inr (congrArg _ ?_)
        rw [← ht]
        rfl
    | cons id ids ih =>
      intro postponed t ht h
      rw [tryAsyncLoop] at h
      split at h
      · exact ih postponed t ht h
      · obtain ⟨src, -, h⟩ := bind_ok.mp h
        obtain ⟨-, h⟩ := kassert_bind_ok.mp h
        rcases tryOne_marks (s := t) (d := d) src with ⟨hno, hsame⟩ | ⟨hyes, content, hgiven⟩
        · rw [if_neg hno] at h
          exact ih _ _ (hsame.trans ht) h
        · rw [if_pos hyes] at h
          obtain ⟨rfl, rfl⟩ := Prod.mk.inj (pure_ok.mp h)
          refine .inr ⟨rfl, content, (t.proc src).endpoint, ?_⟩
          rw [hgiven, ht]
  exact hloop _ _ s rfl h

theorem add_senda_marks {t : KState H M} {content : M} {source : ℤ}
    (h : t.marks = Function.update s.marks p ((s.marks p).accept ⟨0, .user content⟩ source)) :
    (t.upd p (·.ipcStatusAdd (.call .SENDA))).marks = Function.update s.marks p
      (((s.marks p).accept ⟨0, .user content⟩ source).addStatus (.call .SENDA)) := by
  have hself := congrFun h p
  rw [Function.update_self] at hself
  rw [marks_upd, mark_ipcStatusAdd, h, Function.update_idem, ← hself]
  rfl

theorem receiveAsync_marks {src : Option (Slot H)} {found : Bool}
    (h : receiveAsync s p src = .ok (found, s')) :
    found = false ∧ s.marks.Looked p s'.marks ∨ found = true ∧ ∃ content source, s'.marks =
      Function.update s.marks p
        (((s.marks p).accept ⟨0, .user content⟩ source).addStatus (.call .SENDA)) := by
  rw [receiveAsync] at h
  split at h
  · cases src with
    | some src =>
      obtain ⟨rfl, rfl⟩ := Prod.mk.inj (pure_ok.mp h)
      rcases tryOne_marks (s := s) (d := p) src with ⟨hno, hsame⟩ | ⟨hyes, content, hgiven⟩
      · rw [decide_eq_false hno]
        exact .inl ⟨rfl, .inl hsame⟩
      · rw [decide_eq_true hyes]
        exact .inr ⟨rfl, content, _, add_senda_marks hgiven⟩
    | none =>
      dsimp only at h
      obtain ⟨⟨f, t⟩, ht, h⟩ := bind_ok.mp h
      obtain ⟨rfl, rfl⟩ := Prod.mk.inj (pure_ok.mp h)
      rcases tryAsync_marks ht with ⟨rfl, hlooked⟩ | ⟨rfl, content, source, hgiven⟩
      · exact .inl ⟨rfl, hlooked⟩
      · exact .inr ⟨rfl, content, source, add_senda_marks hgiven⟩
  · obtain ⟨rfl, rfl⟩ := Prod.mk.inj (pure_ok.mp h)
    exact .inl ⟨rfl, .inl rfl⟩

theorem receiveNotify_marks {src : Option (Slot H)} {t : KState H M}
    (h : receiveNotify s p src = .ok (some t)) : (s.marks p).pend = false ∧
      ∃ m, t.marks = Function.update s.marks p ((s.marks p).notify m) := by
  rw [receiveNotify] at h
  split at h
  · cases h
  · rename_i hpend
    obtain ⟨found, -, h⟩ := bind_ok.mp h
    cases found with
    | none => cases h
    | some found =>
      obtain rfl := Option.some.inj (pure_ok.mp h)
      exact ⟨Bool.eq_false_iff.mpr hpend, _, acceptNotify_marks _ _⟩

theorem passKernelFlag_marks : (passKernelFlag s p q).marks = s.marks.passFlag p q := by
  rw [passKernelFlag, Marks.passFlag]
  change (if (s.marks q).kernel then _ else _ : KState H M).marks = _
  split
  · have hstatus := marks_upd (s := s) (i := p) (·.ipcStatusAdd .msgFromKernel)
    rw [mark_ipcStatusAdd] at hstatus
    rw [marks_upd, mark_clear_kernel, hstatus]
    refine congrArg _ (congrArg (fun y : Mark H M => { y with kernel := false }) ?_)
    exact congrFun hstatus q
  · rfl

theorem receiveQueued_marks {src : Option (Slot H)} {t : KState H M}
    (h : receiveQueued s p src = .ok (some t)) : ∃ q xpp W, s.marks.callerAt p xpp = some q ∧
      (s.marks q).free = false ∧ (s.marks q).ended = false ∧ (s.marks.pick p q).Given W ∧
      t.marks = W.unlink p q xpp := by
  rw [receiveQueued] at h
  split at h
  · cases h
  · rename_i xpp _
    split at h
    · cases h
    · rename_i q hq
      obtain ⟨hused, h⟩ := kassert_bind_ok.mp h
      obtain ⟨halive, h⟩ := kassert_bind_ok.mp h
      obtain ⟨-, h⟩ := kassert_bind_ok.mp h
      rw [Bool.not_eq_true'] at hused halive
      obtain ⟨u, hu, h⟩ := bind_ok.mp h
      obtain ⟨w, hw, h⟩ := bind_ok.mp h
      obtain rfl := Option.some.inj (pure_ok.mp h)
      have haccept := marks_upd (s := s) (i := p) fun x =>
        x.accept (s.proc q).sendmsg (s.proc q).endpoint
      rw [mark_accept] at haccept
      have hreleased : u.marks = Function.update (KState.marks (s.upd p _)) q
          { KState.marks (s.upd p _) q with sending := false } :=
        (rtsUnset_marks hu).trans (congrArg _ (mark_clear_sending _))
      rw [haccept] at hreleased
      have hstatus := marks_upd (s := u) (i := p) (·.ipcStatusAdd
        (.call (if (u.proc q).miscIsset MF_REPLY_PEND then CallNr.SENDREC else .SEND)))
      rw [mark_ipcStatusAdd] at hstatus
      have hpicked : (passKernelFlag (u.upd p (·.ipcStatusAdd (.call
          (if (u.proc q).miscIsset MF_REPLY_PEND then CallNr.SENDREC else .SEND)))) p q).marks =
          s.marks.pick p q := by
        rw [passKernelFlag_marks, hstatus, Marks.pick]
        change Marks.passFlag (Function.update u.marks p ((u.marks p).addStatus
          (.call (u.marks.queuedCall q)))) p q = _
        rw [hreleased]
        rfl
      refine ⟨q, xpp, w.marks, ?_, hused, halive, hpicked ▸ sendDelayed_marks hw, ?_⟩
      · cases xpp with
        | head => exact hq
        | link i => exact hq
      · have hset := marks_setCallers (s := w) p xpp (w.proc q).qLink
        rw [marks_upd, hset, Marks.unlink]
        refine congrArg _ ?_
        exact congrArg (fun y : Mark H M => { y with qLink := none }) (congrFun hset q)

theorem receiveAvailable_marks {src : Option (Slot H)} {found : Bool}
    (h : receiveAvailable s p src = .ok (found, s')) (e : ℤ) :
    found = false ∧ s.marks.Looked p s'.marks ∨
    found = true ∧ s.marks.Received p e .OK (s'.marks.stopPend p) := by
  rw [receiveAvailable] at h
  split at h
  · obtain ⟨rfl, rfl⟩ := Prod.mk.inj (pure_ok.mp h)
    exact .inl ⟨rfl, .inl rfl⟩
  · rename_i hidle
    have hsending : (s.marks p).sending = false := Bool.eq_false_iff.mpr hidle
    obtain ⟨t, ht, h⟩ := bind_ok.mp h
    cases t with
    | some t =>
      obtain ⟨rfl, rfl⟩ := Prod.mk.inj (pure_ok.mp h)
      obtain ⟨hpend, m, hmarks⟩ := receiveNotify_marks ht
      rw [hmarks]
      exact .inr ⟨rfl, .notified hsending hpend⟩
    | none =>
      obtain ⟨⟨f, t⟩, hasync, h⟩ := bind_ok.mp h
      rcases receiveAsync_marks hasync with ⟨rfl, hlooked⟩ | ⟨rfl, content, source, hmarks⟩
      · obtain ⟨u, hu, h⟩ := bind_ok.mp h
        cases u with
        | none =>
          obtain ⟨rfl, rfl⟩ := Prod.mk.inj (pure_ok.mp h)
          exact .inl ⟨rfl, hlooked⟩
        | some u =>
          obtain ⟨rfl, rfl⟩ := Prod.mk.inj (pure_ok.mp h)
          obtain ⟨q, xpp, W, hq, hused, halive, hgiven, hmarks⟩ := receiveQueued_marks hu
          rw [hmarks]
          exact .inr ⟨rfl, .queued hsending hlooked hq hused halive hgiven⟩
      · obtain ⟨rfl, rfl⟩ := Prod.mk.inj (pure_ok.mp h)
        rw [hmarks]
        exact .inr ⟨rfl, .async hsending⟩

theorem miniReceive_marks {mBuffUsr : ℕ} {nonBlocking : Bool}
    (h : miniReceive s p e mBuffUsr nonBlocking = .ok (r, s')) :
    s.marks.Received p e r s'.marks := by
  have hbuff : (s.upd p fun x => { x with delivermsgVir := mBuffUsr }).marks = s.marks :=
    marks_upd_same rfl
  rw [miniReceive] at h
  obtain ⟨-, h⟩ := kassert_bind_ok.mp h
  obtain ⟨src, -, h⟩ := bind_ok.mp h
  split at h
  · obtain ⟨rfl, rfl⟩ := Prod.mk.inj (pure_ok.mp h)
    exact .failed (by decide) (.inl hbuff)
  · obtain ⟨⟨found, t⟩, ht, h⟩ := bind_ok.mp h
    have hfound := receiveAvailable_marks ht e
    rw [hbuff] at hfound
    rcases hfound with ⟨rfl, hlooked⟩ | ⟨rfl, hreceived⟩
    · dsimp only at h
      rw [if_neg (by decide)] at h
      split at h
      · obtain ⟨rfl, rfl⟩ := Prod.mk.inj (pure_ok.mp h)
        exact .failed (by decide) hlooked
      · obtain ⟨group, -, h⟩ := bind_ok.mp h
        split at h
        · obtain ⟨rfl, rfl⟩ := Prod.mk.inj (pure_ok.mp h)
          exact .failed (by decide) hlooked
        · obtain ⟨u, hu, h⟩ := bind_ok.mp h
          obtain ⟨rfl, rfl⟩ := Prod.mk.inj (pure_ok.mp h)
          have hwait := marks_upd (s := t) (i := p) fun x => { x with getfromE := e }
          have hmarks := rtsSet_marks hu
          rw [hwait, mark_set_receiving, upd_proc_self, Function.update_idem] at hmarks
          rw [hmarks]
          exact .waits hlooked
    · dsimp only at h
      rw [if_pos rfl] at h
      obtain ⟨rfl, rfl⟩ := Prod.mk.inj (pure_ok.mp h)
      rw [marks_upd, mark_clear_pend]
      exact hreceived

end Operations

end Kernel
