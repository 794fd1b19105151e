import Cs111.Kernel.Delivery
import Cs111.Kernel.IpcStatus

namespace Kernel
open Minix FlagWord Chain TransitionSystem
variable {H : Headers} {M : Type}

inductive AuthEvent (H : Headers) (M : Type) where
  | ipc (e : CallEvent H M)
  | noTime
  | clearEndpoint (rc : Slot H)
  | clearIpcRefs (rc : Slot H) (callerRet : Errno)
  | doClear (prEndpt : ℤ) (result : Errno)

def AuthEvent.Happens (s : KState H M) (p : Slot H) (s' : KState H M) : AuthEvent H M → Prop
  | .ipc e => e.Happens s p s'
  | .noTime => (s.proc p).isRunnable = true ∧ procNoTime (s.switchTo p) p = .ok s'
  | .clearEndpoint rc => (s.proc p).isRunnable = true ∧
      Kernel.clearEndpoint (s.switchTo p) rc = .ok s'
  | .clearIpcRefs rc callerRet => (s.proc p).isRunnable = true ∧
      Kernel.clearIpcRefs (s.switchTo p) rc callerRet = .ok s'
  | .doClear e r => (s.proc p).isRunnable = true ∧ Kernel.doClear (s.switchTo p) e = .ok (r, s')

def authSystem (H : Headers) (M : Type) :
    TransitionSystem (KState H M) (Slot H × AuthEvent H M) where
  initial s := ∀ i, (s.proc i).miscIsset MF_SENDING_FROM_KERNEL = false
  step s e s' := e.2.Happens s e.1 s'

def AuthEvent.statusBefore (s : KState H M) (p d : Slot H) : AuthEvent H M → List StatusItem
  | .ipc e => e.statusBefore s p d
  | _ => (s.proc d).ipcStatus

def FromKernelAuthentic (s : KState H M) (p : Slot H) (e : AuthEvent H M) (s' : KState H M) : Prop :=
  ∀ d items, (s'.proc d).ipcStatus = items ++ e.statusBefore s p d → .msgFromKernel ∈ items →
    (s'.proc d).delivermsg.body = .schedulingNoQuantum

def NoneSendsForKernel (s : KState H M) (rc : Slot H) : Prop :=
  ∀ q, (s.proc q).miscIsset MF_SENDING_FROM_KERNEL = true →
    (s.proc q).blockedOn ≠ (s.proc rc).endpoint

def KeepsKernelSenders (s : KState H M) : AuthEvent H M → Prop
  | .clearEndpoint rc => NoneSendsForKernel s rc
  | .clearIpcRefs rc _ => NoneSendsForKernel s rc
  | .doClear e _ => ∀ rc, isokendpt s e = some rc → NoneSendsForKernel s rc
  | _ => True

def Vouched (item : StatusItem) (msg : Message M) : Prop :=
  item = .msgFromKernel → msg.body = .schedulingNoQuantum

namespace Mark

def Sealed (x : Mark H M) : Prop :=
  x.kernel = true → x.free = true ∨ x.ended = true ∨
    x.sending = true ∧ x.sendmsg.body = .schedulingNoQuantum

section Status
variable {x : Mark H M}

theorem receiveSent_sealed {flags : SendFlags} {call : CallNr} {m : Message M} {source : ℤ}
    (h : x.Sealed) : (x.receiveSent flags call m source).Sealed := by
  obtain ⟨l, hl⟩ := receiveSent_eq (x := x) flags call m source
  rw [hl]
  exact h

theorem accept_sealed {m : Message M} {source : ℤ} {call : CallNr} (h : x.Sealed) :
    ((x.accept m source).addStatus (.call call)).Sealed := by
  obtain ⟨l, hl⟩ := addStatus_eq (x := x.accept m source) (.call call)
  rw [hl]
  exact h

theorem Running.unmarked (h : x.Running) (hsealed : x.Sealed) : x.kernel = false := by
  refine Bool.eq_false_iff.mpr fun hkernel => ?_
  rcases hsealed hkernel with hfree | hended | ⟨hsending, -⟩
  · rw [h.free] at hfree
    cases hfree
  · rw [h.ended] at hended
    cases hended
  · rw [h.sending] at hsending
    cases hsending

end Status

end Mark

namespace Marks

def Sealed (V : Marks H M) : Prop := ∀ i, (V i).Sealed
def SameStatus (V V' : Marks H M) : Prop := ∀ i, (V' i).status = (V i).status

section Steps
variable {V V' W : Marks H M} {p q d : Slot H} {e : ℤ} {r : Errno} {m : Option (Message M)}
variable {flags : SendFlags}

theorem Sealed.update {x : Mark H M} (h : V.Sealed) (hx : x.Sealed) :
    Sealed (Function.update V d x) := by
  intro i
  by_cases hi : i = d
  · subst hi
    rw [Function.update_self]
    exact hx
  · rw [Function.update_of_ne hi]
    exact h i

theorem Sealed.setCallers {xpp : Cell (Slot H)} {v : Option (Slot H)} (h : V.Sealed) :
    (V.setCallers d xpp v).Sealed := by
  intro i
  obtain ⟨c, l, hsame⟩ := setCallers_apply V d xpp v i
  rw [hsame]
  exact h i

theorem Sealed.stopPend (h : V.Sealed) : (V.stopPend p).Sealed := h.update (h p)

theorem Sealed.looked (h : V.Sealed) (hlooked : V.Looked p V') : V'.Sealed := by
  intro i
  obtain ⟨a, hsame⟩ := hlooked.apply i
  rw [hsame]
  exact h i

theorem Sealed.given (h : V.Sealed) (hgiven : V.Given V') : V'.Sealed := by
  intro i
  rcases hgiven.apply i with hsame | ⟨_, m, -, -, hnotified⟩
  · rw [hsame]
    exact h i
  · rw [hnotified]
    exact Mark.accept_sealed (h i)

theorem status_update {x : Mark H M} (h : x.status = (V d).status) (i : Slot H) :
    (Function.update V d x i).status = (V i).status := by
  by_cases hi : i = d
  · subst hi
    rw [Function.update_self, h]
  · rw [Function.update_of_ne hi]

theorem Sealed.sent (h : V.Sealed) (hp : (V p).kernel = false)
    (hbody : flags.fromKernel = true → ∀ msg, m = some msg → msg.body = .schedulingNoQuantum)
    (hsent : V.Sent p e m flags r V') : V'.Sealed := by
  cases hsent with
  | refused => exact h
  | delivered => exact h.update (Mark.receiveSent_sealed (h _))
  | @blocked d msg xpp _ _ _ _ hm =>
    refine (h.update ?_).setCallers
    intro hkernel
    refine .inr (.inr ⟨rfl, hbody ?_ msg hm⟩)
    rw [Mark.hold, hp] at hkernel
    exact hkernel

theorem pick_unmarked (hsending : (V p).sending = false) (hkernel : (V p).kernel = false) :
    (V.pick p q p).kernel = false := by
  rw [pick_receiver hsending fun _ => hkernel]
  split <;> simpa [Mark.accept] using hkernel

theorem Sealed.pick (h : V.Sealed) (hsending : (V p).sending = false)
    (hkernel : (V p).kernel = false) : (V.pick p q).Sealed := by
  intro i
  by_cases hp : i = p
  · subst hp
    intro hmarked
    rw [pick_unmarked hsending hkernel] at hmarked
    cases hmarked
  · by_cases hq : i = q
    · subst hq
      intro hmarked
      rw [pick_sender hp] at hmarked
      cases hmarked
    · rw [pick_other hp hq]
      exact h i

theorem Sealed.received (h : V.Sealed) (hkernel : (V p).kernel = false)
    (hreceived : V.Received p e r V') : V'.Sealed := by
  cases hreceived with
  | failed _ hlooked => exact h.looked hlooked
  | notified => exact (h.update (Mark.accept_sealed (h p))).stopPend
  | async => exact (h.update (Mark.accept_sealed (h p))).stopPend
  | @queued q xpp V₀ W hsending hlooked _ _ _ hgiven =>
    obtain ⟨a, hlook⟩ := hlooked.apply p
    have hpicked : (V₀.pick p q).Sealed :=
      (h.looked hlooked).pick (by rw [hlook]; exact hsending) (by rw [hlook]; exact hkernel)
    have hunlinked : (W.unlink p q xpp).Sealed := by
      intro i
      obtain ⟨c, l, hsame⟩ := unlink_apply W p q xpp i
      rw [hsame]
      exact hpicked.given hgiven i
    exact hunlinked.stopPend
  | waits hlooked =>
    exact (h.looked hlooked).update (h.looked hlooked p)

theorem Posted.sealed (h : V.Posted p V') (hV : V.Sealed) : V'.Sealed := by
  induction h with
  | start => exact hV
  | given _ _ _ ih => exact ih.update (Mark.accept_sealed (ih _))
  | hinted _ ih => exact ih.update (ih _)

theorem unsent_body {n : Bool} {msg : Option (Message M)} :
    (SendFlags.mk n false).fromKernel = true →
    ∀ m, msg = some m → m.body = .schedulingNoQuantum := fun h => by cases h

theorem Sealed.startPend (h : V.Sealed) : (V.startPend p).Sealed := by
  refine h.update ?_
  exact h p

theorem Sealed.freshStatus (h : V.Sealed) : (V.freshStatus p).Sealed := by
  refine h.update ?_
  exact h p

theorem startPend_caller (hrunning : (V p).Running) (hV : V.Sealed) :
    ((V.startPend p) p).receiving = false ∧ ((V.startPend p) p).kernel = false := by
  rw [Marks.startPend, Function.update_self]
  exact ⟨hrunning.receiving, hrunning.unmarked (hV p)⟩

theorem freshStatus_caller (hrunning : (V p).Running) (hV : V.Sealed) :
    ((V.freshStatus p) p).receiving = false ∧ ((V.freshStatus p) p).kernel = false := by
  rw [Marks.freshStatus, Function.update_self]
  exact ⟨hrunning.receiving, hrunning.unmarked (hV p)⟩

theorem Called.sealed {c : IpcCall M} (h : V.Called p c r V') (hV : V.Sealed)
    (hrunning : (V p).Running) : V'.Sealed := by
  have hkernel := hrunning.unmarked (hV p)
  obtain ⟨hidle, hpend⟩ := startPend_caller hrunning hV
  cases h with
  | sent _ hsent => exact hV.sent hkernel unsent_body hsent
  | sentnb _ hsent => exact hV.sent hkernel unsent_body hsent
  | unsent _ _ hsent => exact hV.startPend.sent hpend unsent_body hsent
  | sendrec _ hsent hreceived =>
    have hW := hV.startPend.sent hpend unsent_body hsent
    obtain ⟨-, -, -, hkept⟩ := hsent.caller hidle
    exact hW.received ((hkept rfl).trans hpend) hreceived
  | received _ hreceived =>
    exact hV.freshStatus.received (freshStatus_caller hrunning hV).2 hreceived
  | notified _ hgiven => exact hV.given hgiven

end Steps

end Marks

section Exits
variable {s s' : KState H M} {p rc rp : Slot H} {callerRet r : Errno}

theorem clearRef_marks (h : clearRef rc callerRet s rp = .ok s') : s'.marks = s.marks ∨
    (s.marks rp).blockedOn = (s.marks rc).endpoint ∧
    s'.marks = Function.update s.marks rp
      { s.marks rp with sending := false, receiving := false } := by
  rw [clearRef] at h
  split at h
  · cases h
    exact .inl rfl
  · dsimp only at h
    split at h
    · rename_i hblocked
      have hmarks := rtsUnset_marks h
      have hret : (KState.upd (s.updPriv (s.proc rp).priv fun x =>
          { x with sNotifyPending := unsetSysBit x.sNotifyPending (s.proc rc).priv }) rp
          fun x => { x with retreg := callerRet }).marks = s.marks := marks_upd_same rfl
      rw [hret, upd_proc_self, mark_clear_both] at hmarks
      exact .inr ⟨hblocked, hmarks⟩
    · cases h
      exact .inl rfl

theorem clear_refs_sealed {l : List (Slot H)} (hs : s.marks.Sealed)
    (hnone : ∀ q, (s.marks q).kernel = true →
      (s.marks q).ended = true ∨ (s.marks q).blockedOn ≠ (s.marks rc).endpoint)
    (h : l.foldlM (clearRef rc callerRet) s = .ok s') :
    s'.marks.Sealed ∧ s.marks.SameStatus s'.marks := by
  induction l generalizing s with
  | nil =>
    obtain rfl := pure_ok.mp h
    exact ⟨hs, fun _ => rfl⟩
  | cons rp l ih =>
    rw [List.foldlM_cons] at h
    obtain ⟨t, ht, h⟩ := bind_ok.mp h
    rcases clearRef_marks ht with hsame | ⟨hblocked, hfreed⟩
    · have hrest := ih (by rw [hsame]; exact hs) (by rw [hsame]; exact hnone) h
      rw [hsame] at hrest
      exact hrest
    · have hgone : (s.marks rp).kernel = true → (s.marks rp).ended = true :=
        fun hkernel => (hnone rp hkernel).resolve_right fun hne => hne hblocked
      have hendpoint : (t.marks rc).endpoint = (s.marks rc).endpoint := by
        rw [hfreed]
        by_cases hrc : rc = rp
        · subst hrc
          rw [Function.update_self]
        · rw [Function.update_of_ne hrc]
      have hsealed : t.marks.Sealed := by
        rw [hfreed]
        exact hs.update fun hkernel => .inr (.inl (hgone hkernel))
      obtain ⟨hrest, hstatus⟩ := ih hsealed (fun q hkernel => by
        rw [hendpoint]
        rw [hfreed] at hkernel ⊢
        by_cases hq : q = rp
        · subst hq
          rw [Function.update_self] at hkernel ⊢
          exact .inl (hgone hkernel)
        · rw [Function.update_of_ne hq] at hkernel ⊢
          exact hnone q hkernel) h
      refine ⟨hrest, fun i => (hstatus i).trans ?_⟩
      rw [hfreed]
      exact Marks.status_update (by rfl) i

theorem stop_sending_marks {t : KState H M} {i : Slot H}
    (ht : ∃ c l, t.marks i = { s.marks i with callerQ := c, qLink := l }) : ∃ c l b,
    (t.setRts rc ((t.proc rc).rtsFlags &&& ~~~RTS_SENDING)).marks i =
      { s.marks i with callerQ := c, qLink := l, sending := b } ∧
    (i ≠ rc → b = (s.marks i).sending) := by
  obtain ⟨c, l, hlinks⟩ := ht
  rw [KState.setRts, marks_upd, mark_clear_sending]
  by_cases hi : i = rc
  · subst hi
    refine ⟨c, l, false, ?_, fun hne => absurd rfl hne⟩
    rw [Function.update_self]
    change { t.marks i with sending := false } = _
    rw [hlinks]
  · refine ⟨c, l, (s.marks i).sending, ?_, fun _ => rfl⟩
    rw [Function.update_of_ne hi, hlinks]

theorem unlinkSender_marks (h : unlinkSender s rc = .ok s') (i : Slot H) : ∃ c l b,
    s'.marks i = { s.marks i with callerQ := c, qLink := l, sending := b } ∧
    (i ≠ rc → b = (s.marks i).sending) := by
  rw [unlinkSender] at h
  split at h
  · obtain ⟨target, -, h⟩ := bind_ok.mp h
    split at h
    · cases h
    · rename_i xpp _
      cases hget : (s.callers target).get xpp with
      | none =>
        rw [hget] at h
        obtain rfl := pure_ok.mp h
        exact stop_sending_marks ⟨(s.marks i).callerQ, (s.marks i).qLink, rfl⟩
      | some xp =>
        rw [hget] at h
        obtain rfl := pure_ok.mp h
        refine stop_sending_marks ?_
        rw [marks_setCallers]
        exact setCallers_apply ..
  · obtain rfl := Except.ok.inj h
    exact ⟨(s.marks i).callerQ, (s.marks i).qLink, (s.marks i).sending, rfl, fun _ => rfl⟩

theorem clearIpc_marks (h : clearIpc s rc = .ok s') (i : Slot H) : ∃ c l b g,
    s'.marks i = { s.marks i with callerQ := c, qLink := l, sending := b, receiving := g } ∧
    (i ≠ rc → b = (s.marks i).sending ∧ g = (s.marks i).receiving) := by
  rw [clearIpc] at h
  obtain ⟨t, ht, h⟩ := bind_ok.mp h
  obtain rfl := pure_ok.mp h
  obtain ⟨c, l, b, hunlinked, hother⟩ := unlinkSender_marks ht i
  rw [KState.setRts, marks_upd, mark_clear_receiving]
  by_cases hi : i = rc
  · subst hi
    refine ⟨c, l, b, false, ?_, fun hne => absurd rfl hne⟩
    rw [Function.update_self]
    change { t.marks i with receiving := false } = _
    rw [hunlinked]
  · refine ⟨c, l, b, (s.marks i).receiving, ?_, fun hne => ⟨hother hne, rfl⟩⟩
    rw [Function.update_of_ne hi, hunlinked]

theorem clearEndpoint_sealed (hs : s.marks.Sealed)
    (hnone : ∀ q, (s.marks q).kernel = true → (s.marks q).blockedOn ≠ (s.marks rc).endpoint)
    (h : clearEndpoint s rc = .ok s') : s'.marks.Sealed ∧ s.marks.SameStatus s'.marks := by
  rw [clearEndpoint] at h
  split at h
  · cases h
  · obtain ⟨t, ht, h⟩ := bind_ok.mp h
    obtain ⟨u, hu, h⟩ := bind_ok.mp h
    have hended : (clearAsynsize t rc).marks = Function.update s.marks rc
        { s.marks rc with ended := true } := by
      have hsame : (clearAsynsize t rc).marks = t.marks := by
        rw [clearAsynsize]
        split <;> rfl
      rw [hsame, rtsSet_marks ht, mark_set_ended]
      rfl
    have hcleared := clearIpc_marks hu
    rw [hended] at hcleared
    have hrc : (u.marks rc).ended = true := by
      obtain ⟨c, l, b, g, hrc, -⟩ := hcleared rc
      rw [hrc, Function.update_self]
    have hother : ∀ i, i ≠ rc → ∃ c l, u.marks i = { s.marks i with callerQ := c, qLink := l } := by
      intro i hi
      obtain ⟨c, l, b, g, hmarks, hkept⟩ := hcleared i
      obtain ⟨rfl, rfl⟩ := hkept hi
      rw [Function.update_of_ne hi] at hmarks
      exact ⟨c, l, hmarks⟩
    have hendpoint : (u.marks rc).endpoint = (s.marks rc).endpoint := by
      obtain ⟨c, l, b, g, hrc, -⟩ := hcleared rc
      rw [hrc, Function.update_self]
    have hstatus : s.marks.SameStatus u.marks := by
      intro i
      obtain ⟨c, l, b, g, hmarks, -⟩ := hcleared i
      rw [hmarks]
      exact Marks.status_update (by rfl) i
    have hsealed : u.marks.Sealed := by
      intro i
      by_cases hi : i = rc
      · subst hi
        exact fun _ => .inr (.inl hrc)
      · obtain ⟨c, l, hmarks⟩ := hother i hi
        rw [hmarks]
        exact hs i
    have hrefs := clear_refs_sealed hsealed (fun q hkernel => by
      by_cases hq : q = rc
      · subst hq
        exact .inl hrc
      · obtain ⟨c, l, hmarks⟩ := hother q hq
        rw [hendpoint]
        rw [hmarks] at hkernel ⊢
        exact .inr (hnone q hkernel)) h
    exact ⟨hrefs.1, fun i => (hrefs.2 i).trans (hstatus i)⟩

theorem rtsSetflags_marks {f : Flags} (h : rtsSetflags s rp f = .ok s') : s'.marks =
    Function.update s.marks rp ((s.proc rp).setRts f).mark := by
  rw [rtsSetflags] at h
  by_cases hon : (s.proc rp).isRunnable && f != 0#16
  · rw [if_pos hon] at h
    obtain ⟨t, ht, h⟩ := bind_ok.mp h
    obtain rfl := pure_ok.mp h
    have hproc := (Rescheduled.dequeue ht).1
    have hsame : t.marks = s.marks := funext fun i => congrArg Proc.mark (congrFun hproc i)
    rw [KState.setRts, marks_upd, hsame, hproc]
  · rw [if_neg hon] at h
    obtain rfl := pure_ok.mp h
    exact marks_upd _

theorem doClear_sealed {e : ℤ} (hs : s.marks.Sealed)
    (hnone : ∀ rc, isokendpt s e = some rc → ∀ q, (s.marks q).kernel = true →
      (s.marks q).blockedOn ≠ (s.marks rc).endpoint)
    (h : doClear s e = .ok (r, s')) : s'.marks.Sealed ∧ s.marks.SameStatus s'.marks := by
  rw [doClear] at h
  split at h
  · cases h
    exact ⟨hs, fun _ => rfl⟩
  · rename_i rc hrc
    split at h
    · cases h
      exact ⟨hs, fun _ => rfl⟩
    · obtain ⟨t, ht, h⟩ := bind_ok.mp h
      obtain ⟨u, hu, h⟩ := bind_ok.mp h
      obtain ⟨-, rfl⟩ := Prod.mk.inj (pure_ok.mp h)
      obtain ⟨hsealed, hstatus⟩ := clearEndpoint_sealed hs (hnone rc hrc) ht
      have hvacant : (releasePriv (u.upd rc (·.clearMisc MF_FPU_INITIALIZED)) rc).marks =
          Function.update t.marks rc ((t.proc rc).setRts RTS_SLOT_FREE).mark := by
        have hsame : (releasePriv (u.upd rc (·.clearMisc MF_FPU_INITIALIZED)) rc).marks =
            (u.upd rc (·.clearMisc MF_FPU_INITIALIZED)).marks := by
          rw [releasePriv]
          split <;> rfl
        rw [hsame, marks_upd_same (mark_clearMisc (by decide) (by decide) (by decide)),
          rtsSetflags_marks hu]
      rw [hvacant, mark_setRts]
      have hfree : isset RTS_SLOT_FREE RTS_SLOT_FREE = true := by decide
      exact ⟨hsealed.update fun _ => .inl hfree,
        fun i => (Marks.status_update (by rfl) i).trans (hstatus i)⟩

theorem procNoTime_sealed (hs : s.marks.Sealed) (hrun : (s.proc p).isRunnable = true)
    (h : procNoTime s p = .ok s') : s'.marks.Sealed ∧ ∀ d, (s.marks d).Adds Vouched (s'.marks d) := by
  rw [procNoTime] at h
  split at h
  · rw [notifyScheduler] at h
    obtain ⟨-, h⟩ := kassert_bind_ok.mp h
    obtain ⟨t, ht, h⟩ := bind_ok.mp h
    have hsame := rtsSet_beyond (by decide) ht
    split at h
    · cases h
    · obtain ⟨⟨err, u⟩, hu, h⟩ := bind_ok.mp h
      dsimp only at h
      split at h
      · cases h
      · obtain rfl := pure_ok.mp h
        have hsent := miniSend_marks hu
        rw [hsame] at hsent
        have hbody : ∀ msg, some (⟨(t.proc p).endpoint, .schedulingNoQuantum⟩ : Message M) =
            some msg → msg.body = .schedulingNoQuantum := by
          rintro msg ⟨⟩
          rfl
        exact ⟨hs.sent ((marks_running hrun).unmarked (hs p)) (fun _ => hbody) hsent,
          fun d => (hsent.adds d fun msg hm => ⟨(by rintro ⟨⟩), fun _ _ => hbody msg hm⟩).1⟩
  · cases h
    rw [marks_upd_same rfl]
    exact ⟨hs, fun _ => .of_eq rfl⟩

end Exits

section Authenticity
variable {s s' : KState H M} {p : Slot H}

theorem callEvent_sealed {e : CallEvent H M} (hs : s.marks.Sealed) (h : e.Happens s p s') :
    s'.marks.Sealed := by
  cases e with
  | call c r =>
    rcases doSyncIpc_marks h.2.2 with ⟨-, rfl⟩ | ⟨-, hcalled⟩
    · exact hs
    · exact hcalled.sealed hs (marks_running h.1)
  | senda c r => exact (doSenda_marks h.2.2).sealed hs
  | deliver m =>
    rw [delivermsg_marks h.2]
    exact hs.update (hs p)
  | rtsSet q f =>
    rw [rtsSet_beyond h.2.1 h.2.2]
    exact hs
  | rtsUnset q f =>
    rw [rtsUnset_beyond h.1 h.2]
    exact hs

theorem told_vouched {V V' : Marks H M} {c : IpcCall M} {d : Slot H} {item : StatusItem}
    {msg : Message M} (hV : V.Sealed) (h : V.Told V' p c d item msg) : Vouched item msg := by
  rintro rfl
  cases h with
  | queued _ hqueue =>
    obtain ⟨q, xpp, -, hused, halive, -, rfl, hcall | ⟨-, hkernel⟩⟩ := hqueue
    · cases hcall
    · rcases hV.freshStatus q hkernel with hfree | hended | ⟨-, hbody⟩
      · rw [hused] at hfree
        cases hfree
      · rw [halive] at hended
        cases hended
      · exact hbody

theorem callEvent_vouched {e : CallEvent H M} (hs : s.marks.Sealed) (h : e.Happens s p s')
    (d : Slot H) : ∃ items, (s'.proc d).ipcStatus = items ++ e.statusBefore s p d ∧
      ∀ item ∈ items, Vouched item (s'.proc d).delivermsg := by
  have hsame : ∀ {V' : Marks H M}, s'.marks = V' → (V' d).status = (s.marks d).status →
      ∃ items, (s'.proc d).ipcStatus = items ++ (s.proc d).ipcStatus ∧
        ∀ item ∈ items, Vouched item (s'.proc d).delivermsg := by
    rintro V' rfl hstatus
    exact (.of_eq hstatus : Mark.Adds Vouched _ _)
  cases e with
  | call c r =>
    rcases doSyncIpc_marks h.2.2 with ⟨hrefuse, rfl⟩ | ⟨hrefuse, hcalled⟩
    · rw [statusBefore_refused hrefuse]
      exact hsame rfl rfl
    · have hrunning : ((s.switchTo p).marks p).Running := marks_running h.1
      have hself : (s.switchTo p).marks.Unqueued p := fun _ _ _ => hrunning.unmarked (hs p)
      rw [statusBefore_found hrefuse]
      exact (hcalled.adds hrunning hself d).mono fun item htold => told_vouched hs htold
  | senda c r =>
    refine ((doSenda_marks h.2.2).adds d).mono ?_
    rintro item rfl hcall
    cases hcall
  | deliver m => exact hsame (delivermsg_marks h.2) (Marks.status_update (by rfl) d)
  | rtsSet q f => exact hsame (rtsSet_beyond h.2.1 h.2.2) rfl
  | rtsUnset q f => exact hsame (rtsUnset_beyond h.1 h.2) rfl

theorem authEvent_step {e : AuthEvent H M} (hs : s.marks.Sealed) (hok : KeepsKernelSenders s e)
    (h : e.Happens s p s') : s'.marks.Sealed ∧ ∀ d, ∃ items,
      (s'.proc d).ipcStatus = items ++ e.statusBefore s p d ∧
      ∀ item ∈ items, Vouched item (s'.proc d).delivermsg := by
  cases e with
  | ipc e => exact ⟨callEvent_sealed hs h, callEvent_vouched hs h⟩
  | noTime => exact procNoTime_sealed (s := s.switchTo p) hs h.1 h.2
  | clearEndpoint rc =>
    obtain ⟨hsealed, hstatus⟩ := clearEndpoint_sealed (s := s.switchTo p) hs hok h.2
    exact ⟨hsealed, fun d => Mark.Adds.of_eq (hstatus d)⟩
  | clearIpcRefs rc callerRet =>
    obtain ⟨hsealed, hstatus⟩ := clear_refs_sealed (s := s.switchTo p) hs
      (fun q hkernel => .inr (hok q hkernel)) h.2
    exact ⟨hsealed, fun d => Mark.Adds.of_eq (hstatus d)⟩
  | doClear prEndpt r =>
    obtain ⟨hsealed, hstatus⟩ := doClear_sealed (s := s.switchTo p) hs hok h.2
    exact ⟨hsealed, fun d => Mark.Adds.of_eq (hstatus d)⟩

end Authenticity

theorem fromKernelAuthentic {past : List (KState H M × Slot H × AuthEvent H M)}
    {s s' : KState H M} {p : Slot H} {e : AuthEvent H M}
    (h : Run (authSystem H M) (fun _ s e => KeepsKernelSenders s e.2) ((s, p, e) :: past) s') :
    FromKernelAuthentic s p e s' := by
  cases h with
  | next hrun hok hstep =>
    have hsealed : s.marks.Sealed := by
      refine hrun.invariant (P := fun s => s.marks.Sealed) ?_ ?_
      · intro s hinit i hkernel
        rw [show (s.marks i).kernel = false from hinit i] at hkernel
        cases hkernel
      · intro _ s e s' hs hok hstep
        exact (authEvent_step hs hok hstep).1
    intro d items hitems hmem
    obtain ⟨items', hitems', hvouched⟩ := (authEvent_step hsealed hok hstep).2 d
    have hsame : items = items' := List.append_cancel_right (hitems.symm.trans hitems')
    exact hvouched _ (hsame ▸ hmem) rfl

def scheduledFive : KState Headers.sample ℕ :=
  (KState.sample fun i => if i = 5 ∨ i = 6 ∨ i = 7 then 0 else RTS_SLOT_FREE).upd 5
    fun x => { x with scheduler := some 6 }

theorem scheduledFive_unmarked :
    ∀ i, (scheduledFive.proc i).miscIsset MF_SENDING_FROM_KERNEL = false := by decide

theorem fromKernelAuthentic_quantum : ∃ past s s',
    Run (authSystem Headers.sample ℕ) (fun _ s e => KeepsKernelSenders s e.2)
      ((s, 6, .ipc (.call receiveAny .OK)) :: past) s' ∧
    (s'.proc 6).ipcStatus = [.msgFromKernel, .call .SEND] ∧
    FromKernelAuthentic s 6 (.ipc (.call receiveAny .OK)) s' := by
  have hrun : Run (authSystem Headers.sample ℕ) (fun _ s e => KeepsKernelSenders s e.2)
      [(_, 6, .ipc (.call receiveAny .OK)), (scheduledFive, 5, .noTime)] _ :=
    .next (.next (.start scheduledFive_unmarked) trivial ⟨rfl, rfl⟩) trivial ⟨rfl, rfl, rfl⟩
  exact ⟨_, _, _, hrun, rfl, fromKernelAuthentic hrun⟩

def staleMark : Except Fault Bool := do
  let s₁ ← procNoTime (scheduledFive.switchTo 5) 5
  let (r₂, s₂) ← doClear (s₁.switchTo 7) (Headers.sample.endpoint 1 2)
  let s₃ ← rtsUnset (s₂.switchTo 7) 5 RTS_NO_QUANTUM
  let (r₄, s₄) ← doSyncIpc (s₃.switchTo 5) 5 (sendTo 7)
  let (r₅, s₅) ← doSyncIpc (s₄.switchTo 7) 7 receiveAny
  pure (decide (((s₁.proc 7).isRunnable = true ∧ r₂ = .OK) ∧
    ((s₃.proc 5).isRunnable = true ∧ (s₃.proc 5).miscIsset MF_DELIVERMSG = false ∧ r₄ = .OK) ∧
    ((s₄.proc 7).isRunnable = true ∧ (s₄.proc 7).miscIsset MF_DELIVERMSG = false ∧ r₅ = .OK) ∧
    refuseIpc (s₄.switchTo 7) 7 receiveAny = none ∧
    (s₅.proc 7).ipcStatus = [.msgFromKernel, .call .SEND] ∧
    (s₅.proc 7).delivermsg.body = .user 1))

theorem user_message_from_kernel : ∃ past s s', ∃ p : Slot Headers.sample, ∃ e,
    Run (authSystem Headers.sample ℕ) always ((s, p, e) :: past) s' ∧
    ¬ FromKernelAuthentic s p e s' := by
  have hstale : staleMark = .ok true := by decide +kernel
  rw [staleMark] at hstale
  obtain ⟨s₁, h₁, hstale⟩ := bind_ok.mp hstale
  obtain ⟨⟨r₂, s₂⟩, h₂, hstale⟩ := bind_ok.mp hstale
  obtain ⟨s₃, h₃, hstale⟩ := bind_ok.mp hstale
  obtain ⟨⟨r₄, s₄⟩, h₄, hstale⟩ := bind_ok.mp hstale
  obtain ⟨⟨r₅, s₅⟩, h₅, hstale⟩ := bind_ok.mp hstale
  obtain ⟨⟨hrun₁, rfl⟩, ⟨hrun₃, hbox₃, rfl⟩, ⟨hrun₄, hbox₄, rfl⟩, hrefuse,
      hstatus, hbody⟩ :=
    of_decide_eq_true (pure_ok.mp hstale)
  have hexpired : Run (authSystem Headers.sample ℕ) always [(scheduledFive, 5, .noTime)] s₁ :=
    .next (.start scheduledFive_unmarked) trivial ⟨rfl, h₁⟩
  have hexited : Run (authSystem Headers.sample ℕ) always
      ((s₁, 7, .doClear (Headers.sample.endpoint 1 2) .OK) :: _) s₂ :=
    .next hexpired trivial ⟨hrun₁, h₂⟩
  have hresumed : Run (authSystem Headers.sample ℕ) always
      ((s₂, 7, .ipc (.rtsUnset 5 RTS_NO_QUANTUM)) :: _) s₃ :=
    .next hexited trivial ⟨by decide, h₃⟩
  have hsent : Run (authSystem Headers.sample ℕ) always
      ((s₃, 5, .ipc (.call (sendTo 7) .OK)) :: _) s₄ :=
    .next hresumed trivial ⟨hrun₃, hbox₃, h₄⟩
  have hreceived : Run (authSystem Headers.sample ℕ) always
      ((s₄, 7, .ipc (.call receiveAny .OK)) :: _) s₅ :=
    .next hsent trivial ⟨hrun₄, hbox₄, h₅⟩
  refine ⟨_, _, _, _, _, hreceived, fun hauthentic => ?_⟩
  have hcleared : AuthEvent.statusBefore s₄ 7 7 (.ipc (.call receiveAny .OK)) = [] :=
    if_pos ⟨rfl, rfl, hrefuse⟩
  have hkernel := hauthentic 7 [.msgFromKernel, .call .SEND] (by rw [hstatus, hcleared]; rfl)
    (by decide)
  rw [hbody] at hkernel
  cases hkernel

end Kernel
