import Cs111.Kernel.CallerRuns

namespace Kernel
open Minix FlagWord Chain
variable {H : Headers} {M : Type}

namespace Mark
variable {x y z : Mark H M} {told told' : StatusItem → Message M → Prop}

def Adds (told : StatusItem → Message M → Prop) (x x' : Mark H M) : Prop :=
  ∃ items, x'.status = items ++ x.status ∧ ∀ item ∈ items, told item x'.delivermsg

theorem Adds.of_eq (h : y.status = x.status) : Adds told x y :=
  ⟨[], h, fun _ hmem => absurd hmem List.not_mem_nil⟩

theorem Adds.mono (h : Adds told x y) (ht : ∀ item, told item y.delivermsg →
    told' item y.delivermsg) : Adds told' x y := by
  obtain ⟨items, hitems, hall⟩ := h
  exact ⟨items, hitems, fun item hmem => ht item (hall item hmem)⟩

theorem Adds.trans_free {P : StatusItem → Prop} (h : Adds (fun item _ => P item) x y)
    (h' : Adds (fun item _ => P item) y z) : Adds (fun item _ => P item) x z := by
  obtain ⟨items, hitems, hall⟩ := h
  obtain ⟨items', hitems', hall'⟩ := h'
  refine ⟨items' ++ items, by rw [hitems', hitems, List.append_assoc], fun item hmem => ?_⟩
  rcases List.mem_append.mp hmem with hmem | hmem
  · exact hall' item hmem
  · exact hall item hmem

theorem Adds.from_eq (h : Adds told y z) (hstatus : y.status = x.status) : Adds told x z := by
  rw [Adds, ← hstatus]
  exact h

theorem Adds.to_eq (h : Adds told x y) (hstatus : z.status = y.status)
    (hmsg : z.delivermsg = y.delivermsg) : Adds told x z := by
  rw [Adds, hstatus, hmsg]
  exact h

theorem Adds.addStatus {item : StatusItem} (h : Adds told x y) (hitem : told item y.delivermsg) :
    Adds told x (y.addStatus item) := by
  rw [Mark.addStatus]
  split
  · exact h
  · obtain ⟨items, hitems, hall⟩ := h
    refine ⟨item :: items, by rw [hitems, List.cons_append], fun other hmem => ?_⟩
    rcases List.mem_cons.mp hmem with rfl | hmem
    · exact hitem
    · exact hall other hmem

theorem addStatus_accept {item : StatusItem} {m : Message M} {source : ℤ}
    (hitem : told item { m with mSource := source }) :
    Adds told x ((x.addStatus item).accept m source) := by
  rw [Mark.addStatus]
  split
  · exact .of_eq rfl
  · refine ⟨[item], rfl, fun other hmem => ?_⟩
    obtain rfl := List.mem_singleton.mp hmem
    exact hitem

theorem accept_adds {call : CallNr} {m : Message M} {source : ℤ}
    (hcall : told (.call call) { m with mSource := source }) :
    Adds told x ((x.accept m source).addStatus (.call call)) :=
  Adds.addStatus (.of_eq rfl) hcall

theorem receiveSent_adds {flags : SendFlags} {call : CallNr} {m : Message M} {source : ℤ}
    (hcall : told (.call call) { m with mSource := source })
    (hkernel : flags.fromKernel = true → told .msgFromKernel { m with mSource := source }) :
    Adds told x (x.receiveSent flags call m source) := by
  rw [receiveSent]
  split
  · rename_i hfrom
    have hmarked := addStatus_accept (x := x) (hkernel hfrom)
    exact (hmarked.addStatus hcall).to_eq rfl rfl
  · have hcalled := accept_adds (x := x) hcall
    exact hcalled.to_eq rfl rfl

theorem receiveSent_eq (flags : SendFlags) (call : CallNr) (m : Message M) (source : ℤ) :
    ∃ l, x.receiveSent flags call m source = { x with
      delivermsg := { m with mSource := source }, status := l, pend := false,
      receiving := false } := by
  rw [receiveSent]
  split
  · obtain ⟨l, hl⟩ := addStatus_eq (x := x) .msgFromKernel
    rw [hl]
    obtain ⟨l', hl'⟩ := addStatus_eq (x := accept { x with status := l } m source) (.call call)
    rw [hl']
    exact ⟨l', rfl⟩
  · obtain ⟨l, hl⟩ := addStatus_eq (x := x.accept m source) (.call call)
    rw [hl]
    exact ⟨l, rfl⟩

theorem addStatus_of_pend {item : StatusItem} (h : x.pend = true) : x.addStatus item = x :=
  if_pos h

end Mark

namespace Marks
variable {V V' W : Marks H M} {p q d i : Slot H} {e : ℤ} {r : Errno} {m : Option (Message M)}
variable {flags : SendFlags} {told : StatusItem → Message M → Prop}

def FromQueue (V V' : Marks H M) (p : Slot H) (item : StatusItem) (msg : Message M) : Prop :=
  ∃ q xpp, V.callerAt p xpp = some q ∧ (V q).free = false ∧ (V q).ended = false ∧
    (V' q).sending = false ∧ msg = { (V q).sendmsg with mSource := (V q).endpoint } ∧
    (item = .call (V.queuedCall q) ∨ item = .msgFromKernel ∧ (V q).kernel = true)

def Unqueued (V : Marks H M) (p : Slot H) : Prop :=
  (V p).sending = false → ∀ xpp, V.callerAt p xpp = some p → (V p).kernel = false

theorem Given.adds (h : V.Given V') (i : Slot H) :
    (V i).Adds (fun item _ => item = .call .NOTIFY) (V' i) := by
  rcases h.apply i with hsame | ⟨e, msg, -, -, hnotified⟩
  · rw [hsame]
    exact .of_eq rfl
  · rw [hnotified]
    exact (Mark.accept_adds rfl).to_eq rfl rfl

theorem Given.apply_sending (h : V.Given V') (i : Slot H) : (V' i).sending = (V i).sending := by
  rcases h.apply i with hsame | ⟨e, msg, -, -, hnotified⟩
  · rw [hsame]
  · obtain ⟨l, hl⟩ := addStatus_eq (x := (V i).accept msg msg.mSource) (.call .NOTIFY)
    rw [hnotified, Mark.notify, hl]
    rfl

theorem Posted.adds (h : V.Posted p V') (i : Slot H) :
    (V i).Adds (fun item _ => item = .call .SENDA) (V' i) := by
  induction h with
  | start => exact .of_eq rfl
  | @given V' d _ content _ _ ih =>
    by_cases hi : i = d
    · subst hi
      rw [Function.update_self]
      exact ih.trans_free ((Mark.accept_adds rfl).to_eq rfl rfl)
    · rw [Function.update_of_ne hi]
      exact ih
  | @hinted V' d _ ih =>
    by_cases hi : i = d
    · subst hi
      rw [Function.update_self]
      exact ih.to_eq rfl rfl
    · rw [Function.update_of_ne hi]
      exact ih

theorem Sent.adds (h : V.Sent p e m flags r V') (i : Slot H)
    (htold : ∀ msg, m = some msg →
      told (.call ((V p).sendCall flags)) { msg with mSource := (V p).endpoint } ∧
      (flags.fromKernel = true → told .msgFromKernel { msg with mSource := (V p).endpoint })) :
    (V i).Adds told (V' i) ∧ ((V' i).status = (V i).status ∨ (V' i).receiving = false) := by
  cases h with
  | refused => exact ⟨.of_eq rfl, .inl rfl⟩
  | @delivered d msg _ _ _ hm =>
    by_cases hi : i = d
    · subst hi
      rw [Function.update_self]
      exact ⟨Mark.receiveSent_adds (htold msg hm).1 (htold msg hm).2, .inr rfl⟩
    · rw [Function.update_of_ne hi]
      exact ⟨.of_eq rfl, .inl rfl⟩
  | @blocked d msg xpp =>
    obtain ⟨c, l, hsame⟩ := setCallers_apply (Function.update V p ((V p).hold flags msg e)) d xpp
      (some p) i
    have hstatus : (Function.update V p ((V p).hold flags msg e) i).status = (V i).status := by
      by_cases hi : i = p
      · subst hi
        rw [Function.update_self]
        rfl
      · rw [Function.update_of_ne hi]
    rw [hsame]
    exact ⟨.of_eq hstatus, .inl hstatus⟩

theorem Sent.caller (h : V.Sent p e m flags r V') (hreceiving : (V p).receiving = false) :
    (V' p).receiving = false ∧ (V' p).status = (V p).status ∧ (V' p).pend = (V p).pend ∧
    (flags.fromKernel = false → (V' p).kernel = (V p).kernel) := by
  cases h with
  | refused => exact ⟨hreceiving, rfl, rfl, fun _ => rfl⟩
  | @delivered d _ _ _ hready =>
    have hd : p ≠ d := by
      rintro rfl
      rw [not_willReceive hreceiving] at hready
      cases hready
    rw [Function.update_of_ne hd]
    exact ⟨hreceiving, rfl, rfl, fun _ => rfl⟩
  | @blocked d msg xpp =>
    obtain ⟨c, l, hsame⟩ := setCallers_apply (Function.update V p ((V p).hold flags msg e)) d xpp
      (some p) p
    rw [hsame, Function.update_self]
    refine ⟨hreceiving, rfl, rfl, fun huser => ?_⟩
    rw [Mark.hold, huser, Bool.or_false]

theorem callerAt_update {x : Mark H M} (hq : x.callerQ = (V d).callerQ)
    (hl : x.qLink = (V d).qLink) (p : Slot H) (xpp : Cell (Slot H)) :
    callerAt (Function.update V d x) p xpp = V.callerAt p xpp := by
  cases xpp with
  | head =>
    by_cases hp : p = d
    · subst hp
      rw [callerAt, callerAt, Function.update_self, hq]
    · rw [callerAt, callerAt, Function.update_of_ne hp]
  | link j =>
    by_cases hj : j = d
    · subst hj
      rw [callerAt, callerAt, Function.update_self, hl]
    · rw [callerAt, callerAt, Function.update_of_ne hj]

theorem Looked.callerAt (h : V.Looked p V') (xpp : Cell (Slot H)) :
    V'.callerAt p xpp = V.callerAt p xpp := by
  cases xpp with
  | head =>
    obtain ⟨a, hsame⟩ := h.apply p
    rw [Marks.callerAt, hsame]
    rfl
  | link j =>
    obtain ⟨a, hsame⟩ := h.apply j
    rw [Marks.callerAt, hsame]
    rfl

theorem pick_receiving (hsending : (V p).sending = false) (hself : q = p → (V p).kernel = false) :
    (V.pick p q p).receiving = (V p).receiving := by
  rw [pick_receiver hsending hself]
  obtain ⟨l, hl⟩ := addStatus_eq (x := (V p).accept (V q).sendmsg (V q).endpoint)
    (.call (V.queuedCall q))
  rw [hl]
  split
  · obtain ⟨l', hl'⟩ := addStatus_eq
      (x := { (V p).accept (V q).sendmsg (V q).endpoint with status := l }) .msgFromKernel
    rw [hl']
    rfl
  · rfl

theorem pick_adds (hsending : (V p).sending = false) (hself : q = p → (V p).kernel = false) :
    (V p).Adds (fun item msg => msg = { (V q).sendmsg with mSource := (V q).endpoint } ∧
      (item = .call (V.queuedCall q) ∨ item = .msgFromKernel ∧ (V q).kernel = true))
      (V.pick p q p) := by
  rw [pick_receiver hsending hself]
  obtain ⟨l, hl⟩ := addStatus_eq (x := (V p).accept (V q).sendmsg (V q).endpoint)
    (.call (V.queuedCall q))
  split
  · rename_i hkernel
    refine Mark.Adds.addStatus (Mark.accept_adds ⟨rfl, .inl rfl⟩) ?_
    rw [hl]
    exact ⟨rfl, .inr ⟨rfl, hkernel⟩⟩
  · exact Mark.accept_adds ⟨rfl, .inl rfl⟩

theorem pick_status_pend (hsending : (V p).sending = false)
    (hself : q = p → (V p).kernel = false) (hpend : (V p).pend = true) :
    (V.pick p q p).status = (V p).status := by
  have hpend' : ((V p).accept (V q).sendmsg (V q).endpoint).pend = true := hpend
  rw [pick_receiver hsending hself, Mark.addStatus_of_pend hpend', Mark.addStatus_of_pend hpend']
  split <;> rfl

theorem pick_sending (hsending : (V p).sending = false) (hself : q = p → (V p).kernel = false) :
    (V.pick p q q).sending = false := by
  by_cases hq : q = p
  · subst hq
    rw [pick_receiver hsending hself]
    obtain ⟨l, hl⟩ := addStatus_eq (x := (V q).accept (V q).sendmsg (V q).endpoint)
      (.call (V.queuedCall q))
    rw [hl]
    split
    · obtain ⟨l', hl'⟩ := addStatus_eq
        (x := { (V q).accept (V q).sendmsg (V q).endpoint with status := l }) .msgFromKernel
      rw [hl']
      exact hsending
    · exact hsending
  · rw [pick_sender hq]

theorem Looked.ready {xpp : Cell (Slot H)} (h : V.Looked p V') (hsending : (V p).sending = false)
    (hself : V.Unqueued p) (hq : V.callerAt p xpp = some q) :
    (V' p).sending = false ∧ (q = p → (V' p).kernel = false) := by
  obtain ⟨a, hlook⟩ := h.apply p
  rw [hlook]
  refine ⟨hsending, ?_⟩
  rintro rfl
  exact hself hsending xpp hq

theorem queued_apply (xpp : Cell (Slot H)) (hgiven : (V.pick p q).Given W)
    (hreceiving : (V.pick p q i).receiving = false) : ∃ c l b,
    (W.unlink p q xpp).stopPend p i =
      { V.pick p q i with callerQ := c, qLink := l, pend := b } ∧
    (b = (V.pick p q i).pend ∨ i = p ∧ b = false) := by
  obtain ⟨c, l, hunlinked⟩ := unlink_apply W p q xpp i
  rw [hgiven.apply_of_not hreceiving] at hunlinked
  by_cases hi : i = p
  · subst hi
    rw [stopPend_self, hunlinked]
    exact ⟨c, l, false, rfl, .inr ⟨rfl, rfl⟩⟩
  · rw [stopPend_of_ne hi, hunlinked]
    exact ⟨c, l, _, rfl, .inl rfl⟩

theorem Received.adds_self (h : V.Received p e r V') (hreceiving : (V p).receiving = false)
    (hself : V.Unqueued p) :
    (V p).Adds (fun item msg => item = .call .NOTIFY ∨ item = .call .SENDA ∨
      V.FromQueue V' p item msg) (V' p) := by
  cases h with
  | failed _ hlooked =>
    obtain ⟨a, hsame⟩ := hlooked.apply p
    rw [hsame]
    exact .of_eq rfl
  | notified =>
    rw [stopPend_self, Function.update_self]
    exact (Mark.accept_adds (.inl rfl)).to_eq rfl rfl
  | async =>
    rw [stopPend_self, Function.update_self]
    exact (Mark.accept_adds (.inr (.inl rfl))).to_eq rfl rfl
  | @queued q xpp V₀ W hsending hlooked hq hused halive hgiven =>
    obtain ⟨a, hlook⟩ := hlooked.apply p
    obtain ⟨a', hlook'⟩ := hlooked.apply q
    rw [hlooked.callerAt] at hq
    obtain ⟨hsending₀, hself₀⟩ := hlooked.ready hsending hself hq
    have hstays : (V₀.pick p q p).receiving = false := by
      rw [pick_receiving hsending₀ hself₀, hlook]
      exact hreceiving
    obtain ⟨c, l, b, hlast, -⟩ := queued_apply xpp hgiven hstays
    have hfreed : ((W.unlink p q xpp).stopPend p q).sending = false := by
      have hW := hgiven.apply_sending q
      rw [pick_sending hsending₀ hself₀] at hW
      obtain ⟨c', l', hunlinked⟩ := unlink_apply W p q xpp q
      have hU : (W.unlink p q xpp q).sending = false := by
        rw [hunlinked]
        exact hW
      by_cases hqp : q = p
      · subst hqp
        rw [stopPend_self]
        exact hU
      · rw [stopPend_of_ne hqp]
        exact hU
    have hadds := ((pick_adds hsending₀ hself₀).from_eq (x := V p) (by rw [hlook])).to_eq
      (z := (W.unlink p q xpp).stopPend p p) (by rw [hlast]) (by rw [hlast])
    refine hadds.mono fun item hitem => .inr (.inr ⟨q, xpp, hq, ?_, ?_, hfreed, ?_⟩)
    · rw [hlook'] at hused
      exact hused
    · rw [hlook'] at halive
      exact halive
    · rw [Marks.queuedCall, hlook'] at hitem
      exact hitem
  | waits hlooked =>
    obtain ⟨a, hsame⟩ := hlooked.apply p
    rw [Function.update_self, hsame]
    exact .of_eq rfl

theorem Received.status_of_pend (h : V.Received p e r V') (hreceiving : (V p).receiving = false)
    (hself : V.Unqueued p) (hpend : (V p).pend = true) : (V' p).status = (V p).status := by
  cases h with
  | failed _ hlooked =>
    obtain ⟨a, hsame⟩ := hlooked.apply p
    rw [hsame]
  | notified _ hfree =>
    rw [hpend] at hfree
    cases hfree
  | @async content source =>
    rw [stopPend_self, Function.update_self]
    have hpend' : ((V p).accept ⟨0, .user content⟩ source).pend = true := hpend
    rw [Mark.addStatus_of_pend hpend']
    rfl
  | @queued q xpp V₀ W hsending hlooked hq _ _ hgiven =>
    obtain ⟨a, hlook⟩ := hlooked.apply p
    rw [hlooked.callerAt] at hq
    obtain ⟨hsending₀, hself₀⟩ := hlooked.ready hsending hself hq
    have hstays : (V₀.pick p q p).receiving = false := by
      rw [pick_receiving hsending₀ hself₀, hlook]
      exact hreceiving
    obtain ⟨c, l, b, hlast, -⟩ := queued_apply xpp hgiven hstays
    have hstatus := pick_status_pend (q := q) hsending₀ hself₀ (by rw [hlook]; exact hpend)
    rw [hlast]
    change (V₀.pick p q p).status = _
    rw [hstatus, hlook]
  | waits hlooked =>
    obtain ⟨a, hsame⟩ := hlooked.apply p
    rw [Function.update_self, hsame]

theorem Received.other (h : V.Received p e r V') (hi : i ≠ p) :
    (V i).Adds (fun item _ => item = .call .NOTIFY) (V' i) ∧
    ((V i).receiving = false →
      (V' i).status = (V i).status ∧ (V' i).delivermsg = (V i).delivermsg) := by
  cases h with
  | failed _ hlooked =>
    obtain ⟨a, hsame⟩ := hlooked.apply i
    rw [hsame]
    exact ⟨.of_eq rfl, fun _ => ⟨rfl, rfl⟩⟩
  | notified =>
    rw [stopPend_of_ne hi, Function.update_of_ne hi]
    exact ⟨.of_eq rfl, fun _ => ⟨rfl, rfl⟩⟩
  | async =>
    rw [stopPend_of_ne hi, Function.update_of_ne hi]
    exact ⟨.of_eq rfl, fun _ => ⟨rfl, rfl⟩⟩
  | @queued q xpp V₀ W hsending hlooked hq _ _ hgiven =>
    obtain ⟨a, hlook⟩ := hlooked.apply i
    have hpicked : ∃ b k, V₀.pick p q i = { V i with asyn := a, sending := b, kernel := k } := by
      by_cases hqi : i = q
      · subst hqi
        rw [pick_sender hi, hlook]
        exact ⟨false, false, rfl⟩
      · rw [pick_other hi hqi, hlook]
        exact ⟨(V i).sending, (V i).kernel, rfl⟩
    obtain ⟨b, k, hpicked⟩ := hpicked
    obtain ⟨c, l, hunlinked⟩ := unlink_apply W p q xpp i
    rw [stopPend_of_ne hi]
    have hadds := hgiven.adds i
    rw [hpicked] at hadds
    refine ⟨(hadds.from_eq rfl).to_eq (by rw [hunlinked]) (by rw [hunlinked]), fun hoff => ?_⟩
    rw [hunlinked, hgiven.apply_of_not (by rw [hpicked]; exact hoff), hpicked]
    exact ⟨rfl, rfl⟩
  | waits hlooked =>
    obtain ⟨a, hsame⟩ := hlooked.apply i
    rw [Function.update_of_ne hi, hsame]
    exact ⟨.of_eq rfl, fun _ => ⟨rfl, rfl⟩⟩

inductive Told (V V' : Marks H M) (p : Slot H) (c : IpcCall M) :
    Slot H → StatusItem → Message M → Prop
  | notified {i msg} : Told V V' p c i (.call .NOTIFY) msg
  | async {msg} : Told V V' p c p (.call .SENDA) msg
  | sent {i k msg} : i ≠ p → c.message = some msg → (k = c.callNr ∨ (V p).pend = true) →
      Told V V' p c i (.call k) { msg with mSource := (V p).endpoint }
  | queued {item msg} : c.callNr = .RECEIVE → (V.freshStatus p).FromQueue V' p item msg →
      Told V V' p c p item msg

theorem sendCall_user (x : Mark H M) (n : Bool) :
    x.sendCall ⟨n, false⟩ = (if n then .SENDNB else .SEND) ∨ x.pend = true := by
  rw [Mark.sendCall]
  cases x.pend with
  | true => exact .inr rfl
  | false => exact .inl rfl

theorem sent_told {c : IpcCall M} {n : Bool} (hi : i ≠ p)
    (hsource : (W p).endpoint = (V p).endpoint)
    (hcall : (W p).sendCall ⟨n, false⟩ = c.callNr ∨ (V p).pend = true)
    (h : W.Sent p c.srcDstE c.message ⟨n, false⟩ r V') (V'' : Marks H M) :
    (W i).Adds (V.Told V'' p c i) (V' i) ∧
      ((V' i).status = (W i).status ∨ (V' i).receiving = false) := by
  refine h.adds i fun msg hm => ⟨?_, fun hkernel => by cases hkernel⟩
  rw [hsource]
  exact .sent hi hm hcall

theorem Unqueued.update {x : Mark H M} (h : V.Unqueued p) (hq : x.callerQ = (V d).callerQ)
    (hl : x.qLink = (V d).qLink) (hsending : x.sending = (V d).sending)
    (hkernel : x.kernel = (V d).kernel) : Unqueued (Function.update V d x) p := by
  intro hoff xpp hat
  rw [callerAt_update hq hl] at hat
  by_cases hp : p = d
  · subst hp
    rw [Function.update_self] at hoff ⊢
    rw [hkernel]
    exact h (hsending ▸ hoff) xpp hat
  · rw [Function.update_of_ne hp] at hoff ⊢
    exact h hoff xpp hat

theorem Sent.unqueued (h : V.Sent p e m flags r V') (hself : V.Unqueued p) : V'.Unqueued p := by
  cases h with
  | refused => exact hself
  | @delivered d msg =>
    obtain ⟨l, hl⟩ := Mark.receiveSent_eq (x := V d) flags ((V p).sendCall flags) msg
      (V p).endpoint
    rw [hl]
    exact hself.update rfl rfl rfl rfl
  | @blocked d msg xpp' =>
    intro hsending xpp hat
    obtain ⟨c, l, hsame⟩ := setCallers_apply (Function.update V p ((V p).hold flags msg e)) d xpp'
      (some p) p
    rw [hsame, Function.update_self] at hsending
    cases hsending

theorem Called.adds {c : IpcCall M} (h : V.Called p c r V') (hrunning : (V p).Running)
    (hself : V.Unqueued p) (i : Slot H) : (V.found p c i).Adds (V.Told V' p c i) (V' i) := by
  have hpend : ((V.startPend p) p).sendCall ⟨false, false⟩ = .SENDREC := by
    rw [startPend, Function.update_self]
    rfl
  have hidle : ((V.startPend p) p).receiving = false := by
    rw [startPend, Function.update_self]
    exact hrunning.receiving
  have hsource : ((V.startPend p) p).endpoint = (V p).endpoint := by
    rw [startPend, Function.update_self]
  have hstart : ((V.startPend p) i).status = (V i).status := by
    by_cases hi : i = p
    · subst hi
      rw [startPend, Function.update_self]
    · rw [startPend, Function.update_of_ne hi]
  rw [found]
  cases h with
  | sent hnr hsent =>
    rw [hnr, if_neg (by decide)]
    by_cases hi : i = p
    · subst hi
      exact .of_eq (hsent.caller hrunning.receiving).2.1
    · refine (sent_told hi rfl ?_ hsent V').1
      rw [hnr]
      exact sendCall_user _ false
  | sentnb hnr hsent =>
    rw [hnr, if_neg (by decide)]
    by_cases hi : i = p
    · subst hi
      exact .of_eq (hsent.caller hrunning.receiving).2.1
    · refine (sent_told hi rfl ?_ hsent V').1
      rw [hnr]
      exact sendCall_user _ true
  | unsent hnr _ hsent =>
    rw [hnr, if_neg (by decide)]
    by_cases hi : i = p
    · subst hi
      exact .of_eq ((hsent.caller hidle).2.1.trans hstart)
    · refine Mark.Adds.from_eq (sent_told hi hsource ?_ hsent V').1 hstart
      rw [hpend, hnr]
      exact .inl rfl
  | sendrec hnr hsent hreceived =>
    rw [hnr, if_neg (by decide)]
    have hcall : ((V.startPend p) p).sendCall ⟨false, false⟩ = c.callNr ∨ (V p).pend = true := by
      rw [hpend, hnr]
      exact .inl rfl
    have hstarted : (V.startPend p).Unqueued p := hself.update rfl rfl rfl rfl
    obtain ⟨hstays, hstatus, hpended, -⟩ := hsent.caller hidle
    by_cases hi : i = p
    · subst hi
      refine .of_eq ?_
      rw [hreceived.status_of_pend hstays (hsent.unqueued hstarted), hstatus, hstart]
      rw [hpended, startPend, Function.update_self]
    · obtain ⟨hadds, hoff⟩ := sent_told hi hsource hcall hsent V'
      obtain ⟨hnotified, hsame⟩ := hreceived.other hi
      rcases hoff with heq | hoff
      · refine Mark.Adds.mono (hnotified.from_eq (heq.trans hstart)) ?_
        rintro _ rfl
        exact .notified
      · obtain ⟨hkept, hmsg⟩ := hsame hoff
        exact (hadds.from_eq hstart).to_eq hkept hmsg
  | received hnr hreceived =>
    rw [hnr, if_pos rfl]
    have hidle' : ((V.freshStatus p) p).receiving = false := by
      rw [freshStatus, Function.update_self]
      exact hrunning.receiving
    by_cases hi : i = p
    · subst hi
      refine (hreceived.adds_self hidle' (hself.update rfl rfl rfl rfl)).mono ?_
      rintro item (rfl | rfl | hqueue)
      · exact .notified
      · exact .async
      · exact .queued hnr hqueue
    · refine (hreceived.other hi).1.mono ?_
      rintro _ rfl
      exact .notified
  | notified hnr hgiven =>
    rw [hnr, if_neg (by decide)]
    refine (hgiven.adds i).mono ?_
    rintro _ rfl
    exact .notified

end Marks

end Kernel
