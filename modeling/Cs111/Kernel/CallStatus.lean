import Cs111.Kernel.Sendrec
import Cs111.Kernel.Delivery

namespace Kernel
open Minix FlagWord Chain TransitionSystem
variable {H : Headers} {M : Type}

abbrev CallHistory (H : Headers) (M : Type) := List (KState H M × Slot H × CallEvent H M)

def CallEvent.madeBy (p q : Slot H) : CallEvent H M → Option (IpcCall M)
  | .call c _ => if p = q then some c else none
  | _ => none

def lastCall (past : CallHistory H M) (q : Slot H) : Option (IpcCall M) :=
  past.findSome? fun x => x.2.2.madeBy x.2.1 q

structure Uncalled (s : KState H M) : Prop where
  idle : ∀ i, (s.proc i).rtsIsset RTS_SENDING = false ∧ (s.proc i).rtsIsset RTS_RECEIVING = false
  queues : ∀ i, (s.proc i).callerQ = none ∧ (s.proc i).qLink = none
  pend : ∀ i, (s.proc i).miscIsset MF_REPLY_PEND = false

def callSystem (H : Headers) (M : Type) :
    TransitionSystem (KState H M) (Slot H × CallEvent H M) where
  initial := Uncalled
  step s e s' := e.2.Happens s e.1 s'

def SentWith (past : CallHistory H M) (s : KState H M) (p : Slot H) (s' : KState H M) (d : Slot H)
    (k : CallNr) : Prop :=
  ∃ q c m, lastCall past q = some c ∧ c.callNr = k ∧ c.message = some m ∧
    (s'.proc d).delivermsg = { m with mSource := (s.proc q).endpoint } ∧
    (q = p ∨ (s.proc q).rtsIsset RTS_SENDING = true ∧ (s'.proc q).rtsIsset RTS_SENDING = false)

def StatusTruthful (past : CallHistory H M) (s : KState H M) (p : Slot H) (e : CallEvent H M)
    (s' : KState H M) : Prop :=
  ∀ d items k, (s'.proc d).ipcStatus = items ++ e.statusBefore s p d → .call k ∈ items →
    sendsMessage k = true → SentWith ((s, p, e) :: past) s p s' d k

def InSendrec (past : CallHistory H M) (s : KState H M) (q : Slot H) : Prop :=
  (∃ c, lastCall past q = some c ∧ c.callNr = .SENDREC) ∧
    ((s.proc q).rtsIsset RTS_SENDING = true ∨ (s.proc q).rtsIsset RTS_RECEIVING = true)

def SendaCall.Reaches (c : SendaCall M) (i : ℕ) (tabent : Asynmsg M) : Prop :=
  i < c.size ∧ c.copies i = true ∧ c.table[i]? = some tabent ∧ tabent.Open ∧
    ∀ j < i, ∃ x, c.table[j]? = some x ∧ (x.flags ≠ 0 → badAsynFlags x.flags = false)

def SparesSendrec (s : KState H M) (p : Slot H) (c : SendaCall M) : Prop :=
  (s.privOf p).has SYS_PROC = true → c.size ≤ maxAsynsize H → ∀ i tabent d,
    c.Reaches i tabent → sendaTo s p tabent.dst = .ok d →
    takesAsync s p d tabent.flags = true → (s.proc d).miscIsset MF_REPLY_PEND = false

def KeepsPend (s : KState H M) (p : Slot H) : CallEvent H M → Prop
  | .call c _ => c.callNr = .SENDREC → refuseIpc (s.switchTo p) p c = none →
      SendrecSends (s.switchTo p) p c
  | .senda c _ => SparesSendrec s p c
  | _ => True

namespace Mark
variable {x y z : Mark H M} {last : Option (IpcCall M)}

structure Meant (x : Mark H M) (last : Option (IpcCall M)) : Prop where
  pend : x.pend = true → ∃ c, last = some c ∧ c.callNr = .SENDREC
  sending : x.sending = true → ∃ c, last = some c ∧ c.message = some x.sendmsg ∧
    c.callNr = if x.pend then .SENDREC else .SEND

def Less (x y : Mark H M) : Prop :=
  (y.pend = x.pend ∧ y.receiving = x.receiving ∧ y.sendmsg = x.sendmsg ∧
    (y.sending = true → x.sending = true)) ∨ (y.pend = false ∧ y.sending = false)

theorem Less.refl (x : Mark H M) : Less x x := .inl ⟨rfl, rfl, rfl, id⟩

theorem Less.trans (h : Less x y) (h' : Less y z) : Less x z := by
  rcases h' with ⟨hpend', hreceiving', hmsg', hsending'⟩ | hidle
  · rcases h with ⟨hpend, hreceiving, hmsg, hsending⟩ | ⟨hpend, hsending⟩
    · exact .inl ⟨hpend'.trans hpend, hreceiving'.trans hreceiving, hmsg'.trans hmsg,
        hsending ∘ hsending'⟩
    · refine .inr ⟨hpend'.trans hpend, Bool.eq_false_iff.mpr fun hz => ?_⟩
      rw [hsending' hz] at hsending
      cases hsending
  · exact .inr hidle

theorem meant_idle (hpend : x.pend = false) (hsending : x.sending = false) : x.Meant last :=
  ⟨fun h => absurd (hpend.symm.trans h) (by decide),
    fun h => absurd (hsending.symm.trans h) (by decide)⟩

theorem Meant.less (h : x.Meant last) (hless : Less x y) : y.Meant last := by
  rcases hless with ⟨hpend, -, hmsg, hsending⟩ | ⟨hpend, hsending⟩
  · constructor
    · intro hy
      exact h.pend (hpend ▸ hy)
    · intro hy
      rw [hmsg, hpend]
      exact h.sending (hsending hy)
  · exact meant_idle hpend hsending

end Mark

namespace Marks
variable {V V' W : Marks H M} {p q d i : Slot H} {e : ℤ} {r : Errno} {m : Option (Message M)}
variable {flags : SendFlags} {c : IpcCall M} {last : Slot H → Option (IpcCall M)}

def pointsAt (V : Marks H M) : Slot H ⊕ Slot H → Option (Slot H)
  | .inl d => (V d).callerQ
  | .inr i => (V i).qLink

def cellAt (d : Slot H) : Cell (Slot H) → Slot H ⊕ Slot H
  | .head => .inl d
  | .link i => .inr i

structure Queued (V : Marks H M) : Prop where
  sending : ∀ a i, V.pointsAt a = some i → (V i).sending = true
  once : ∀ a b i, V.pointsAt a = some i → V.pointsAt b = some i → a = b

structure Candid (V : Marks H M) (last : Slot H → Option (IpcCall M)) : Prop where
  queued : V.Queued
  meant : ∀ i, (V i).Meant (last i)
  waits : ∀ i, (V i).pend = true → (V i).receiving = true

theorem callerAt_points (p : Slot H) (xpp : Cell (Slot H)) :
    V.callerAt p xpp = V.pointsAt (cellAt p xpp) := by
  cases xpp <;> rfl

theorem setCallers_points (d : Slot H) (xpp : Cell (Slot H)) (v : Option (Slot H))
    (a : Slot H ⊕ Slot H) :
    (V.setCallers d xpp v).pointsAt a = if a = cellAt d xpp then v else V.pointsAt a := by
  cases xpp with
  | head =>
    cases a with
    | inl i =>
      by_cases hi : i = d
      · subst hi
        simp [pointsAt, setCallers, cellAt]
      · simp [pointsAt, setCallers, cellAt, hi]
    | inr i =>
      by_cases hi : i = d
      · subst hi
        simp [pointsAt, setCallers, cellAt]
      · simp [pointsAt, setCallers, cellAt, hi]
  | link j =>
    cases a with
    | inl i =>
      by_cases hi : i = j
      · subst hi
        simp [pointsAt, setCallers, cellAt]
      · simp [pointsAt, setCallers, cellAt, hi]
    | inr i =>
      by_cases hi : i = j
      · subst hi
        simp [pointsAt, setCallers, cellAt]
      · simp [pointsAt, setCallers, cellAt, hi]

def SameQueues (V V' : Marks H M) : Prop :=
  ∀ i, (V' i).callerQ = (V i).callerQ ∧ (V' i).qLink = (V i).qLink ∧
    (V' i).sending = (V i).sending

theorem SameQueues.refl (V : Marks H M) : V.SameQueues V := fun _ => ⟨rfl, rfl, rfl⟩

theorem SameQueues.trans (h : V.SameQueues V') (h' : V'.SameQueues W) : V.SameQueues W :=
  fun i => ⟨(h' i).1.trans (h i).1, (h' i).2.1.trans (h i).2.1, (h' i).2.2.trans (h i).2.2⟩

theorem SameQueues.update {x : Mark H M} (hq : x.callerQ = (V d).callerQ)
    (hl : x.qLink = (V d).qLink) (hs : x.sending = (V d).sending) :
    V.SameQueues (Function.update V d x) := by
  intro i
  by_cases hi : i = d
  · subst hi
    rw [Function.update_self]
    exact ⟨hq, hl, hs⟩
  · rw [Function.update_of_ne hi]
    exact ⟨rfl, rfl, rfl⟩

theorem SameQueues.points (h : V.SameQueues V') (a : Slot H ⊕ Slot H) :
    V'.pointsAt a = V.pointsAt a := by
  cases a with
  | inl i => exact (h i).1
  | inr i => exact (h i).2.1

theorem Queued.same (h : V.Queued) (hsame : V.SameQueues V') : V'.Queued := by
  refine ⟨fun a i ha => ?_, fun a b i ha hb => ?_⟩
  · rw [hsame.points] at ha
    rw [(hsame i).2.2]
    exact h.sending a i ha
  · rw [hsame.points] at ha hb
    exact h.once a b i ha hb

theorem Queued.unqueued (h : V.Queued) (p : Slot H) : V.Unqueued p := by
  intro hoff xpp hat
  rw [callerAt_points] at hat
  rw [h.sending _ _ hat] at hoff
  cases hoff

theorem addStatus_queues {x : Mark H M} (item : StatusItem) :
    (x.addStatus item).callerQ = x.callerQ ∧ (x.addStatus item).qLink = x.qLink ∧
      (x.addStatus item).sending = x.sending := by
  obtain ⟨l, hl⟩ := addStatus_eq (x := x) item
  rw [hl]
  exact ⟨rfl, rfl, rfl⟩

theorem Looked.same (h : V.Looked p V') : V.SameQueues V' := by
  rcases h with rfl | rfl
  · exact .refl _
  · exact .update rfl rfl rfl

theorem Given.same (h : V.Given V') : V.SameQueues V' := by
  cases h with
  | none => exact .refl _
  | @notified d e m =>
    obtain ⟨hq, hl, hs⟩ := addStatus_queues (x := (V d).accept m m.mSource) (.call .NOTIFY)
    exact .update hq hl hs

theorem Given.less (h : V.Given V') (i : Slot H) : (V i).Less (V' i) := by
  rcases h.apply i with hsame | ⟨e, msg, hready, hpend, hnotified⟩
  · rw [hsame]
    exact .refl _
  · obtain ⟨l, hl⟩ := addStatus_eq (x := (V i).accept msg msg.mSource) (.call .NOTIFY)
    rw [Mark.willReceive, Bool.and_eq_true, Bool.and_eq_true, Bool.not_eq_true'] at hready
    rw [hnotified, Mark.notify, hl]
    exact .inr ⟨hpend, hready.1.2⟩

theorem Sent.less (h : V.Sent p e m flags r V') (hi : i ≠ p) : (V i).Less (V' i) := by
  cases h with
  | refused => exact .refl _
  | @delivered d msg _ _ hready =>
    by_cases hd : i = d
    · subst hd
      obtain ⟨l, hl⟩ := Mark.receiveSent_eq (x := V i) flags ((V p).sendCall flags) msg
        (V p).endpoint
      rw [Mark.willReceive, Bool.and_eq_true, Bool.and_eq_true, Bool.not_eq_true'] at hready
      rw [Function.update_self, hl]
      exact .inr ⟨rfl, hready.1.2⟩
    · rw [Function.update_of_ne hd]
      exact .refl _
  | @blocked d msg xpp =>
    obtain ⟨c, l, hsame⟩ := setCallers_apply (Function.update V p ((V p).hold flags msg e)) d xpp
      (some p) i
    rw [hsame, Function.update_of_ne hi]
    exact .inl ⟨rfl, rfl, rfl, id⟩

theorem Sent.sender (h : V.Sent p e m flags r V') (hreceiving : (V p).receiving = false) :
    (V' p).pend = (V p).pend ∧ (V' p).receiving = false ∧
      ((V' p).sending = (V p).sending ∧ (V' p).sendmsg = (V p).sendmsg ∨
        m = some (V' p).sendmsg ∧ flags.nonBlocking = false) := by
  obtain ⟨hstays, -, hpend, -⟩ := h.caller hreceiving
  refine ⟨hpend, hstays, ?_⟩
  cases h with
  | refused => exact .inl ⟨rfl, rfl⟩
  | @delivered d msg _ _ hready =>
    have hd : p ≠ d := by
      rintro rfl
      rw [not_willReceive hreceiving] at hready
      cases hready
    rw [Function.update_of_ne hd]
    exact .inl ⟨rfl, rfl⟩
  | @blocked d msg xpp _ _ _ hblocking hm =>
    obtain ⟨c, l, hsame⟩ := setCallers_apply (Function.update V p ((V p).hold flags msg e)) d xpp
      (some p) p
    rw [hsame, Function.update_self]
    exact .inr ⟨hm, hblocking⟩

theorem Sent.queued (h : V.Sent p e m flags r V') (hV : V.Queued)
    (hsending : (V p).sending = false) : V'.Queued := by
  cases h with
  | refused => exact hV
  | @delivered d msg =>
    obtain ⟨l, hl⟩ := Mark.receiveSent_eq (x := V d) flags ((V p).sendCall flags) msg
      (V p).endpoint
    rw [hl]
    exact hV.same (.update rfl rfl rfl)
  | @blocked d msg xpp =>
    have hheld : ∀ a, pointsAt (Function.update V p ((V p).hold flags msg e)) a =
        V.pointsAt a := by
      intro a
      cases a with
      | inl i =>
        by_cases hi : i = p
        · subst hi
          rw [pointsAt, Function.update_self]
          rfl
        · rw [pointsAt, Function.update_of_ne hi]
          rfl
      | inr i =>
        by_cases hi : i = p
        · subst hi
          rw [pointsAt, Function.update_self]
          rfl
        · rw [pointsAt, Function.update_of_ne hi]
          rfl
    have hfresh : ∀ a, V.pointsAt a ≠ some p := by
      intro a ha
      rw [hV.sending a p ha] at hsending
      cases hsending
    have hsends : ∀ i, (setCallers (Function.update V p ((V p).hold flags msg e)) d xpp
        (some p) i).sending = if i = p then true else (V i).sending := by
      intro i
      obtain ⟨c, l, hsame⟩ := setCallers_apply (Function.update V p ((V p).hold flags msg e)) d
        xpp (some p) i
      rw [hsame]
      by_cases hi : i = p
      · subst hi
        rw [Function.update_self, if_pos rfl]
        rfl
      · rw [Function.update_of_ne hi, if_neg hi]
    refine ⟨fun a i ha => ?_, fun a b i ha hb => ?_⟩
    · rw [setCallers_points, hheld] at ha
      rw [hsends]
      split at ha
      · rw [if_pos (Option.some.inj ha).symm]
      · split
        · rfl
        · exact hV.sending a i ha
    · rw [setCallers_points, hheld] at ha hb
      split at ha
      · rename_i hcell
        obtain rfl := Option.some.inj ha
        split at hb
        · rename_i hcell'
          exact hcell.trans hcell'.symm
        · exact absurd hb (hfresh b)
      · split at hb
        · obtain rfl := Option.some.inj hb
          exact absurd ha (hfresh a)
        · exact hV.once a b i ha hb

theorem Queued.unlink {xpp : Cell (Slot H)} (hV : V.Queued) (hq : V.callerAt p xpp = some q)
    (hsame : ∀ i, (W i).callerQ = (V i).callerQ ∧ (W i).qLink = (V i).qLink)
    (hsending : ∀ i, i ≠ q → (W i).sending = (V i).sending) : (W.unlink p q xpp).Queued := by
  rw [callerAt_points] at hq
  have hpoints : ∀ a, W.pointsAt a = V.pointsAt a := by
    intro a
    cases a with
    | inl i => exact (hsame i).1
    | inr i => exact (hsame i).2
  have hcut : ∀ a, (W.unlink p q xpp).pointsAt a = if a = .inr q then none else
      if a = cellAt p xpp then (V q).qLink else V.pointsAt a := by
    intro a
    rw [← hpoints, ← (hsame q).2, ← setCallers_points, Marks.unlink]
    cases a with
    | inl i =>
      rw [if_neg (by simp)]
      by_cases hi : i = q
      · subst hi
        rw [pointsAt, Function.update_self]
        rfl
      · rw [pointsAt, Function.update_of_ne hi]
        rfl
    | inr i =>
      by_cases hi : i = q
      · subst hi
        rw [if_pos rfl, pointsAt, Function.update_self]
      · rw [if_neg (by simpa using hi), pointsAt, Function.update_of_ne hi]
        rfl
  have hmoved : ∀ a i, (W.unlink p q xpp).pointsAt a = some i →
      a ≠ .inr q ∧ (a = cellAt p xpp ∧ V.pointsAt (.inr q) = some i ∨
        a ≠ cellAt p xpp ∧ V.pointsAt a = some i) := by
    intro a i ha
    rw [hcut] at ha
    split at ha
    · cases ha
    · rename_i hne
      split at ha
      · rename_i hcell
        exact ⟨hne, .inl ⟨hcell, ha⟩⟩
      · rename_i hcell
        exact ⟨hne, .inr ⟨hcell, ha⟩⟩
  refine ⟨fun a i ha => ?_, fun a b i ha hb => ?_⟩
  · obtain ⟨hne, hold⟩ := hmoved a i ha
    have hiq : i ≠ q := by
      rintro rfl
      rcases hold with ⟨hcell, hold⟩ | ⟨hcell, hold⟩
      · exact hne (hcell.trans (hV.once _ _ _ hq hold))
      · exact hcell (hV.once _ _ _ hold hq)
    obtain ⟨c, l, hunlinked⟩ := unlink_apply W p q xpp i
    rw [hunlinked]
    change (W i).sending = true
    rw [hsending i hiq]
    rcases hold with ⟨-, hold⟩ | ⟨-, hold⟩
    · exact hV.sending _ _ hold
    · exact hV.sending _ _ hold
  · obtain ⟨hna, holda⟩ := hmoved a i ha
    obtain ⟨hnb, holdb⟩ := hmoved b i hb
    rcases holda with ⟨hcella, holda⟩ | ⟨hcella, holda⟩
    · rcases holdb with ⟨hcellb, -⟩ | ⟨-, holdb⟩
      · exact hcella.trans hcellb.symm
      · exact absurd (hV.once _ _ _ holdb holda) hnb
    · rcases holdb with ⟨-, holdb⟩ | ⟨-, holdb⟩
      · exact absurd (hV.once _ _ _ holda holdb) hna
      · exact hV.once _ _ _ holda holdb

section Receives
variable {V V' W : Marks H M} {p q i : Slot H} {e : ℤ} {r : Errno}

theorem pick_queues (hqp : q ≠ p) (hsending : (V p).sending = false) (i : Slot H) :
    (V.pick p q i).callerQ = (V i).callerQ ∧ (V.pick p q i).qLink = (V i).qLink ∧
      (i ≠ q → (V.pick p q i).sending = (V i).sending) := by
  by_cases hp : i = p
  · subst hp
    rw [pick_receiver hsending fun h => absurd h hqp]
    obtain ⟨hq₁, hl₁, hs₁⟩ := addStatus_queues (x := (V i).accept (V q).sendmsg (V q).endpoint)
      (.call (V.queuedCall q))
    split
    · obtain ⟨hq₂, hl₂, hs₂⟩ := addStatus_queues
        (x := ((V i).accept (V q).sendmsg (V q).endpoint).addStatus (.call (V.queuedCall q)))
        .msgFromKernel
      exact ⟨hq₂.trans hq₁, hl₂.trans hl₁, fun _ => hs₂.trans hs₁⟩
    · exact ⟨hq₁, hl₁, fun _ => hs₁⟩
  · by_cases hq : i = q
    · subst hq
      rw [pick_sender hqp]
      exact ⟨rfl, rfl, fun hne => absurd rfl hne⟩
    · rw [pick_other hp hq]
      exact ⟨rfl, rfl, fun _ => rfl⟩

theorem pick_less (hp : i ≠ p) : (V i).Less (V.pick p q i) := by
  by_cases hq : i = q
  · subst hq
    rw [pick_sender hp]
    exact .inl ⟨rfl, rfl, rfl, fun h => by cases h⟩
  · rw [pick_other hp hq]
    exact .refl _

theorem SameQueues.stopPend (V : Marks H M) (p : Slot H) : V.SameQueues (V.stopPend p) :=
  .update rfl rfl rfl

theorem Received.sender_ne (hV : V.Queued) (hsending : (V p).sending = false) {V₀ : Marks H M}
    {xpp : Cell (Slot H)} (hlooked : V.Looked p V₀) (hq : V₀.callerAt p xpp = some q) :
    q ≠ p ∧ (V₀ p).sending = false := by
  have hoff : (V₀ p).sending = false := (hlooked.same p).2.2.trans hsending
  refine ⟨?_, hoff⟩
  rintro rfl
  rw [callerAt_points] at hq
  rw [(hV.same hlooked.same).sending _ _ hq] at hoff
  cases hoff

theorem Received.keeps_queued (h : V.Received p e r V') (hV : V.Queued) : V'.Queued := by
  cases h with
  | failed _ hlooked => exact hV.same hlooked.same
  | @notified m =>
    obtain ⟨hq, hl, hs⟩ := addStatus_queues (x := (V p).accept m m.mSource) (.call .NOTIFY)
    exact (hV.same (.update hq hl hs)).same (.stopPend _ _)
  | @async content source =>
    obtain ⟨hq, hl, hs⟩ := addStatus_queues (x := (V p).accept ⟨0, .user content⟩ source)
      (.call .SENDA)
    exact (hV.same (.update hq hl hs)).same (.stopPend _ _)
  | @queued q xpp V₀ W hsending hlooked hq _ _ hgiven =>
    obtain ⟨hqp, hoff⟩ := Received.sender_ne hV hsending hlooked hq
    refine Queued.same ?_ (SameQueues.stopPend _ _)
    refine (hV.same hlooked.same).unlink hq (fun i => ?_) fun i hi => ?_
    · obtain ⟨hcq, hl, -⟩ := hgiven.same i
      obtain ⟨hcq', hl', -⟩ := pick_queues hqp hoff i
      exact ⟨hcq.trans hcq', hl.trans hl'⟩
    · exact (hgiven.same i).2.2.trans ((pick_queues hqp hoff i).2.2 hi)
  | waits hlooked => exact (hV.same hlooked.same).same (.update rfl rfl rfl)

theorem Looked.less (h : V.Looked p V') (i : Slot H) : (V i).Less (V' i) := by
  obtain ⟨a, hsame⟩ := h.apply i
  rw [hsame]
  exact .inl ⟨rfl, rfl, rfl, id⟩

theorem Received.less (h : V.Received p e r V') (hi : i ≠ p) : (V i).Less (V' i) := by
  cases h with
  | failed _ hlooked => exact hlooked.less i
  | notified =>
    rw [stopPend_of_ne hi, Function.update_of_ne hi]
    exact .refl _
  | async =>
    rw [stopPend_of_ne hi, Function.update_of_ne hi]
    exact .refl _
  | @queued q xpp V₀ W _ hlooked _ _ _ hgiven =>
    obtain ⟨c, l, hunlinked⟩ := unlink_apply W p q xpp i
    rw [stopPend_of_ne hi, hunlinked]
    have hleft := ((hlooked.less i).trans (pick_less hi)).trans (hgiven.less i)
    exact hleft.trans (.inl ⟨rfl, rfl, rfl, id⟩)
  | waits hlooked =>
    rw [Function.update_of_ne hi]
    exact hlooked.less i

theorem Received.receiver (h : V.Received p e r V') (hV : V.Queued) :
    (V' p).pend = (V p).pend ∧ (V' p).sending = (V p).sending ∧
        (V' p).sendmsg = (V p).sendmsg ∧ (r = .OK → (V' p).receiving = true) ∨
      r = .OK ∧ (V' p).pend = false ∧ (V' p).sending = false := by
  cases h with
  | failed hr hlooked =>
    obtain ⟨a, hsame⟩ := hlooked.apply p
    rw [hsame]
    exact .inl ⟨rfl, rfl, rfl, fun hok => absurd hok hr⟩
  | @notified m hsending =>
    obtain ⟨-, -, hs⟩ := addStatus_queues (x := (V p).accept m m.mSource) (.call .NOTIFY)
    rw [stopPend_self, Function.update_self]
    exact .inr ⟨rfl, rfl, hs.trans hsending⟩
  | @async content source hsending =>
    obtain ⟨-, -, hs⟩ := addStatus_queues (x := (V p).accept ⟨0, .user content⟩ source)
      (.call .SENDA)
    rw [stopPend_self, Function.update_self]
    exact .inr ⟨rfl, rfl, hs.trans hsending⟩
  | @queued q xpp V₀ W hsending hlooked hq _ _ hgiven =>
    obtain ⟨hqp, hoff⟩ := Received.sender_ne hV hsending hlooked hq
    obtain ⟨c, l, hunlinked⟩ := unlink_apply W p q xpp p
    rw [stopPend_self, hunlinked]
    refine .inr ⟨rfl, rfl, ?_⟩
    exact (hgiven.same p).2.2.trans (((pick_queues hqp hoff p).2.2 hqp.symm).trans hoff)
  | waits hlooked =>
    obtain ⟨a, hsame⟩ := hlooked.apply p
    rw [Function.update_self, hsame]
    exact .inl ⟨rfl, rfl, rfl, fun _ => rfl⟩

end Receives

section Calls
variable {V V' : Marks H M} {p : Slot H} {r : Errno} {c : IpcCall M}
variable {last : Slot H → Option (IpcCall M)}

theorem Candid.running_idle (h : V.Candid last) (hrunning : (V p).Running) :
    (V p).pend = false := by
  rw [Bool.eq_false_iff]
  intro hpend
  have hreceiving := h.waits p hpend
  rw [hrunning.receiving] at hreceiving
  cases hreceiving

theorem Candid.recall (h : V.Candid last) (hrunning : (V p).Running) :
    V.Candid (Function.update last p (some c)) where
  queued := h.queued
  meant i := by
    by_cases hi : i = p
    · subst hi
      exact Mark.meant_idle (h.running_idle hrunning) hrunning.sending
    · rw [Function.update_of_ne hi]
      exact h.meant i
  waits := h.waits

theorem Candid.less (h : V.Candid last) (hqueued : V'.Queued)
    (hless : ∀ i, (V i).Less (V' i)) : V'.Candid last where
  queued := hqueued
  meant i := (h.meant i).less (hless i)
  waits i hpend := by
    rcases hless i with ⟨hsame, hreceiving, -⟩ | ⟨hoff, -⟩
    · rw [hreceiving]
      exact h.waits i (hsame ▸ hpend)
    · rw [hoff] at hpend
      cases hpend

theorem Candid.called_by (h : V.Candid last) (hqueued : V'.Queued)
    (hless : ∀ i, i ≠ p → (V i).Less (V' i)) (hmeant : (V' p).Meant (some c))
    (hwaits : (V' p).pend = true → (V' p).receiving = true) :
    V'.Candid (Function.update last p (some c)) where
  queued := hqueued
  meant i := by
    by_cases hi : i = p
    · subst hi
      rw [Function.update_self]
      exact hmeant
    · rw [Function.update_of_ne hi]
      exact (h.meant i).less (hless i hi)
  waits i hpend := by
    by_cases hi : i = p
    · subst hi
      exact hwaits hpend
    · rcases hless i hi with ⟨hsame, hreceiving, -⟩ | ⟨hoff, -⟩
      · rw [hreceiving]
        exact h.waits i (hsame ▸ hpend)
      · rw [hoff] at hpend
        cases hpend

theorem Sent.plain_meant {e : ℤ} {n : Bool} (h : V.Sent p e c.message ⟨n, false⟩ r V')
    (hrunning : (V p).Running) (hpend : (V p).pend = false)
    (hnr : n = false → c.callNr = .SEND) : (V' p).Meant (some c) ∧ (V' p).pend = false := by
  obtain ⟨hpend', -, hstays | ⟨hm, hblocking⟩⟩ := h.sender hrunning.receiving
  · exact ⟨Mark.meant_idle (hpend'.trans hpend) (hstays.1.trans hrunning.sending),
      hpend'.trans hpend⟩
  · refine ⟨⟨fun hyes => ?_, fun _ => ⟨c, rfl, hm, ?_⟩⟩, hpend'.trans hpend⟩
    · rw [hpend', hpend] at hyes
      cases hyes
    · rw [hpend', hpend]
      exact hnr hblocking

theorem startPend_less {i : Slot H} (hi : i ≠ p) : (V i).Less (V.startPend p i) := by
  rw [startPend, Function.update_of_ne hi]
  exact .refl _

theorem freshStatus_less {i : Slot H} (hi : i ≠ p) : (V i).Less (V.freshStatus p i) := by
  rw [freshStatus, Function.update_of_ne hi]
  exact .refl _

theorem Called.candid (h : V.Called p c r V') (hV : V.Candid last) (hrunning : (V p).Running)
    (hok : c.callNr = .SENDREC → r = .OK) : V'.Candid (Function.update last p (some c)) := by
  have hpend := hV.running_idle hrunning
  have hoff := hrunning.sending
  cases h with
  | sent hnr hsent =>
    obtain ⟨hmeant, hpend'⟩ := hsent.plain_meant hrunning hpend fun _ => hnr
    refine hV.called_by (hsent.queued hV.queued hoff) (fun i hi => hsent.less hi) hmeant ?_
    intro hyes
    rw [hpend'] at hyes
    cases hyes
  | sentnb hnr hsent =>
    obtain ⟨hmeant, hpend'⟩ := hsent.plain_meant hrunning hpend nofun
    refine hV.called_by (hsent.queued hV.queued hoff) (fun i hi => hsent.less hi) hmeant ?_
    intro hyes
    rw [hpend'] at hyes
    cases hyes
  | unsent hnr hr => exact absurd (hok hnr) hr
  | @sendrec _ W hnr hsent hreceived =>
    have hstarted : (V.startPend p).Queued := hV.queued.same (.update rfl rfl rfl)
    have hpended : (V.startPend p p).pend = true := by
      rw [startPend, Function.update_self]
    have hstarted_off : (V.startPend p p).sending = false := by
      rw [startPend, Function.update_self]
      exact hoff
    have hidle : (V.startPend p p).receiving = false := by
      rw [startPend, Function.update_self]
      exact hrunning.receiving
    have hqueued := hsent.queued hstarted hstarted_off
    obtain ⟨hpendW, -, hsends⟩ := hsent.sender hidle
    refine hV.called_by (hreceived.keeps_queued hqueued) (fun i hi => ?_) ?_ ?_
    · exact ((startPend_less hi).trans (hsent.less hi)).trans (hreceived.less hi)
    · rcases hreceived.receiver hqueued with ⟨hpend', hsending', hmsg', -⟩ | ⟨-, hpend', hsending'⟩
      · refine ⟨fun _ => ⟨c, rfl, hnr⟩, fun hyes => ⟨c, rfl, ?_, ?_⟩⟩
        · rcases hsends with ⟨hstays, -⟩ | ⟨hm, -⟩
          · rw [hsending', hstays, hstarted_off] at hyes
            cases hyes
          · rw [hmsg']
            exact hm
        · rw [hpend', hpendW, hpended, if_pos rfl]
          exact hnr
      · exact Mark.meant_idle hpend' hsending'
    · intro hyes
      rcases hreceived.receiver hqueued with ⟨-, -, -, hreceiving⟩ | ⟨-, hpend', -⟩
      · exact hreceiving (hok hnr)
      · rw [hpend'] at hyes
        cases hyes
  | received hnr hreceived =>
    have hfresh : (V.freshStatus p).Queued := hV.queued.same (.update rfl rfl rfl)
    have hpended : (V.freshStatus p p).pend = false := by
      rw [freshStatus, Function.update_self]
    have hidle : (V.freshStatus p p).sending = false := by
      rw [freshStatus, Function.update_self]
      exact hoff
    have hstays : (V' p).pend = false ∧ (V' p).sending = false := by
      rcases hreceived.receiver hfresh with ⟨hpend', hsending', -⟩ | ⟨-, hpend', hsending'⟩
      · exact ⟨hpend'.trans hpended, hsending'.trans hidle⟩
      · exact ⟨hpend', hsending'⟩
    refine hV.called_by (hreceived.keeps_queued hfresh) (fun i hi => ?_)
      (Mark.meant_idle hstays.1 hstays.2) ?_
    · exact (freshStatus_less hi).trans (hreceived.less hi)
    · intro hyes
      rw [hstays.1] at hyes
      cases hyes
  | notified hnr hgiven =>
    exact (hV.recall hrunning).less (hV.queued.same hgiven.same) hgiven.less

end Calls

end Marks

section Steps
variable {s s' t t' : KState H M} {p : Slot H} {c : SendaCall M} {r : Errno}

structure Scanned (s : KState H M) (p : Slot H) (c : SendaCall M) (j : ℕ) (t : KState H M) :
    Prop where
  current : t.procPtr = p
  eased : ∀ i, Eased (s.proc i) (t.proc i)
  masks : ∀ id, (t.priv id).sIpcTo = (s.priv id).sIpcTo
  passed : ∀ k < j, ∃ x, c.table[k]? = some x ∧ (x.flags ≠ 0 → badAsynFlags x.flags = false)
  ahead : ∀ k ≥ j, (t.asyntab p)[k]? = c.table[k]?

theorem Scanned.round {j : ℕ} {copies : ℕ → Bool} {done done' : Bool} (h : Scanned s p c j t)
    (hused : (s.proc p).rtsIsset RTS_SLOT_FREE = false)
    (hsent : EntrySent p copies j t done done' t') : Scanned s p c (j + 1) t' := by
  have hcurrent : (t.proc t.procPtr).rtsIsset RTS_SLOT_FREE = false := by
    rw [h.current, (h.eased p).free]
    exact hused
  obtain ⟨heased, hpriv, hptr, htable⟩ := entrySent_eased hcurrent hsent
  have hhere : ∃ x, (t.asyntab p)[j]? = some x ∧ (x.flags ≠ 0 → badAsynFlags x.flags = false) := by
    cases hsent with
    | skipped hent _ hgood => exact ⟨_, hent, hgood⟩
    | failed hent hopen => exact ⟨_, hent, fun _ => hopen.1⟩
    | unread hent hopen => exact ⟨_, hent, fun _ => hopen.1⟩
    | given hent hopen => exact ⟨_, hent, fun _ => hopen.1⟩
    | hinted hent hopen => exact ⟨_, hent, fun _ => hopen.1⟩
  refine ⟨hptr.trans h.current, fun i => (h.eased i).trans (heased i), ?_, ?_, ?_⟩
  · intro id
    rw [hpriv]
    exact h.masks id
  · intro k hk
    by_cases hkj : k < j
    · exact h.passed k hkj
    · obtain rfl : k = j := by omega
      rw [← h.ahead k le_rfl]
      exact hhere
  · intro k hk
    rw [htable k hk]
    exact h.ahead k (by omega)

theorem entrySent_less {j : ℕ} {done done' : Bool} (h : Scanned s p c j t)
    (hspares : ∀ i tabent d, c.Reaches i tabent → sendaTo s p tabent.dst = .ok d →
      takesAsync s p d tabent.flags = true → (s.proc d).miscIsset MF_REPLY_PEND = false)
    (hj : j < c.size) (hsent : EntrySent p c.copies j t done done' t') :
    t.marks.SameQueues t'.marks ∧ ∀ i, (t.marks i).Less (t'.marks i) := by
  cases hsent with
  | skipped => exact ⟨.refl _, fun _ => .refl _⟩
  | failed => exact ⟨.refl _, fun _ => .refl _⟩
  | unread => exact ⟨.refl _, fun _ => .refl _⟩
  | @given tabent d u hent hopen hdst htakes hcopy hgive =>
    have hreach : c.Reaches j tabent :=
      ⟨hj, hcopy, by rw [← h.ahead j le_rfl]; exact hent, hopen, h.passed⟩
    have hfree := hspares j tabent d hreach (sendaTo_eased h.eased h.masks hdst)
      (takesAsync_eased h.eased htakes)
    have hpend : (t.marks d).pend = false := (h.eased d).pend.trans hfree
    have hmarks := giveAsync_marks hgive
    have hready : (t.marks d).willReceive (t.marks p).endpoint = true :=
      (Bool.and_eq_true _ _ ▸ (takesAsync_mark d tabent.flags).trans htakes).1
    rw [Mark.willReceive, Bool.and_eq_true, Bool.and_eq_true, Bool.not_eq_true'] at hready
    obtain ⟨l, hl⟩ := addStatus_eq
      (x := (t.marks d).accept ⟨0, .user tabent.msg⟩ (t.marks p).endpoint) (.call .SENDA)
    rw [Mark.receiveAsync, hl] at hmarks
    change t.marks.SameQueues u.marks ∧ ∀ i, (t.marks i).Less (u.marks i)
    rw [hmarks]
    refine ⟨.update rfl rfl rfl, fun i => ?_⟩
    by_cases hi : i = d
    · subst hi
      rw [Function.update_self]
      exact .inr ⟨hpend, hready.1.2⟩
    · rw [Function.update_of_ne hi]
      exact .refl _
  | @hinted tabent d =>
    have hmarks : (t.upd d (·.setMisc MF_ASYNMSG)).marks =
        Function.update t.marks d { t.marks d with asyn := true } := by
      rw [marks_upd, mark_set_asyn]
      rfl
    rw [hmarks]
    refine ⟨.update rfl rfl rfl, fun i => ?_⟩
    by_cases hi : i = d
    · subst hi
      rw [Function.update_self]
      exact .inl ⟨rfl, rfl, rfl, id⟩
    · rw [Function.update_of_ne hi]
      exact .refl _

theorem doSenda_less (hused : (s.proc p).rtsIsset RTS_SLOT_FREE = false) (hptr : s.procPtr = p)
    (hspares : SparesSendrec s p c) (h : doSenda s p c = .ok (r, s')) :
    s.marks.SameQueues s'.marks ∧ ∀ i, (s.marks i).Less (s'.marks i) := by
  rcases doSenda_cases h with ⟨-, rfl⟩ | ⟨hpriv, hsize, ⟨-, -, rfl⟩ | ⟨done, t, hloop, hreturned⟩⟩
  · exact ⟨.refl _, fun _ => .refl _⟩
  · exact ⟨.refl _, fun _ => .refl _⟩
  · have hstart : Scanned s p c 0 (setTable (setAsynsize s p 0) p c.table) := by
      refine ⟨hptr, fun _ => .refl _, fun id => ?_, fun _ hk => absurd hk (Nat.not_lt_zero _),
        fun _ _ => ?_⟩
      · change (Function.update s.priv _ _ id).sIpcTo = _
        by_cases hid : id = (s.proc p).priv
        · subst hid
          rw [Function.update_self]
        · rw [Function.update_of_ne hid]
      · rw [setTable]
        change (Function.update s.asyntab p c.table p)[_]? = _
        rw [Function.update_self]
    have hscan := sendaLoop_rule
      (P := fun j _ u => Scanned s p c j u ∧ s.marks.SameQueues u.marks ∧
        ∀ i, (s.marks i).Less (u.marks i))
      (fun j _ u _ u' hj hP hsent => by
        obtain ⟨hscanned, hsame, hless⟩ := hP
        obtain ⟨hsame', hless'⟩ :=
          entrySent_less hscanned (hspares hpriv hsize) (by omega) hsent
        exact ⟨hscanned.round hused hsent, hsame.trans hsame', fun i => (hless i).trans (hless' i)⟩)
      hloop ⟨hstart, .refl _, fun _ => .refl _⟩
    obtain ⟨-, ⟨-, hsame, hless⟩, -⟩ := hscan
    rcases hreturned with ⟨rfl, -⟩ | ⟨-, -, rfl⟩
    · exact ⟨hsame, hless⟩
    · exact ⟨hsame, hless⟩

theorem lastCall_call {past : CallHistory H M} {call : IpcCall M} :
    lastCall ((s, p, .call call r) :: past) = Function.update (lastCall past) p (some call) := by
  funext q
  rw [lastCall, List.findSome?_cons, CallEvent.madeBy]
  by_cases hq : q = p
  · subst hq
    rw [if_pos rfl, Function.update_self]
  · rw [if_neg (Ne.symm hq), Function.update_of_ne hq]
    rfl

theorem lastCall_other {past : CallHistory H M} {e : CallEvent H M}
    (he : ∀ p q, e.madeBy (H := H) p q = none) : lastCall ((s, p, e) :: past) = lastCall past := by
  funext q
  rw [lastCall, List.findSome?_cons, he]
  rfl

theorem callEvent_candid {past : CallHistory H M} {e : CallEvent H M}
    (h : s.marks.Candid (lastCall past)) (hok : KeepsPend s p e) (hs : e.Happens s p s') :
    s'.marks.Candid (lastCall ((s, p, e) :: past)) := by
  cases e with
  | call call r =>
    obtain ⟨hrun, -, hs⟩ := hs
    have hrunning := marks_running (s := s) hrun
    rw [lastCall_call]
    rcases doSyncIpc_marks hs with ⟨-, rfl⟩ | ⟨hrefuse, hcalled⟩
    · exact h.recall hrunning
    · refine hcalled.candid h hrunning fun hnr => ?_
      exact sendrec_succeeds (s := s.switchTo p) hrun hnr hrefuse (hok hnr hrefuse) hs
  | senda call r =>
    obtain ⟨hrun, -, hs⟩ := hs
    rw [lastCall_other fun _ _ => rfl]
    obtain ⟨hsame, hless⟩ :=
      doSenda_less (s := s.switchTo p) (marks_running (s := s) hrun).free rfl hok hs
    exact h.less (h.queued.same hsame) hless
  | deliver m =>
    obtain ⟨-, hs⟩ := hs
    rw [lastCall_other fun _ _ => rfl, delivermsg_marks hs]
    refine h.less (h.queued.same (.update rfl rfl rfl)) fun i => ?_
    by_cases hi : i = p
    · subst hi
      rw [Function.update_self]
      exact .inl ⟨rfl, rfl, rfl, id⟩
    · rw [Function.update_of_ne hi]
      exact .refl _
  | rtsSet q f =>
    obtain ⟨-, hf, hs⟩ := hs
    rw [lastCall_other fun _ _ => rfl, rtsSet_beyond hf hs]
    exact h
  | rtsUnset q f =>
    obtain ⟨hf, hs⟩ := hs
    rw [lastCall_other fun _ _ => rfl, rtsUnset_beyond hf hs]
    exact h

theorem uncalled_candid (h : Uncalled s) : s.marks.Candid (lastCall []) where
  queued := by
    have hnone : ∀ a, s.marks.pointsAt a = none := by
      intro a
      cases a with
      | inl i => exact (h.queues i).1
      | inr i => exact (h.queues i).2
    refine ⟨fun a i ha => ?_, fun a _ i ha => ?_⟩
    · rw [hnone] at ha
      cases ha
    · rw [hnone] at ha
      cases ha
  meant i := Mark.meant_idle (h.pend i) (h.idle i).1
  waits i hpend := by
    rw [show (s.marks i).pend = false from h.pend i] at hpend
    cases hpend

theorem run_candid {past : CallHistory H M} {s : KState H M}
    (h : Run (callSystem H M) (fun _ s e => KeepsPend s e.1 e.2) past s) :
    s.marks.Candid (lastCall past) := by
  refine h.trace_invariant (P := fun past s => s.marks.Candid (lastCall past)) ?_ ?_
  · intro s hinit
    exact uncalled_candid hinit
  · intro _ _ _ _ hs hok hstep
    exact callEvent_candid hs hok hstep

theorem told_truthfully {past : CallHistory H M} {call : IpcCall M} {d : Slot H} {k : CallNr}
    (h : s.marks.Candid (lastCall past)) (hrunning : (s.marks p).Running)
    (htold : s.marks.Told s'.marks p call d (.call k) (s'.marks d).delivermsg)
    (hk : sendsMessage k = true) : SentWith ((s, p, .call call r) :: past) s p s' d k := by
  rw [SentWith, lastCall_call]
  generalize hmsg : (s'.marks d).delivermsg = msg at htold
  generalize hitem : StatusItem.call k = item at htold
  cases htold with
  | notified =>
    cases hitem
    cases hk
  | async =>
    cases hitem
    cases hk
  | @sent _ k' m _ hm hcall =>
    cases hitem
    refine ⟨p, call, m, Function.update_self .., ?_, hm, hmsg, .inl rfl⟩
    rcases hcall with hcall | hpend
    · exact hcall.symm
    · rw [h.running_idle hrunning] at hpend
      cases hpend
  | queued hnr hqueue =>
    obtain ⟨q, xpp, hq, -, -, hfreed, hfrom, hcall⟩ := hqueue
    have hfresh : (s.marks.freshStatus p).Queued := h.queued.same (.update rfl rfl rfl)
    have hsends : ((s.marks.freshStatus p) q).sending = true := by
      rw [Marks.callerAt_points] at hq
      exact hfresh.sending _ _ hq
    have hqp : q ≠ p := by
      rintro rfl
      rw [Marks.freshStatus, Function.update_self, hrunning.sending] at hsends
      cases hsends
    have hsame : s.marks.freshStatus p q = s.marks q := Function.update_of_ne hqp ..
    rw [hsame] at hsends
    obtain ⟨c', hlast, hm, hcode⟩ := (h.meant q).sending hsends
    rcases hcall with hcall | ⟨hcall, -⟩
    · rw [Marks.queuedCall, hsame] at hcall
      rw [hsame] at hfrom
      have hk' : k = c'.callNr := by
        rw [hcode]
        exact StatusItem.call.inj (hitem.trans hcall)
      exact ⟨q, c', _, (Function.update_of_ne hqp ..).trans hlast, hk'.symm, hm,
        hmsg.trans hfrom, .inr ⟨hsends, hfreed⟩⟩
    · cases hitem.trans hcall

theorem callEvent_truthful {past : CallHistory H M} {e : CallEvent H M}
    (h : s.marks.Candid (lastCall past)) (hs : e.Happens s p s') :
    StatusTruthful past s p e s' := by
  intro d items k hitems hmem hk
  have hquiet : (s.marks d).Adds (fun item _ => item = .call .SENDA) (s'.marks d) →
      e.statusBefore s p d = (s.proc d).ipcStatus →
      SentWith ((s, p, e) :: past) s p s' d k := by
    rintro ⟨items', hitems', hall⟩ hbefore
    rw [hbefore] at hitems
    obtain rfl := List.append_cancel_right (hitems.symm.trans hitems')
    have hsenda := hall _ hmem
    cases hsenda
    cases hk
  cases e with
  | call call r =>
    obtain ⟨hrun, -, hs⟩ := hs
    have hrunning := marks_running (s := s) hrun
    rcases doSyncIpc_marks hs with ⟨hrefuse, rfl⟩ | ⟨hrefuse, hcalled⟩
    · rw [statusBefore_refused hrefuse] at hitems
      have hnone : items = [] := List.append_left_eq_self.mp hitems.symm
      rw [hnone] at hmem
      cases hmem
    · obtain ⟨items', hitems', hall⟩ := hcalled.adds hrunning (h.queued.unqueued p) d
      rw [statusBefore_found hrefuse] at hitems
      obtain rfl := List.append_cancel_right (hitems.symm.trans hitems')
      exact told_truthfully h hrunning (hall _ hmem) hk
  | senda call r =>
    obtain ⟨-, -, hs⟩ := hs
    exact hquiet ((doSenda_marks hs).adds d) rfl
  | deliver m =>
    obtain ⟨-, hs⟩ := hs
    refine hquiet ?_ rfl
    rw [delivermsg_marks hs]
    by_cases hd : d = p
    · subst hd
      rw [Function.update_self]
      exact .of_eq rfl
    · rw [Function.update_of_ne hd]
      exact .of_eq rfl
  | rtsSet q f =>
    obtain ⟨-, hf, hs⟩ := hs
    refine hquiet ?_ rfl
    rw [rtsSet_beyond hf hs]
    exact .of_eq rfl
  | rtsUnset q f =>
    obtain ⟨hf, hs⟩ := hs
    refine hquiet ?_ rfl
    rw [rtsUnset_beyond hf hs]
    exact .of_eq rfl

end Steps

theorem call_statusTruthful {past : CallHistory H M} {s s' : KState H M} {p : Slot H}
    {e : CallEvent H M}
    (h : Run (callSystem H M) (fun _ s e => KeepsPend s e.1 e.2) ((s, p, e) :: past) s') :
    StatusTruthful past s p e s' ∧
      ∀ q, (s'.proc q).miscIsset MF_REPLY_PEND = true → InSendrec ((s, p, e) :: past) s' q := by
  have hend := run_candid h
  refine ⟨?_, fun q hpend => ⟨(hend.meant q).pend hpend, .inr (hend.waits q hpend)⟩⟩
  cases h with
  | next hrun _ hstep => exact callEvent_truthful (run_candid hrun) hstep

theorem uncalled_twoRunning : Uncalled twoRunning where
  idle := by decide
  queues := by decide
  pend := by decide

theorem call_statusTruthful_exchange : ∃ past s s',
    Run (callSystem Headers.sample ℕ) (fun _ s e => KeepsPend s e.1 e.2)
      ((s, 5, .call receiveAny .OK) :: past) s' ∧
    (s'.proc 5).ipcStatus = [.call .SEND] ∧
    StatusTruthful past s 5 (.call receiveAny .OK) s' ∧
    ∀ q, (s'.proc q).miscIsset MF_REPLY_PEND = true →
      InSendrec ((s, 5, .call receiveAny .OK) :: past) s' q := by
  have hrun : Run (callSystem Headers.sample ℕ) (fun _ s e => KeepsPend s e.1 e.2)
      [(_, 5, .call receiveAny .OK), (twoRunning, 4, .call (sendTo 5) .OK)] _ :=
    .next (.next (.start uncalled_twoRunning) (fun h => nomatch h) ⟨rfl, rfl, rfl⟩)
      (fun h => nomatch h) ⟨rfl, rfl, rfl⟩
  exact ⟨_, _, _, hrun, rfl, call_statusTruthful hrun⟩

def sendrecUnread : IpcCall ℕ where
  callNr := .SENDREC
  srcDstE := Headers.sample.endpoint 1 (procNr (5 : Slot Headers.sample))
  mPtr := 0
  m := none

theorem send_reported_as_sendrec : ∃ past s s', ∃ p : Slot Headers.sample, ∃ e,
    Run (callSystem Headers.sample ℕ) always ((s, p, e) :: past) s' ∧
    ¬ StatusTruthful past s p e s' := by
  have hrun : Run (callSystem Headers.sample ℕ) always
      [(_, 5, .call receiveAny .OK), (_, 4, .call (sendTo 5) .OK),
        (twoRunning, 4, .call sendrecUnread .EFAULT)] _ :=
    .next (.next (.next (.start uncalled_twoRunning) trivial ⟨rfl, rfl, rfl⟩) trivial
      ⟨rfl, rfl, rfl⟩) trivial ⟨rfl, rfl, rfl⟩
  refine ⟨_, _, _, _, _, hrun, fun htrue => ?_⟩
  obtain ⟨q, c, m, hlast, hcode, -⟩ := htrue 5 [.call .SENDREC] .SENDREC rfl (by simp) rfl
  rw [lastCall_call, lastCall_call, Function.update_apply, Function.update_apply] at hlast
  split at hlast
  · obtain rfl := Option.some.inj hlast
    cases hcode
  · split at hlast
    · obtain rfl := Option.some.inj hlast
      cases hcode
    · rename_i hfour
      rw [lastCall_call, Function.update_of_ne hfour] at hlast
      cases hlast

end Kernel
