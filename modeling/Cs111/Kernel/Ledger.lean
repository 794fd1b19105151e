import Cs111.Kernel.CallerQueues
import Mathlib.Algebra.BigOperators.Fin
import Cs111.Kernel.Scheduling

namespace Kernel
open Minix FlagWord Chain TransitionSystem
variable {H : Headers} {M : Type}

def ofUser (m : Message M) : Multiset (Message M) :=
  match m.body with
  | .user _ => {m}
  | _ => 0

def sendsMessage (callNr : CallNr) : Bool :=
  callNr == .SEND || callNr == .SENDREC || callNr == .SENDNB

namespace Peers

def handed (V : Peers H M) (d q : Slot H) : Multiset (Message M) :=
  match (V q).sending with
  | some (e, m) => if e = (V d).endpoint then ofUser { m with mSource := (V q).endpoint } else 0
  | none => 0

def boxed (V : Peers H M) (d : Slot H) : Multiset (Message M) :=
  match (V d).box with
  | some m => ofUser m
  | none => 0

def ledger (V : Peers H M) (d : Slot H) : Multiset (Message M) := ∑ q, V.handed d q + V.boxed d

def posted (V : Peers H M) (p : Slot H) (m : Option (Message M)) : Multiset (Message M) :=
  match m with
  | some m => ofUser { m with mSource := (V p).endpoint }
  | none => 0

variable {V V' : Peers H M} {D : Slot H → Prop} {L : Slot H → List (Slot H)}
variable {p d q d' : Slot H} {e : ℤ} {r : Errno} {m : Message M} {xpp : Cell (Slot H)}

theorem ofUser_kernel (h : ∀ content, m.body ≠ .user content) : ofUser m = 0 := by
  obtain ⟨source, body⟩ := m
  cases body with
  | user content => exact absurd rfl (h content)
  | notifyFrom => rfl
  | schedulingNoQuantum => rfl

section Sums
variable {ι α : Type} [Fintype ι] [DecidableEq ι]

theorem sum_changed {f g : ι → Multiset α} (i : ι) (h : ∀ j, j ≠ i → g j = f j) :
    ∑ j, g j + f i = ∑ j, f j + g i := by
  have hrest : ∑ j ∈ Finset.univ.erase i, g j = ∑ j ∈ Finset.univ.erase i, f j :=
    Finset.sum_congr rfl fun j hj => h j (Finset.ne_of_mem_erase hj)
  rw [← Finset.add_sum_erase _ f (Finset.mem_univ i),
    ← Finset.add_sum_erase _ g (Finset.mem_univ i), hrest, add_comm (g i), add_right_comm,
    add_comm _ (f i)]

end Sums

section Moves

theorem handed_congr (hkept : V.Kept V') (hsend : (V' q).sending = (V q).sending) :
    V'.handed d q = V.handed d q := by
  rw [handed, handed, hsend, (hkept d).2.1, (hkept q).2.1]

theorem handed_idle (h : (V q).sending = none) : V.handed d q = 0 := by
  rw [handed, h]

theorem handed_sending (h : (V q).sending = some (e, m)) : V.handed d q =
    if e = (V d).endpoint then ofUser { m with mSource := (V q).endpoint } else 0 := by
  rw [handed, h]

theorem boxed_some (h : (V d).box = some m) : V.boxed d = ofUser m := by
  rw [boxed, h]

theorem boxed_none (h : (V d).box = none) : V.boxed d = 0 := by
  rw [boxed, h]

theorem ledger_congr (hkept : V.Kept V') (hsend : ∀ i, (V' i).sending = (V i).sending)
    (hbox : V'.boxed d = V.boxed d) : V'.ledger d = V.ledger d := by
  rw [ledger, ledger, hbox, Finset.sum_congr rfl fun q _ => handed_congr hkept (hsend q)]

theorem ledger_deliver (hbox : (V d).box = none) :
    (V.deliver d m).ledger d' = V.ledger d' + if d' = d then ofUser m else 0 := by
  have hhanded : ∀ q, (V.deliver d m).handed d' q = V.handed d' q := fun q =>
    handed_congr kept_deliver (deliver_mail q).1
  rw [ledger, ledger, Finset.sum_congr rfl fun q _ => hhanded q]
  split_ifs with hd
  · subst hd
    rw [boxed_some (by rw [(deliver_mail d').2.2, if_pos rfl]), boxed_none hbox, add_zero]
  · rw [add_zero, boxed, boxed, (deliver_mail d').2.2, if_neg hd]

theorem ledger_pickUp (hbox : (V p).box = none) (hm : ofUser m = 0) :
    (V.pickUp p m).ledger d = V.ledger d := by
  refine ledger_congr kept_pickUp (fun i => (pickUp_mail i).1) ?_
  by_cases hd : d = p
  · subst hd
    rw [boxed_some (by rw [(pickUp_mail d).2.2, if_pos rfl]), boxed_none hbox, hm]
  · rw [boxed, boxed, (pickUp_mail d).2.2, if_neg hd]

theorem ledger_block (hidle : (V p).sending = none) :
    (V.block p d e m xpp).ledger d' = V.ledger d' +
      if e = (V d').endpoint then ofUser { m with mSource := (V p).endpoint } else 0 := by
  have hkept : V.Kept (V.block p d e m xpp) := kept_block
  have hself : (V.block p d e m xpp).handed d' p =
      if e = (V d').endpoint then ofUser { m with mSource := (V p).endpoint } else 0 := by
    rw [handed_sending (by rw [(block_mail p).1, if_pos rfl]), (hkept d').2.1, (hkept p).2.1]
  have hsum := sum_changed (f := V.handed d') (g := (V.block p d e m xpp).handed d') p
    fun q hq => handed_congr hkept (by rw [(block_mail q).1, if_neg hq])
  rw [handed_idle hidle, add_zero] at hsum
  have hbox : (V.block p d e m xpp).boxed d' = V.boxed d' := by
    rw [boxed, boxed, (block_mail d').2.2]
  rw [ledger, hsum, hself, hbox, ledger, add_right_comm]

theorem ledger_take (hsound : V.Sound) (hbox : (V p).box = none) {m' : Message M}
    (hsending : (V q).sending = some ((V p).endpoint, m'))
    (hm : m = { m' with mSource := (V q).endpoint }) :
    (V.take p q xpp m).ledger d = V.ledger d := by
  have hkept : V.Kept (V.take p q xpp m) := kept_take
  have hsum := sum_changed (f := V.handed d) (g := (V.take p q xpp m).handed d) q
    fun i hi => handed_congr hkept (by rw [(take_mail i).1, if_neg hi])
  rw [handed_idle (V := V.take p q xpp m) (q := q) (by rw [(take_mail q).1, if_pos rfl]), add_zero,
    handed_sending hsending, ← hm] at hsum
  rw [ledger, ledger]
  by_cases hd : d = p
  · subst hd
    rw [if_pos rfl] at hsum
    rw [boxed_some (by rw [(take_mail d).2.2, if_pos rfl]), boxed_none hbox, hsum, add_zero]
  · rw [if_neg fun hend => hd (hsound.endpoint_inj hend).symm, add_zero] at hsum
    rw [hsum, boxed, boxed, (take_mail d).2.2, if_neg hd]

end Moves

section Steps

theorem Sent.ledger (hsound : V.Sound) (hidle : (V p).Idle) {m : Option (Message M)}
    {nonBlocking : Bool} (hnamed : V.named e = some d) (hs : V.Sent p d e m nonBlocking r V')
    (d' : Slot H) : V'.ledger d' = V.ledger d' +
      if r = .OK ∧ e = (V d').endpoint then V.posted p m else 0 := by
  cases hs with
  | refused hr => rw [if_neg fun hok => hr hok.1, add_zero]
  | @delivered msg _ _ hbox hm =>
    have hdest : d' = d ↔ e = (V d').endpoint := by
      rw [← (named_some hnamed).2.2]
      exact ⟨fun hd => by rw [hd], fun hend => (hsound.endpoint_inj hend).symm⟩
    rw [ledger_deliver hbox, hm]
    simp only [hdest, true_and]
    rfl
  | @blocked msg xpp _ _ _ _ hm _ _ =>
    rw [ledger_block hidle.sending, hm]
    simp only [true_and]
    rfl

theorem Received.ledger (hsound : V.Sound) (hqueued : V.Queued D L) (hp : D p)
    {src : Option (Slot H)} (hs : V.Received p src e r V') (d : Slot H) :
    V'.ledger d = V.ledger d := by
  cases hs with
  | gone => rfl
  | noted _ hbox hm => exact ledger_pickUp hbox (ofUser_kernel hm)
  | @took q xpp m _ hbox hseek hget hm =>
    obtain ⟨pre, post, hsplit, -⟩ := hqueued.take (m := m) hsound.endpoint_inj hp hseek hget
    obtain ⟨m', hm'⟩ := (hqueued.mem p hp q).mp (by rw [hsplit]; simp)
    exact ledger_take hsound hbox hm' (hm _ m' hm')
  | locked => rfl
  | waited =>
    refine ledger_congr kept_wait (fun i => (wait_mail i).1) ?_
    rw [boxed, boxed, (wait_mail d).2.2]

theorem Ends.of_others {cpE : ℤ} (hends : V.Ends cpE e) (hp : (V p).endpoint = cpE)
    (hne : V.named e ≠ some p) (hkept : V.Kept V')
    (hsame : ∀ i, i ≠ p → (V' i).blockedOn = (V i).blockedOn) : V'.Ends cpE e := by
  induction hends with
  | any => exact .any
  | @idle e xp hxp hnone =>
    have hxp' : xp ≠ p := by
      rintro rfl
      exact hne hxp
    exact .idle ((hkept.named e).trans hxp) ((hsame xp hxp').trans hnone)
  | @next e xp hxp hnone hback _ ih =>
    have hxp' : xp ≠ p := by
      rintro rfl
      exact hne hxp
    have hrest := ih fun hnamed => hback ((named_some hnamed).2.2.symm.trans hp)
    rw [← hsame xp hxp'] at hnone hback hrest
    exact .next ((hkept.named e).trans hxp) hnone hback hrest

theorem exchanged_ok (hidle : (V p).Idle) {m : Option (Message M)} {V₁ : Peers H M}
    (hnamed : V.named e = some d) (hsent : V.Sent p d e m false .OK V₁)
    (hreceived : V₁.Received p (some d) e r V') : r = .OK := by
  have hkept := hsent.kept
  have hnamed₁ : V₁.named e = some d := (hkept.named e).trans hnamed
  have halive : (V₁ d).state = .alive := by
    rw [(hkept d).1]
    cases hsent with
    | refused hr => exact absurd rfl hr
    | delivered halive => exact halive
    | blocked halive => exact halive
  have hends : V₁.Ends (V₁ p).endpoint e ∨ V₁.Exempt .RECEIVE (V₁ p).endpoint e := by
    rw [(hkept p).2.1]
    cases hsent with
    | refused hr => exact absurd rfl hr
    | delivered _ hready =>
      rw [Peer.willReceive, Bool.and_eq_true, Option.isNone_iff_eq_none] at hready
      refine .inl (.idle hnamed₁ ?_)
      rw [Peer.blockedOn, (deliver_mail d).1, hready.1, (deliver_mail d).2.1, if_pos rfl]
      rfl
    | @blocked msg xpp _ _ _ hends _ _ _ =>
      have hsending : (V.block p d e msg xpp p).sending = some (e, msg) := by
        rw [(block_mail p).1, if_pos rfl]
      by_cases hd : d = p
      · subst hd
        have hself : (V.block d d e msg xpp d).blockedOn = e := by rw [Peer.blockedOn, hsending]
        refine .inr ⟨d, hnamed₁, ?_, ?_, ?_⟩
        · rw [hself]
          rintro rfl
          rw [named_none] at hnamed
          cases hnamed
        · rw [hself, (named_some hnamed).2.2]
        · simp [hsending]
      · refine .inl (hends.of_others rfl ?_ hkept fun i hi => ?_)
        · rw [hnamed]
          exact fun hself => hd (Option.some.inj hself)
        · rw [Peer.blockedOn, Peer.blockedOn, (block_mail i).1, if_neg hi, (block_mail i).2.1]
  cases hreceived with
  | gone hd hdead => exact absurd halive (Option.some.inj hd ▸ hdead)
  | noted => rfl
  | took => rfl
  | locked hnot hnot' => exact absurd hends (not_or.mpr ⟨hnot, hnot'⟩)
  | waited => rfl

theorem Called.ledger (hsound : V.Sound) (hqueued : V.Queued (fun _ => True) L)
    (hidle : (V p).Idle) {c : IpcCall M} (hs : V.Called p c r V') (d : Slot H) :
    V'.ledger d = V.ledger d +
      if r = .OK ∧ sendsMessage c.callNr = true ∧ c.srcDstE = (V d).endpoint
      then V.posted p c.message else 0 := by
  cases hs with
  | refused hr => rw [if_neg fun hok => hr hok.1, add_zero]
  | sent hcall hnamed hsent =>
    have hsends : sendsMessage c.callNr = true := by
      rcases hcall with hcall | hcall <;> rw [hcall] <;> rfl
    rw [hsent.ledger hsound hidle hnamed]
    simp only [hsends, true_and]
  | exchanged hcall hnamed hsent hreceived =>
    have hok := exchanged_ok hidle hnamed hsent hreceived
    obtain ⟨L₁, h₁, -⟩ := hqueued.sent hsound (fun _ _ => trivial) hidle hnamed hsent
    have hsound₁ := hsound.of_kept hsent.kept (hsound.paired.sent hidle hsent).1
    have hsends : sendsMessage c.callNr = true := by
      rw [hcall]
      rfl
    rw [hreceived.ledger hsound₁ h₁ trivial, hsent.ledger hsound hidle hnamed]
    simp only [hok, hsends, true_and]
  | received hcall _ hreceived =>
    rw [hreceived.ledger hsound hqueued trivial, hcall]
    simp [sendsMessage]
  | notified hcall _ hnotified =>
    have hnone : V'.ledger d = V.ledger d := by
      cases hnotified with
      | pending => rfl
      | delivered _ hbox hm =>
        rw [ledger_deliver hbox, ofUser_kernel hm, ite_self, add_zero]
    rw [hnone, hcall]
    simp [sendsMessage]

end Steps

end Peers

structure VmView where
  endpoint : ℤ
  free : Bool
  request : Bool
  target : Bool
  deriving DecidableEq

def Proc.vm (x : Proc H M) : VmView where
  endpoint := x.endpoint
  free := x.rtsIsset RTS_SLOT_FREE
  request := x.rtsIsset RTS_VMREQUEST
  target := x.rtsIsset RTS_VMREQTARGET

def KState.vm (s : KState H M) (i : Slot H) : VmView := (s.proc i).vm

structure Orderly (vmProcNr : ℤ) (s : KState H M) : Prop where
  priority : ∀ p, (s.proc p).priority < nrSchedQueues
  whole : ∀ p, (s.vm p).free = true → (s.proc p).rtsFlags = RTS_SLOT_FREE
  named : ∀ p, (s.vm p).free = false → procNr p = H.endpointP (s.vm p).endpoint
  current : (s.vm s.procPtr).free = false
  manager : ∃ v, procNr v = H.endpointP vmProcNr ∧ (s.vm v).free = false ∧
    (s.vm v).endpoint = vmProcNr
  mail : ∀ p, (s.proc p).rtsIsset RTS_RECEIVING = true →
    (s.proc p).miscIsset MF_DELIVERMSG = false

structure Steady (vmProcNr : ℤ) (s : KState H M) : Prop extends Orderly vmProcNr s where
  queues : RunQueues s

section Steadiness
variable {vmProcNr : ℤ} {s s' : KState H M} {i rp : Slot H} {f : Flags}

theorem isEmpty_free {x : Proc H M} (hwhole : x.vm.free = true → x.rtsFlags = RTS_SLOT_FREE) :
    x.isEmpty = true ↔ x.vm.free = true := by
  rw [Proc.isEmpty, beq_iff_eq]
  refine ⟨fun h => ?_, hwhole⟩
  change isset x.rtsFlags RTS_SLOT_FREE = true
  rw [h]
  decide

theorem Orderly.isokendpt (h : Orderly vmProcNr s) {e : ℤ} : isokendpt s e = some i ↔
    procNr i = H.endpointP e ∧ (s.vm i).free = false ∧ (s.vm i).endpoint = e := by
  have hempty := isEmpty_free (h.whole i)
  constructor
  · intro hi
    obtain ⟨hnr, hne, he⟩ := isokendpt_some hi
    refine ⟨hnr, ?_, he⟩
    rw [Bool.eq_false_iff]
    exact fun hfree => hne (h.whole i hfree)
  · rintro ⟨hnr, hused, he⟩
    have haddr : procAddr H (H.endpointP e) = .ok i := by rw [← hnr, procAddr_procNr]
    have hfull : ¬ (s.proc i).isEmpty = true := by
      rw [hempty]
      exact Bool.eq_false_iff.mp hused
    have hsame : (s.proc i).endpoint = e := he
    rw [Kernel.isokendpt, haddr]
    simp [hfull, hsame]

theorem Orderly.lookup (h : Orderly vmProcNr s) (hused : (s.vm i).free = false) :
    Kernel.isokendpt s (s.vm i).endpoint = some i :=
  h.isokendpt.mpr ⟨h.named i hused, hused, rfl⟩

structure Kept (x y : Proc H M) : Prop where
  priority : y.priority = x.priority
  endpoint : y.vm.endpoint = x.vm.endpoint
  free : y.vm.free = x.vm.free
  whole : x.rtsFlags = RTS_SLOT_FREE → y.rtsFlags = RTS_SLOT_FREE
  mail : (x.rtsIsset RTS_RECEIVING = true → x.miscIsset MF_DELIVERMSG = false) →
    y.rtsIsset RTS_RECEIVING = true → y.miscIsset MF_DELIVERMSG = false

theorem Kept.refl (x : Proc H M) : Kept x x := ⟨rfl, rfl, rfl, id, id⟩

theorem Kept.setRts {x : Proc H M} {flags : Flags}
    (hfree : isset flags RTS_SLOT_FREE = x.rtsIsset RTS_SLOT_FREE)
    (hwhole : x.rtsFlags = RTS_SLOT_FREE → flags = RTS_SLOT_FREE)
    (hreceiving : isset flags RTS_RECEIVING = true → x.rtsIsset RTS_RECEIVING = true) :
    Kept x (x.setRts flags) :=
  ⟨rfl, rfl, hfree, hwhole, fun h hset => h (hreceiving hset)⟩

theorem Kept.or {x : Proc H M} (hused : x.vm.free = false) (hfree : f &&& RTS_SLOT_FREE = 0)
    (hreceiving : f &&& RTS_RECEIVING = 0) : Kept x (x.setRts (x.rtsFlags ||| f)) := by
  refine .setRts (isset_or hfree) (fun h => ?_) fun h => ?_
  · have hset : isset x.rtsFlags RTS_SLOT_FREE = false := hused
    rw [h] at hset
    exact absurd hset (by decide)
  · rwa [isset_or hreceiving] at h

theorem Kept.clear {x : Proc H M} (hfree : f &&& RTS_SLOT_FREE = 0) :
    Kept x (x.setRts (x.rtsFlags &&& ~~~f)) := by
  refine .setRts (isset_clear hfree) (fun h => ?_) isset_of_clear
  rw [h, clear_of_disjoint hfree]

theorem Orderly.keep (h : Orderly vmProcNr s) (hptr : s'.procPtr = s.procPtr)
    (hproc : ∀ i, Kept (s.proc i) (s'.proc i)) : Orderly vmProcNr s' := by
  have hfree : ∀ i, (s'.vm i).free = (s.vm i).free := fun i => (hproc i).free
  have hendpoint : ∀ i, (s'.vm i).endpoint = (s.vm i).endpoint := fun i => (hproc i).endpoint
  refine ⟨fun p => ?_, fun p hp => ?_, fun p hp => ?_, ?_, ?_, fun p => (hproc p).mail (h.mail p)⟩
  · rw [(hproc p).priority]
    exact h.priority p
  · rw [hfree] at hp
    exact (hproc p).whole (h.whole p hp)
  · rw [hfree] at hp
    rw [hendpoint]
    exact h.named p hp
  · rw [hptr, hfree]
    exact h.current
  · obtain ⟨v, hv⟩ := h.manager
    refine ⟨v, ?_⟩
    rwa [hfree, hendpoint]

theorem Orderly.upd (h : Orderly vmProcNr s) {g : Proc H M → Proc H M}
    (hg : Kept (s.proc rp) (g (s.proc rp))) : Orderly vmProcNr (s.upd rp g) := by
  refine h.keep rfl fun i => ?_
  by_cases hi : i = rp
  · subst hi
    rw [upd_proc_self]
    exact hg
  · rw [upd_proc_of_ne hi]
    exact .refl _

theorem Orderly.rescheduled (h : Orderly vmProcNr s) (hs : Rescheduled s s') :
    Orderly vmProcNr s' := by
  refine h.keep hs.procPtr_eq fun i => ?_
  rcases hs.proc i with hsame | ⟨rfl, hmarked⟩
  · rw [hsame]
    exact .refl _
  · rw [hmarked]
    exact .or h.current (by decide) (by decide)

theorem rtsUnset_spec (h : RunQueues s) (hprio : (s.proc rp).priority < nrSchedQueues) :
    ∃ s', rtsUnset s rp f = .ok s' := by
  obtain ⟨L, hL⟩ := h.queues
  rw [rtsUnset]
  split
  · rename_i hstarts
    simp only [setRts_isRunnable, Bool.and_eq_true, Bool.not_eq_true'] at hstarts
    have hoff : ¬ (s.proc rp).isRunnable = true := by simp [Proc.isRunnable, hstarts.1]
    obtain ⟨t, ht, -⟩ := enqueue_spec (hL.setRts fun _ => .rfl)
      (setRts_priority_lt h hprio) hoff (setRts_on hstarts.2)
    exact ⟨t, ht⟩
  · exact ⟨_, rfl⟩

theorem Steady.rtsSet (h : Steady vmProcNr s) (hused : (s.vm rp).free = false)
    (hfree : f &&& RTS_SLOT_FREE = 0) (hreceiving : f &&& RTS_RECEIVING = 0) :
    ∃ s', rtsSet s rp f = .ok s' ∧ Steady vmProcNr s' ∧
      Rescheduled (s.setRts rp ((s.proc rp).rtsFlags ||| f)) s' := by
  obtain ⟨s', hs', hqueues⟩ := rtsSet_spec h.queues rp f
  have hmoved := Rescheduled.of_rtsSet hs'
  have horderly : Orderly vmProcNr (s.setRts rp ((s.proc rp).rtsFlags ||| f)) :=
    h.upd (.or hused hfree hreceiving)
  exact ⟨s', hs', ⟨horderly.rescheduled hmoved, hqueues⟩, hmoved⟩

theorem Steady.rtsUnset (h : Steady vmProcNr s) (rp : Slot H) (f : Flags)
    (hfree : f &&& RTS_SLOT_FREE = 0) :
    ∃ s', rtsUnset s rp f = .ok s' ∧ Steady vmProcNr s' ∧
      Rescheduled (s.setRts rp ((s.proc rp).rtsFlags &&& ~~~f)) s' := by
  obtain ⟨s', hs'⟩ := rtsUnset_spec (f := f) h.queues (h.priority rp)
  have hmoved := Rescheduled.rtsUnset hs'
  have horderly : Orderly vmProcNr (s.setRts rp ((s.proc rp).rtsFlags &&& ~~~f)) :=
    h.upd (.clear hfree)
  exact ⟨s', hs', ⟨horderly.rescheduled hmoved, rtsUnset_runQueues h.queues hs'⟩, hmoved⟩

theorem Steady.updPriv (h : Steady vmProcNr s) (id : PrivId H) (g : Priv → Priv) :
    Steady vmProcNr (s.updPriv id g) :=
  ⟨h.keep rfl fun _ => .refl _, h.queues.congr ⟨rfl, rfl, rfl⟩ fun _ => ⟨rfl, rfl⟩⟩

theorem setRts_vm {x : Proc H M} (hfree : f &&& RTS_SLOT_FREE = 0)
    (hrequest : f &&& RTS_VMREQUEST = 0) (htarget : f &&& RTS_VMREQTARGET = 0) :
    (x.setRts (x.rtsFlags ||| f)).vm = x.vm ∧ (x.setRts (x.rtsFlags &&& ~~~f)).vm = x.vm := by
  simp only [Proc.vm, Proc.setRts, Proc.rtsIsset, isset_or hfree, isset_or hrequest,
    isset_or htarget, isset_clear hfree, isset_clear hrequest, isset_clear htarget, and_self]

theorem setRts_request (x : Proc H M) :
    (x.setRts (x.rtsFlags ||| RTS_VMREQUEST)).vm = { x.vm with request := true } ∧
    (x.setRts (x.rtsFlags &&& ~~~RTS_VMREQUEST)).vm = { x.vm with request := false } := by
  have hfree : RTS_VMREQUEST &&& RTS_SLOT_FREE = 0 := by decide
  have htarget : RTS_VMREQUEST &&& RTS_VMREQTARGET = 0 := by decide
  have hclear : isset (x.rtsFlags &&& ~~~RTS_VMREQUEST) RTS_VMREQUEST = false :=
    isset_clear_self (by decide) (by decide)
  simp only [Proc.vm, Proc.setRts, Proc.rtsIsset, isset_or hfree, isset_or htarget,
    isset_clear hfree, isset_clear htarget, hclear, isset_or_self, and_self]

theorem setRts_target (x : Proc H M) :
    (x.setRts (x.rtsFlags ||| RTS_VMREQTARGET)).vm = { x.vm with target := true } ∧
    (x.setRts (x.rtsFlags &&& ~~~RTS_VMREQTARGET)).vm = { x.vm with target := false } := by
  have hfree : RTS_VMREQTARGET &&& RTS_SLOT_FREE = 0 := by decide
  have hrequest : RTS_VMREQTARGET &&& RTS_VMREQUEST = 0 := by decide
  have hclear : isset (x.rtsFlags &&& ~~~RTS_VMREQTARGET) RTS_VMREQTARGET = false :=
    isset_clear_self (by decide) (by decide)
  simp only [Proc.vm, Proc.setRts, Proc.rtsIsset, isset_or hfree, isset_or hrequest,
    isset_clear hfree, isset_clear hrequest, hclear, isset_or_self, and_self]

theorem Rescheduled.vm (h : Rescheduled s s') : s'.vm = s.vm :=
  funext fun i => h.view_eq (v := Proc.vm)
    (fun _ => (setRts_vm (by decide) (by decide) (by decide)).1) i

theorem vm_upd {g : Proc H M → Proc H M} :
    (s.upd rp g).vm = Function.update s.vm rp (g (s.proc rp)).vm := by
  funext j
  by_cases hj : j = rp
  · subst hj
    simp [KState.vm]
  · simp [KState.vm, upd_proc_of_ne hj, hj]

theorem ipcStatusAdd_vm (x : Proc H M) (item : StatusItem) :
    (x.ipcStatusAdd item).priority = x.priority ∧ (x.ipcStatusAdd item).rtsFlags = x.rtsFlags ∧
      (x.ipcStatusAdd item).endpoint = x.endpoint := by
  rw [Proc.ipcStatusAdd]
  split <;> exact ⟨rfl, rfl, rfl⟩

theorem acceptNotify_proc (s : KState H M) (src dst : Slot H) :
    (acceptNotify s src dst).procPtr = s.procPtr ∧
    (∀ i, ((acceptNotify s src dst).proc i).priority = (s.proc i).priority ∧
      ((acceptNotify s src dst).proc i).rtsFlags = (s.proc i).rtsFlags ∧
      ((acceptNotify s src dst).proc i).endpoint = (s.proc i).endpoint) ∧
    ∀ i ≠ dst, (acceptNotify s src dst).proc i = s.proc i := by
  have hclear : (clearNotifyArg s src dst).proc = s.proc ∧
      (clearNotifyArg s src dst).procPtr = s.procPtr := by
    rw [clearNotifyArg]
    split_ifs <;> exact ⟨rfl, rfl⟩
  obtain ⟨hproc, hptr⟩ := hclear
  refine ⟨hptr, fun i => ?_, fun i hi => ?_⟩
  · by_cases hi : i = dst
    · subst hi
      rw [acceptNotify, upd_proc_self, hproc]
      exact ipcStatusAdd_vm _ _
    · rw [acceptNotify, upd_proc_of_ne hi, hproc]
      exact ⟨rfl, rfl, rfl⟩
  · rw [acceptNotify, upd_proc_of_ne hi, hproc]

theorem acceptNotify_queues (h : RunQueues s) (src dst : Slot H) :
    RunQueues (acceptNotify s src dst) := by
  refine RunQueues.congr h ?_ fun p => ?_
  · rw [acceptNotify, clearNotifyArg]
    split_ifs <;> exact ⟨rfl, rfl, rfl⟩
  · obtain ⟨hpriority, hrts, -⟩ := (acceptNotify_proc s src dst).2.1 p
    exact ⟨hpriority, hrts⟩

theorem Steady.acceptNotify_kept (h : Steady vmProcNr s) (src dst : Slot H) :
    ∃ s', Kernel.rtsUnset (acceptNotify s src dst) dst RTS_RECEIVING = .ok s' ∧
      Steady vmProcNr s' ∧ s'.vm = s.vm := by
  obtain ⟨hptr, hfields, hother⟩ := acceptNotify_proc s src dst
  have hqueues := acceptNotify_queues h.queues src dst
  obtain ⟨s', hs'⟩ := rtsUnset_spec (f := RTS_RECEIVING) hqueues
    (by rw [(hfields dst).1]; exact h.priority dst)
  have hmoved := Rescheduled.rtsUnset hs'
  have hrts : ((acceptNotify s src dst).proc dst).vm = (s.proc dst).vm := by
    obtain ⟨-, hflags, hendpoint⟩ := hfields dst
    simp only [Proc.vm, Proc.rtsIsset, hflags, hendpoint]
  have hcleared := (setRts_vm (x := (acceptNotify s src dst).proc dst) (f := RTS_RECEIVING)
    (by decide) (by decide) (by decide)).2.trans hrts
  have hvm : ((acceptNotify s src dst).setRts dst
      (((acceptNotify s src dst).proc dst).rtsFlags &&& ~~~RTS_RECEIVING)).vm = s.vm := by
    rw [KState.setRts, vm_upd, hcleared]
    funext i
    by_cases hi : i = dst
    · subst hi
      rw [Function.update_self]
      rfl
    · rw [Function.update_of_ne hi, KState.vm, hother i hi]
      rfl
  have horderly : Orderly vmProcNr ((acceptNotify s src dst).setRts dst
      (((acceptNotify s src dst).proc dst).rtsFlags &&& ~~~RTS_RECEIVING)) := by
    refine h.keep hptr fun i => ?_
    by_cases hi : i = dst
    · subst hi
      rw [KState.setRts, upd_proc_self]
      refine ⟨(hfields i).1, (hfields i).2.2, congrArg VmView.free hcleared, fun hfree => ?_,
        fun _ hset => ?_⟩
      · change ((acceptNotify s src i).proc i).rtsFlags &&& ~~~RTS_RECEIVING = RTS_SLOT_FREE
        rw [(hfields i).2.1, hfree]
        decide
      · have hclear : isset (((acceptNotify s src i).proc i).rtsFlags &&& ~~~RTS_RECEIVING)
            RTS_RECEIVING = false := isset_clear_self (by decide) (by decide)
        exact absurd (hclear.symm.trans hset) (by decide)
    · rw [setRts_proc_of_ne hi, hother i hi]
      exact .refl _
  exact ⟨s', hs', ⟨horderly.rescheduled hmoved, rtsUnset_runQueues hqueues hs'⟩,
    hmoved.vm.trans hvm⟩

theorem Steady.miniNotify (h : Steady vmProcNr s) (src : Slot H) (e : ℤ) :
    ∃ r s', Kernel.miniNotify s src e = .ok (r, s') ∧ Steady vmProcNr s' ∧ s'.vm = s.vm := by
  rw [Kernel.miniNotify]
  split
  · exact ⟨_, _, rfl, h, rfl⟩
  · rename_i dst _
    split
    · rename_i hwill
      simp only [Bool.and_eq_true, Proc.willReceive] at hwill
      have hmail := h.mail dst hwill.1.1.1
      obtain ⟨s', hs', hsteady, hvm⟩ := h.acceptNotify_kept src dst
      rw [hmail, hs']
      exact ⟨_, _, rfl, hsteady, hvm⟩
    · exact ⟨_, _, rfl, h.updPriv _ _, rfl⟩

theorem Steady.sendSig (h : Steady vmProcNr s) (sigNr : ℕ) :
    ∃ s', Kernel.sendSig s vmProcNr sigNr = .ok s' ∧ Steady vmProcNr s' ∧ s'.vm = s.vm := by
  obtain ⟨v, hv⟩ := h.manager
  have hlookup := okendpt_ok.mpr (h.isokendpt.mpr hv)
  have hraised := h.updPriv (s.proc v).priv fun x =>
    { x with sSigPending := sigaddset x.sSigPending sigNr }
  obtain ⟨r, s', hs', hsteady, hvm⟩ := hraised.miniNotify H.system (s.proc v).endpoint
  refine ⟨s', ?_, hsteady, hvm⟩
  simp only [Kernel.sendSig, bind_ok, pure_ok]
  exact ⟨v, hlookup, (r, s'), hs', rfl⟩

end Steadiness

end Kernel
