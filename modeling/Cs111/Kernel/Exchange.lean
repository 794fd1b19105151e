import Cs111.Kernel.Deadlock

namespace Kernel
open Minix FlagWord Chain
variable {H : Headers} {M : Type}

namespace Peers
variable (V : Peers H M)

def deliver (d : Slot H) (m : Message M) : Peers H M :=
  Function.update V d { V d with receiving := none, box := some m }

def pickUp (p : Slot H) (m : Message M) : Peers H M := Function.update V p { V p with box := some m }

def hold (p : Slot H) (e : ℤ) (m : Message M) : Peers H M :=
  Function.update V p { V p with sending := some (e, m) }

def wait (p : Slot H) (e : ℤ) : Peers H M := Function.update V p { V p with receiving := some e }

def release (q : Slot H) : Peers H M := Function.update V q { V q with sending := none }

def offQueue (q : Slot H) : Peers H M := Function.update V q { V q with qLink := none }

def block (p d : Slot H) (e : ℤ) (m : Message M) (xpp : Cell (Slot H)) : Peers H M :=
  (V.hold p e m).setCallers d xpp (some p)

def take (p q : Slot H) (xpp : Cell (Slot H)) (m : Message M) : Peers H M :=
  (((V.pickUp p m).release q).setCallers p xpp (V q).qLink).offQueue q

inductive Sent (p d : Slot H) (e : ℤ) (m : Option (Message M)) (nonBlocking : Bool) :
    Errno → Peers H M → Prop
  | refused {r} : r ≠ .OK → Sent p d e m nonBlocking r V
  | delivered {msg} : (V d).state = .alive → (V d).willReceive (V p).endpoint = true →
      (V d).box = none → m = some msg →
      Sent p d e m nonBlocking .OK (V.deliver d { msg with mSource := (V p).endpoint })
  | blocked {msg xpp} : (V d).state = .alive → (V d).willReceive (V p).endpoint = false →
      nonBlocking = false → V.Ends (V p).endpoint e → m = some msg → (V p).qLink = none →
      seek (V.callers d) (fun _ => false) (bound H) .head = some xpp →
      Sent p d e m nonBlocking .OK (V.block p d e msg xpp)

def Source (src : Option (Slot H)) (e : ℤ) : Prop :=
  (e = H.any ∧ src = none) ∨ ∃ d, src = some d ∧ V.named e = some d

inductive Received (p : Slot H) (src : Option (Slot H)) (e : ℤ) : Errno → Peers H M → Prop
  | gone {d} : src = some d → (V d).state ≠ .alive → Received p src e .EDEADSRCDST V
  | noted {m} : (V p).sending = none → (V p).box = none → (∀ content, m.body ≠ .user content) →
      Received p src e .OK (V.pickUp p m)
  | took {q xpp m} : (V p).sending = none → (V p).box = none →
      seek (V.callers p) (acceptable src) (bound H) .head = some xpp →
      (V.callers p).get xpp = some q →
      (∀ e' m', (V q).sending = some (e', m') → m = { m' with mSource := (V q).endpoint }) →
      Received p src e .OK (V.take p q xpp m)
  | locked : ¬ V.Ends (V p).endpoint e → ¬ V.Exempt .RECEIVE (V p).endpoint e →
      Received p src e .ELOCKED V
  | waited : ((V p).sending = none → ∀ xpp,
        seek (V.callers p) (acceptable src) (bound H) .head = some xpp →
        (V.callers p).get xpp = none) →
      (∀ d, src = some d → (V d).state = .alive) →
      V.Ends (V p).endpoint e ∨ V.Exempt .RECEIVE (V p).endpoint e →
      Received p src e .OK (V.wait p e)

inductive Notified (p d : Slot H) : Peers H M → Prop
  | pending : Notified p d V
  | delivered {m} : (V d).willReceive (V p).endpoint = true → (V d).box = none →
      (∀ content, m.body ≠ .user content) → Notified p d (V.deliver d m)

inductive Called (p : Slot H) (c : IpcCall M) : Errno → Peers H M → Prop
  | refused {r} : r ≠ .OK → Called p c r V
  | sent {d r V'} : c.callNr = .SEND ∨ c.callNr = .SENDNB → V.named c.srcDstE = some d →
      V.Sent p d c.srcDstE c.message (c.callNr == .SENDNB) r V' → Called p c r V'
  | exchanged {d r V₁ V'} : c.callNr = .SENDREC → V.named c.srcDstE = some d →
      V.Sent p d c.srcDstE c.message false .OK V₁ → V₁.Received p (some d) c.srcDstE r V' →
      Called p c r V'
  | received {src r V'} : c.callNr = .RECEIVE → V.Source src c.srcDstE →
      V.Received p src c.srcDstE r V' → Called p c r V'
  | notified {d V'} : c.callNr = .NOTIFY → V.named c.srcDstE = some d →
      V.Notified p d V' → Called p c .OK V'

def Kept (V' : Peers H M) : Prop :=
  ∀ i, (V' i).state = (V i).state ∧ (V' i).endpoint = (V i).endpoint ∧ (V' i).quiet = (V i).quiet

end Peers

namespace Peers
variable {V V' V'' : Peers H M} {i p d q : Slot H} {e : ℤ} {m : Message M} {xpp : Cell (Slot H)}

theorem Kept.refl : V.Kept V := fun _ => ⟨rfl, rfl, rfl⟩

theorem Kept.trans (h : V.Kept V') (h' : V'.Kept V'') : V.Kept V'' := fun i =>
  ⟨(h' i).1.trans (h i).1, (h' i).2.1.trans (h i).2.1, (h' i).2.2.trans (h i).2.2⟩

theorem Kept.update {x : Peer H M} (hx : x.state = (V i).state ∧ x.endpoint = (V i).endpoint ∧
    x.quiet = (V i).quiet) : V.Kept (Function.update V i x) := by
  intro j
  by_cases hj : j = i
  · subst hj
    rw [Function.update_self]
    exact hx
  · rw [Function.update_of_ne hj]
    exact ⟨rfl, rfl, rfl⟩

theorem Kept.named (h : V.Kept V') (e : ℤ) : V'.named e = V.named e := by
  rw [Peers.named, Peers.named]
  cases procAddr H (H.endpointP e) with
  | error _ => rfl
  | ok i => simp only [h i]

theorem kept_deliver : V.Kept (V.deliver d m) := .update ⟨rfl, rfl, rfl⟩

theorem kept_pickUp : V.Kept (V.pickUp p m) := .update ⟨rfl, rfl, rfl⟩

theorem kept_hold : V.Kept (V.hold p e m) := .update ⟨rfl, rfl, rfl⟩

theorem kept_wait : V.Kept (V.wait p e) := .update ⟨rfl, rfl, rfl⟩

theorem kept_release : V.Kept (V.release q) := .update ⟨rfl, rfl, rfl⟩

theorem kept_offQueue : V.Kept (V.offQueue q) := .update ⟨rfl, rfl, rfl⟩

theorem kept_setCallers {v : Option (Slot H)} : V.Kept (V.setCallers d xpp v) := by
  cases xpp <;> exact .update ⟨rfl, rfl, rfl⟩

theorem kept_block : V.Kept (V.block p d e m xpp) := kept_hold.trans kept_setCallers

theorem kept_take : V.Kept (V.take p q xpp m) :=
  ((kept_pickUp.trans kept_release).trans kept_setCallers).trans kept_offQueue

theorem callers_congr (h : ∀ i, (V' i).callerQ = (V i).callerQ ∧ (V' i).qLink = (V i).qLink) :
    V'.callers = V.callers := by
  funext d
  simp only [Peers.callers, h]

theorem queues_update {x : Peer H M} (hx : x.callerQ = (V i).callerQ ∧ x.qLink = (V i).qLink)
    (j : Slot H) : (Function.update V i x j).callerQ = (V j).callerQ ∧
      (Function.update V i x j).qLink = (V j).qLink := by
  by_cases hj : j = i
  · subst hj
    rw [Function.update_self]
    exact hx
  · rw [Function.update_of_ne hj]
    exact ⟨rfl, rfl⟩

theorem mail_update {x : Peer H M} (hx : x.sending = (V i).sending ∧
    x.receiving = (V i).receiving ∧ x.box = (V i).box) (j : Slot H) :
    (Function.update V i x j).sending = (V j).sending ∧
    (Function.update V i x j).receiving = (V j).receiving ∧
    (Function.update V i x j).box = (V j).box := by
  by_cases hj : j = i
  · subst hj
    rw [Function.update_self]
    exact hx
  · rw [Function.update_of_ne hj]
    exact ⟨rfl, rfl, rfl⟩

theorem setCallers_mail {v : Option (Slot H)} (j : Slot H) :
    (V.setCallers d xpp v j).sending = (V j).sending ∧
    (V.setCallers d xpp v j).receiving = (V j).receiving ∧
    (V.setCallers d xpp v j).box = (V j).box := by
  cases xpp with
  | head => exact mail_update (x := { V d with callerQ := v }) ⟨rfl, rfl, rfl⟩ j
  | link i => exact mail_update (x := { V i with qLink := v }) ⟨rfl, rfl, rfl⟩ j

section Mail
variable (i : Slot H)

theorem deliver_mail : (V.deliver d m i).sending = (V i).sending ∧
    (V.deliver d m i).receiving = (if i = d then none else (V i).receiving) ∧
    (V.deliver d m i).box = (if i = d then some m else (V i).box) := by
  simp only [deliver, Function.update_apply]
  split_ifs with hi
  · subst hi
    exact ⟨rfl, rfl, rfl⟩
  · exact ⟨rfl, rfl, rfl⟩

theorem pickUp_mail : (V.pickUp p m i).sending = (V i).sending ∧
    (V.pickUp p m i).receiving = (V i).receiving ∧
    (V.pickUp p m i).box = (if i = p then some m else (V i).box) := by
  simp only [pickUp, Function.update_apply]
  split_ifs with hi
  · subst hi
    exact ⟨rfl, rfl, rfl⟩
  · exact ⟨rfl, rfl, rfl⟩

theorem hold_mail : (V.hold p e m i).sending = (if i = p then some (e, m) else (V i).sending) ∧
    (V.hold p e m i).receiving = (V i).receiving ∧ (V.hold p e m i).box = (V i).box := by
  simp only [hold, Function.update_apply]
  split_ifs with hi
  · subst hi
    exact ⟨rfl, rfl, rfl⟩
  · exact ⟨rfl, rfl, rfl⟩

theorem wait_mail : (V.wait p e i).sending = (V i).sending ∧
    (V.wait p e i).receiving = (if i = p then some e else (V i).receiving) ∧
    (V.wait p e i).box = (V i).box := by
  simp only [wait, Function.update_apply]
  split_ifs with hi
  · subst hi
    exact ⟨rfl, rfl, rfl⟩
  · exact ⟨rfl, rfl, rfl⟩

theorem release_mail : (V.release q i).sending = (if i = q then none else (V i).sending) ∧
    (V.release q i).receiving = (V i).receiving ∧ (V.release q i).box = (V i).box := by
  simp only [release, Function.update_apply]
  split_ifs with hi
  · subst hi
    exact ⟨rfl, rfl, rfl⟩
  · exact ⟨rfl, rfl, rfl⟩

theorem offQueue_mail : (V.offQueue q i).sending = (V i).sending ∧
    (V.offQueue q i).receiving = (V i).receiving ∧ (V.offQueue q i).box = (V i).box :=
  mail_update (x := { V q with qLink := none }) ⟨rfl, rfl, rfl⟩ i

theorem block_mail : (V.block p d e m xpp i).sending =
      (if i = p then some (e, m) else (V i).sending) ∧
    (V.block p d e m xpp i).receiving = (V i).receiving ∧
    (V.block p d e m xpp i).box = (V i).box := by
  rw [block, (setCallers_mail i).1, (setCallers_mail i).2.1, (setCallers_mail i).2.2]
  exact hold_mail i

theorem take_mail : (V.take p q xpp m i).sending = (if i = q then none else (V i).sending) ∧
    (V.take p q xpp m i).receiving = (V i).receiving ∧
    (V.take p q xpp m i).box = (if i = p then some m else (V i).box) := by
  rw [take, (offQueue_mail i).1, (offQueue_mail i).2.1, (offQueue_mail i).2.2,
    (setCallers_mail i).1, (setCallers_mail i).2.1, (setCallers_mail i).2.2, (release_mail i).1,
    (release_mail i).2.1, (release_mail i).2.2, (pickUp_mail i).1, (pickUp_mail i).2.1,
    (pickUp_mail i).2.2]
  exact ⟨rfl, rfl, rfl⟩

end Mail

theorem pickUp_queues (j : Slot H) : (V.pickUp p m j).callerQ = (V j).callerQ ∧
    (V.pickUp p m j).qLink = (V j).qLink :=
  queues_update (x := { V p with box := some m }) ⟨rfl, rfl⟩ j

theorem deliver_queues (j : Slot H) : (V.deliver d m j).callerQ = (V j).callerQ ∧
    (V.deliver d m j).qLink = (V j).qLink :=
  queues_update (x := { V d with receiving := none, box := some m }) ⟨rfl, rfl⟩ j

theorem hold_queues (j : Slot H) : (V.hold p e m j).callerQ = (V j).callerQ ∧
    (V.hold p e m j).qLink = (V j).qLink :=
  queues_update (x := { V p with sending := some (e, m) }) ⟨rfl, rfl⟩ j

theorem wait_queues (j : Slot H) : (V.wait p e j).callerQ = (V j).callerQ ∧
    (V.wait p e j).qLink = (V j).qLink :=
  queues_update (x := { V p with receiving := some e }) ⟨rfl, rfl⟩ j

theorem offQueue_queues (j : Slot H) : (V.offQueue q j).callerQ = (V j).callerQ ∧
    (V.offQueue q j).qLink = if j = q then none else (V j).qLink := by
  simp only [offQueue, Function.update_apply]
  split_ifs with hj
  · subst hj
    exact ⟨rfl, rfl⟩
  · exact ⟨rfl, rfl⟩

theorem release_queues (j : Slot H) : (V.release q j).callerQ = (V j).callerQ ∧
    (V.release q j).qLink = (V j).qLink :=
  queues_update (x := { V q with sending := none }) ⟨rfl, rfl⟩ j

theorem callers_hold : (V.hold p e m).callers = V.callers := callers_congr hold_queues

theorem willReceive_of_receiving {x : Peer H M} (hidle : x.sending = none)
    (hnone : x.blockedOn ≠ H.none) : x.willReceive x.blockedOn = true := by
  rw [Peer.willReceive, Peer.blockedOn, hidle] at *
  cases hrecv : x.receiving with
  | none => simp [hrecv] at hnone
  | some g => simp

theorem Sent.kept {m : Option (Message M)} {nonBlocking : Bool} {r : Errno}
    (h : V.Sent p d e m nonBlocking r V') : V.Kept V' := by
  cases h with
  | refused => exact .refl
  | delivered => exact kept_deliver
  | blocked => exact kept_block

theorem Sent.same_of_error {m : Option (Message M)} {nonBlocking : Bool} {r : Errno}
    (h : V.Sent p d e m nonBlocking r V') (hr : r ≠ .OK) : V' = V := by
  cases h with
  | refused => rfl
  | delivered => exact absurd rfl hr
  | blocked => exact absurd rfl hr

theorem Received.kept {src : Option (Slot H)} {r : Errno} (h : V.Received p src e r V') :
    V.Kept V' := by
  cases h with
  | gone => exact .refl
  | noted => exact kept_pickUp
  | took => exact kept_take
  | locked => exact .refl
  | waited => exact kept_wait

theorem Notified.kept (h : V.Notified p d V') : V.Kept V' := by
  cases h with
  | pending => exact .refl
  | delivered => exact kept_deliver

theorem Called.kept {c : IpcCall M} {r : Errno} (h : V.Called p c r V') : V.Kept V' := by
  cases h with
  | refused => exact .refl
  | sent _ _ hsent => exact hsent.kept
  | exchanged _ _ hsent hreceived => exact hsent.kept.trans hreceived.kept
  | received _ _ hreceived => exact hreceived.kept
  | notified _ _ hnotified => exact hnotified.kept

end Peers

end Kernel
