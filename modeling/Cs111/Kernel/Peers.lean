import Cs111.Kernel.Ready

namespace Kernel
open Minix FlagWord Chain
variable {H : Headers} {M : Type}

inductive SlotState where
  | free | broken | dead | alive
  deriving DecidableEq, Repr

def slotState (f : Flags) : SlotState :=
  if f = RTS_SLOT_FREE then .free
  else if isset f RTS_SLOT_FREE then .broken
  else if isset f RTS_NO_ENDPOINT then .dead
  else .alive

structure Peer (H : Headers) (M : Type) where
  state : SlotState
  endpoint : ℤ
  sending : Option (ℤ × Message M)
  receiving : Option ℤ
  box : Option (Message M)
  callerQ : Option (Slot H)
  qLink : Option (Slot H)
  quiet : Bool

abbrev Peers (H : Headers) (M : Type) := Slot H → Peer H M

def Proc.peer (x : Proc H M) : Peer H M where
  state := slotState x.rtsFlags
  endpoint := x.endpoint
  sending := if x.rtsIsset RTS_SENDING then some (x.sendtoE, x.sendmsg) else none
  receiving := if x.rtsIsset RTS_RECEIVING then some x.getfromE else none
  box := if x.miscIsset MF_DELIVERMSG then some x.delivermsg else none
  callerQ := x.callerQ
  qLink := x.qLink
  quiet := !x.miscIsset MF_ASYNMSG && !x.miscIsset MF_SIG_DELAY

def KState.peers (s : KState H M) : Peers H M := fun i => (s.proc i).peer

def Peer.blockedOn (x : Peer H M) : ℤ :=
  match x.sending with
  | some (e, _) => e
  | none => x.receiving.getD H.none

def Peer.willReceive (x : Peer H M) (sourceEp : ℤ) : Bool :=
  x.sending.isNone && x.receiving.any fun g => g == H.any || g == sourceEp

def Peers.named (V : Peers H M) (e : ℤ) : Option (Slot H) :=
  match procAddr H (H.endpointP e) with
  | .error _ => none
  | .ok i => if (V i).state = .free then none else if (V i).endpoint ≠ e then none else some i

def Peers.callers (V : Peers H M) (d : Slot H) : Links (Slot H) :=
  ⟨(V d).callerQ, fun i => (V i).qLink⟩

def Peers.setCallers (V : Peers H M) (d : Slot H) (xpp : Cell (Slot H)) (v : Option (Slot H)) :
    Peers H M :=
  match xpp with
  | .head => Function.update V d { V d with callerQ := v }
  | .link i => Function.update V i { V i with qLink := v }

section SlotStates
variable {f g : Flags}

theorem slotState_free : slotState f = .free ↔ f = RTS_SLOT_FREE := by
  rw [slotState]
  split_ifs <;> simp_all

theorem slotState_zero : slotState 0 = .alive := by decide

theorem slotState_of_isset (h : isset f RTS_SLOT_FREE = false) :
    slotState f = if isset f RTS_NO_ENDPOINT then .dead else .alive := by
  have hne : f ≠ RTS_SLOT_FREE := by
    rintro rfl
    exact absurd h (by decide)
  rw [slotState, if_neg hne, h]
  rfl

theorem slotState_cases (h : slotState f ≠ .broken) :
    f = RTS_SLOT_FREE ∨ isset f RTS_SLOT_FREE = false := by
  rw [slotState] at h
  split_ifs at h with hfree hbroken
  · exact .inl hfree
  · exact absurd rfl h
  all_goals exact .inr (by simpa using hbroken)

theorem slotState_or (hg : g &&& RTS_SLOT_FREE = 0 ∧ g &&& RTS_NO_ENDPOINT = 0)
    (h : slotState f ≠ .broken) (hfree : slotState f ≠ .free) :
    slotState (f ||| g) = slotState f := by
  rw [ne_eq, slotState_free] at hfree
  have hbit := (slotState_cases h).resolve_left hfree
  rw [slotState_of_isset hbit, slotState_of_isset (by rw [isset_or hg.1]; exact hbit),
    isset_or hg.2]

theorem slotState_clear (hg : g &&& RTS_SLOT_FREE = 0 ∧ g &&& RTS_NO_ENDPOINT = 0)
    (h : slotState f ≠ .broken) : slotState (f &&& ~~~g) = slotState f := by
  rcases slotState_cases h with rfl | hbit
  · have hsame : RTS_SLOT_FREE &&& ~~~g = RTS_SLOT_FREE := by
      have hset : RTS_SLOT_FREE &&& ~~~g &&& RTS_SLOT_FREE = RTS_SLOT_FREE := by
        rw [clear_and_of_disjoint hg.1]
        decide
      rwa [BitVec.and_assoc, BitVec.and_comm (~~~g), ← BitVec.and_assoc, BitVec.and_self] at hset
    rw [hsame]
  · rw [slotState_of_isset hbit, slotState_of_isset (by rw [isset_clear hg.1]; exact hbit),
      isset_clear hg.2]

end SlotStates

section Views
variable {s s' : KState H M} {i p : Slot H} {f : Flags}

theorem peers_upd (g : Proc H M → Proc H M) :
    (s.upd i g).peers = Function.update s.peers i (g (s.proc i)).peer := by
  funext j
  by_cases hj : j = i
  · subst hj
    simp [KState.peers]
  · simp [KState.peers, upd_proc_of_ne hj, hj]

theorem peers_upd_same {g : Proc H M → Proc H M} (hg : (g (s.proc i)).peer = (s.proc i).peer) :
    (s.upd i g).peers = s.peers := by
  rw [peers_upd, hg]
  exact Function.update_eq_self ..

theorem blockedOn_peer (x : Proc H M) : x.peer.blockedOn = x.blockedOn := by
  rw [Proc.blockedOn, Peer.blockedOn, Proc.peer]
  split_ifs <;> rfl

theorem willReceive_peer (x : Proc H M) (e : ℤ) : x.peer.willReceive e = x.willReceive e := by
  rw [Proc.willReceive, Peer.willReceive, Proc.peer]
  split_ifs <;> simp_all

theorem isEmpty_iff (x : Proc H M) : x.isEmpty = true ↔ x.peer.state = .free := by
  simp [Proc.isEmpty, Proc.peer, slotState_free]

theorem isokendpt_named (s : KState H M) (e : ℤ) : isokendpt s e = s.peers.named e := by
  rw [isokendpt, Peers.named]
  cases procAddr H (H.endpointP e) with
  | error _ => rfl
  | ok i =>
    simp only [isEmpty_iff]
    rfl

theorem named_some {V : Peers H M} {e : ℤ} (h : V.named e = some i) :
    procNr i = H.endpointP e ∧ (V i).state ≠ .free ∧ (V i).endpoint = e := by
  rw [Peers.named] at h
  split at h
  · cases h
  · rename_i j hj
    split_ifs at h with hfree he
    obtain rfl := Option.some.inj h
    exact ⟨procAddr_ok hj, hfree, not_not.mp he⟩

theorem peers_setCallers (s : KState H M) (d : Slot H) (xpp : Cell (Slot H))
    (v : Option (Slot H)) : (s.setCallers d xpp v).peers = s.peers.setCallers d xpp v := by
  cases xpp with
  | head => exact peers_upd (i := d) fun x => { x with callerQ := v }
  | link i => exact peers_upd (i := i) fun x => { x with qLink := v }

theorem callers_peers (s : KState H M) (d : Slot H) : s.callers d = s.peers.callers d := rfl

structure Sane (s : KState H M) : Prop where
  unbroken : ∀ i, (s.peers i).state ≠ .broken
  running : (s.peers s.procPtr).state ≠ .free

theorem Sane.of_states (h : Sane s) (hptr : s'.procPtr = s.procPtr)
    (hstate : ∀ i, (s'.peers i).state = (s.peers i).state) : Sane s' := by
  refine ⟨fun i => ?_, ?_⟩
  · rw [hstate]
    exact h.unbroken i
  · rw [hptr, hstate]
    exact h.running

def beyondIpc (f : Flags) : Prop :=
  f &&& RTS_SLOT_FREE = 0 ∧ f &&& RTS_NO_ENDPOINT = 0 ∧ f &&& RTS_SENDING = 0 ∧
    f &&& RTS_RECEIVING = 0

instance : Decidable (beyondIpc f) := inferInstanceAs (Decidable (_ ∧ _ ∧ _ ∧ _))

theorem peer_setRts (x : Proc H M) (f : Flags) : (x.setRts f).peer = { x.peer with
    state := slotState f
    sending := if isset f RTS_SENDING then some (x.sendtoE, x.sendmsg) else none
    receiving := if isset f RTS_RECEIVING then some x.getfromE else none } := rfl

theorem peer_or {x : Proc H M} (hf : beyondIpc f) (h : x.peer.state ≠ .broken)
    (hfree : x.peer.state ≠ .free) : (x.setRts (x.rtsFlags ||| f)).peer = x.peer := by
  obtain ⟨hslot, hend, hsend, hrecv⟩ := hf
  rw [peer_setRts, slotState_or ⟨hslot, hend⟩ h hfree, isset_or hsend, isset_or hrecv]
  rfl

theorem peer_clear {x : Proc H M} (hf : beyondIpc f) (h : x.peer.state ≠ .broken) :
    (x.setRts (x.rtsFlags &&& ~~~f)).peer = x.peer := by
  obtain ⟨hslot, hend, hsend, hrecv⟩ := hf
  rw [peer_setRts, slotState_clear ⟨hslot, hend⟩ h, isset_clear hsend, isset_clear hrecv]
  rfl

theorem Rescheduled.peers (h : Rescheduled s s') (hsane : Sane s) : s'.peers = s.peers := by
  funext i
  rcases h.proc i with hsame | ⟨rfl, hmarked⟩
  · exact congrArg Proc.peer hsame
  · exact (congrArg Proc.peer hmarked).trans
      (peer_or (by decide) (hsane.unbroken _) hsane.running)

theorem Sane.setRts (h : Sane s) (hstate : slotState f = (s.peers p).state) :
    Sane (s.setRts p f) := by
  refine h.of_states rfl fun i => ?_
  rw [KState.setRts, peers_upd]
  by_cases hi : i = p
  · subst hi
    rw [Function.update_self]
    exact hstate
  · rw [Function.update_of_ne hi]

theorem rtsUnset_peers (h : Sane s) (hf : f &&& RTS_SLOT_FREE = 0 ∧ f &&& RTS_NO_ENDPOINT = 0)
    (hs : rtsUnset s p f = .ok s') :
    Sane s' ∧ s'.procPtr = s.procPtr ∧ s'.peers = Function.update s.peers p
      ((s.proc p).setRts ((s.proc p).rtsFlags &&& ~~~f)).peer := by
  have hmid : Sane (s.setRts p ((s.proc p).rtsFlags &&& ~~~f)) :=
    h.setRts (slotState_clear hf (h.unbroken p))
  have hres := Rescheduled.rtsUnset hs
  have hpeers := hres.peers hmid
  refine ⟨hmid.of_states hres.procPtr_eq fun i => by rw [hpeers], hres.procPtr_eq, ?_⟩
  rw [hpeers, KState.setRts, peers_upd]

theorem rtsSet_peers (hs : rtsSet s p f = .ok s') :
    s'.procPtr = s.procPtr ∧ s'.peers = Function.update s.peers p
      ((s.proc p).setRts ((s.proc p).rtsFlags ||| f)).peer := by
  obtain ⟨hproc, hrest⟩ := Rescheduled.rtsSet hs
  refine ⟨by rw [hrest], ?_⟩
  funext i
  refine (congrArg Proc.peer (congrFun hproc i)).trans ?_
  exact congrFun (peers_upd (s := s) (i := p) (·.setRts ((s.proc p).rtsFlags ||| f))) i

theorem rtsSet_same (hf : beyondIpc f) (h : (s.peers p).state ≠ .broken)
    (hfree : (s.peers p).state ≠ .free) (hs : rtsSet s p f = .ok s') :
    s'.procPtr = s.procPtr ∧ s'.peers = s.peers := by
  obtain ⟨hptr, hpeers⟩ := rtsSet_peers hs
  refine ⟨hptr, ?_⟩
  rw [hpeers, peer_or hf h hfree]
  exact Function.update_eq_self ..

theorem rtsUnset_same (hf : beyondIpc f) (h : Sane s) (hs : rtsUnset s p f = .ok s') :
    Sane s' ∧ s'.procPtr = s.procPtr ∧ s'.peers = s.peers := by
  obtain ⟨hsane, hptr, hpeers⟩ := rtsUnset_peers h ⟨hf.1, hf.2.1⟩ hs
  refine ⟨hsane, hptr, ?_⟩
  rw [hpeers, peer_clear hf (h.unbroken p)]
  exact Function.update_eq_self ..

theorem peer_clear_receiving {x : Proc H M} (h : x.peer.state ≠ .broken) :
    (x.setRts (x.rtsFlags &&& ~~~RTS_RECEIVING)).peer = { x.peer with receiving := none } := by
  rw [peer_setRts, slotState_clear (by decide) h, isset_clear (by decide),
    isset_clear_self (by decide) (by decide)]
  rfl

theorem peer_clear_sending {x : Proc H M} (h : x.peer.state ≠ .broken) :
    (x.setRts (x.rtsFlags &&& ~~~RTS_SENDING)).peer = { x.peer with sending := none } := by
  rw [peer_setRts, slotState_clear (by decide) h, isset_clear_self (by decide) (by decide),
    isset_clear (by decide)]
  rfl

theorem peer_set_sending {x : Proc H M} (h : x.peer.state ≠ .broken) (hfree : x.peer.state ≠ .free) :
    (x.setRts (x.rtsFlags ||| RTS_SENDING)).peer =
      { x.peer with sending := some (x.sendtoE, x.sendmsg) } := by
  rw [peer_setRts, slotState_or (by decide) h hfree, isset_or_self, isset_or (by decide)]
  rfl

theorem peer_set_receiving {x : Proc H M} (h : x.peer.state ≠ .broken)
    (hfree : x.peer.state ≠ .free) : (x.setRts (x.rtsFlags ||| RTS_RECEIVING)).peer =
      { x.peer with receiving := some x.getfromE } := by
  rw [peer_setRts, slotState_or (by decide) h hfree, isset_or (by decide), isset_or_self]
  rfl

end Views

end Kernel
