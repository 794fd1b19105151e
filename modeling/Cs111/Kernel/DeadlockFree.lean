import Cs111.Kernel.CallerRuns
import Cs111.Kernel.WaitGraph

namespace Kernel
open Minix FlagWord Chain TransitionSystem
variable {H : Headers} {M : Type}

def live (s : KState H M) (i : Slot H) : Prop :=
  (s.proc i).isEmpty = false ∧ (s.proc i).rtsIsset RTS_NO_ENDPOINT = false

def waitsFor (s : KState H M) (i j : Slot H) : Prop :=
  live s i ∧ live s j ∧ isokendpt s (s.proc i).blockedOn = some j

def ipcOnly : IpcEvent H M → Prop
  | .call _ _ | .deliver _ | .rtsSet _ _ | .rtsUnset _ _ | .clearEndpoint _ => True
  | _ => False

def blocksOnItself (s : KState H M) (p : Slot H) (c : IpcCall M) : Prop :=
  refuseIpc s p c = none ∧ c.srcDstE = (s.proc p).endpoint ∧
    ((c.callNr = .SEND ∨ c.callNr = .SENDREC) ∧ c.m.isSome = true ∨
      c.callNr = .RECEIVE ∧ pendingNotify s p (some p) = .ok none)

def AvoidsItself (s : KState H M) (p : Slot H) : IpcEvent H M → Prop
  | .call c _ => ¬ blocksOnItself s p c
  | _ => True

def ReceiveWaits (t : KState H M) (p : Slot H) (c : IpcCall M) (u : KState H M) : Prop :=
  (t.proc p).miscIsset MF_DELIVERMSG = false ∧
  ∃ src, receiveSource (t.upd p fun x => { x with delivermsgVir := c.mPtr }) c.srcDstE = .ok src ∧
    receiveAvailable (t.upd p fun x => { x with delivermsgVir := c.mPtr }) p src = .ok (false, u)

inductive DeadlockCalled (s : KState H M) (p : Slot H) (c : IpcCall M) :
    CallNr → KState H M → Prop
  | send : c.callNr = .SEND → DeadlockCalled s p c .SEND s
  | exchange : c.callNr = .SENDREC → DeadlockCalled s p c .SEND (s.upd p (·.setMisc MF_REPLY_PEND))
  | reply {t u} : c.callNr = .SENDREC →
      miniSend (s.upd p (·.setMisc MF_REPLY_PEND)) p c.srcDstE c.message ⟨false, false⟩ =
        .ok (.OK, t) →
      ReceiveWaits t p c u → DeadlockCalled s p c .RECEIVE u
  | receive {u} : c.callNr = .RECEIVE →
      ReceiveWaits (s.upd p fun x => { x.clearMisc MF_REPLY_PEND with ipcStatus := [] }) p c u →
      DeadlockCalled s p c .RECEIVE u

def wouldBlock (s : KState H M) (p : Slot H) (c : IpcCall M) (d : Slot H) : Prop :=
  (c.callNr = .SEND ∨ c.callNr = .SENDREC) ∧
      (s.proc d).willReceive (s.proc p).endpoint = false ∨
    c.callNr = .RECEIVE ∧ pendingNotify s p (some d) = .ok none ∧ ¬ sendsTo s d p

section Loop
open Peers
variable {s : KState H M} {function : CallNr} {cp : Slot H} {fuel groupSize : ℕ} {e : ℤ}

theorem Peers.Waiting.blocked_names {V : Peers H M} (h : V.Waiting) (hsound : V.Sound)
    (i : Slot H) : (V i).blockedOn = H.none ∨ (V i).blockedOn = H.any ∨
      ∃ d, V.named (V i).blockedOn = some d := by
  obtain ⟨L, hL⟩ := h.queued
  cases hsending : (V i).sending with
  | some x =>
    obtain ⟨d, -, hused, hend⟩ := hL.dest i x.1 x.2 hsending
    rw [blockedOn_sending hsending, ← hend]
    exact .inr (.inr ⟨d, hsound.named hused⟩)
  | none =>
    rw [blockedOn_receiving hsending]
    cases hrecv : (V i).receiving with
    | none => exact .inl rfl
    | some g =>
      rcases h.sources i g hrecv with hany | ⟨d, hd, hend⟩
      · exact .inr (.inl hany)
      · refine .inr (.inr ⟨d, ?_⟩)
        change V.named g = some d
        rw [← hend, hsound.named (by rw [hd]; nofun)]

theorem two_slots (H : Headers) : 1 < H.nrTasks + H.nrProcs := by
  have hne := H.idle_ne_system
  have hidle := H.idle.isLt
  have hsystem := H.system.isLt
  rw [Ne, Fin.ext_iff] at hne
  omega

theorem deadlockLoop_next {xp : Slot H} (hsound : s.peers.Sound) (hxp : s.peers.named e = some xp)
    (hroom : groupSize < H.nrTasks + H.nrProcs) :
    deadlockLoop s function cp (fuel + 1) groupSize e =
      if (s.proc xp).blockedOn = H.none then .ok 0
      else if (s.proc xp).blockedOn = (s.proc cp).endpoint then
        if groupSize + 1 = 2 ∧
            ((s.proc xp).rtsFlags ^^^ BitVec.ofNat 16 (function.code <<< 2)) &&& RTS_SENDING ≠ 0
        then .ok 0
        else .ok (groupSize + 1)
      else deadlockLoop s function cp fuel (groupSize + 1) (s.proc xp).blockedOn := by
  have hany : e ≠ H.any := by
    rintro rfl
    rw [named_any] at hxp
    cases hxp
  have hused : (s.proc xp).rtsIsset RTS_SLOT_FREE = false :=
    (slotState_cases (hsound.unbroken xp)).resolve_left
      fun hfree => (named_some hxp).2.1 (slotState_free.mpr hfree)
  have hokay : okendpt s e = .ok xp := by rw [okendpt_ok, isokendpt_named, hxp]
  rw [deadlockLoop, if_neg hany, hokay]
  change (kassert _ >>= _) = _
  rw [hused]
  change (if H.nrTasks + H.nrProcs ≤ groupSize then _ else _) = _
  rw [if_neg (Nat.not_le.mpr hroom)]
  rfl

theorem deadlockLoop_returns (hsound : s.peers.Sound) (h : s.peers.Waiting) {l : List (Slot H)}
    (hl : Chain.Path s.peers.edge (s.peers.named e) l) (hfuel : l.length < fuel)
    (hroom : groupSize + (l.filter (· ≠ cp)).length ≤ H.nrTasks + H.nrProcs)
    (hother : s.peers.named e ≠ some cp) (he : e = H.any ∨ ∃ d, s.peers.named e = some d) :
    ∃ n, deadlockLoop s function cp fuel groupSize e = .ok n := by
  induction l generalizing fuel groupSize e with
  | nil =>
    obtain ⟨fuel, rfl⟩ : ∃ n, fuel = n + 1 := ⟨fuel - 1, by simp at hfuel; omega⟩
    have hany : e = H.any := by
      rcases he with hany | ⟨d, hd⟩
      · exact hany
      · rw [show s.peers.named e = none from hl] at hd
        cases hd
    exact ⟨0, by rw [deadlockLoop, if_pos hany]⟩
  | cons xp l ih =>
    obtain ⟨fuel, rfl⟩ : ∃ n, fuel = n + 1 := ⟨fuel - 1, by simp at hfuel; omega⟩
    obtain ⟨hxp, hrest⟩ := hl
    have hne : xp ≠ cp := fun hself => hother (by rw [hxp, hself])
    rw [List.filter_cons_of_pos (by simpa using hne), List.length_cons] at hroom
    rw [deadlockLoop_next hsound hxp (by omega)]
    split
    · exact ⟨0, rfl⟩
    · rename_i hnone
      split
      · split
        · exact ⟨_, rfl⟩
        · exact ⟨_, rfl⟩
      · rename_i hback
        rw [← blockedOn_peer] at hnone hback ⊢
        refine ih hrest (by simpa using hfuel) (by omega) (fun hself => ?_) ?_
        · exact hback (named_some hself).2.2.symm
        · exact (h.blocked_names hsound xp).resolve_left hnone

theorem deadlock_returns (function : CallNr) (cp : Slot H) (hsound : s.peers.Sound)
    (h : s.peers.Waiting)
    (hself : s.peers.named e = some cp → (s.peers cp).blockedOn = H.none)
    (he : e = H.any ∨ ∃ d, s.peers.named e = some d) :
    ∃ n, deadlock s function cp e = .ok n := by
  by_cases hcp : s.peers.named e = some cp
  · refine ⟨0, ?_⟩
    rw [deadlock, bound, deadlockLoop_next hsound hcp (two_slots H), ← blockedOn_peer]
    exact if_pos (hself hcp)
  · obtain ⟨l, hl⟩ := h.grounded.path (s.peers.named e)
    have hle := path_length_le hl
    rw [Fintype.card_fin] at hle
    have hroom : (cp :: l.filter (· ≠ cp)).length ≤ Fintype.card (Slot H) := by
      refine List.Nodup.length_le_card (List.nodup_cons.mpr ⟨?_, (path_nodup hl).filter _⟩)
      simp
    rw [Fintype.card_fin, List.length_cons, Nat.add_comm] at hroom
    exact deadlockLoop_returns hsound h hl (Nat.lt_succ_of_le hle) hroom hcp he

end Loop

section SelfCalls
open Peers
variable {s s' t : KState H M} {p : Slot H} {e : ℤ} {r : Errno} {c : IpcCall M}

theorem pendingLoop_congr (hpriv : t.priv = s.priv) (hp : (t.proc p).priv = (s.proc p).priv)
    (src : Option (Slot H)) (chunks : List ℕ) :
    pendingLoop t p src chunks = pendingLoop s p src chunks := by
  induction chunks with
  | nil => rfl
  | cons chunk chunks ih => simp only [pendingLoop, KState.privOf, hpriv, hp, ih]

theorem pendingNotify_congr (hpriv : t.priv = s.priv) (hp : (t.proc p).priv = (s.proc p).priv)
    (src : Option (Slot H)) : pendingNotify t p src = pendingNotify s p src :=
  pendingLoop_congr hpriv hp src (List.range (nrSysChunks H))

theorem blockedOn_idle {x : Peer H M} (hidle : x.Idle) : x.blockedOn = H.none := by
  rw [blockedOn_receiving hidle.sending, hidle.receiving]
  rfl

theorem receiveSource_named {d : Slot H} (hd : s.peers.named e = some d) :
    receiveSource s e = .ok (some d) := by
  have hany : e ≠ H.any := by
    rintro rfl
    rw [named_any] at hd
    cases hd
  have hokay : okendpt s e = .ok d := by rw [okendpt_ok, isokendpt_named, hd]
  rw [receiveSource, if_neg hany, hokay]
  rfl

theorem receive_noted {mBuffUsr : ℕ} {d : Slot H}
    (hpending : pendingNotify s p (some d) ≠ .ok none) (hidle : (s.peers p).Idle)
    (hreply : (s.proc p).miscIsset MF_REPLY_PEND = false) (hnamed : s.peers.named e = some d)
    (h : miniReceive s p e mBuffUsr false = .ok (r, s')) : (s'.peers p).blockedOn = H.none := by
  rw [miniReceive] at h
  obtain ⟨-, h⟩ := kassert_bind_ok.mp h
  dsimp only at h
  generalize ht : (s.upd p fun x => { x with delivermsgVir := mBuffUsr }) = t at h
  have hpeers : t.peers = s.peers := by
    rw [← ht]
    exact peers_upd_same rfl
  rw [receiveSource_named (by rw [hpeers, hnamed])] at h
  change (if sourceGone t (some d) = true then _ else _) = _ at h
  split at h
  · obtain ⟨-, rfl⟩ := Prod.mk.inj (pure_ok.mp h)
    rw [hpeers]
    exact blockedOn_idle hidle
  · obtain ⟨⟨found, u⟩, hu, h⟩ := bind_ok.mp h
    have hsending : (t.proc p).rtsIsset RTS_SENDING = false := by
      rw [← sending_peers, hpeers]
      exact hidle.sending
    have hreply' : (t.proc p).miscIsset MF_REPLY_PEND = false := by
      rw [← ht, upd_proc_self]
      exact hreply
    rw [receiveAvailable, hsending] at hu
    obtain ⟨noted, hnoted, hu⟩ := bind_ok.mp hu
    have hsearched := hnoted
    rw [receiveNotify, hreply'] at hsearched
    obtain ⟨pending, hfound, hsearched⟩ := bind_ok.mp hsearched
    cases pending with
    | none =>
      have htpriv : t.priv = s.priv := by rw [← ht]; rfl
      have hcaller : (t.proc p).priv = (s.proc p).priv := by rw [← ht, upd_proc_self]
      exact absurd ((pendingNotify_congr htpriv hcaller _).symm.trans hfound) hpending
    | some x =>
      obtain rfl := pure_ok.mp hsearched
      obtain ⟨rfl, rfl⟩ := Prod.mk.inj (pure_ok.mp hu)
      obtain ⟨m, -, -, hpicked⟩ := receiveNotify_peers hnoted
      obtain ⟨-, rfl⟩ := Prod.mk.inj (pure_ok.mp h)
      rw [peers_upd_same (peer_clearMisc (by decide)), hpicked, hpeers]
      rw [blockedOn_congr (pickUp_mail p).1 (pickUp_mail p).2.1]
      exact blockedOn_idle hidle

theorem sent_self_refused {V V' : Peers H M} {m : Option (Message M)} {nonBlocking : Bool}
    (hidle : (V p).Idle) (hblocks : nonBlocking = false → m = none)
    (hs : V.Sent p p e m nonBlocking r V') : V' = V ∧ r ≠ .OK := by
  cases hs with
  | refused hr => exact ⟨rfl, hr⟩
  | delivered _ hready =>
    rw [Peer.willReceive, hidle.receiving, Option.any_none, Bool.and_false] at hready
    cases hready
  | blocked _ _ hblocking _ hm =>
    rw [hblocks hblocking] at hm
    cases hm

theorem message_none (h : c.m.isSome = false) : c.message = none := by
  rw [Option.isSome_eq_false_iff, Option.isNone_iff_eq_none] at h
  rw [IpcCall.message, h]
  rfl

theorem self_call_unblocked (hidle : (s.peers p).Idle) (hcalled : s.peers.Called p c r s'.peers)
    (havoids : ¬ blocksOnItself s p c) (hs : doSyncIpc (s.switchTo p) p c = .ok (r, s'))
    (hself : s.peers.named c.srcDstE = some p) : (s'.peers p).blockedOn = H.none := by
  have hidle' : s'.peers = s.peers → (s'.peers p).blockedOn = H.none := fun hsame => by
    rw [hsame]
    exact blockedOn_idle hidle
  cases hrefused : refuseIpc s p c with
  | some x =>
    rw [doSyncIpc, show refuseIpc (s.switchTo p) p c = some x from hrefused] at hs
    obtain ⟨-, hs⟩ := kassert_bind_ok.mp hs
    obtain ⟨-, rfl⟩ := Prod.mk.inj (pure_ok.mp hs)
    exact blockedOn_idle hidle
  | none =>
    have hend : c.srcDstE = (s.proc p).endpoint := (named_some hself).2.2.symm
    have hmessage : c.callNr = .SEND ∨ c.callNr = .SENDREC → c.message = none := by
      intro hcall
      refine message_none ?_
      rw [← Bool.not_eq_true]
      exact fun hm => havoids ⟨hrefused, hend, .inl ⟨hcall, hm⟩⟩
    generalize hV : s'.peers = V' at hcalled hidle' ⊢
    cases hcalled with
    | refused => exact hidle' rfl
    | sent hcall hnamed hsent =>
      obtain rfl := Option.some.inj (hself.symm.trans hnamed)
      refine hidle' (sent_self_refused hidle (fun hblocking => ?_) hsent).1
      refine hmessage (.inl (hcall.resolve_right fun hnb => ?_))
      rw [hnb] at hblocking
      cases hblocking
    | exchanged hcall hnamed hsent _ =>
      obtain rfl := Option.some.inj (hself.symm.trans hnamed)
      exact absurd rfl (sent_self_refused hidle (fun _ => hmessage (.inr hcall)) hsent).2
    | received hcall _ _ =>
      rw [doSyncIpc, show refuseIpc (s.switchTo p) p c = none from hrefused, hcall] at hs
      obtain ⟨-, hs⟩ := kassert_bind_ok.mp hs
      dsimp only at hs
      generalize ht : ((s.switchTo p).upd p fun x =>
        { x.clearMisc MF_REPLY_PEND with ipcStatus := [] }) = t at hs
      have hpeers : t.peers = s.peers := by
        rw [← ht]
        exact peers_upd_same (peer_clearMisc (x := s.proc p) (f := MF_REPLY_PEND) (by decide))
      have hreply : (t.proc p).miscIsset MF_REPLY_PEND = false := by
        rw [← ht, upd_proc_self]
        exact isset_clear_self (by decide) (by decide)
      have hpending : pendingNotify t p (some p) = pendingNotify s p (some p) :=
        pendingNotify_congr (by rw [← ht]; rfl) (by rw [← ht, upd_proc_self]; rfl) _
      have hidle₁ : (t.peers p).Idle := by
        rw [hpeers]
        exact hidle
      have hnamed₁ : t.peers.named c.srcDstE = some p := by rw [hpeers, hself]
      rw [← hV]
      refine receive_noted (fun hnone => ?_) hidle₁ hreply hnamed₁ hs
      exact havoids ⟨hrefused, hend, .inr ⟨hcall, hpending.symm.trans hnone⟩⟩
    | notified _ hnamed hnotified =>
      obtain rfl := Option.some.inj (hself.symm.trans hnamed)
      cases hnotified with
      | pending => exact hidle' rfl
      | delivered hready =>
        rw [Peer.willReceive, hidle.receiving, Option.any_none, Bool.and_false] at hready
        cases hready

end SelfCalls

section Invariant
open Peers
variable {s s' : KState H M} {p : Slot H} {e : IpcEvent H M}

theorem free_waits {i : Slot H} (h : (s.peers i).state = .free) :
    (s.peers i).sending = none ∧ (s.peers i).receiving = none := by
  refine ⟨free_idle h, ?_⟩
  have hflags := slotState_free.mp h
  have hpeer : s.peers i = ((s.proc i).setRts RTS_SLOT_FREE).peer := by
    rw [← hflags]
    rfl
  rw [hpeer, peer_setRts]
  rfl

theorem booted_waiting (h : Booted s) : s.peers.Waiting := by
  have hsend : ∀ i, (s.peers i).sending = none := fun i => (sending_peers i).mpr (h.idle i).1
  have hrecv : ∀ i, (s.peers i).receiving = none := fun i => by
    simp [KState.peers, Proc.peer, (h.idle i).2]
  refine ⟨fun i => ⟨[], ?_⟩, ⟨fun _ => [], ?_, ?_, ?_⟩, ?_⟩
  · change s.peers.edge i = none
    rw [edge, blockedOn_receiving (hsend i), hrecv]
    exact named_none
  · exact fun d _ => (h.queues d).1
  · refine fun d _ q => ⟨fun hq => absurd hq List.not_mem_nil, ?_⟩
    rintro ⟨m, hm⟩
    rw [hsend q] at hm
    cases hm
  · intro q e m hsending
    rw [hsend q] at hsending
    cases hsending
  · intro i g hg
    rw [hrecv i] at hg
    cases hg

theorem waiting_emptyBox {V : Peers H M} (h : V.Waiting) : (V.emptyBox p).Waiting := by
  obtain ⟨L, hL⟩ := h.queued
  have hkept : V.Kept (V.emptyBox p) := .update ⟨rfl, rfl, rfl⟩
  have hmail : ∀ i, (V.emptyBox p i).sending = (V i).sending ∧
      (V.emptyBox p i).receiving = (V i).receiving := by
    intro i
    by_cases hi : i = p
    · rw [hi, emptyBox, Function.update_self]
      exact ⟨rfl, rfl⟩
    · rw [emptyBox, Function.update_of_ne hi]
      exact ⟨rfl, rfl⟩
  refine h.of_fewer hkept (fun i => .inl (blockedOn_congr (hmail i).1 (hmail i).2))
    ⟨L, hL.same_mail hkept (fun i => (hmail i).1) (queues_update ⟨rfl, rfl⟩)⟩ fun i g => ?_
  rw [(hmail i).2]
  exact id

theorem happens_waiting (h : s.peers.Waiting) (hsound : s.peers.Sound) (hdomain : ipcOnly e)
    (havoids : AvoidsItself s p e) (hs : e.Happens s p s') : s'.peers.Waiting := by
  have hview := happens_stepped hsound hs
  cases e with
  | call c r =>
    have hself := fun hidle hcalled => self_call_unblocked hidle hcalled havoids hs.2.2
    generalize s'.peers = V' at hview hself ⊢
    cases hview with
    | call hidle _ hcalled => exact h.called hsound hidle hcalled (hself hidle hcalled)
  | deliver m =>
    generalize s'.peers = V' at hview ⊢
    cases hview with
    | deliver => exact waiting_emptyBox h
  | rtsSet q f =>
    generalize s'.peers = V' at hview ⊢
    cases hview with
    | rtsSet => exact h
  | rtsUnset q f =>
    generalize s'.peers = V' at hview ⊢
    cases hview with
    | rtsUnset => exact h
  | clearEndpoint rc =>
    generalize s'.peers = V' at hview ⊢
    cases hview with
    | clearEndpoint hcleared => exact h.cleared hsound (fun i hi => free_waits hi) hcleared
  | _ => exact hdomain.elim

theorem run_waiting {past : List (KState H M × (Slot H × IpcEvent H M))}
    (h : Run (ipcSystem H M) (fun _ s e => ipcOnly e.2 ∧ AvoidsItself s e.1 e.2) past s) :
    s.peers.Sound ∧ s.peers.Waiting :=
  h.invariant (P := fun s => s.peers.Sound ∧ s.peers.Waiting)
    (fun _ hbooted => ⟨booted_sound hbooted, booted_waiting hbooted⟩)
    fun _ _ _ _ hprev hok hstep =>
      ⟨stepped_sound hprev.1 (happens_stepped hprev.1 hstep),
        happens_waiting hprev.2 hprev.1 hok.1 hok.2 hstep⟩

theorem edge_of_waitsFor {i j : Slot H} (h : waitsFor s i j) : s.peers.edge i = some j := by
  rw [edge, ← isokendpt_named, ← h.2.2]
  exact congrArg (isokendpt s) (blockedOn_peer _)

theorem walk_of_waits {i j : Slot H} (h : Relation.TransGen (waitsFor s) i j) :
    Relation.TransGen (fun i j => s.peers.edge i = some j) i j :=
  Relation.TransGen.mono (fun _ _ hwaits => edge_of_waitsFor hwaits) i j h

theorem no_wait_cycle (h : s.peers.Waiting) (i : Slot H) : ¬ Relation.TransGen (waitsFor s) i i :=
  fun hcycle => h.grounded.no_cycle i (walk_of_waits hcycle)

end Invariant

section Returns
open Peers
variable {s t u : KState H M} {p : Slot H} {c : IpcCall M} {function : CallNr}

theorem receiveWaits_peers (hsane : Sane t) (hquiet : ∀ i, (t.peers i).quiet = true)
    (h : ReceiveWaits t p c u) : u.peers = t.peers ∧
      (c.srcDstE = H.any ∨ ∃ d, t.peers.named c.srcDstE = some d) := by
  obtain ⟨hbox, src, hsource, havailable⟩ := h
  have hpeers : (t.upd p fun x => { x with delivermsgVir := c.mPtr }).peers = t.peers :=
    peers_upd_same rfl
  constructor
  · have hsane' : Sane (t.upd p fun x => { x with delivermsgVir := c.mPtr }) :=
      hsane.of_kept rfl (by rw [hpeers]; exact .refl)
    rcases receiveAvailable_peers (e := c.srcDstE) hsane' (by rw [hpeers]; exact hquiet)
      (by rw [hpeers]; exact box_none hbox) havailable with ⟨hfound, -⟩ | ⟨-, hsame, -⟩
    · cases hfound
    · rw [hsame, hpeers]
  · have hnamed := source_of_receiveSource hsource
    rw [hpeers] at hnamed
    rcases hnamed with ⟨hany, -⟩ | ⟨d, -, hd⟩
    · exact .inl hany
    · exact .inr ⟨d, hd⟩

theorem deadlockCalled_returns (hsound : s.peers.Sound) (h : s.peers.Waiting)
    (hidle : (s.peers p).Idle) (hsane : Sane s) (havoids : ¬ blocksOnItself s p c)
    (hpasses : refuseIpc s p c = none) (hs : DeadlockCalled s p c function t) :
    ∃ n, deadlock t function p c.srcDstE = .ok n := by
  have hdest : c.srcDstE = H.any ∨ ∃ d, s.peers.named c.srcDstE = some d :=
    (refuse_named hpasses).imp_left And.left
  have hreturns : t.peers = s.peers → ∃ n, deadlock t function p c.srcDstE = .ok n := by
    intro hpeers
    exact deadlock_returns _ _ (by rw [hpeers]; exact hsound) (by rw [hpeers]; exact h)
      (fun _ => by rw [hpeers]; exact blockedOn_idle hidle) (by rw [hpeers]; exact hdest)
  have hmarked : (s.upd p (·.setMisc MF_REPLY_PEND)).peers = s.peers :=
    peers_upd_same (peer_setMisc (by decide))
  cases hs with
  | send => exact hreturns rfl
  | exchange => exact hreturns hmarked
  | @reply v _ hcall hsend hwaits =>
    obtain ⟨d, hd⟩ := (refuse_named hpasses).resolve_left fun hany => by simp [hcall] at hany
    have hsane₁ : Sane (s.upd p (·.setMisc MF_REPLY_PEND)) :=
      hsane.of_kept rfl (by rw [hmarked]; exact .refl)
    obtain ⟨hvsane, -, hsent⟩ := miniSend_sent hsane₁ (by rw [hmarked]; exact hd)
      (by rw [hmarked, hidle.state]; nofun) hsend
    rw [hmarked] at hsent
    have hkept := hsent.kept
    have hvsound := hsound.of_kept hkept (hsound.paired.sent hidle hsent).1
    have hother : d ≠ p := by
      rintro rfl
      refine absurd rfl (sent_self_refused hidle (fun _ => message_none ?_) hsent).2
      rw [← Bool.not_eq_true]
      exact fun hm => havoids ⟨hpasses, (named_some hd).2.2.symm, .inl ⟨.inr hcall, hm⟩⟩
    have hvwaiting := h.sent hsound hidle hd hsent fun hself => absurd hself hother
    obtain ⟨hpeers, hdest₁⟩ :=
      receiveWaits_peers hvsane (fun i => (hkept i).2.2.trans (hsound.quiet i)) hwaits
    refine deadlock_returns _ _ (by rw [hpeers]; exact hvsound) (by rw [hpeers]; exact hvwaiting)
      (fun hself => ?_) (by rw [hpeers]; exact hdest₁)
    rw [hpeers, hkept.named, hd] at hself
    exact absurd (Option.some.inj hself) hother
  | receive _ hwaits =>
    have hcleared : (s.upd p fun x =>
        { x.clearMisc MF_REPLY_PEND with ipcStatus := [] }).peers = s.peers :=
      peers_upd_same (peer_clearMisc (x := s.proc p) (f := MF_REPLY_PEND) (by decide))
    have hsane₁ : Sane (s.upd p fun x => { x.clearMisc MF_REPLY_PEND with ipcStatus := [] }) :=
      hsane.of_kept rfl (by rw [hcleared]; exact .refl)
    refine hreturns ((receiveWaits_peers hsane₁ ?_ hwaits).1.trans hcleared)
    rw [hcleared]
    exact hsound.quiet

end Returns

section Locked
open Peers
variable {s : KState H M} {p d : Slot H} {e : ℤ} {c : IpcCall M} {n : ℕ}

theorem endpointOf_alive (h : s.peers.Alive d) : (s.proc d).rtsIsset RTS_NO_ENDPOINT = false := by
  change slotState (s.proc d).rtsFlags = .alive at h
  rw [slotState] at h
  split_ifs at h with _ _ hend
  simpa [Proc.rtsIsset] using hend

theorem miniSend_locked {m : Option (Message M)} (hd : s.peers.named e = some d)
    (halive : s.peers.Alive d) (hbusy : (s.peers d).willReceive (s.peers p).endpoint = false)
    (hgroup : deadlock s .SEND p e = .ok n) (hn : n ≠ 0) :
    miniSend s p e m ⟨false, false⟩ = .ok (.ELOCKED, s) := by
  rw [miniSend, procAddr_named hd]
  change (if (s.proc d).rtsIsset RTS_NO_ENDPOINT = true then _ else _) = _
  rw [endpointOf_alive halive, ← willReceive_peer]
  change (if (s.peers d).willReceive (s.peers p).endpoint = true then _ else _) = _
  rw [hbusy, hgroup]
  change (if n ≠ 0 then _ else _) = _
  rw [if_pos hn]
  rfl

theorem receiveQueued_absent (h : s.peers.Waiting) (hp : s.peers.Alive p)
    (hnone : ¬ sendsTo s d p) : receiveQueued s p (some d) = .ok none := by
  obtain ⟨L, hL⟩ := h.queued
  obtain ⟨pre, post, hsplit, -, hpost, hcell⟩ :=
    (hL.holds p hp).seek (acceptable (some d)) (hL.length_lt hp)
  have hpath := hL.holds p hp
  rw [hsplit] at hpath
  cases post with
  | nil =>
    rw [List.append_nil] at hpath
    rw [receiveQueued, callers_peers, hcell]
    dsimp only
    rw [get_cellFrom_end hpath]
    rfl
  | cons i post =>
    have hfound := hpost i post rfl
    obtain rfl : d = i := by simpa [acceptable] using hfound
    refine absurd ?_ hnone
    rw [sendsTo_peers, ← hL.mem p hp, hsplit]
    exact List.mem_append_right pre List.mem_cons_self

theorem receiveAvailable_nothing (hsound : s.peers.Sound) (h : s.peers.Waiting)
    (hp : s.peers.Alive p) (hreply : (s.proc p).miscIsset MF_REPLY_PEND = false)
    (hpending : pendingNotify s p (some d) = .ok none) (hnone : ¬ sendsTo s d p) :
    receiveAvailable s p (some d) = .ok (false, s) := by
  rw [receiveAvailable]
  split
  · rfl
  · rw [receiveNotify, hreply, hpending]
    change (receiveAsync s p (some d) >>= _) = _
    rw [receiveAsync_quiet (hsound.quiet p)]
    change (receiveQueued s p (some d) >>= _) = _
    rw [receiveQueued_absent h hp hnone]
    rfl

theorem miniReceive_locked (mBuffUsr : ℕ) (hsound : s.peers.Sound) (h : s.peers.Waiting)
    (hp : s.peers.Alive p) (hbox : (s.proc p).miscIsset MF_DELIVERMSG = false)
    (hreply : (s.proc p).miscIsset MF_REPLY_PEND = false) (hd : s.peers.named e = some d)
    (halive : s.peers.Alive d) (hpending : pendingNotify s p (some d) = .ok none)
    (hnone : ¬ sendsTo s d p)
    (hgroup : ∀ t : KState H M, t.peers = s.peers →
      ∃ n, deadlock t .RECEIVE p e = .ok n ∧ n ≠ 0) :
    miniReceive s p e mBuffUsr false =
      .ok (.ELOCKED, s.upd p fun x => { x with delivermsgVir := mBuffUsr }) := by
  generalize ht : (s.upd p fun x => { x with delivermsgVir := mBuffUsr }) = t
  have hpeers : t.peers = s.peers := by
    rw [← ht]
    exact peers_upd_same rfl
  have htpriv : t.priv = s.priv := by rw [← ht]; rfl
  have hcaller : (t.proc p).priv = (s.proc p).priv := by rw [← ht, upd_proc_self]
  have htreply : (t.proc p).miscIsset MF_REPLY_PEND = false := by
    rw [← ht, upd_proc_self]
    exact hreply
  have htnone : ¬ sendsTo t d p := by
    rw [sendsTo_peers, hpeers, ← sendsTo_peers]
    exact hnone
  have htalive : t.peers.Alive d := by
    rw [hpeers]
    exact halive
  obtain ⟨n, hn, hpos⟩ := hgroup t hpeers
  have hsearch : receiveAvailable t p (some d) = .ok (false, t) :=
    receiveAvailable_nothing (by rw [hpeers]; exact hsound) (by rw [hpeers]; exact h)
      (by rw [hpeers]; exact hp) htreply ((pendingNotify_congr htpriv hcaller _).trans hpending)
      htnone
  rw [miniReceive, hbox, ht]
  change (receiveSource t e >>= _) = _
  rw [receiveSource_named (by rw [hpeers]; exact hd)]
  change (if (t.proc d).rtsIsset RTS_NO_ENDPOINT = true then _ else _) = _
  rw [endpointOf_alive htalive]
  change (receiveAvailable t p (some d) >>= _) = _
  rw [hsearch]
  change (deadlock t .RECEIVE p e >>= _) = _
  rw [hn]
  change (if n ≠ 0 then _ else _) = _
  rw [if_pos hpos]
  rfl

theorem deadlock_found {t : KState H M} {function : CallNr} (hsound : s.peers.Sound)
    (h : s.peers.Waiting) (hpeers : t.peers = s.peers)
    (hfun : function = .SEND ∨ function = .RECEIVE) (hidle : (s.peers p).Idle)
    (hd : s.peers.named e = some d) (hwalk : Relation.TransGen (waitsFor s) d p)
    (hexempt : ¬ s.peers.Exempt function (s.peers p).endpoint e) :
    ∃ n, deadlock t function p e = .ok n ∧ n ≠ 0 := by
  obtain ⟨n, hn⟩ := deadlock_returns (s := t) function p
    (by rw [hpeers]; exact hsound) (by rw [hpeers]; exact h)
    (fun _ => by rw [hpeers]; exact blockedOn_idle hidle) (.inr ⟨d, by rw [hpeers]; exact hd⟩)
  refine ⟨n, hn, ?_⟩
  rintro rfl
  have hend : (t.proc p).endpoint = (s.peers p).endpoint :=
    congrArg Peer.endpoint (congrFun hpeers p)
  have hzero := deadlockLoop_zero hfun le_rfl hn
  rw [hpeers, hend] at hzero
  rcases hzero with hends | ⟨hpair, -⟩
  · exact hends.no_walk rfl hd (walk_of_waits hwalk)
  · exact hexempt hpair

theorem closing_call_locked (hsound : s.peers.Sound) (h : s.peers.Waiting)
    (hrun : (s.proc p).isRunnable = true) (hbox : (s.proc p).miscIsset MF_DELIVERMSG = false)
    (hpasses : refuseIpc s p c = none) (hd : isokendpt s c.srcDstE = some d)
    (hwalk : Relation.TransGen (waitsFor s) d p) (hblocks : wouldBlock s p c d) :
    ∃ s', doSyncIpc (s.switchTo p) p c = .ok (.ELOCKED, s') ∧ s'.peers = s.peers ∧
      (s'.proc p).isRunnable = true := by
  have hpassed : refuseIpc (s.switchTo p) p c = none := hpasses
  have hsame : (s.switchTo p).peers = s.peers := rfl
  rw [isokendpt_named] at hd
  obtain ⟨j, hj, -⟩ := Relation.TransGen.head'_iff.mp hwalk
  have hidle := idle_of_runnable hrun
  have hsane : Sane (s.switchTo p) := sane_switchTo hsound.unbroken (by rw [hidle.state]; nofun)
  have halive : s.peers.Alive d := alive_of_named (s := s.switchTo p) hsane hd hj.1.2
  rcases hblocks with ⟨hcall, hwill⟩ | ⟨hcall, hpending, hnone⟩
  · rw [← willReceive_peer] at hwill
    have hexempt : ¬ s.peers.Exempt .SEND (s.peers p).endpoint c.srcDstE := by
      rintro ⟨xp, hxp, hnone, hback, hsends⟩
      obtain rfl := Option.some.inj (hxp.symm.trans hd)
      have hready := willReceive_of_receiving (by simpa using hsends) hnone
      rw [hback] at hready
      exact absurd (hready.symm.trans hwill) (by simp)
    rcases hcall with hcall | hcall
    · obtain ⟨n, hn, hpos⟩ := deadlock_found hsound h hsame (.inl rfl) hidle hd hwalk hexempt
      refine ⟨s.switchTo p, ?_, rfl, hrun⟩
      rw [doSyncIpc, hpassed, hcall]
      exact miniSend_locked (s := s.switchTo p) hd halive hwill hn hpos
    · generalize ht : (s.switchTo p).upd p (·.setMisc MF_REPLY_PEND) = t
      have hpeers : t.peers = s.peers := by
        rw [← ht]
        exact peers_upd_same (peer_setMisc (by decide))
      obtain ⟨n, hn, hpos⟩ := deadlock_found hsound h hpeers (.inl rfl) hidle hd hwalk hexempt
      refine ⟨t, ?_, hpeers, ?_⟩
      · rw [doSyncIpc, hpassed, hcall]
        change ((miniSend ((s.switchTo p).upd p (·.setMisc MF_REPLY_PEND)) p c.srcDstE c.message
          ⟨false, false⟩) >>= _) = _
        rw [ht, miniSend_locked (by rw [hpeers]; exact hd) (by rw [hpeers]; exact halive)
          (by rw [hpeers]; exact hwill) hn hpos]
        rfl
      · rw [← ht, upd_proc_self]
        exact hrun
  · have hexempt : ¬ s.peers.Exempt .RECEIVE (s.peers p).endpoint c.srcDstE := by
      rintro ⟨xp, hxp, -, hback, hsends⟩
      obtain rfl := Option.some.inj (hxp.symm.trans hd)
      obtain ⟨⟨e', m⟩, hsending⟩ := Option.isSome_iff_exists.mp (hsends.mpr (by simp))
      refine hnone ((sendsTo_peers xp p).mpr ⟨m, ?_⟩)
      rw [hsending, ← hback, blockedOn_sending hsending]
    generalize ht : ((s.switchTo p).upd p fun x =>
      { x.clearMisc MF_REPLY_PEND with ipcStatus := [] }) = t
    have hpeers : t.peers = s.peers := by
      rw [← ht]
      exact peers_upd_same (peer_clearMisc (x := s.proc p) (f := MF_REPLY_PEND) (by decide))
    have hself : t.proc p = { (s.proc p).clearMisc MF_REPLY_PEND with ipcStatus := [] } := by
      rw [← ht, upd_proc_self]
      rfl
    have htbox : (t.proc p).miscIsset MF_DELIVERMSG = false := by
      rw [hself]
      exact (isset_clear (by decide)).trans hbox
    have htreply : (t.proc p).miscIsset MF_REPLY_PEND = false := by
      rw [hself]
      exact isset_clear_self (by decide) (by decide)
    have htpending : pendingNotify t p (some d) = .ok none := by
      rw [← hpending]
      exact pendingNotify_congr (by rw [← ht]; rfl) (by rw [hself]; rfl) _
    have htnone : ¬ sendsTo t d p := by
      rw [sendsTo_peers, hpeers, ← sendsTo_peers]
      exact hnone
    have hlocked := miniReceive_locked c.mPtr (by rw [hpeers]; exact hsound)
      (by rw [hpeers]; exact h) (by rw [hpeers]; exact hidle.state) htbox htreply
      (by rw [hpeers]; exact hd) (by rw [hpeers]; exact halive) htpending htnone
      fun u hu => deadlock_found hsound h (hu.trans hpeers) (.inr rfl) hidle hd hwalk hexempt
    refine ⟨t.upd p fun x => { x with delivermsgVir := c.mPtr }, ?_,
      (peers_upd_same rfl).trans hpeers, ?_⟩
    · rw [doSyncIpc, hpassed, hcall]
      change miniReceive ((s.switchTo p).upd p fun x =>
        { x.clearMisc MF_REPLY_PEND with ipcStatus := [] }) p c.srcDstE c.mPtr false = _
      rw [ht]
      exact hlocked
    · rw [upd_proc_self, hself]
      exact hrun

end Locked

theorem deadlock_free {past : List (KState H M × (Slot H × IpcEvent H M))} {s : KState H M}
    (h : Run (ipcSystem H M) (fun _ s e => ipcOnly e.2 ∧ AvoidsItself s e.1 e.2) past s) :
    (∀ i, ¬ Relation.TransGen (waitsFor s) i i) ∧
    ∀ p c, (s.proc p).isRunnable = true → (s.proc p).miscIsset MF_DELIVERMSG = false →
      refuseIpc s p c = none → ¬ blocksOnItself s p c →
      (∀ function t, DeadlockCalled (s.switchTo p) p c function t →
        ∃ n, deadlock t function p c.srcDstE = .ok n) ∧
      ∀ d, isokendpt s c.srcDstE = some d → Relation.TransGen (waitsFor s) d p →
        wouldBlock s p c d → ∃ s', doSyncIpc (s.switchTo p) p c = .ok (.ELOCKED, s') ∧
          s'.peers = s.peers ∧ (s'.proc p).isRunnable = true := by
  obtain ⟨hsound, hwaiting⟩ := run_waiting h
  refine ⟨no_wait_cycle hwaiting, fun p c hrun hbox hpasses havoids => ⟨fun function t hcalled => ?_,
    fun d hd hwalk hblocks => closing_call_locked hsound hwaiting hrun hbox hpasses hd hwalk
      hblocks⟩⟩
  have hidle := idle_of_runnable hrun
  refine deadlockCalled_returns (s := s.switchTo p) hsound hwaiting hidle
    (sane_switchTo hsound.unbroken (by rw [hidle.state]; nofun)) (fun hself => havoids ?_) hpasses
    hcalled
  have hsearch := pendingNotify_congr (t := s.switchTo p) (s := s) (p := p) rfl rfl (some p)
  rwa [blocksOnItself, hsearch] at hself

def receiveFrom (q : Slot Headers.sample) : IpcCall ℕ where
  callNr := .RECEIVE
  srcDstE := Headers.sample.endpoint 1 (procNr q)
  mPtr := 0
  m := none

theorem deadlock_free_pair : ∃ past, ∃ s : KState Headers.sample ℕ,
    Run (ipcSystem _ _) (fun _ s e => ipcOnly e.2 ∧ AvoidsItself s e.1 e.2) past s ∧
    waitsFor s 4 5 ∧ (∃ s', doSyncIpc (s.switchTo 5) 5 (sendTo 4) = .ok (.ELOCKED, s') ∧
      s'.peers = s.peers ∧ (s'.proc 5).isRunnable = true) := by
  have hrun : Run (ipcSystem Headers.sample ℕ)
      (fun _ s e => ipcOnly e.2 ∧ AvoidsItself s e.1 e.2)
      [(twoRunning, 4, .call (sendTo 5) .OK)] _ :=
    .next (.start booted_twoRunning) ⟨trivial, fun hself => absurd hself.2.1 (by decide)⟩
      ⟨rfl, rfl, rfl⟩
  have hfree := (deadlock_free hrun).2 5 (sendTo 4) rfl rfl rfl
    fun hself => absurd hself.2.1 (by decide)
  exact ⟨_, _, hrun, ⟨⟨rfl, rfl⟩, ⟨rfl, rfl⟩, rfl⟩,
    hfree.2 4 rfl (.single ⟨⟨rfl, rfl⟩, ⟨rfl, rfl⟩, rfl⟩) (.inl ⟨.inl rfl, rfl⟩)⟩

theorem receive_from_itself_cycles : ∃ past s, Run (ipcSystem Headers.sample ℕ)
    (fun _ _ e => ipcOnly e.2) past s ∧ waitsFor s 4 4 ∧ (s.proc 5).isRunnable = true ∧
    doSyncIpc (s.switchTo 5) 5 (sendTo 4) = .error .outOfBounds := by
  have hrun : Run (ipcSystem Headers.sample ℕ) (fun _ _ e => ipcOnly e.2)
      [(twoRunning, 4, .call (receiveFrom 4) .OK)] _ :=
    .next (.start booted_twoRunning) trivial ⟨rfl, rfl, rfl⟩
  exact ⟨_, _, hrun, ⟨⟨rfl, rfl⟩, ⟨rfl, rfl⟩, rfl⟩, rfl, rfl⟩

end Kernel
