import Cs111.Kernel.SystemView

namespace Kernel
open Minix FlagWord Chain TransitionSystem
variable {H : Headers} {M : Type}

inductive IpcEvent (H : Headers) (M : Type) where
  | call (c : IpcCall M) (result : Errno)
  | deliver (m : Message M)
  | rtsSet (q : Slot H) (f : Flags)
  | rtsUnset (q : Slot H) (f : Flags)
  | clearEndpoint (rc : Slot H)
  | clearIpcRefs (rc : Slot H) (callerRet : Errno)
  | doClear (prEndpt : ℤ) (result : Errno)
  | doFork (m : ForkCall) (result : Errno)
  | doUpdate (m : UpdateCall) (result : Errno)

def KState.switchTo (s : KState H M) (p : Slot H) : KState H M := { s with procPtr := p }

def IpcEvent.Happens (s : KState H M) (p : Slot H) (s' : KState H M) : IpcEvent H M → Prop
  | .call c r => (s.proc p).isRunnable = true ∧ (s.proc p).miscIsset MF_DELIVERMSG = false ∧
      doSyncIpc (s.switchTo p) p c = .ok (r, s')
  | .deliver m => (s.proc p).isRunnable = true ∧ delivermsg (s.switchTo p) p = .ok (m, s')
  | .rtsSet q f => (s.proc p).isEmpty = false ∧ (s.proc q).isEmpty = false ∧ beyondIpc f ∧
      Kernel.rtsSet (s.switchTo p) q f = .ok s'
  | .rtsUnset q f => (s.proc p).isEmpty = false ∧ beyondIpc f ∧
      Kernel.rtsUnset (s.switchTo p) q f = .ok s'
  | .clearEndpoint rc => (s.proc p).isRunnable = true ∧
      Kernel.clearEndpoint (s.switchTo p) rc = .ok s'
  | .clearIpcRefs rc callerRet => (s.proc p).isRunnable = true ∧
      Kernel.clearIpcRefs (s.switchTo p) rc callerRet = .ok s'
  | .doClear e r => (s.proc p).isRunnable = true ∧ Kernel.doClear (s.switchTo p) e = .ok (r, s')
  | .doFork m r => (s.proc p).isRunnable = true ∧ Kernel.doFork (s.switchTo p) m = .ok (r, s')
  | .doUpdate m r => (s.proc p).isRunnable = true ∧ Kernel.doUpdate (s.switchTo p) m = (r, s')

def slotEndpoint (p : Slot H) (e : ℤ) : Prop :=
  ∃ g, 0 ≤ g ∧ g < H.maxGeneration ∧ e = H.endpoint g (procNr p)

structure Booted (s : KState H M) : Prop where
  slots : ∀ i, (s.proc i).rtsIsset RTS_SLOT_FREE = true → (s.proc i).isEmpty = true
  idle : ∀ i, (s.proc i).rtsIsset RTS_SENDING = false ∧ (s.proc i).rtsIsset RTS_RECEIVING = false
  boxes : ∀ i, (s.proc i).miscIsset MF_DELIVERMSG = false
  quiet : ∀ i, (s.proc i).miscIsset MF_ASYNMSG = false ∧ (s.proc i).miscIsset MF_SIG_DELAY = false
  queues : ∀ i, (s.proc i).callerQ = none ∧ (s.proc i).qLink = none
  endpoints : ∀ i, slotEndpoint i (s.proc i).endpoint

def ipcSystem (H : Headers) (M : Type) :
    TransitionSystem (KState H M) (Slot H × IpcEvent H M) where
  initial := Booted
  step s e s' := e.2.Happens s e.1 s'

namespace Peers

def emptyBox (V : Peers H M) (p : Slot H) : Peers H M :=
  Function.update V p { V p with box := none }

inductive Stepped (V : Peers H M) (p : Slot H) : IpcEvent H M → Peers H M → Prop
  | call {c r V'} : (V p).Idle → (V p).box = none → V.Called p c r V' → Stepped V p (.call c r) V'
  | deliver {m} : (V p).Idle → (V p).box = some m → Stepped V p (.deliver m) (V.emptyBox p)
  | rtsSet {q f} : Stepped V p (.rtsSet q f) V
  | rtsUnset {q f} : Stepped V p (.rtsUnset q f) V
  | clearEndpoint {rc V'} : V.Cleared rc V' → Stepped V p (.clearEndpoint rc) V'
  | clearIpcRefs {rc callerRet} :
      Stepped V p (.clearIpcRefs rc callerRet) (V.freeRefs (V rc).endpoint)
  | notCleared {e r} : Stepped V p (.doClear e r) V
  | doClear {e r rc W} : V.named e = some rc → V.Cleared rc W →
      Stepped V p (.doClear e r) (W.vacate rc)
  | doFork {m r V'} : V.Forked m V' → Stepped V p (.doFork m r) V'
  | notUpdated {m r} : Stepped V p (.doUpdate m r) V
  | doUpdate {m r src dst} : V.named m.srcE = some src → V.named m.dstE = some dst →
      Stepped V p (.doUpdate m r) (V.swap src dst)

def Paired (V : Peers H M) : Prop :=
  ∀ i e m g, (V i).sending = some (e, m) → (V i).receiving = some g → g = e

structure Sound (V : Peers H M) : Prop where
  unbroken : V.Unbroken
  quiet : ∀ i, (V i).quiet = true
  endpoints : ∀ i, slotEndpoint i (V i).endpoint
  paired : V.Paired

end Peers

section Steps
variable {s s' : KState H M} {p : Slot H}

theorem delivermsg_peers {m : Message M} (hs : delivermsg s p = .ok (m, s')) :
    (s.peers p).box = some m ∧ s'.peers = s.peers.emptyBox p := by
  rw [delivermsg] at hs
  obtain ⟨hbox, hs⟩ := kassert_bind_ok.mp hs
  obtain ⟨-, hs⟩ := kassert_bind_ok.mp hs
  obtain ⟨rfl, rfl⟩ := Prod.mk.inj (pure_ok.mp hs)
  constructor
  · simp [KState.peers, Proc.peer, hbox]
  · rw [peers_upd]
    have hmisc := peer_misc
      { s.proc p with
        delivermsg := { (s.proc p).delivermsg with mSource := H.none }
        retreg := if (s.proc p).miscIsset MF_CONTEXT_SET then (s.proc p).retreg else .OK }
      ((s.proc p).miscFlags &&& ~~~MF_DELIVERMSG)
    rw [isset_clear_self (by decide) (by decide), isset_clear (by decide),
      isset_clear (by decide)] at hmisc
    exact congrArg (Function.update _ p) hmisc

theorem sane_switchTo (h : s.peers.Unbroken) (hp : (s.peers p).state ≠ .free) :
    Sane (s.switchTo p) := ⟨h, hp⟩

theorem happens_stepped {e : IpcEvent H M} (h : s.peers.Sound) (hs : e.Happens s p s') :
    s.peers.Stepped p e s'.peers := by
  have hrunning : (s.proc p).isRunnable = true → Sane (s.switchTo p) := by
    intro hrun
    refine sane_switchTo h.unbroken ?_
    rw [(idle_of_runnable hrun).state]
    nofun
  have hstate : ∀ q, (s.proc q).isEmpty = false → (s.peers q).state ≠ .free := by
    intro q hempty hfree
    rw [(isEmpty_iff _).mpr hfree] at hempty
    cases hempty
  have hused : (s.proc p).isEmpty = false → Sane (s.switchTo p) :=
    fun hempty => sane_switchTo h.unbroken (hstate p hempty)
  cases e with
  | call c r =>
    obtain ⟨hrun, hbox, hs⟩ := hs
    exact .call (idle_of_runnable hrun) (box_none hbox)
      (doSyncIpc_called (hrunning hrun) h.quiet (hrunning hrun).running hs).2.2
  | deliver m =>
    obtain ⟨hrun, hs⟩ := hs
    obtain ⟨hbox, hpeers⟩ := delivermsg_peers hs
    rw [hpeers]
    exact .deliver (idle_of_runnable hrun) hbox
  | rtsSet q f =>
    obtain ⟨hempty, hempty', hf, hs⟩ := hs
    obtain ⟨-, hpeers⟩ := rtsSet_same (s := s.switchTo p) hf (h.unbroken q)
      (hstate q hempty') hs
    rw [hpeers]
    exact .rtsSet (V := s.peers)
  | rtsUnset q f =>
    obtain ⟨hempty, hf, hs⟩ := hs
    obtain ⟨-, -, hpeers⟩ := rtsUnset_same (s := s.switchTo p) hf (hused hempty) hs
    rw [hpeers]
    exact .rtsUnset (V := s.peers)
  | clearEndpoint rc =>
    obtain ⟨hrun, hs⟩ := hs
    exact .clearEndpoint (clearEndpoint_peers (hrunning hrun) hs).2.2
  | clearIpcRefs rc callerRet =>
    obtain ⟨hrun, hs⟩ := hs
    rw [(clearIpcRefs_peers (hrunning hrun) hs).2.2]
    exact .clearIpcRefs
  | doClear e r =>
    obtain ⟨hrun, hs⟩ := hs
    rcases doClear_peers (hrunning hrun) hs with ⟨hpeers, -⟩ | ⟨rc, W, -, hrc, hcleared, hpeers⟩
    · rw [hpeers]
      exact .notCleared
    · rw [hpeers]
      exact .doClear hrc hcleared
  | doFork m r =>
    obtain ⟨hrun, hs⟩ := hs
    exact .doFork (doFork_peers (hrunning hrun) hs)
  | doUpdate m r =>
    obtain ⟨hrun, hs⟩ := hs
    have hupdated := doUpdate_peers (s := s.switchTo p) h.quiet m
    rw [hs] at hupdated
    rcases hupdated with hpeers | ⟨src, dst, hpasses, hpeers⟩
    · rw [hpeers]
      exact .notUpdated (V := s.peers)
    · rw [hpeers]
      exact .doUpdate (by rw [← hpasses.srcE]; exact (isokendpt_named ..).symm)
        (by rw [← hpasses.dstE]; exact (isokendpt_named ..).symm)

theorem booted_sound (h : Booted s) : s.peers.Sound where
  unbroken i hbroken := by
    change slotState (s.proc i).rtsFlags = .broken at hbroken
    rw [slotState] at hbroken
    have hslot := h.slots i
    rw [Proc.isEmpty, beq_iff_eq, Proc.rtsIsset] at hslot
    split_ifs at hbroken with hfree hbit
    exact hfree (hslot hbit)
  quiet i := by simp [KState.peers, Proc.peer, h.quiet i]
  endpoints := h.endpoints
  paired i e m g hsending := by simp [KState.peers, Proc.peer, h.idle i] at hsending

end Steps

namespace Peers
variable {V V' : Peers H M} {p : Slot H}

theorem slotEndpoint_procNr {i : Slot H} {e : ℤ} (h : slotEndpoint i e) :
    H.endpointP e = procNr i := by
  obtain ⟨g, hg, hmax, rfl⟩ := h
  have hlt := i.isLt
  exact H.endpointP_endpoint g _ hg hmax (by simp [procNr]) (by simp only [procNr]; omega)

theorem procNr_inj {i j : Slot H} (h : procNr i = procNr j) : i = j := by
  simp only [procNr] at h
  exact Fin.ext (by omega)

theorem Sound.endpoint_inj (h : V.Sound) {i j : Slot H}
    (he : (V i).endpoint = (V j).endpoint) : i = j := by
  have hi := slotEndpoint_procNr (h.endpoints i)
  have hj := slotEndpoint_procNr (h.endpoints j)
  rw [he, hj] at hi
  exact (procNr_inj hi).symm

theorem Sound.named (h : V.Sound) {i : Slot H} (hfree : (V i).state ≠ .free) :
    V.named (V i).endpoint = some i := by
  rw [Peers.named, slotEndpoint_procNr (h.endpoints i), procAddr_procNr]
  simp [hfree]

theorem Paired.of_mail (h : V.Paired) (hmail : ∀ i, (V' i).sending = none ∨
    (V' i).receiving = none ∨
    ∃ j, (V' i).sending = (V j).sending ∧ (V' i).receiving = (V j).receiving) : V'.Paired := by
  intro i e m g hsending hreceiving
  rcases hmail i with hidle | hidle | ⟨j, hsend, hrecv⟩
  · rw [hidle] at hsending
    cases hsending
  · rw [hidle] at hreceiving
    cases hreceiving
  · exact h j e m g (hsend ▸ hsending) (hrecv ▸ hreceiving)

theorem Paired.sent {d : Slot H} {e : ℤ} {m : Option (Message M)} {nonBlocking : Bool}
    {r : Errno} (h : V.Paired) (hidle : (V p).Idle) (hs : V.Sent p d e m nonBlocking r V') :
    V'.Paired ∧ ∀ e' m', (V' p).sending = some (e', m') → e' = e := by
  cases hs with
  | refused =>
    refine ⟨h, fun e' m' hsending => ?_⟩
    rw [hidle.sending] at hsending
    cases hsending
  | delivered =>
    constructor
    · refine h.of_mail fun i => ?_
      rw [(deliver_mail i).1, (deliver_mail i).2.1]
      split_ifs
      · exact .inr (.inl rfl)
      · exact .inr (.inr ⟨i, rfl, rfl⟩)
    · intro e' m' hsending
      rw [(deliver_mail p).1, hidle.sending] at hsending
      cases hsending
  | blocked =>
    constructor
    · refine h.of_mail fun i => ?_
      rw [(block_mail i).1, (block_mail i).2.1]
      split_ifs with hi
      · subst hi
        exact .inr (.inl hidle.receiving)
      · exact .inr (.inr ⟨i, rfl, rfl⟩)
    · intro e' m' hsending
      rw [(block_mail p).1, if_pos rfl] at hsending
      cases hsending
      rfl

theorem Paired.received {src : Option (Slot H)} {e : ℤ} {r : Errno} (h : V.Paired)
    (hsame : ∀ e' m', (V p).sending = some (e', m') → e' = e) (hs : V.Received p src e r V') :
    V'.Paired := by
  cases hs with
  | gone => exact h
  | noted =>
    refine h.of_mail fun i => ?_
    rw [(pickUp_mail i).1, (pickUp_mail i).2.1]
    exact .inr (.inr ⟨i, rfl, rfl⟩)
  | took =>
    refine h.of_mail fun i => ?_
    rw [(take_mail i).1, (take_mail i).2.1]
    split_ifs
    · exact .inl rfl
    · exact .inr (.inr ⟨i, rfl, rfl⟩)
  | locked => exact h
  | waited =>
    intro i e' m g hsending hreceiving
    rw [(wait_mail i).1] at hsending
    rw [(wait_mail i).2.1] at hreceiving
    split_ifs at hreceiving with hi
    · subst hi
      cases hreceiving
      exact (hsame e' m hsending).symm
    · exact h i e' m g hsending hreceiving

theorem Paired.called {c : IpcCall M} {r : Errno} (h : V.Paired) (hidle : (V p).Idle)
    (hs : V.Called p c r V') : V'.Paired := by
  cases hs with
  | refused => exact h
  | sent _ _ hsent => exact (h.sent hidle hsent).1
  | exchanged _ _ hsent hreceived =>
    obtain ⟨hpaired, hsame⟩ := h.sent hidle hsent
    exact hpaired.received hsame hreceived
  | received _ _ hreceived =>
    refine h.received (fun e' m' hsending => ?_) hreceived
    rw [hidle.sending] at hsending
    cases hsending
  | notified _ _ hnotified =>
    cases hnotified with
    | pending => exact h
    | delivered =>
      refine h.of_mail fun i => ?_
      rw [(deliver_mail i).1, (deliver_mail i).2.1]
      split_ifs
      · exact .inr (.inl rfl)
      · exact .inr (.inr ⟨i, rfl, rfl⟩)

theorem Sound.of_kept (h : V.Sound) (hkept : V.Kept V') (hpaired : V'.Paired) : V'.Sound where
  unbroken i := by
    rw [(hkept i).1]
    exact h.unbroken i
  quiet i := (hkept i).2.2.trans (h.quiet i)
  endpoints i := by
    rw [(hkept i).2.1]
    exact h.endpoints i
  paired := hpaired

theorem Unlinked.mail {rc : Slot H} (h : V.Unlinked rc V') (i : Slot H) :
    (V' i).sending = (if i = rc then none else (V i).sending) ∧
      (V' i).receiving = (V i).receiving ∧ (V' i).box = (V i).box := by
  cases h with
  | idle hidle =>
    refine ⟨?_, rfl, rfl⟩
    split_ifs with hi
    · subst hi
      exact hidle
    · rfl
  | absent => exact release_mail i
  | unlinked =>
    rw [(release_mail i).1, (release_mail i).2.1, (release_mail i).2.2, (setCallers_mail i).1,
      (setCallers_mail i).2.1, (setCallers_mail i).2.2]
    exact ⟨rfl, rfl, rfl⟩

def WaitsFor (V : Peers H M) (rc i : Slot H) : Prop :=
  (V i).state ≠ .free ∧ (V i).blockedOn = (V rc).endpoint

instance (rc i : Slot H) : Decidable (V.WaitsFor rc i) := inferInstanceAs (Decidable (_ ∧ _))

theorem freeRefs_fields (rc i : Slot H) :
    (V.freeRefs (V rc).endpoint i).sending = (if V.WaitsFor rc i then none else (V i).sending) ∧
    (V.freeRefs (V rc).endpoint i).receiving =
      (if V.WaitsFor rc i then none else (V i).receiving) ∧
    (V.freeRefs (V rc).endpoint i).box = (V i).box := by
  by_cases h : V.WaitsFor rc i
  · have hfreed : V.freeRefs (V rc).endpoint i = { V i with sending := none, receiving := none } :=
      if_pos h
    rw [hfreed, if_pos h, if_pos h]
    exact ⟨rfl, rfl, rfl⟩
  · have hsame : V.freeRefs (V rc).endpoint i = V i := if_neg h
    rw [hsame, if_neg h, if_neg h]
    exact ⟨rfl, rfl, rfl⟩

theorem Cleared.fields {rc : Slot H} (h : V.Cleared rc V') (i : Slot H) :
    (V' i).state = (if i = rc then .dead else (V i).state) ∧
    (V' i).endpoint = (V i).endpoint ∧ (V' i).quiet = (V i).quiet ∧
    (V' i).sending = (if i = rc ∨ V.WaitsFor rc i then none else (V i).sending) ∧
    (V' i).receiving = (if i = rc ∨ V.WaitsFor rc i then none else (V i).receiving) ∧
    (V' i).box = (V i).box := by
  obtain ⟨hfree, hunlinked⟩ := h
  rename_i W
  have hkept := (hunlinked.same.1.trans (W.kept_stopWaiting rc)).trans
    ((W.stopWaiting rc).freeRefs_kept (V rc).endpoint)
  have hend : ((W.stopWaiting rc) rc).endpoint = (V rc).endpoint := by
    rw [(hunlinked.same.1.trans (W.kept_stopWaiting rc) rc).2.1, bury, Function.update_self]
  have hmail := freeRefs_fields (V := W.stopWaiting rc) rc i
  rw [hend] at hmail
  by_cases hi : i = rc
  · subst hi
    have hidle : (W.stopWaiting i i).sending = none ∧ (W.stopWaiting i i).receiving = none ∧
        (W.stopWaiting i i).box = (V i).box := by
      rw [stopWaiting, Function.update_self]
      refine ⟨hunlinked.same.2.1, rfl, ?_⟩
      change (W i).box = _
      rw [(hunlinked.mail i).2.2, bury, Function.update_self]
    rw [(hkept i).1, (hkept i).2.1, (hkept i).2.2, hmail.1, hmail.2.1, hmail.2.2, hidle.1,
      hidle.2.1, hidle.2.2]
    simp [bury]
  · have hother : W.stopWaiting rc i = W i := Function.update_of_ne hi ..
    have hburied : V.bury rc i = V i := Function.update_of_ne hi ..
    have hsame := hunlinked.mail i
    rw [if_neg hi, hburied] at hsame
    have hwaits : (W.stopWaiting rc).WaitsFor rc i ↔ V.WaitsFor rc i := by
      simp only [WaitsFor, hend, hother, (hunlinked.same.1 i).1, hburied, Peer.blockedOn, hsame]
    rw [(hkept i).1, (hkept i).2.1, (hkept i).2.2, hmail.1, hmail.2.1, hmail.2.2, hburied, hother,
      hsame.1, hsame.2.1, hsame.2.2]
    simp only [hi, false_or, hwaits, if_false]
    exact ⟨trivial, trivial, trivial, trivial, trivial, trivial⟩

theorem Cleared.sound {rc : Slot H} (h : V.Sound) (hs : V.Cleared rc V') : V'.Sound where
  unbroken i := by
    rw [(hs.fields i).1]
    split_ifs
    · nofun
    · exact h.unbroken i
  quiet i := (hs.fields i).2.2.1.trans (h.quiet i)
  endpoints i := by
    rw [(hs.fields i).2.1]
    exact h.endpoints i
  paired := by
    refine h.paired.of_mail fun i => ?_
    rw [(hs.fields i).2.2.2.1, (hs.fields i).2.2.2.2.1]
    split_ifs
    · exact .inl rfl
    · exact .inr (.inr ⟨i, rfl, rfl⟩)

theorem Sound.update (h : V.Sound) {i : Slot H} {x : Peer H M} (hstate : x.state ≠ .broken)
    (hquiet : x.quiet = true) (hend : slotEndpoint i x.endpoint)
    (hpaired : ∀ e m g, x.sending = some (e, m) → x.receiving = some g → g = e) :
    Peers.Sound (Function.update V i x) where
  unbroken j := by
    by_cases hj : j = i
    · subst hj
      rwa [Function.update_self]
    · rw [Function.update_of_ne hj]
      exact h.unbroken j
  quiet j := by
    by_cases hj : j = i
    · subst hj
      rwa [Function.update_self]
    · rw [Function.update_of_ne hj]
      exact h.quiet j
  endpoints j := by
    by_cases hj : j = i
    · subst hj
      rwa [Function.update_self]
    · rw [Function.update_of_ne hj]
      exact h.endpoints j
  paired j := by
    by_cases hj : j = i
    · subst hj
      rwa [Function.update_self]
    · rw [Function.update_of_ne hj]
      exact h.paired j

theorem slotEndpoint_next {rpc : Slot H} {e : ℤ} (h : slotEndpoint rpc e) :
    slotEndpoint rpc (H.endpoint (nextGeneration H (H.endpointG e)) (procNr rpc)) := by
  obtain ⟨g, hg, hmax, rfl⟩ := h
  have hlt := rpc.isLt
  have hgen := H.maxGeneration_gt
  rw [H.endpointG_endpoint g _ hg hmax (by simp [procNr]) (by simp only [procNr]; omega)]
  refine ⟨nextGeneration H g, ?_, ?_, rfl⟩
  · rw [nextGeneration]
    split_ifs <;> omega
  · rw [nextGeneration]
    split_ifs <;> omega

theorem stepped_sound {e : IpcEvent H M} (h : V.Sound) (hs : V.Stepped p e V') : V'.Sound := by
  cases hs with
  | call hidle _ hcalled => exact h.of_kept hcalled.kept (h.paired.called hidle hcalled)
  | deliver hidle _ =>
    refine h.update (h.unbroken p) (h.quiet p) (h.endpoints p) fun e m g hsending => ?_
    rw [hidle.sending] at hsending
    cases hsending
  | rtsSet => exact h
  | rtsUnset => exact h
  | clearEndpoint hcleared => exact hcleared.sound h
  | @clearIpcRefs rc callerRet =>
    refine h.of_kept (V.freeRefs_kept _) (h.paired.of_mail fun i => ?_)
    rw [(freeRefs_fields rc i).1, (freeRefs_fields rc i).2.1]
    split_ifs
    · exact .inl rfl
    · exact .inr (.inr ⟨i, rfl, rfl⟩)
  | notCleared => exact h
  | @doClear _ _ rc W _ hcleared =>
    have hW := hcleared.sound h
    exact hW.update nofun (hW.quiet rc) (hW.endpoints rc) nofun
  | doFork hforked =>
    cases hforked with
    | refused => exact h
    | @forked rpp rpc _ _ _ hnr _ _ =>
      rw [← hnr]
      exact h.update (h.unbroken rpp) (h.quiet rpp) (slotEndpoint_next (h.endpoints rpc))
        (h.paired rpp)
  | notUpdated => exact h
  | @doUpdate _ _ src dst _ _ =>
    refine Sound.update ?_ (h.unbroken src) (h.quiet src) (h.endpoints dst) (h.paired src)
    exact h.update (h.unbroken dst) (h.quiet dst) (h.endpoints src) (h.paired dst)

end Peers

theorem run_sound {ok : List (KState H M × (Slot H × IpcEvent H M)) → KState H M →
    Slot H × IpcEvent H M → Prop} {past : List (KState H M × (Slot H × IpcEvent H M))}
    {s : KState H M} (h : Run (ipcSystem H M) ok past s) : s.peers.Sound :=
  h.invariant (fun _ => booted_sound) fun _ _ _ _ hsound _ hstep =>
    Peers.stepped_sound hsound (happens_stepped hsound hstep)

end Kernel
