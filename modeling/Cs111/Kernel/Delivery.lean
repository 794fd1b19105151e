import Cs111.Kernel.CallerRuns
import Cs111.Kernel.Ledger

namespace Kernel
open Minix FlagWord Chain TransitionSystem
variable {H : Headers} {M : Type}

abbrev IpcHistory (H : Headers) (M : Type) := List (KState H M × (Slot H × IpcEvent H M))

def messagesOnly : IpcEvent H M → Prop
  | .call _ _ | .deliver _ | .rtsSet _ _ | .rtsUnset _ _ => True
  | _ => False

def acceptedBy (s : KState H M) (p : Slot H) (d : Slot H) : IpcEvent H M → Multiset (Message M)
  | .call c r =>
    if r = .OK ∧ sendsMessage c.callNr = true ∧ c.srcDstE = (s.proc d).endpoint then
      s.peers.posted p c.message
    else 0
  | _ => 0

def receivedBy (p : Slot H) (d : Slot H) : IpcEvent H M → Multiset (Message M)
  | .deliver m => if p = d then ofUser m else 0
  | _ => 0

def acceptedFor (d : Slot H) (past : IpcHistory H M) : Multiset (Message M) :=
  (past.map fun x => acceptedBy x.1 x.2.1 d x.2.2).sum

def receivedFor (d : Slot H) (past : IpcHistory H M) : Multiset (Message M) :=
  (past.map fun x => receivedBy x.2.1 d x.2.2).sum

def inBox (s : KState H M) (d : Slot H) : Multiset (Message M) :=
  if (s.proc d).miscIsset MF_DELIVERMSG then ofUser (s.proc d).delivermsg else 0

def heldFor (s : KState H M) (d : Slot H) : Multiset (Message M) :=
  ∑ q, if sendsTo s q d then
    ofUser { (s.proc q).sendmsg with mSource := (s.proc q).endpoint }
  else 0

def blockedAt : IpcHistory H M → KState H M → Slot H → ℕ
  | [], _, _ => 0
  | (s₀, _) :: past, s, q =>
    if (s.proc q).rtsIsset RTS_SENDING && !(s₀.proc q).rtsIsset RTS_SENDING then past.length + 1
    else blockedAt past s₀ q

def receivesAny (p d : Slot H) : IpcEvent H M → Bool
  | .call c _ => p == d && c.callNr == .RECEIVE && c.srcDstE == H.any
  | _ => false

def takenFrom (s₀ s : KState H M) (d : Slot H) : List (Slot H) :=
  (List.finRange (H.nrTasks + H.nrProcs)).filter fun q =>
    decide (sendsTo s₀ q d) && !decide (sendsTo s q d)

def takenAny (d : Slot H) : IpcHistory H M → KState H M → List ℕ
  | [], _ => []
  | (s₀, (p, e)) :: past, s =>
    (if receivesAny p d e then (takenFrom s₀ s d).map (blockedAt past s₀) else []) ++
      takenAny d past s₀

section Accounts
open Peers
variable {s s' : KState H M} {p d : Slot H} {past : IpcHistory H M}

theorem ledger_peers : s.peers.ledger d = heldFor s d + inBox s d := by
  have hhanded : ∀ q, s.peers.handed d q = if sendsTo s q d then
      ofUser { (s.proc q).sendmsg with mSource := (s.proc q).endpoint } else 0 := by
    intro q
    cases hsending : (s.proc q).rtsIsset RTS_SENDING with
    | false =>
      rw [handed_idle ((sending_peers q).mpr hsending), if_neg]
      rw [sendsTo, hsending]
      exact fun hto => Bool.noConfusion hto.1
    | true =>
      have hsend : (s.peers q).sending = some ((s.proc q).sendtoE, (s.proc q).sendmsg) := by
        simp [KState.peers, Proc.peer, hsending]
      rw [handed_sending hsend]
      simp only [sendsTo, hsending, true_and]
      rfl
  have hbox : s.peers.boxed d = inBox s d := by
    simp only [Peers.boxed, KState.peers, Proc.peer, inBox]
    cases (s.proc d).miscIsset MF_DELIVERMSG <;> simp
  rw [Peers.ledger, heldFor, hbox, Finset.sum_congr rfl fun q _ => hhanded q]

theorem booted_ledger (h : Booted s) : s.peers.ledger d = 0 := by
  have hheld : heldFor s d = 0 :=
    Finset.sum_eq_zero fun q _ => if_neg fun hto => by
      rw [sendsTo, (h.idle q).1] at hto
      cases hto.1
  rw [ledger_peers, hheld, inBox, h.boxes d]
  rfl

theorem happens_ledger {e : IpcEvent H M} (hsound : s.peers.Sound) (hthreaded : s.peers.Threaded)
    (hdomain : messagesOnly e) (hs : e.Happens s p s') (d : Slot H) :
    s'.peers.ledger d + receivedBy p d e = s.peers.ledger d + acceptedBy s p d e := by
  have hview := happens_stepped hsound hs
  cases e with
  | call c r =>
    generalize s'.peers = V' at hview ⊢
    cases hview with
    | call hidle _ hcalled =>
      obtain ⟨L, hL⟩ := hthreaded.queued
      exact (add_zero _).trans (hcalled.ledger hsound hL hidle d)
  | deliver m =>
    generalize s'.peers = V' at hview ⊢
    cases hview with
    | deliver hidle hbox =>
      have hkept : s.peers.Kept (s.peers.emptyBox p) := .update ⟨rfl, rfl, rfl⟩
      have hsend : ∀ i, (s.peers.emptyBox p i).sending = (s.peers i).sending := by
        intro i
        by_cases hi : i = p
        · rw [hi, emptyBox, Function.update_self]
        · rw [emptyBox, Function.update_of_ne hi]
      change _ + (if p = d then ofUser m else 0) = _ + 0
      rw [add_zero]
      by_cases hd : p = d
      · subst hd
        have hempty : (s.peers.emptyBox p p).box = none := by
          rw [emptyBox, Function.update_self]
        rw [if_pos rfl, Peers.ledger, Peers.ledger, boxed_none hempty, boxed_some hbox, add_zero,
          Finset.sum_congr rfl fun q _ => handed_congr hkept (hsend q)]
      · rw [if_neg hd, add_zero]
        refine ledger_congr hkept hsend ?_
        rw [Peers.boxed, Peers.boxed, emptyBox, Function.update_of_ne (Ne.symm hd)]
  | rtsSet q f =>
    generalize s'.peers = V' at hview ⊢
    cases hview with
    | rtsSet => rfl
  | rtsUnset q f =>
    generalize s'.peers = V' at hview ⊢
    cases hview with
    | rtsUnset => rfl
  | _ => exact hdomain.elim

theorem keeps_of_messagesOnly {e : IpcEvent H M} (h : messagesOnly e) : KeepsCallers s e := by
  cases e with
  | call | deliver | rtsSet | rtsUnset => trivial
  | _ => exact h.elim

theorem messages_accounted (h : Run (ipcSystem H M) (fun _ _ e => messagesOnly e.2) past s)
    (d : Slot H) : acceptedFor d past = receivedFor d past + (heldFor s d + inBox s d) := by
  have hall : (s.peers.Sound ∧ s.peers.Threaded) ∧
      acceptedFor d past = receivedFor d past + s.peers.ledger d := by
    refine h.trace_invariant (P := fun past s => (s.peers.Sound ∧ s.peers.Threaded) ∧
      acceptedFor d past = receivedFor d past + s.peers.ledger d) ?_ ?_
    · intro s hbooted
      exact ⟨⟨booted_sound hbooted, booted_threaded hbooted⟩, by rw [booted_ledger hbooted]; rfl⟩
    · rintro past s ⟨p, e⟩ s' ⟨⟨hsound, hthreaded⟩, hledger⟩ hdomain hstep
      have hnext := happens_ledger hsound hthreaded hdomain hstep d
      refine ⟨⟨stepped_sound hsound (happens_stepped hsound hstep),
        happens_threaded hthreaded hsound (keeps_of_messagesOnly hdomain) hstep⟩, ?_⟩
      change acceptedBy s p d e + acceptedFor d past =
        receivedBy p d e + receivedFor d past + s'.peers.ledger d
      rw [hledger, add_comm, add_assoc, ← hnext, add_comm (s'.peers.ledger d), ← add_assoc,
        add_comm (receivedFor d past)]
  rw [hall.2, ledger_peers]

end Accounts

section Order
open Peers
variable {s s' s₀ : KState H M} {p d q : Slot H} {past : IpcHistory H M} {e : IpcEvent H M}
variable {L L' : Slot H → List (Slot H)}

theorem blockedAt_le (past : IpcHistory H M) (s : KState H M) (q : Slot H) :
    blockedAt past s q ≤ past.length := by
  induction past generalizing s with
  | nil => rfl
  | cons x past ih =>
    rw [blockedAt, List.length_cons]
    split_ifs
    · exact le_rfl
    · exact (ih x.1).trans (Nat.le_succ _)

theorem takenAny_le {n : ℕ} (h : n ∈ takenAny d past s) : n ≤ past.length := by
  induction past generalizing s with
  | nil => cases h
  | cons x past ih =>
    rw [takenAny, List.mem_append] at h
    rw [List.length_cons]
    rcases h with hnow | hbefore
    · split_ifs at hnow
      · obtain ⟨q, -, rfl⟩ := List.mem_map.mp hnow
        exact (blockedAt_le past x.1 q).trans (Nat.le_succ _)
      · cases hnow
    · exact (ih hbefore).trans (Nat.le_succ _)

theorem blockedAt_same (hsend : (s₀.peers q).sending ≠ none) :
    blockedAt ((s₀, p, e) :: past) s q = blockedAt past s₀ q := by
  rw [ne_eq, sending_peers, Bool.not_eq_false] at hsend
  rw [blockedAt, hsend]
  simp

theorem blockedAt_now (hidle : (s₀.peers q).sending = none) (hsend : (s.peers q).sending ≠ none) :
    blockedAt ((s₀, p, e) :: past) s q = past.length + 1 := by
  rw [sending_peers] at hidle
  rw [ne_eq, sending_peers, Bool.not_eq_false] at hsend
  rw [blockedAt, hidle, hsend]
  rfl

structure InOrder (past : IpcHistory H M) (s : KState H M) (L : Slot H → List (Slot H)) :
    Prop where
  queued : s.peers.Queued (fun _ => True) L
  sorted : ∀ d, (L d).Pairwise fun q q' => blockedAt past s q < blockedAt past s q'
  taken : ∀ d, (takenAny d past s).Pairwise (· > ·)
  ahead : ∀ d, ∀ n ∈ takenAny d past s, ∀ q ∈ L d, n < blockedAt past s q

theorem InOrder.blocked (h : InOrder past s₀ L) (hq : q ∈ L d) :
    blockedAt ((s₀, p, e) :: past) s q = blockedAt past s₀ q :=
  blockedAt_same (h.queued.senders trivial q hq)

theorem InOrder.follows (h : InOrder past s₀ L) (hqueued : s.peers.Queued (fun _ => True) L')
    (hfollows : Follows p L L') (hidle : (s₀.peers p).sending = none)
    (hnone : ∀ d, takenAny d ((s₀, p, e) :: past) s = takenAny d past s₀) :
    InOrder ((s₀, p, e) :: past) s L' := by
  have hnow : ∀ d, p ∈ L' d → blockedAt ((s₀, p, e) :: past) s p = past.length + 1 := fun d hp =>
    blockedAt_now hidle (hqueued.senders trivial p hp)
  refine ⟨hqueued, fun d => ?_, fun d => by rw [hnone]; exact h.taken d, fun d n hn q hq => ?_⟩
  · obtain ⟨l, hl, hsame | hmore⟩ := hfollows d
    · rw [hsame]
      refine ((h.sorted d).sublist hl).imp_of_mem fun {a b} ha hb hlt => ?_
      rwa [h.blocked (hl.subset ha), h.blocked (hl.subset hb)]
    · have hp := hnow d (by rw [hmore]; simp)
      rw [hmore, List.pairwise_append]
      refine ⟨((h.sorted d).sublist hl).imp_of_mem fun {a b} ha hb hlt => ?_,
        List.pairwise_singleton .., fun a ha b hb => ?_⟩
      · rwa [h.blocked (hl.subset ha), h.blocked (hl.subset hb)]
      · rw [List.mem_singleton.mp hb, hp, h.blocked (hl.subset ha)]
        exact Nat.lt_succ_of_le (blockedAt_le past s₀ a)
  · rw [hnone] at hn
    obtain ⟨l, hl, hsame | hmore⟩ := hfollows d
    · rw [hsame] at hq
      rw [h.blocked (hl.subset hq)]
      exact h.ahead d n hn q (hl.subset hq)
    · have hp := hnow d (by rw [hmore]; simp)
      rw [hmore, List.mem_append, List.mem_singleton] at hq
      rcases hq with hq | rfl
      · rw [h.blocked (hl.subset hq)]
        exact h.ahead d n hn q (hl.subset hq)
      · rw [hp]
        exact Nat.lt_succ_of_le (takenAny_le hn)

theorem takenAny_none (h : receivesAny p d e = false) :
    takenAny d ((s₀, p, e) :: past) s = takenAny d past s₀ := by
  rw [takenAny, h]
  rfl

theorem takenAny_untouched (h : ∀ q, sendsTo s₀ q d → sendsTo s q d) :
    takenAny d ((s₀, p, e) :: past) s = takenAny d past s₀ := by
  have hnone : takenFrom s₀ s d = [] := by
    rw [takenFrom, List.filter_eq_nil_iff]
    intro q _ hq
    simp only [Bool.and_eq_true, decide_eq_true_eq, Bool.not_eq_true', decide_eq_false_iff_not]
      at hq
    exact hq.2 (h q hq.1)
  rw [takenAny, hnone]
  split_ifs <;> rfl

theorem takenFrom_one (h : ∀ i, sendsTo s₀ i d ∧ ¬ sendsTo s i d ↔ i = q) :
    takenFrom s₀ s d = [q] := by
  have hmem : ∀ i, i ∈ takenFrom s₀ s d ↔ i ∈ [q] := by
    intro i
    rw [List.mem_singleton, ← h i, takenFrom, List.mem_filter]
    simp [List.mem_finRange]
  have hnodup : (takenFrom s₀ s d).Nodup := (List.nodup_finRange _).filter _
  exact List.perm_singleton.mp
    ((List.perm_ext_iff_of_nodup hnodup (List.nodup_singleton q)).mpr hmem)

theorem Peers.Queued.received_any {V V' : Peers H M} (h : V.Queued (fun _ => True) L)
    (hsound : V.Sound) {g : ℤ} {r : Errno} (hs : V.Received p none g r V') :
    (∀ i, (V' i).sending = (V i).sending) ∨ ∃ q post, L p = q :: post ∧
      V'.Queued (fun _ => True) (Function.update L p post) ∧
      ∀ i, (V' i).sending = if i = q then none else (V i).sending := by
  cases hs with
  | gone => exact .inl fun _ => rfl
  | noted => exact .inl fun i => (pickUp_mail i).1
  | @took q xpp m _ _ hseek hget _ =>
    obtain ⟨pre, post, hsplit, hpre, -, -, hqueued⟩ :=
      h.take (m := m) hsound.endpoint_inj trivial hseek hget
    have hnil : pre = [] := by
      cases pre with
      | nil => rfl
      | cons i pre =>
        have hskipped := hpre i List.mem_cons_self
        cases hskipped
    subst hnil
    exact .inr ⟨q, post, hsplit, hqueued, fun i => (take_mail i).1⟩
  | locked => exact .inl fun _ => rfl
  | waited => exact .inl fun i => (wait_mail i).1

theorem receivesAny_call {c : IpcCall M} {r : Errno} : receivesAny p d (.call c r) = true ↔
    p = d ∧ c.callNr = .RECEIVE ∧ c.srcDstE = H.any := by
  simp [receivesAny, and_assoc]

theorem InOrder.took (h : InOrder past s₀ L) (hkept : s₀.peers.Kept s.peers) {c : IpcCall M}
    {r : Errno} {post : List (Slot H)}
    (hcall : c.callNr = .RECEIVE ∧ c.srcDstE = H.any) (hsplit : L p = q :: post)
    (hqueued : s.peers.Queued (fun _ => True) (Function.update L p post))
    (hsend : ∀ i, (s.peers i).sending = if i = q then none else (s₀.peers i).sending) :
    InOrder ((s₀, p, .call c r) :: past) s (Function.update L p post) := by
  have hsub : ∀ d, (Function.update L p post d).Sublist (L d) := by
    intro d
    by_cases hd : d = p
    · rw [hd, Function.update_self, hsplit]
      exact List.sublist_cons_self ..
    · rw [Function.update_of_ne hd]
  have hto : ∀ i d, sendsTo s i d ↔ i ≠ q ∧ sendsTo s₀ i d := by
    intro i d
    rw [sendsTo_peers, sendsTo_peers, SendsTo, SendsTo, hsend, (hkept d).2.1]
    split_ifs with hi
    · simp [hi]
    · simp [hi]
  have hfrom : sendsTo s₀ q p := by
    rw [sendsTo_peers, ← h.queued.mem p trivial, hsplit]
    exact List.mem_cons_self
  have htaken : takenAny p ((s₀, p, .call c r) :: past) s =
      blockedAt past s₀ q :: takenAny p past s₀ := by
    have hone : takenFrom s₀ s p = [q] := takenFrom_one fun i => by
      rw [hto]
      constructor
      · rintro ⟨hsends, hnot⟩
        by_contra hi
        exact hnot ⟨hi, hsends⟩
      · rintro rfl
        exact ⟨hfrom, fun hboth => hboth.1 rfl⟩
    rw [takenAny, if_pos (receivesAny_call.mpr ⟨rfl, hcall⟩), hone]
    rfl
  have hother : ∀ d, d ≠ p → takenAny d ((s₀, p, .call c r) :: past) s = takenAny d past s₀ := by
    intro d hd
    refine takenAny_none ?_
    rw [← Bool.not_eq_true, receivesAny_call]
    exact fun hboth => hd hboth.1.symm
  refine ⟨hqueued, fun d => ?_, fun d => ?_, fun d n hn i hi => ?_⟩
  · refine ((h.sorted d).sublist (hsub d)).imp_of_mem fun {a b} ha hb hlt => ?_
    rwa [h.blocked ((hsub d).subset ha), h.blocked ((hsub d).subset hb)]
  · by_cases hd : d = p
    · rw [hd, htaken, List.pairwise_cons]
      refine ⟨fun n hn => h.ahead p n hn q ?_, h.taken p⟩
      rw [hsplit]
      exact List.mem_cons_self
    · rw [hother d hd]
      exact h.taken d
  · rw [h.blocked ((hsub d).subset hi)]
    by_cases hd : d = p
    · subst hd
      rw [htaken, List.mem_cons] at hn
      rcases hn with rfl | hn
      · have hsorted := h.sorted d
        rw [hsplit, List.pairwise_cons] at hsorted
        rw [Function.update_self] at hi
        exact hsorted.1 i hi
      · exact h.ahead d n hn i ((hsub d).subset hi)
    · rw [hother d hd] at hn
      exact h.ahead d n hn i ((hsub d).subset hi)

theorem InOrder.untouched (h : InOrder past s₀ L) (hqueued : s.peers.Queued (fun _ => True) L)
    (hkept : s₀.peers.Kept s.peers) (hidle : (s₀.peers p).sending = none)
    (hsend : ∀ i, (s.peers i).sending = (s₀.peers i).sending) :
    InOrder ((s₀, p, e) :: past) s L :=
  h.follows hqueued .refl hidle fun d => takenAny_untouched fun q hto => by
    rw [sendsTo_peers, SendsTo] at hto ⊢
    rwa [hsend, (hkept d).2.1]

theorem inOrder_called (h : InOrder past s₀ L) (hsound : s₀.peers.Sound)
    (hidle : (s₀.peers p).Idle) {c : IpcCall M} {r : Errno}
    (hs : s₀.peers.Called p c r s.peers) :
    ∃ L', InOrder ((s₀, p, .call c r) :: past) s L' := by
  obtain ⟨L', hL', hfollows⟩ := h.queued.called hsound (fun _ _ => trivial) hidle hs
  by_cases hany : c.callNr = .RECEIVE ∧ c.srcDstE = H.any
  · have huntouched : (∀ i, (s.peers i).sending = (s₀.peers i).sending) →
        ∃ L', InOrder ((s₀, p, .call c r) :: past) s L' := fun hsend =>
      ⟨L', h.follows hL' hfollows hidle.sending fun d => takenAny_untouched fun q hto => by
        rw [sendsTo_peers, SendsTo] at hto ⊢
        rwa [hsend, (hs.kept d).2.1]⟩
    have hkept := hs.kept
    generalize hV : s.peers = V' at hs huntouched hkept
    cases hs with
    | refused => exact huntouched fun _ => rfl
    | sent hcall => simp [hany.1] at hcall
    | exchanged hcall => simp [hany.1] at hcall
    | @received src _ _ _ hsource hreceived =>
      obtain rfl : src = none := by
        rcases hsource with ⟨-, hnone⟩ | ⟨d, -, hd⟩
        · exact hnone
        · rw [hany.2, named_any] at hd
          cases hd
      rcases h.queued.received_any hsound hreceived with hsame | ⟨q, post, hsplit, hqueued, hsend⟩
      · exact huntouched hsame
      · rw [← hV] at hkept hqueued hsend
        exact ⟨_, h.took hkept hany hsplit hqueued hsend⟩
    | notified hcall => simp [hany.1] at hcall
  · refine ⟨L', h.follows hL' hfollows hidle.sending fun d => takenAny_none ?_⟩
    rw [← Bool.not_eq_true, receivesAny_call]
    exact fun hboth => hany hboth.2

theorem inOrder_step (h : InOrder past s₀ L) (hsound : s₀.peers.Sound)
    (hdomain : messagesOnly e) (hs : e.Happens s₀ p s) :
    ∃ L', InOrder ((s₀, p, e) :: past) s L' := by
  have hview := happens_stepped hsound hs
  have hstill : s.peers = s₀.peers → (∀ d, receivesAny p d e = false) →
      ∃ L', InOrder ((s₀, p, e) :: past) s L' := by
    intro hsame hnone
    refine ⟨L, ⟨by rw [hsame]; exact h.queued, fun d => ?_, fun d => ?_, fun d n hn q hq => ?_⟩⟩
    · refine (h.sorted d).imp_of_mem fun {a b} ha hb hlt => ?_
      rwa [h.blocked ha, h.blocked hb]
    · rw [takenAny_none (hnone d)]
      exact h.taken d
    · rw [takenAny_none (hnone d)] at hn
      rw [h.blocked hq]
      exact h.ahead d n hn q hq
  cases e with
  | call c r =>
    cases hview with
    | call hidle _ hcalled => exact inOrder_called h hsound hidle hcalled
  | deliver m =>
    have hmail : ∀ V', s₀.peers.Stepped p (.deliver m) V' → (s₀.peers p).sending = none ∧
        s₀.peers.Kept V' ∧ (∀ i, (V' i).sending = (s₀.peers i).sending) ∧
        V'.Queued (fun _ => True) L := by
      intro V' hstepped
      cases hstepped with
      | deliver hidle _ =>
        have hkept : s₀.peers.Kept (s₀.peers.emptyBox p) := .update ⟨rfl, rfl, rfl⟩
        have hsend : ∀ i, (s₀.peers.emptyBox p i).sending = (s₀.peers i).sending := by
          intro i
          by_cases hi : i = p
          · rw [hi, emptyBox, Function.update_self]
          · rw [emptyBox, Function.update_of_ne hi]
        exact ⟨hidle.sending, hkept, hsend,
          h.queued.same_mail hkept hsend (queues_update ⟨rfl, rfl⟩)⟩
    obtain ⟨hidle, hkept, hsend, hqueued⟩ := hmail _ hview
    exact ⟨L, h.untouched hqueued hkept hidle hsend⟩
  | rtsSet q f =>
    have hsame : ∀ V', s₀.peers.Stepped p (.rtsSet q f) V' → V' = s₀.peers := by
      rintro _ ⟨⟩
      rfl
    exact hstill (hsame _ hview) fun _ => rfl
  | rtsUnset q f =>
    have hsame : ∀ V', s₀.peers.Stepped p (.rtsUnset q f) V' → V' = s₀.peers := by
      rintro _ ⟨⟩
      rfl
    exact hstill (hsame _ hview) fun _ => rfl
  | _ => exact hdomain.elim

theorem taken_in_order (h : Run (ipcSystem H M) (fun _ _ e => messagesOnly e.2) past s)
    (d : Slot H) : (takenAny d past s).Pairwise (· > ·) := by
  have hall : s.peers.Sound ∧ ∃ L, InOrder past s L := by
    refine h.trace_invariant (P := fun past s => s.peers.Sound ∧ ∃ L, InOrder past s L) ?_ ?_
    · intro s hbooted
      obtain ⟨L, hL⟩ := (booted_threaded hbooted).queued
      have hempty : ∀ d q, q ∉ L d := fun d q hq =>
        hL.senders trivial q hq ((sending_peers q).mpr (hbooted.idle q).1)
      refine ⟨booted_sound hbooted, L, hL, fun d => ?_, fun d => List.Pairwise.nil,
        fun d n hn => absurd hn List.not_mem_nil⟩
      rw [List.eq_nil_iff_forall_not_mem.mpr (hempty d)]
      exact List.Pairwise.nil
    · rintro past s ⟨p, e⟩ s' ⟨hsound, L, hL⟩ hdomain hstep
      exact ⟨stepped_sound hsound (happens_stepped hsound hstep),
        inOrder_step hL hsound hdomain hstep⟩
  obtain ⟨-, L, hL⟩ := hall
  exact hL.taken d

end Order

theorem messages_delivered_once {past : IpcHistory H M} {s : KState H M}
    (h : Run (ipcSystem H M) (fun _ _ e => messagesOnly e.2) past s) :
    (∀ d, acceptedFor d past = receivedFor d past + (heldFor s d + inBox s d)) ∧
    CallersQueued s ∧ ∀ d, (takenAny d past s).Pairwise (· > ·) := by
  obtain ⟨-, hthreaded⟩ := run_threaded (h.mono fun _ _ _ hdomain => keeps_of_messagesOnly hdomain)
  exact ⟨messages_accounted h, hthreaded.queued_once, taken_in_order h⟩

def receiveAny : IpcCall ℕ where
  callNr := .RECEIVE
  srcDstE := Headers.sample.any
  mPtr := 0
  m := none

theorem messages_delivered_exchange : ∃ past, ∃ s : KState Headers.sample ℕ,
    Run (ipcSystem _ _) (fun _ _ e => messagesOnly e.2) past s ∧
    (∀ d, acceptedFor d past = receivedFor d past + (heldFor s d + inBox s d)) ∧
    CallersQueued s ∧ ∀ d, (takenAny d past s).Pairwise (· > ·) := by
  have hrun : Run (ipcSystem Headers.sample ℕ) (fun _ _ e => messagesOnly e.2)
      [(_, 5, .deliver ⟨32768, .user 1⟩), (_, 5, .call receiveAny .OK),
        (twoRunning, 4, .call (sendTo 5) .OK)] _ :=
    .next (.next (.next (.start booted_twoRunning) trivial ⟨rfl, rfl, rfl⟩) trivial
      ⟨rfl, rfl, rfl⟩) trivial ⟨rfl, rfl⟩
  exact ⟨_, _, hrun, messages_delivered_once hrun⟩

end Kernel
