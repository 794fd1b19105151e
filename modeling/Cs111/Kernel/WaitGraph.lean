import Cs111.Kernel.CallerQueues
import Cs111.Lib.Grounded

namespace Kernel
open Minix FlagWord Chain TransitionSystem
variable {H : Headers} {M : Type}

namespace Peers
variable {V V' : Peers H M} {D : Slot H → Prop} {L : Slot H → List (Slot H)}
variable {p d q rc : Slot H} {e : ℤ} {r : Errno}

def Alive (V : Peers H M) (d : Slot H) : Prop := (V d).state = .alive

structure Waiting (V : Peers H M) : Prop where
  grounded : Grounded V.edge
  queued : ∃ L, V.Queued V.Alive L
  sources : ∀ i g, (V i).receiving = some g → g = H.any ∨ ∃ d, V.Alive d ∧ (V d).endpoint = g

section Edges

theorem named_congr (hfree : ∀ i, (V' i).state = .free ↔ (V i).state = .free)
    (hend : ∀ i, (V' i).endpoint = (V i).endpoint) (e : ℤ) : V'.named e = V.named e := by
  rw [Peers.named, Peers.named]
  cases procAddr H (H.endpointP e) with
  | error _ => rfl
  | ok i => simp only [hfree, hend]

theorem edge_cut (hnamed : ∀ e, V'.named e = V.named e)
    (hblocked : ∀ i, (V' i).blockedOn = (V i).blockedOn ∨ (V' i).blockedOn = H.none) (i : Slot H) :
    V'.edge i = V.edge i ∨ V'.edge i = none := by
  rw [edge, edge, hnamed]
  rcases hblocked i with hsame | hnone
  · exact .inl (by rw [hsame])
  · exact .inr (by rw [hnone, named_none])

theorem blockedOn_congr {x y : Peer H M} (hsend : x.sending = y.sending)
    (hrecv : x.receiving = y.receiving) : x.blockedOn = y.blockedOn := by
  rw [Peer.blockedOn, Peer.blockedOn, hsend, hrecv]

theorem blockedOn_sending {x : Peer H M} {m : Message M} (h : x.sending = some (e, m)) :
    x.blockedOn = e := by
  rw [Peer.blockedOn, h]

theorem blockedOn_receiving {x : Peer H M} (hidle : x.sending = none) :
    x.blockedOn = x.receiving.getD H.none := by
  rw [Peer.blockedOn, hidle]

theorem Ends.path {cpE : ℤ} (hends : V.Ends cpE e) (hp : (V p).endpoint = cpE)
    (hne : V.named e ≠ some p) : ∃ l, Chain.Path V.edge (V.named e) l ∧ p ∉ l := by
  induction hends with
  | any => exact ⟨[], named_any, List.not_mem_nil⟩
  | @idle e xp hxp hnone =>
    refine ⟨[xp], ⟨hxp, ?_⟩, ?_⟩
    · change V.edge xp = none
      rw [edge, hnone, named_none]
    · rw [List.mem_singleton]
      rintro rfl
      exact hne hxp
  | @next e xp hxp hnone hback _ ih =>
    obtain ⟨l, hl, hpl⟩ := ih fun hnamed => hback ((named_some hnamed).2.2.symm.trans hp)
    refine ⟨xp :: l, ⟨hxp, hl⟩, ?_⟩
    rw [List.mem_cons, not_or]
    refine ⟨?_, hpl⟩
    rintro rfl
    exact hne hxp

theorem Ends.no_walk {cpE : ℤ} (hends : V.Ends cpE e) (hp : (V p).endpoint = cpE)
    (hd : V.named e = some d) :
    ¬ Relation.TransGen (fun i j => V.edge i = some j) d p := by
  induction hends generalizing d with
  | any =>
    rw [named_any] at hd
    cases hd
  | @idle e xp hxp hnone =>
    obtain rfl := Option.some.inj (hxp.symm.trans hd)
    intro hwalk
    obtain ⟨j, hj, -⟩ := Relation.TransGen.head'_iff.mp hwalk
    rw [edge, hnone, named_none] at hj
    cases hj
  | @next e xp hxp _ hback _ ih =>
    obtain rfl := Option.some.inj (hxp.symm.trans hd)
    intro hwalk
    obtain ⟨j, hj, hrest⟩ := Relation.TransGen.head'_iff.mp hwalk
    rcases Relation.reflTransGen_iff_eq_or_transGen.mp hrest with rfl | hrest
    · exact hback ((named_some hj).2.2.symm.trans hp)
    · exact ih hj hrest

end Edges

section Moves

theorem Kept.alive (h : V.Kept V') : V'.Alive d ↔ V.Alive d := by
  rw [Alive, Alive, (h d).1]

theorem Waiting.of_fewer (h : V.Waiting) (hkept : V.Kept V')
    (hblocked : ∀ i, (V' i).blockedOn = (V i).blockedOn ∨ (V' i).blockedOn = H.none)
    (hqueued : ∃ L, V'.Queued V.Alive L)
    (hsources : ∀ i g, (V' i).receiving = some g → (V i).receiving = some g) : V'.Waiting where
  grounded := h.grounded.cut (edge_cut hkept.named hblocked)
  queued := by
    have hsame : V'.Alive = V.Alive := funext fun i => propext hkept.alive
    rwa [hsame]
  sources i g hg := by
    rcases h.sources i g (hsources i g hg) with hany | ⟨d, hd, hend⟩
    · exact .inl hany
    · exact .inr ⟨d, hkept.alive.mpr hd, by rw [(hkept d).2.1, hend]⟩

theorem Waiting.deliver (h : V.Waiting) {m : Message M} (hready : (V d).sending = none) :
    (V.deliver d m).Waiting := by
  obtain ⟨L, hL⟩ := h.queued
  refine h.of_fewer kept_deliver (fun i => ?_)
    ⟨L, hL.same_mail kept_deliver (fun i => (deliver_mail i).1) deliver_queues⟩ fun i g => ?_
  · by_cases hi : i = d
    · subst hi
      refine .inr ?_
      rw [blockedOn_receiving (by rw [(deliver_mail i).1, hready]), (deliver_mail i).2.1,
        if_pos rfl]
      rfl
    · refine .inl (blockedOn_congr (deliver_mail i).1 ?_)
      rw [(deliver_mail i).2.1, if_neg hi]
  · rw [(deliver_mail i).2.1]
    split_ifs
    · nofun
    · exact id

theorem Waiting.sent (h : V.Waiting) (hsound : V.Sound) (hidle : (V p).Idle)
    {m : Option (Message M)} {nonBlocking : Bool} (hnamed : V.named e = some d)
    (hs : V.Sent p d e m nonBlocking r V') (hself : d = p → (V' p).blockedOn = H.none) :
    V'.Waiting := by
  obtain ⟨L, hL⟩ := h.queued
  obtain ⟨L', hL', -⟩ := hL.sent hsound (fun _ hi => hi) hidle hnamed hs
  have hqueued : ∃ L, V'.Queued V.Alive L := ⟨L', hL'⟩
  cases hs with
  | refused => exact h
  | delivered _ hready =>
    rw [Peer.willReceive, Bool.and_eq_true, Option.isNone_iff_eq_none] at hready
    exact h.deliver hready.1
  | @blocked msg xpp _ _ _ hends _ _ _ =>
    have hkept : V.Kept (V.block p d e msg xpp) := kept_block
    have hblocked : ∀ i, (V.block p d e msg xpp i).blockedOn =
        if i = p then e else (V i).blockedOn := by
      intro i
      split_ifs with hi
      · exact blockedOn_sending (by rw [(block_mail i).1, if_pos hi])
      · exact blockedOn_congr (by rw [(block_mail i).1, if_neg hi]) (block_mail i).2.1
    have hne : V.named e ≠ some p := by
      intro hp
      rw [hnamed] at hp
      have hnone := hself (Option.some.inj hp)
      rw [hblocked p, if_pos rfl] at hnone
      rw [hnone, named_none] at hnamed
      cases hnamed
    obtain ⟨l, hl, hp⟩ := hends.path rfl hne
    have hedge : (V.block p d e msg xpp).edge = Function.update V.edge p (V.named e) := by
      funext i
      rw [edge, hkept.named, hblocked i, Function.update_apply]
      split_ifs <;> rfl
    have hsame : (V.block p d e msg xpp).Alive = V.Alive := funext fun i => propext hkept.alive
    refine ⟨?_, by rwa [hsame], fun i g hg => ?_⟩
    · rw [hedge]
      exact h.grounded.link hl hp
    · rw [(block_mail i).2.1] at hg
      rcases h.sources i g hg with hany | ⟨d', hd', hend⟩
      · exact .inl hany
      · exact .inr ⟨d', hkept.alive.mpr hd', by rw [(hkept d').2.1, hend]⟩

theorem Received.sending_self {src : Option (Slot H)} (hs : V.Received p src e r V') :
    (V' p).sending = (V p).sending := by
  cases hs with
  | gone => rfl
  | noted => exact (pickUp_mail p).1
  | took hidle =>
    rw [(take_mail p).1]
    split_ifs
    · exact hidle.symm
    · rfl
  | locked => rfl
  | waited => exact (wait_mail p).1

theorem Queued.not_exempt (h : V.Queued D L) (hp : D p) {src : Option (Slot H)}
    (hsource : V.Source src e)
    (hnone : ∀ xpp, seek (V.callers p) (acceptable src) (bound H) .head = some xpp →
      (V.callers p).get xpp = none) : ¬ V.Exempt .RECEIVE (V p).endpoint e := by
  rintro ⟨xp, hxp, -, hback, hsends⟩
  obtain rfl : src = some xp := by
    rcases hsource with ⟨rfl, -⟩ | ⟨d, rfl, hd⟩
    · rw [named_any] at hxp
      cases hxp
    · rw [Option.some.inj (hd.symm.trans hxp)]
  have hsome : (V xp).sending.isSome = true := hsends.mpr (by simp)
  obtain ⟨⟨e', m⟩, hsending⟩ := Option.isSome_iff_exists.mp hsome
  have hmem : xp ∈ L p :=
    (h.mem p hp xp).mpr ⟨m, by rw [hsending, ← hback, blockedOn_sending hsending]⟩
  obtain ⟨pre, post, hsplit, hpre, -, hcell⟩ :=
    (h.holds p hp).seek (acceptable (some xp)) (h.length_lt hp)
  have hpath := h.holds p hp
  rw [hsplit] at hpath hmem
  cases post with
  | nil =>
    rw [List.append_nil] at hmem
    have hskipped := hpre xp hmem
    simp [acceptable] at hskipped
  | cons i post =>
    have hget := Links.Holds.get hpath
    rw [hnone _ hcell] at hget
    cases hget

theorem Waiting.received (h : V.Waiting) (hsound : V.Sound) (hp : V.Alive p)
    {src : Option (Slot H)} (hsource : V.Source src e)
    (hs : V.Received p src e r V') (hself : V.named e = some p → (V' p).blockedOn = H.none) :
    V'.Waiting := by
  obtain ⟨L, hL⟩ := h.queued
  obtain ⟨L', hL', -⟩ := hL.received hsound hp hs
  have hqueued : ∃ L, V'.Queued V.Alive L := ⟨L', hL'⟩
  cases hs with
  | gone => exact h
  | noted =>
    exact h.of_fewer kept_pickUp
      (fun i => .inl (blockedOn_congr (pickUp_mail i).1 (pickUp_mail i).2.1)) hqueued
      fun i g => by rw [(pickUp_mail i).2.1]; exact id
  | @took q xpp m _ _ hseek hget _ =>
    refine h.of_fewer kept_take (fun i => ?_) hqueued fun i g => by
      rw [(take_mail i).2.1]
      exact id
    by_cases hi : i = q
    · subst hi
      have hidle' : (V.take p i xpp m i).sending = none := by rw [(take_mail i).1, if_pos rfl]
      rw [blockedOn_receiving hidle', (take_mail i).2.1]
      cases hrecv : (V i).receiving with
      | none => exact .inr rfl
      | some g =>
        obtain ⟨pre, post, hsplit, -⟩ := hL.take (m := m) hsound.endpoint_inj hp hseek hget
        obtain ⟨m', hm'⟩ := (hL.mem p hp i).mp (by rw [hsplit]; simp)
        rw [blockedOn_sending hm', ← hsound.paired i _ m' g hm' hrecv]
        exact .inl rfl
    · refine .inl (blockedOn_congr ?_ (take_mail i).2.1)
      rw [(take_mail i).1, if_neg hi]
  | locked => exact h
  | waited hqueue halive hends =>
    have hkept : V.Kept (V.wait p e) := kept_wait
    have hsame : (V.wait p e).Alive = V.Alive := funext fun i => propext hkept.alive
    refine ⟨?_, by rwa [hsame], fun i g hg => ?_⟩
    · cases hsending : (V p).sending with
      | some x =>
        refine h.grounded.cut (edge_cut hkept.named fun i => .inl ?_)
        by_cases hi : i = p
        · subst hi
          rw [blockedOn_sending hsending, blockedOn_sending ((wait_mail i).1.trans hsending)]
        · refine blockedOn_congr (wait_mail i).1 ?_
          rw [(wait_mail i).2.1, if_neg hi]
      | none =>
        have hblocked : ∀ i, (V.wait p e i).blockedOn = if i = p then e else (V i).blockedOn := by
          intro i
          split_ifs with hi
          · subst hi
            rw [blockedOn_receiving ((wait_mail i).1.trans hsending), (wait_mail i).2.1,
              if_pos rfl]
            rfl
          · refine blockedOn_congr (wait_mail i).1 ?_
            rw [(wait_mail i).2.1, if_neg hi]
        have hne : V.named e ≠ some p := by
          intro hnamed
          have hnone := hself hnamed
          rw [hblocked p, if_pos rfl] at hnone
          rw [hnone, named_none] at hnamed
          cases hnamed
        obtain ⟨l, hl, hpl⟩ :=
          (hends.resolve_right (hL.not_exempt hp hsource (hqueue hsending))).path rfl hne
        have hedge : (V.wait p e).edge = Function.update V.edge p (V.named e) := by
          funext i
          rw [edge, hkept.named, hblocked i, Function.update_apply]
          split_ifs <;> rfl
        rw [hedge]
        exact h.grounded.link hl hpl
    · rw [(wait_mail i).2.1] at hg
      have hsources : g = H.any ∨ ∃ d, V.Alive d ∧ (V d).endpoint = g := by
        split_ifs at hg
        · obtain rfl := Option.some.inj hg
          rcases hsource with ⟨hany, -⟩ | ⟨d, rfl, hd⟩
          · exact .inl hany
          · exact .inr ⟨d, halive d rfl, (named_some hd).2.2⟩
        · exact h.sources i g hg
      rcases hsources with hany | ⟨d, hd, hend⟩
      · exact .inl hany
      · exact .inr ⟨d, hkept.alive.mpr hd, by rw [(hkept d).2.1, hend]⟩

theorem Sent.receiving_self {m : Option (Message M)} {nonBlocking : Bool} (hidle : (V p).Idle)
    (hs : V.Sent p d e m nonBlocking r V') : (V' p).receiving = none := by
  cases hs with
  | refused => exact hidle.receiving
  | delivered =>
    rw [(deliver_mail p).2.1]
    split_ifs
    · rfl
    · exact hidle.receiving
  | blocked =>
    rw [(block_mail p).2.1]
    exact hidle.receiving

theorem Waiting.called (h : V.Waiting) (hsound : V.Sound) (hidle : (V p).Idle) {c : IpcCall M}
    (hs : V.Called p c r V') (hself : V.named c.srcDstE = some p → (V' p).blockedOn = H.none) :
    V'.Waiting := by
  cases hs with
  | refused => exact h
  | sent _ hnamed hsent =>
    exact h.sent hsound hidle hnamed hsent fun hd => hself (by rw [hnamed, hd])
  | @exchanged d _ V₁ _ _ hnamed hsent hreceived =>
    have hkept := hsent.kept
    have hmid : V₁.Waiting := by
      refine h.sent hsound hidle hnamed hsent fun hd => ?_
      have hnone := hself (by rw [hnamed, hd])
      cases hsending : (V₁ p).sending with
      | some x =>
        rw [blockedOn_sending (hreceived.sending_self.trans hsending)] at hnone
        rw [blockedOn_sending hsending, hnone]
      | none =>
        rw [blockedOn_receiving hsending, hsent.receiving_self hidle]
        rfl
    have hsound₁ := hsound.of_kept hkept (hsound.paired.sent hidle hsent).1
    have halive : V₁.Alive p := by
      rw [Alive, (hkept p).1]
      exact hidle.state
    exact hmid.received hsound₁ halive (.inr ⟨d, rfl, by rw [hkept.named, hnamed]⟩) hreceived
      fun hp => hself (by rw [← hkept.named, hp])
  | received _ hsource hreceived =>
    exact h.received hsound hidle.state hsource hreceived hself
  | notified _ _ hnotified =>
    cases hnotified with
    | pending => exact h
    | delivered hready =>
      rw [Peer.willReceive, Bool.and_eq_true, Option.isNone_iff_eq_none] at hready
      exact h.deliver hready.1

end Moves

section Exits

theorem Queued.freeRefs (h : V.Queued D L) (hsound : V.Sound)
    (hempty : ∀ i, (V i).state = .free → (V i).sending = none) :
    (V.freeRefs (V rc).endpoint).Queued (fun d => D d ∧ d ≠ rc) L := by
  have hkept := V.freeRefs_kept (V rc).endpoint
  have hsends : ∀ q d, d ≠ rc → ((V.freeRefs (V rc).endpoint).SendsTo q d ↔ V.SendsTo q d) := by
    intro q d hd
    rw [SendsTo, SendsTo, (freeRefs_fields rc q).1, (hkept d).2.1]
    split_ifs with hwaits
    · constructor
      · rintro ⟨m, hm⟩
        cases hm
      · rintro ⟨m, hm⟩
        exact absurd (hsound.endpoint_inj ((blockedOn_sending hm).symm.trans hwaits.2)) hd
    · exact .rfl
  constructor
  · intro d hd
    have hsame : (V.freeRefs (V rc).endpoint).callers d = V.callers d := by
      refine congrFun (callers_congr fun i => ?_) d
      rw [Peers.freeRefs]
      split_ifs <;> exact ⟨rfl, rfl⟩
    rw [hsame]
    exact h.holds d hd.1
  · intro d hd q
    rw [hsends q d hd.2, h.mem d hd.1]
  · intro q e m hsending
    rw [(freeRefs_fields rc q).1] at hsending
    split_ifs at hsending with hwaits
    obtain ⟨d, hd, hused, hend⟩ := h.dest q e m hsending
    refine ⟨d, ⟨hd, ?_⟩, ?_, ?_⟩
    · rintro rfl
      refine hwaits ⟨fun hfree => ?_, by rw [blockedOn_sending hsending, hend]⟩
      rw [hempty q hfree] at hsending
      cases hsending
    · rw [(hkept d).1]
      exact hused
    · rw [(hkept d).2.1, hend]

theorem Queued.cleared (h : V.Queued V.Alive L) (hsound : V.Sound)
    (hempty : ∀ i, (V i).state = .free → (V i).sending = none) (hs : V.Cleared rc V') :
    ∃ L', V'.Queued V'.Alive L' := by
  have halive : V'.Alive = fun d => V.Alive d ∧ d ≠ rc := by
    funext d
    rw [Alive, Alive, (hs.fields d).1, eq_iff_iff]
    split_ifs with hd
    · simp [hd]
    · simp [hd]
  obtain ⟨hused, hunlinked⟩ := hs
  rename_i W
  have hself : V.bury rc rc = { V rc with state := .dead } := Function.update_self ..
  have hother : ∀ i, i ≠ rc → V.bury rc i = V i := fun i hi => Function.update_of_ne hi ..
  have hburied : (V.bury rc).Queued V.Alive L := by
    refine h.congr (fun i hi => used_bury hi) (fun i => ?_) (fun i => ?_) (queues_update ⟨rfl, rfl⟩)
    all_goals
      by_cases hi : i = rc
      · rw [hi, hself]
      · rw [hother i hi]
  have hbsound : (V.bury rc).Sound :=
    hsound.update nofun (hsound.quiet rc) (hsound.endpoints rc) (hsound.paired rc)
  obtain ⟨L', hL'⟩ : ∃ L', W.Queued V.Alive L' := by
    rcases hburied.unlinked hbsound hunlinked with ⟨rfl, -⟩ | ⟨_, _, _, -, -, -, hqueued⟩
    · exact ⟨L, hburied⟩
    · exact ⟨_, hqueued⟩
  have hkept := hunlinked.same.1.trans (W.kept_stopWaiting rc)
  have hmail : ∀ i, (W.stopWaiting rc i).sending = (W i).sending := by
    intro i
    by_cases hi : i = rc
    · rw [hi, stopWaiting, Function.update_self]
    · rw [stopWaiting, Function.update_of_ne hi]
  have hwaiting : (W.stopWaiting rc).Queued V.Alive L' :=
    hL'.same_mail (W.kept_stopWaiting rc) hmail (queues_update ⟨rfl, rfl⟩)
  have hwsound : (W.stopWaiting rc).Sound := by
    refine hbsound.of_kept hkept (hbsound.paired.of_mail fun i => ?_)
    rw [hmail, (hunlinked.mail i).1]
    split_ifs with hi
    · exact .inl rfl
    · refine .inr (.inr ⟨i, rfl, ?_⟩)
      rw [stopWaiting, Function.update_of_ne hi, (hunlinked.mail i).2.1]
  have hend : (W.stopWaiting rc rc).endpoint = (V rc).endpoint := by
    rw [(hkept rc).2.1, hself]
  refine ⟨L', ?_⟩
  rw [halive, ← hend]
  refine hwaiting.freeRefs hwsound fun i hfree => ?_
  rw [hmail, (hunlinked.mail i).1]
  split_ifs with hi
  · rfl
  · rw [(hkept i).1, hother i hi] at hfree
    rw [hother i hi]
    exact hempty i hfree

theorem Waiting.cleared (h : V.Waiting) (hsound : V.Sound)
    (hempty : ∀ i, (V i).state = .free → (V i).sending = none ∧ (V i).receiving = none)
    (hs : V.Cleared rc V') : V'.Waiting := by
  obtain ⟨L, hL⟩ := h.queued
  have hfields := hs.fields
  refine ⟨?_, hL.cleared hsound (fun i hi => (hempty i hi).1) hs, fun i g hg => ?_⟩
  · have hnamed : ∀ e, V'.named e = V.named e := by
      refine named_congr (fun i => ?_) fun i => (hfields i).2.1
      rw [(hfields i).1]
      split_ifs with hi
      · subst hi
        obtain ⟨hused, -⟩ := hs
        exact ⟨nofun, fun hfree => absurd hfree hused⟩
      · exact .rfl
    refine h.grounded.cut (edge_cut hnamed fun i => ?_)
    have hsend := (hfields i).2.2.2.1
    have hrecv := (hfields i).2.2.2.2.1
    split_ifs at hsend hrecv
    · refine .inr ?_
      rw [blockedOn_receiving hsend, hrecv]
      rfl
    · exact .inl (blockedOn_congr hsend hrecv)
  · rw [(hfields i).2.2.2.2.1] at hg
    split_ifs at hg with hcleared
    rw [not_or] at hcleared
    rcases h.sources i g hg with hany | ⟨d, hd, hend⟩
    · exact .inl hany
    · refine .inr ⟨d, ?_, by rw [(hfields d).2.1, hend]⟩
      rw [Alive, (hfields d).1, if_neg]
      · exact hd
      · rintro rfl
        refine hcleared.2 ⟨fun hfree => ?_, ?_⟩
        · rw [(hempty i hfree).2] at hg
          cases hg
        · cases hsending : (V i).sending with
          | none =>
            rw [blockedOn_receiving hsending, hg]
            exact hend.symm
          | some x =>
            rw [blockedOn_sending hsending, hend]
            exact (hsound.paired i x.1 x.2 g hsending hg).symm

end Exits

end Peers

end Kernel
