import Cs111.Kernel.IpcSystem

namespace Kernel
open Minix FlagWord Chain TransitionSystem
variable {H : Headers} {M : Type}

namespace Peers
variable {V V' : Peers H M} {D : Slot H → Prop} {L : Slot H → List (Slot H)}

def SendsTo (V : Peers H M) (q d : Slot H) : Prop :=
  ∃ m, (V q).sending = some ((V d).endpoint, m)

structure Queued (V : Peers H M) (D : Slot H → Prop) (L : Slot H → List (Slot H)) : Prop where
  holds : ∀ d, D d → (V.callers d).Holds (L d)
  mem : ∀ d, D d → ∀ q, q ∈ L d ↔ V.SendsTo q d
  dest : ∀ q e m, (V q).sending = some (e, m) →
    ∃ d, D d ∧ (V d).state ≠ .free ∧ (V d).endpoint = e

section Moves
variable {p d q : Slot H} {e : ℤ} {m : Message M} {xpp : Cell (Slot H)}

theorem Queued.same_senders (h : V.Queued D L) (hsend : ∀ i, (V' i).sending = (V i).sending)
    (hqueue : ∀ i, (V' i).callerQ = (V i).callerQ ∧ (V' i).qLink = (V i).qLink)
    (hsends : ∀ q d, V'.SendsTo q d ↔ V.SendsTo q d)
    (hused : ∀ q d, V.SendsTo q d → (V d).state ≠ .free → (V' d).state ≠ .free) :
    V'.Queued D L where
  holds d hd := by
    rw [callers_congr hqueue]
    exact h.holds d hd
  mem d hd q := (h.mem d hd q).trans (hsends q d).symm
  dest q e m hsending := by
    rw [hsend] at hsending
    obtain ⟨d, hd, hfree, hde⟩ := h.dest q e m hsending
    have hto : V.SendsTo q d := ⟨m, by rw [hsending, hde]⟩
    obtain ⟨m', hm'⟩ := (hsends q d).mpr hto
    rw [hsend, hsending] at hm'
    exact ⟨d, hd, hused q d hto hfree, (Prod.mk.inj (Option.some.inj hm')).1.symm⟩

theorem Queued.congr (h : V.Queued D L) (hstate : ∀ i, (V i).state ≠ .free → (V' i).state ≠ .free)
    (hend : ∀ i, (V' i).endpoint = (V i).endpoint) (hsend : ∀ i, (V' i).sending = (V i).sending)
    (hqueue : ∀ i, (V' i).callerQ = (V i).callerQ ∧ (V' i).qLink = (V i).qLink) :
    V'.Queued D L :=
  h.same_senders hsend hqueue (fun q d => by rw [SendsTo, SendsTo, hsend, hend])
    fun _ d _ => hstate d

theorem Queued.length_lt (h : V.Queued D L) (hd : D d) : (L d).length < bound H := by
  have hle := path_length_le (h.holds d hd)
  rw [Fintype.card_fin] at hle
  exact Nat.lt_succ_of_le hle

theorem Queued.not_mem (h : V.Queued D L) (hd : D d) (hidle : (V q).sending = none) : q ∉ L d := by
  rw [h.mem d hd]
  rintro ⟨m, hsending⟩
  rw [hidle] at hsending
  cases hsending

theorem Queued.not_mem_other (h : V.Queued D L)
    (hinj : ∀ {i j : Slot H}, (V i).endpoint = (V j).endpoint → i = j) {d' : Slot H} (hd : D d)
    (hd' : D d') (hne : d' ≠ d) (hq : q ∈ L d) : q ∉ L d' := by
  intro hq'
  obtain ⟨m, hsending⟩ := (h.mem d hd q).mp hq
  obtain ⟨m', hsending'⟩ := (h.mem d' hd' q).mp hq'
  rw [hsending] at hsending'
  exact hne (hinj (Prod.mk.inj (Option.some.inj hsending')).1).symm

theorem setCallers_head (v : Option (Slot H)) (i : Slot H) :
    (V.setCallers d .head v i).qLink = (V i).qLink ∧
    (V.setCallers d .head v i).callerQ = if i = d then v else (V i).callerQ := by
  simp only [setCallers, Function.update_apply]
  split_ifs with hi
  · subst hi
    exact ⟨rfl, rfl⟩
  · exact ⟨rfl, rfl⟩

theorem setCallers_link (j : Slot H) (v : Option (Slot H)) (i : Slot H) :
    (V.setCallers d (.link j) v i).callerQ = (V i).callerQ ∧
    (V.setCallers d (.link j) v i).qLink =
      Function.update (fun k => (V k).qLink) j v i := by
  simp only [setCallers, Function.update_apply]
  split_ifs with hi
  · subst hi
    exact ⟨rfl, rfl⟩
  · exact ⟨rfl, rfl⟩

theorem callers_setCallers (v : Option (Slot H)) :
    (V.setCallers d xpp v).callers d = (V.callers d).set xpp v := by
  cases xpp with
  | head =>
    simp only [callers, setCallers_head, if_true]
    rfl
  | link j =>
    simp only [callers, setCallers_link]
    rfl

theorem callers_setCallers_of_ne (V : Peers H M) (xpp : Cell (Slot H)) {d' : Slot H}
    (hne : d' ≠ d) (v : Option (Slot H)) :
    ((V.setCallers d xpp v).callers d').head = (V.callers d').head ∧
    ((V.setCallers d xpp v).callers d').next = ((V.callers d).set xpp v).next := by
  cases xpp with
  | head =>
    simp only [callers, setCallers_head, if_neg hne]
    exact ⟨trivial, rfl⟩
  | link j =>
    simp only [callers, setCallers_link]
    exact ⟨trivial, rfl⟩

theorem Queued.block (h : V.Queued D L)
    (hinj : ∀ {i j : Slot H}, (V i).endpoint = (V j).endpoint → i = j) (hd : D d)
    (hused : (V d).state ≠ .free) (hend : (V d).endpoint = e) (hidle : (V p).sending = none)
    (hlink : (V p).qLink = none)
    (hseek : seek (V.callers d) (fun _ => false) (bound H) .head = some xpp) :
    (V.block p d e m xpp).Queued D (Function.update L d (L d ++ [p])) ∧
      xpp = cellFrom .head (L d) := by
  obtain ⟨pre, post, hL, -, hpost, hcell⟩ :=
    (h.holds d hd).seek (fun _ => false) (h.length_lt hd)
  have hend' : post = [] := by
    cases post with
    | nil => rfl
    | cons i rest => exact absurd (hpost i rest rfl) (by simp)
  subst hend'
  rw [List.append_nil] at hL
  have hxpp : xpp = cellFrom .head (L d) := by
    rw [hL]
    exact Option.some.inj (hseek.symm.trans hcell)
  refine ⟨?_, hxpp⟩
  have hcallers : ∀ d', (V.hold p e m).callers d' = V.callers d' := fun d' =>
    congrFun callers_hold d'
  constructor
  · intro d' hd'
    rw [Peers.block]
    by_cases hne : d' = d
    · subst hne
      rw [Function.update_self, callers_setCallers, hcallers, hxpp]
      exact (h.holds d' hd').append (h.not_mem hd' hidle) hlink
    · rw [Function.update_of_ne hne]
      obtain ⟨hhead, hnext⟩ := callers_setCallers_of_ne (V.hold p e m) xpp hne (some p)
      refine (h.holds d' hd').congr (by rw [hhead, hcallers]) fun j hj => ?_
      refine (congrFun hnext j).trans ?_
      rw [hcallers, hxpp]
      exact next_set_of_notMem fun hjd => h.not_mem_other hinj hd hd' hne hjd hj
  · intro d' hd' q
    rw [SendsTo, (block_mail q).1, (kept_block d').2.1]
    have hmem := h.mem d' hd' q
    by_cases hne : d' = d
    · subst hne
      rw [Function.update_self, List.mem_append, List.mem_singleton, hmem]
      split_ifs with hq
      · exact ⟨fun _ => ⟨m, by rw [hend]⟩, fun _ => .inr hq⟩
      · exact ⟨fun hor => hor.resolve_right hq, .inl⟩
    · rw [Function.update_of_ne hne, hmem]
      split_ifs with hq
      · subst hq
        constructor
        · intro hsends
          exact absurd ((h.mem d' hd' q).mpr hsends) (h.not_mem hd' hidle)
        · rintro ⟨m', hm'⟩
          rw [← hend] at hm'
          exact absurd (hinj (Prod.mk.inj (Option.some.inj hm')).1).symm hne
      · exact .rfl
  · intro q e' m' hsending
    rw [(block_mail q).1] at hsending
    split_ifs at hsending with hq
    · cases hsending
      refine ⟨d, hd, ?_, ?_⟩
      · rw [(kept_block d).1]
        exact hused
      · rw [(kept_block d).2.1, hend]
    · obtain ⟨d', hd', hused', hend'⟩ := h.dest q e' m' hsending
      refine ⟨d', hd', ?_, ?_⟩
      · rw [(kept_block d').1]
        exact hused'
      · rw [(kept_block d').2.1, hend']

theorem Queued.unlink (h : V.Queued D L)
    (hinj : ∀ {i j : Slot H}, (V i).endpoint = (V j).endpoint → i = j) (hp : D p)
    {stop : Slot H → Bool} (hseek : seek (V.callers p) stop (bound H) .head = some xpp)
    (hget : (V.callers p).get xpp = some q) :
    ∃ pre post, L p = pre ++ q :: post ∧ (∀ x ∈ pre, stop x = false) ∧ stop q = true ∧
      xpp = cellFrom .head pre ∧
      ((V.setCallers p xpp (V q).qLink).release q).Queued D
        (Function.update L p (pre ++ post)) := by
  obtain ⟨pre, post, hL, hpre, hpost, hcell⟩ :=
    (h.holds p hp).seek stop (h.length_lt hp)
  obtain rfl := Option.some.inj (hseek.symm.trans hcell)
  have hpath := h.holds p hp
  rw [hL] at hpath
  cases post with
  | nil =>
    rw [List.append_nil] at hpath
    rw [get_cellFrom_end hpath] at hget
    cases hget
  | cons i post =>
    obtain rfl : i = q := Option.some.inj
      ((Links.Holds.get hpath).symm.trans hget)
    refine ⟨pre, post, hL, hpre, hpost i post rfl, rfl, ?_⟩
    have hnodup := path_nodup hpath
    rw [List.nodup_middle, List.nodup_cons] at hnodup
    have hkept : V.Kept ((V.setCallers p (cellFrom .head pre) (V i).qLink).release i) :=
      kept_setCallers.trans kept_release
    have hsends : ∀ d' q, SendsTo ((V.setCallers p (cellFrom .head pre) (V i).qLink).release i)
        q d' ↔ V.SendsTo q d' ∧ q ≠ i := by
      intro d' q
      rw [SendsTo, SendsTo, (release_mail q).1, (setCallers_mail q).1, (hkept d').2.1]
      split_ifs with hq
      · simp [hq]
      · simp [hq]
    constructor
    · intro d' hd'
      have hsame : ((V.setCallers p (cellFrom .head pre) (V i).qLink).release i).callers d' =
          (V.setCallers p (cellFrom .head pre) (V i).qLink).callers d' :=
        congrFun (callers_congr release_queues) d'
      rw [hsame]
      by_cases hne : d' = p
      · subst hne
        rw [Function.update_self, callers_setCallers]
        exact hpath.unlink
      · rw [Function.update_of_ne hne]
        obtain ⟨hhead, hnext⟩ := callers_setCallers_of_ne V (cellFrom .head pre) hne
          (V i).qLink
        refine (h.holds d' hd').congr hhead fun j hj => ?_
        refine (congrFun hnext j).trans (next_set_of_notMem fun hjpre => ?_)
        refine h.not_mem_other hinj hp hd' hne ?_ hj
        rw [hL]
        exact List.mem_append_left _ hjpre
    · intro d' hd' q
      rw [hsends]
      have hmem := h.mem d' hd' q
      by_cases hne : d' = p
      · subst hne
        rw [hL] at hmem
        rw [Function.update_self, ← hmem]
        simp only [List.mem_append, List.mem_cons] at hnodup ⊢
        by_cases hq : q = i
        · subst hq
          simp [hnodup.1]
        · simp [hq]
      · rw [Function.update_of_ne hne, hmem]
        refine ⟨fun hsend => ⟨hsend, ?_⟩, And.left⟩
        rintro rfl
        refine h.not_mem_other hinj hp hd' hne ?_ (hmem.mpr hsend)
        simp [hL]
    · intro q e' m' hsending
      rw [(release_mail q).1, (setCallers_mail q).1] at hsending
      split_ifs at hsending
      obtain ⟨d', hd', hused', hend'⟩ := h.dest q e' m' hsending
      refine ⟨d', hd', ?_, ?_⟩
      · rw [(hkept d').1]
        exact hused'
      · rw [(hkept d').2.1, hend']

theorem Queued.offQueue (h : V.Queued D L) (hidle : (V q).sending = none) :
    (V.offQueue q).Queued D L := by
  constructor
  · intro d hd
    simp only [callers, offQueue_queues, ← Function.update_apply (fun k => (V k).qLink)]
    exact path_update (h.not_mem hd hidle) (h.holds d hd)
  · intro d hd i
    rw [SendsTo, (offQueue_mail i).1, (kept_offQueue d).2.1]
    exact h.mem d hd i
  · intro i e' m' hsending
    rw [(offQueue_mail i).1] at hsending
    obtain ⟨d, hd, hused, hend⟩ := h.dest i e' m' hsending
    refine ⟨d, hd, ?_, ?_⟩
    · rw [(kept_offQueue d).1]
      exact hused
    · rw [(kept_offQueue d).2.1, hend]

theorem Queued.take (h : V.Queued D L)
    (hinj : ∀ {i j : Slot H}, (V i).endpoint = (V j).endpoint → i = j) (hp : D p)
    {stop : Slot H → Bool} (hseek : seek (V.callers p) stop (bound H) .head = some xpp)
    (hget : (V.callers p).get xpp = some q) :
    ∃ pre post, L p = pre ++ q :: post ∧ (∀ x ∈ pre, stop x = false) ∧ stop q = true ∧
      xpp = cellFrom .head pre ∧
      (V.take p q xpp m).Queued D (Function.update L p (pre ++ post)) := by
  obtain ⟨pre, post, hL, hpre, hstop, hxpp, hqueued⟩ := h.unlink hinj hp hseek hget
  refine ⟨pre, post, hL, hpre, hstop, hxpp, ?_⟩
  have hkept : V.Kept ((V.setCallers p xpp (V q).qLink).release q) :=
    kept_setCallers.trans kept_release
  have hkept' : V.Kept (((V.pickUp p m).release q).setCallers p xpp (V q).qLink) :=
    (kept_pickUp.trans kept_release).trans kept_setCallers
  have hlinks : ∀ i, ((V.pickUp p m).release q i).callerQ = (V i).callerQ ∧
      ((V.pickUp p m).release q i).qLink = (V i).qLink := fun i =>
    ⟨(release_queues i).1.trans (pickUp_queues i).1, (release_queues i).2.trans (pickUp_queues i).2⟩
  have hsend : ∀ i, (((V.pickUp p m).release q).setCallers p xpp (V q).qLink i).sending =
      ((V.setCallers p xpp (V q).qLink).release q i).sending := by
    intro i
    rw [(setCallers_mail i).1, (release_mail i).1, (release_mail i).1, (pickUp_mail i).1,
      (setCallers_mail i).1]
  refine (hqueued.congr (fun i => ?_) (fun i => ?_) hsend fun i => ?_).offQueue ?_
  · rw [(hkept i).1, (hkept' i).1]
    exact id
  · rw [(hkept i).2.1, (hkept' i).2.1]
  · rw [(release_queues i).1, (release_queues i).2]
    cases xpp with
    | head =>
      simp only [setCallers_head, hlinks]
      exact ⟨trivial, trivial⟩
    | link j =>
      simp only [setCallers_link, hlinks]
      exact ⟨trivial, trivial⟩
  · rw [hsend, (release_mail q).1, if_pos rfl]

theorem Queued.unlinked (h : V.Queued D L) (hsound : V.Sound) {rc : Slot H}
    (hs : V.Unlinked rc V') : (V' = V ∧ (V rc).sending = none) ∨
      ∃ target pre post, D target ∧ L target = pre ++ rc :: post ∧
        V' = (V.setCallers target (cellFrom .head pre) (V rc).qLink).release rc ∧
        V'.Queued D (Function.update L target (pre ++ post)) := by
  have hmem : ∀ {e m target}, (V rc).sending = some (e, m) → V.named e = some target →
      D target ∧ rc ∈ L target := by
    intro e m target hsending hnamed
    obtain ⟨d, hd, -, hend⟩ := h.dest rc e m hsending
    have hsame := hsound.endpoint_inj (hend.trans (named_some hnamed).2.2.symm)
    subst hsame
    exact ⟨hd, (h.mem d hd rc).mpr ⟨m, by rw [hsending, hend]⟩⟩
  cases hs with
  | idle hidle => exact .inl ⟨rfl, hidle⟩
  | @absent e m target xpp hsending hnamed hseek hget =>
    obtain ⟨hD, hin⟩ := hmem hsending hnamed
    obtain ⟨pre, post, hsplit, hpre, -, hcell⟩ :=
      (h.holds target hD).seek (· == rc) (h.length_lt hD)
    obtain rfl := Option.some.inj (hseek.symm.trans hcell)
    have hpath := h.holds target hD
    rw [hsplit] at hpath hin
    cases post with
    | nil =>
      rw [List.append_nil] at hin
      simpa using hpre rc hin
    | cons i post =>
      rw [Links.Holds.get hpath] at hget
      cases hget
  | @unlinked e m target xpp xp hsending hnamed hseek hget =>
    obtain ⟨hD, -⟩ := hmem hsending hnamed
    obtain ⟨pre, post, hsplit, -, hstop, rfl, hqueued⟩ :=
      h.unlink hsound.endpoint_inj hD hseek hget
    obtain rfl : xp = rc := by simpa using hstop
    exact .inr ⟨target, pre, post, hD, hsplit, rfl, hqueued⟩

theorem Queued.same_mail (h : V.Queued D L) (hkept : V.Kept V')
    (hsend : ∀ i, (V' i).sending = (V i).sending)
    (hqueue : ∀ i, (V' i).callerQ = (V i).callerQ ∧ (V' i).qLink = (V i).qLink) :
    V'.Queued D L :=
  h.congr (fun i hi => by rwa [(hkept i).1]) (fun i => (hkept i).2.1) hsend hqueue

def Follows (p : Slot H) (L L' : Slot H → List (Slot H)) : Prop :=
  ∀ d, ∃ l, l.Sublist (L d) ∧ (L' d = l ∨ L' d = l ++ [p])

theorem Follows.refl : Follows p L L := fun d => ⟨L d, List.Sublist.refl _, .inl rfl⟩

theorem Queued.sent (h : V.Queued D L) (hsound : V.Sound) (hD : ∀ i, (V i).state = .alive → D i)
    (hidle : (V p).Idle) {m : Option (Message M)} {nonBlocking : Bool} {r : Errno}
    (hnamed : V.named e = some d) (hs : V.Sent p d e m nonBlocking r V') :
    ∃ L', V'.Queued D L' ∧ ∀ d', L' d' = L d' ∨ L' d' = L d' ++ [p] := by
  cases hs with
  | refused => exact ⟨L, h, fun _ => .inl rfl⟩
  | delivered =>
    exact ⟨L, h.same_mail kept_deliver (fun i => (deliver_mail i).1) deliver_queues,
      fun _ => .inl rfl⟩
  | blocked halive _ _ _ _ hlink hseek =>
    refine ⟨_, (h.block hsound.endpoint_inj (hD d halive) (named_some hnamed).2.1
      (named_some hnamed).2.2 hidle.sending hlink hseek).1, fun d' => ?_⟩
    by_cases hd : d' = d
    · rw [hd, Function.update_self]
      exact .inr rfl
    · exact .inl (Function.update_of_ne hd ..)

theorem Queued.received (h : V.Queued D L) (hsound : V.Sound) (hp : D p)
    {src : Option (Slot H)} {r : Errno} (hs : V.Received p src e r V') :
    ∃ L', V'.Queued D L' ∧ ∀ d, (L' d).Sublist (L d) := by
  cases hs with
  | gone => exact ⟨L, h, fun _ => .refl _⟩
  | noted =>
    exact ⟨L, h.same_mail kept_pickUp (fun i => (pickUp_mail i).1) pickUp_queues,
      fun _ => .refl _⟩
  | took _ _ hseek hget _ =>
    obtain ⟨pre, post, hsplit, -, -, -, hqueued⟩ := h.take hsound.endpoint_inj hp hseek hget
    refine ⟨_, hqueued, fun d => ?_⟩
    by_cases hd : d = p
    · rw [hd, Function.update_self, hsplit]
      exact List.Sublist.append_left (List.sublist_cons_self ..) pre
    · rw [Function.update_of_ne hd]
  | locked => exact ⟨L, h, fun _ => .refl _⟩
  | waited =>
    exact ⟨L, h.same_mail kept_wait (fun i => (wait_mail i).1) wait_queues, fun _ => .refl _⟩

theorem Queued.called (h : V.Queued D L) (hsound : V.Sound) (hD : ∀ i, (V i).state = .alive → D i)
    (hidle : (V p).Idle) {c : IpcCall M} {r : Errno} (hs : V.Called p c r V') :
    ∃ L', V'.Queued D L' ∧ Follows p L L' := by
  cases hs with
  | refused => exact ⟨L, h, .refl⟩
  | sent _ hnamed hsent =>
    obtain ⟨L', hqueued, hgrows⟩ := h.sent hsound hD hidle hnamed hsent
    exact ⟨L', hqueued, fun d => ⟨L d, .refl _, hgrows d⟩⟩
  | exchanged _ hnamed hsent hreceived =>
    obtain ⟨L₁, h₁, hgrows⟩ := h.sent hsound hD hidle hnamed hsent
    have hsound₁ := hsound.of_kept hsent.kept (hsound.paired.sent hidle hsent).1
    obtain ⟨L', hqueued, hsub⟩ := h₁.received hsound₁ (hD p hidle.state) hreceived
    refine ⟨L', hqueued, fun d => ?_⟩
    have hsub' := hsub d
    rcases hgrows d with hsame | hmore
    · rw [hsame] at hsub'
      exact ⟨L' d, hsub', .inl rfl⟩
    · rw [hmore, List.sublist_append_iff] at hsub'
      obtain ⟨l₁, l₂, hsplit, hl₁, hl₂⟩ := hsub'
      rcases List.sublist_singleton.mp hl₂ with rfl | rfl
      · exact ⟨l₁, hl₁, .inl (by rw [hsplit, List.append_nil])⟩
      · exact ⟨l₁, hl₁, .inr hsplit⟩
  | received _ _ hreceived =>
    obtain ⟨L', hqueued, hsub⟩ := h.received hsound (hD p hidle.state) hreceived
    exact ⟨L', hqueued, fun d => ⟨L' d, hsub d, .inl rfl⟩⟩
  | notified _ _ hnotified =>
    cases hnotified with
    | pending => exact ⟨L, h, .refl⟩
    | delivered =>
      exact ⟨L, h.same_mail kept_deliver (fun i => (deliver_mail i).1) deliver_queues, .refl⟩

end Moves

section Links
variable {p d q : Slot H} {e : ℤ} {m : Message M} {xpp : Cell (Slot H)}

def Loose (V : Peers H M) : Prop := ∀ i, (V i).sending = none → (V i).qLink = none

theorem setCallers_next (v : Option (Slot H)) (i : Slot H) :
    (V.setCallers d xpp v i).qLink = ((V.callers d).set xpp v).next i :=
  congrFun (congrArg Links.next (callers_setCallers (V := V) v)) i

theorem Loose.setCallers (h : V.Loose) {pre : List (Slot H)} {v : Option (Slot H)}
    (hxpp : xpp = cellFrom .head pre) (hpre : ∀ i ∈ pre, (V i).sending ≠ none) :
    (V.setCallers d xpp v).Loose := by
  intro i hidle
  rw [(setCallers_mail i).1] at hidle
  rw [setCallers_next, hxpp, next_set_of_notMem fun hi => hpre i hi hidle]
  exact h i hidle

theorem Loose.of_fewer (h : V.Loose) (hsend : ∀ i, (V' i).sending = none → (V i).sending = none)
    (hlink : ∀ i, (V' i).qLink = (V i).qLink) : V'.Loose := by
  intro i hidle
  rw [hlink]
  exact h i (hsend i hidle)

theorem Queued.senders (h : V.Queued D L) (hd : D d) (i : Slot H) (hi : i ∈ L d) :
    (V i).sending ≠ none := fun hnone => h.not_mem hd hnone hi

theorem Loose.sent (h : V.Loose) (hqueued : V.Queued D L) (hsound : V.Sound)
    (hD : ∀ i, (V i).state = .alive → D i) (hidle : (V p).Idle) {m : Option (Message M)}
    {nonBlocking : Bool} {r : Errno} (hnamed : V.named e = some d)
    (hs : V.Sent p d e m nonBlocking r V') : V'.Loose := by
  cases hs with
  | refused => exact h
  | delivered =>
    exact h.of_fewer (fun i => by rw [(deliver_mail i).1]; exact id)
      fun i => (deliver_queues i).2
  | @blocked msg _ halive _ _ _ _ hlink hseek =>
    have hxpp := (hqueued.block (m := msg) hsound.endpoint_inj (hD d halive)
      (named_some hnamed).2.1 (named_some hnamed).2.2 hidle.sending hlink hseek).2
    refine Loose.setCallers (V := V.hold p e msg) ?_ hxpp ?_
    · refine h.of_fewer (fun i hi => ?_) fun i => (hold_queues i).2
      rw [(hold_mail i).1] at hi
      split_ifs at hi
      exact hi
    · intro i hi
      rw [(hold_mail i).1]
      split_ifs
      · nofun
      · exact hqueued.senders (hD d halive) i hi

theorem Loose.received (h : V.Loose) (hqueued : V.Queued D L) (hsound : V.Sound) (hp : D p)
    {src : Option (Slot H)} {r : Errno} (hs : V.Received p src e r V') : V'.Loose := by
  cases hs with
  | gone => exact h
  | noted =>
    exact h.of_fewer (fun i => by rw [(pickUp_mail i).1]; exact id)
      fun i => (pickUp_queues i).2
  | @took q xpp m _ _ hseek hget _ =>
    obtain ⟨pre, post, hL, -, -, hxpp, -⟩ := hqueued.take (m := m) hsound.endpoint_inj hp hseek hget
    have hcallers : ((V.pickUp p m).release q).callers p = V.callers p :=
      (congrFun (callers_congr release_queues) p).trans (congrFun (callers_congr pickUp_queues) p)
    intro i hidle
    rw [(take_mail i).1] at hidle
    rw [Peers.take, (offQueue_queues i).2]
    split_ifs at hidle ⊢
    · rfl
    · have hpre : i ∉ pre := fun hi => hqueued.senders hp i (by simp [hL, hi]) hidle
      rw [setCallers_next, hcallers, hxpp, next_set_of_notMem hpre]
      exact h i hidle
  | locked => exact h
  | waited =>
    exact h.of_fewer (fun i => by rw [(wait_mail i).1]; exact id)
      fun i => (wait_queues i).2

theorem Loose.called (h : V.Loose) (hqueued : V.Queued D L) (hsound : V.Sound)
    (hD : ∀ i, (V i).state = .alive → D i) (hidle : (V p).Idle) {c : IpcCall M} {r : Errno}
    (hs : V.Called p c r V') : V'.Loose := by
  cases hs with
  | refused => exact h
  | sent _ hnamed hsent => exact h.sent hqueued hsound hD hidle hnamed hsent
  | exchanged _ hnamed hsent hreceived =>
    obtain ⟨L₁, h₁, -⟩ := hqueued.sent hsound hD hidle hnamed hsent
    have hsound₁ := hsound.of_kept hsent.kept (hsound.paired.sent hidle hsent).1
    exact (h.sent hqueued hsound hD hidle hnamed hsent).received h₁ hsound₁ (hD p hidle.state)
      hreceived
  | received _ _ hreceived => exact h.received hqueued hsound (hD p hidle.state) hreceived
  | notified _ _ hnotified =>
    cases hnotified with
    | pending => exact h
    | delivered =>
      exact h.of_fewer (fun i => by rw [(deliver_mail i).1]; exact id)
        fun i => (deliver_queues i).2

end Links

structure Threaded (V : Peers H M) : Prop where
  queued : ∃ L, V.Queued (fun _ => True) L
  loose : V.Loose

def LeavesQueues (V : Peers H M) (rc : Slot H) : Prop :=
  (∀ q, q ≠ rc → ¬ V.SendsTo q rc) ∧ ((V rc).sending ≠ none → (V rc).qLink = none)

section Threads
variable {p rc : Slot H}

theorem Threaded.congr (h : V.Threaded)
    (hstate : ∀ i, (V i).state ≠ .free → (V' i).state ≠ .free)
    (hend : ∀ i, (V' i).endpoint = (V i).endpoint) (hsend : ∀ i, (V' i).sending = (V i).sending)
    (hqueue : ∀ i, (V' i).callerQ = (V i).callerQ ∧ (V' i).qLink = (V i).qLink) :
    V'.Threaded := by
  obtain ⟨⟨L, hL⟩, hloose⟩ := h
  exact ⟨⟨L, hL.congr hstate hend hsend hqueue⟩,
    hloose.of_fewer (fun i => by rw [hsend]; exact id) fun i => (hqueue i).2⟩

theorem Threaded.update (h : V.Threaded) {i : Slot H} {x : Peer H M} (hstate : x.state ≠ .free)
    (hend : x.endpoint = (V i).endpoint) (hsend : x.sending = (V i).sending)
    (hqueue : x.callerQ = (V i).callerQ ∧ x.qLink = (V i).qLink) :
    Threaded (Function.update V i x) := by
  refine h.congr (fun j hj => ?_) (fun j => ?_) (fun j => ?_) (queues_update hqueue)
  all_goals
    by_cases hi : j = i
    · subst hi
      rwa [Function.update_self]
    · rw [Function.update_of_ne hi]
      try exact hj

theorem Threaded.called (h : V.Threaded) (hsound : V.Sound) (hidle : (V p).Idle) {c : IpcCall M}
    {r : Errno} (hs : V.Called p c r V') : V'.Threaded := by
  obtain ⟨⟨L, hL⟩, hloose⟩ := h
  obtain ⟨L', hL', -⟩ := hL.called hsound (fun _ _ => trivial) hidle hs
  exact ⟨⟨L', hL'⟩, hloose.called hL hsound (fun _ _ => trivial) hidle hs⟩

theorem Threaded.freeRefs (h : V.Threaded) (hnone : ∀ q, ¬ V.SendsTo q rc) :
    (V.freeRefs (V rc).endpoint).Threaded := by
  have hkept := V.freeRefs_kept (V rc).endpoint
  refine h.congr (fun i => ?_) (fun i => (hkept i).2.1) (fun i => ?_) fun i => ?_
  · rw [(hkept i).1]
    exact id
  · rw [(freeRefs_fields rc i).1]
    split_ifs with hwaits
    · cases hsending : (V i).sending with
      | none => rfl
      | some x =>
        obtain ⟨e, m⟩ := x
        have hblocked := hwaits.2
        rw [Peer.blockedOn, hsending] at hblocked
        exact absurd ⟨m, by rw [hsending, ← hblocked]⟩ (hnone i)
    · rfl
  · rw [Peers.freeRefs]
    split_ifs <;> exact ⟨rfl, rfl⟩

theorem Threaded.unlinked (h : V.Threaded) (hsound : V.Sound)
    (hlast : (V rc).sending ≠ none → (V rc).qLink = none) (hs : V.Unlinked rc V') :
    V'.Threaded := by
  obtain ⟨⟨L, hL⟩, hloose⟩ := h
  rcases hL.unlinked hsound hs with ⟨rfl, -⟩ | ⟨target, pre, post, -, hsplit, rfl, hqueued⟩
  · exact ⟨⟨L, hL⟩, hloose⟩
  · have hsenders := hL.senders (d := target) trivial
    have hnodup := path_nodup (hL.holds target trivial)
    rw [hsplit] at hsenders hnodup
    rw [List.nodup_middle, List.nodup_cons] at hnodup
    refine ⟨⟨_, hqueued⟩, fun i hi => ?_⟩
    rw [(release_queues i).2]
    rw [(release_mail i).1, (setCallers_mail i).1] at hi
    by_cases hrc : i = rc
    · subst hrc
      rw [setCallers_next, next_set_of_notMem fun hmem => hnodup.1 (List.mem_append_left post hmem)]
      exact hlast (hsenders i (List.mem_append_right pre List.mem_cons_self))
    · rw [if_neg hrc] at hi
      rw [setCallers_next,
        next_set_of_notMem fun hmem => hsenders i (List.mem_append_left _ hmem) hi]
      exact hloose i hi

theorem Threaded.cleared (h : V.Threaded) (hsound : V.Sound) (hleaves : V.LeavesQueues rc)
    (hs : V.Cleared rc V') : V'.Threaded ∧ ∀ q, ¬ V'.SendsTo q rc := by
  have hfields := hs.fields
  constructor
  · obtain ⟨hfree, hunlinked⟩ := hs
    rename_i W
    have hburied : (V.bury rc).Threaded := h.update nofun rfl rfl ⟨rfl, rfl⟩
    have hbsound : (V.bury rc).Sound :=
      hsound.update nofun (hsound.quiet rc) (hsound.endpoints rc) (hsound.paired rc)
    have hself : V.bury rc rc = { V rc with state := .dead } := Function.update_self ..
    have hW := hburied.unlinked hbsound (by rw [hself]; exact hleaves.2) hunlinked
    have hkept := hunlinked.same.1.trans (W.kept_stopWaiting rc)
    have hend : (W.stopWaiting rc rc).endpoint = (V rc).endpoint := by
      rw [(hkept rc).2.1, hself]
    have hwaiting : (W.stopWaiting rc).Threaded := by
      refine hW.update ?_ rfl rfl ⟨rfl, rfl⟩
      rw [(hunlinked.same.1 rc).1, hself]
      nofun
    rw [← hend]
    refine hwaiting.freeRefs fun q ⟨m, hm⟩ => ?_
    have hsend : (W.stopWaiting rc q).sending = (W q).sending := by
      by_cases hq : q = rc
      · subst hq
        rw [stopWaiting, Function.update_self]
      · rw [stopWaiting, Function.update_of_ne hq]
    rw [hsend, (hunlinked.mail q).1, hend] at hm
    split_ifs at hm with hq
    rw [bury, Function.update_of_ne hq] at hm
    exact hleaves.1 q hq ⟨m, hm⟩
  · rintro q ⟨m, hm⟩
    rw [(hfields q).2.2.2.1, (hfields rc).2.1] at hm
    split_ifs at hm with hq
    rw [not_or] at hq
    exact hleaves.1 q hq.1 ⟨m, hm⟩

theorem Threaded.vacate (h : V.Threaded) (hidle : (V rc).sending = none)
    (hnone : ∀ q, ¬ V.SendsTo q rc) : (V.vacate rc).Threaded := by
  obtain ⟨⟨L, hL⟩, hloose⟩ := h
  have hfields : ∀ i, (V.vacate rc i).sending = (V i).sending ∧
      (V.vacate rc i).endpoint = (V i).endpoint ∧
      (V.vacate rc i).callerQ = (V i).callerQ ∧ (V.vacate rc i).qLink = (V i).qLink := by
    intro i
    by_cases hi : i = rc
    · subst hi
      rw [Peers.vacate, Function.update_self]
      exact ⟨hidle.symm, rfl, rfl, rfl⟩
    · rw [Peers.vacate, Function.update_of_ne hi]
      exact ⟨rfl, rfl, rfl, rfl⟩
  refine ⟨⟨L, hL.same_senders (fun i => (hfields i).1) (fun i => (hfields i).2.2) ?_ ?_⟩, ?_⟩
  · intro q d
    rw [SendsTo, SendsTo, (hfields q).1, (hfields d).2.1]
  · intro q d hto hused
    have hd : d ≠ rc := by
      rintro rfl
      exact hnone q hto
    rwa [Peers.vacate, Function.update_of_ne hd]
  · exact hloose.of_fewer (fun i => by rw [(hfields i).1]; exact id) fun i => (hfields i).2.2.2

theorem Queued.unsent (h : V.Queued D L) (hsound : V.Sound) {q d : Slot H} {e : ℤ}
    {m : Message M} (hsending : (V q).sending = some (e, m)) (hend : slotEndpoint d e) :
    (V d).state ≠ .free := by
  obtain ⟨d', -, hused, hde⟩ := h.dest q e m hsending
  have hnr := slotEndpoint_procNr (hsound.endpoints d')
  rw [hde, slotEndpoint_procNr hend] at hnr
  rwa [procNr_inj hnr]

theorem Threaded.fork (h : V.Threaded) (hsound : V.Sound) {rpp : Slot H} {e : ℤ}
    (hend : slotEndpoint rc e) (hfree : (V rc).state = .free) (hidle : (V rc).sending = none)
    (hparent : (V rpp).callerQ = none ∧ (V rpp).sending = none) :
    (V.fork rpp rc e).Threaded := by
  obtain ⟨⟨L, hL⟩, hloose⟩ := h
  have hself : V.fork rpp rc e rc = { V rpp with endpoint := e } := Function.update_self ..
  have hother : ∀ i, i ≠ rc → V.fork rpp rc e i = V i := fun i hi => Function.update_of_ne hi ..
  have hempty : (V rc).callerQ = none := by
    have hnil : L rc = [] := by
      refine List.eq_nil_iff_forall_not_mem.mpr fun q hq => ?_
      obtain ⟨m, hm⟩ := (hL.mem rc trivial q).mp hq
      exact hL.unsent hsound hm (hsound.endpoints rc) hfree
    have hholds := hL.holds rc trivial
    rwa [hnil] at hholds
  have hsend : ∀ i, (V.fork rpp rc e i).sending = (V i).sending := by
    intro i
    by_cases hi : i = rc
    · rw [hi, hself, hidle, hparent.2]
    · rw [hother i hi]
  have hqueue : ∀ i, (V.fork rpp rc e i).callerQ = (V i).callerQ ∧
      (V.fork rpp rc e i).qLink = (V i).qLink := by
    intro i
    by_cases hi : i = rc
    · rw [hi, hself, hempty, hloose rc hidle]
      exact ⟨hparent.1, hloose rpp hparent.2⟩
    · rw [hother i hi]
      exact ⟨rfl, rfl⟩
  refine ⟨⟨L, hL.same_senders hsend hqueue ?_ ?_⟩, ?_⟩
  · intro q d
    rw [SendsTo, SendsTo, hsend]
    by_cases hd : d = rc
    · rw [hd, hself]
      constructor
      · rintro ⟨m, hm⟩
        exact absurd hfree (hL.unsent hsound hm hend)
      · rintro ⟨m, hm⟩
        exact absurd hfree (hL.unsent hsound hm (hsound.endpoints rc))
    · rw [hother d hd]
  · rintro q d ⟨m, hm⟩ hused
    by_cases hd : d = rc
    · subst hd
      exact absurd hfree hused
    · rwa [hother d hd]
  · exact hloose.of_fewer (fun i => by rw [hsend]; exact id) fun i => (hqueue i).2

theorem Threaded.swap (h : V.Threaded) {src dst : Slot H}
    (hused : (V src).state ≠ .free ∧ (V dst).state ≠ .free)
    (hidle : src = dst ∨ (V src).sending = none ∧ (V dst).sending = none) :
    (V.swap src dst).Threaded := by
  by_cases hsame : src = dst
  · subst hsame
    have hswap : V.swap src src = V := by
      rw [Peers.swap, Function.update_idem]
      exact Function.update_eq_self ..
    rwa [hswap]
  · obtain ⟨hsrc, hdst⟩ := hidle.resolve_left hsame
    have hlinks : (V src).qLink = (V dst).qLink :=
      (h.loose src hsrc).trans (h.loose dst hdst).symm
    have hfirst : Threaded (Function.update V src
        { V dst with endpoint := (V src).endpoint, callerQ := (V src).callerQ }) :=
      h.update hused.2 rfl (hdst.trans hsrc.symm) ⟨rfl, hlinks.symm⟩
    rw [Peers.swap]
    refine hfirst.update hused.1 ?_ ?_ ?_
    all_goals rw [Function.update_of_ne (Ne.symm hsame)]
    · exact hsrc.trans hdst.symm
    · exact ⟨rfl, hlinks⟩

end Threads

end Peers

end Kernel
