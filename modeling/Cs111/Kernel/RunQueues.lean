import Cs111.Kernel.Ready

namespace Kernel
open Minix FlagWord Chain
variable {H : Headers} {M : Type} {s s' : KState H M} {rp : Slot H}

structure QueuesHold (s : KState H M) (on : Slot H → Prop) (L : ℕ → List (Slot H)) : Prop where
  holds : ∀ q < nrSchedQueues, (s.ready q).Holds (L q)
  tail : ∀ q < nrSchedQueues, s.rdyTail q = (L q).getLast?
  mem : ∀ q < nrSchedQueues, ∀ p, p ∈ L q ↔ on p ∧ (s.proc p).priority = q

section Lists
variable {on on' : Slot H → Prop} {L : ℕ → List (Slot H)} {q : ℕ}

theorem QueuesHold.congr (h : QueuesHold s on L)
    (hsame : s'.nextready = s.nextready ∧ s'.rdyHead = s.rdyHead ∧ s'.rdyTail = s.rdyTail)
    (hprio : ∀ p, (s'.proc p).priority = (s.proc p).priority) (hon : ∀ p, on' p ↔ on p) :
    QueuesHold s' on' L where
  holds q hq := by
    have hready : s'.ready q = s.ready q := by simp [KState.ready, hsame]
    rw [hready]
    exact h.holds q hq
  tail q hq := by rw [hsame.2.2, h.tail q hq]
  mem q hq p := by rw [h.mem q hq p, hon, hprio]

theorem prevXp_cellFrom (pre : List (Slot H)) : prevXp (cellFrom .head pre) = pre.getLast? := by
  cases pre using List.reverseRecOn with
  | nil => rfl
  | append_singleton pre i _ => simp [cellFrom_append_singleton, prevXp]

theorem ready_setReady (q : ℕ) (xpp : Cell (Slot H)) (v : Option (Slot H)) :
    (s.setReady q xpp v).ready q = (s.ready q).set xpp v := by
  cases xpp <;> simp [KState.ready, KState.setReady, Links.set]

theorem ready_setReady_of_ne {q' : ℕ} (hq : q' ≠ q) (xpp : Cell (Slot H)) (v : Option (Slot H)) :
    ((s.setReady q xpp v).ready q').head = (s.ready q').head ∧
    ((s.setReady q xpp v).ready q').next = ((s.ready q).set xpp v).next := by
  cases xpp <;> simp [KState.ready, KState.setReady, Links.set, hq]

theorem QueuesHold.length_lt (h : QueuesHold s on L) (hq : q < nrSchedQueues) :
    (L q).length < bound H := by
  have hle := path_length_le (h.holds q hq)
  rw [Fintype.card_fin] at hle
  exact Nat.lt_succ_of_le hle

theorem QueuesHold.not_mem_other (h : QueuesHold s on L) {q' : ℕ} (hq : q < nrSchedQueues)
    (hq' : q' < nrSchedQueues) (hne : q' ≠ q) {i : Slot H} (hi : i ∈ L q) : i ∉ L q' := by
  intro hi'
  exact hne (((h.mem q' hq' i).mp hi').2.symm.trans ((h.mem q hq i).mp hi).2)

theorem removeReady_ready (s : KState H M) (rp : Slot H) (q : ℕ) (xpp : Cell (Slot H)) :
    (removeReady s rp q xpp).ready = (s.setReady q xpp (s.nextready rp)).ready := by
  rw [removeReady]
  split <;> rfl

theorem removeReady_tail {pre rest : List (Slot H)}
    (htail : s.rdyTail q = (pre ++ rp :: rest).getLast?) (hnotin : rp ∉ pre ++ rest) :
    (removeReady s rp q (cellFrom .head pre)).rdyTail =
      Function.update s.rdyTail q (pre ++ rest).getLast? := by
  have hsame : (s.setReady q (cellFrom .head pre) (s.nextready rp)).rdyTail = s.rdyTail := by
    cases cellFrom .head pre <;> rfl
  rw [removeReady, hsame, htail]
  cases rest using List.reverseRecOn with
  | nil => simp [prevXp_cellFrom]
  | append_singleton rest i _ =>
    have hlast : (pre ++ rp :: (rest ++ [i])).getLast? = some i := by
      rw [← List.cons_append, ← List.append_assoc, List.getLast?_concat]
    have hne : i ≠ rp := by
      rintro rfl
      simp at hnotin
    rw [hlast, if_neg (by simpa using hne), hsame, ← List.append_assoc, List.getLast?_concat]
    rw [hlast] at htail
    rw [← htail, Function.update_eq_self]

theorem removeReady_spec (h : QueuesHold s on L) (hq : q < nrSchedQueues)
    {pre rest : List (Slot H)} (hL : L q = pre ++ rp :: rest) :
    QueuesHold (removeReady s rp q (cellFrom .head pre)) (fun p => on p ∧ p ≠ rp)
      (Function.update L q (pre ++ rest)) := by
  have hpath := h.holds q hq
  have htail := h.tail q hq
  rw [hL] at hpath htail
  have hnodup := path_nodup hpath
  rw [List.nodup_middle, List.nodup_cons] at hnodup
  have hready := removeReady_ready s rp q (cellFrom .head pre)
  have htail' := removeReady_tail htail hnodup.1
  constructor
  · intro q' hq'
    rw [hready]
    by_cases hne : q' = q
    · subst hne
      rw [Function.update_self, ready_setReady]
      exact hpath.unlink
    · rw [Function.update_of_ne hne]
      obtain ⟨hhead, hnext⟩ := ready_setReady_of_ne (s := s) hne (cellFrom .head pre)
        (s.nextready rp)
      refine (h.holds q' hq').congr hhead fun j hj => ?_
      refine (congrFun hnext j).trans (next_set_of_notMem fun hjpre => ?_)
      refine h.not_mem_other hq hq' hne ?_ hj
      rw [hL]
      exact List.mem_append_left _ hjpre
  · intro q' hq'
    rw [htail']
    by_cases hne : q' = q
    · subst hne
      rw [Function.update_self, Function.update_self]
    · rw [Function.update_of_ne hne, Function.update_of_ne hne, h.tail q' hq']
  · intro q' hq' p
    rw [(Rescheduled.removeReady q (cellFrom .head pre)).1]
    by_cases hne : q' = q
    · subst hne
      have hmem := h.mem q' hq p
      rw [hL] at hmem
      rw [Function.update_self]
      simp only [List.mem_append, List.mem_cons] at hmem hnodup ⊢
      by_cases hp : p = rp
      · subst hp
        simp [hnodup.1]
      · simpa [hp] using hmem
    · rw [Function.update_of_ne hne, h.mem q' hq' p]
      have hrp : rp ∈ L q := by simp [hL]
      constructor
      · rintro ⟨hon, hp⟩
        refine ⟨⟨hon, ?_⟩, hp⟩
        rintro rfl
        exact hne (hp.symm.trans ((h.mem q hq p).mp hrp).2)
      · rintro ⟨⟨hon, -⟩, hp⟩
        exact ⟨hon, hp⟩

theorem dequeue_spec (h : QueuesHold s on L) (hprio : (s.proc rp).priority < nrSchedQueues)
    (hstopped : (s.proc rp).isRunnable = false) :
    ∃ s' L', dequeue s rp = .ok s' ∧ QueuesHold s' (fun p => on p ∧ p ≠ rp) L' := by
  obtain ⟨pre, post, hL, hpre, hpost, hseek⟩ :=
    (h.holds _ hprio).seek (· == rp) (h.length_lt hprio)
  have hpath := h.holds _ hprio
  rw [hL] at hpath
  cases post with
  | nil =>
    have hoff : ¬ on rp := by
      intro hon
      have hmem := (h.mem _ hprio rp).mpr ⟨hon, rfl⟩
      rw [hL, List.append_nil] at hmem
      simpa using hpre rp hmem
    rw [List.append_nil] at hpath
    refine ⟨s, L, ?_, h.congr ⟨rfl, rfl, rfl⟩ (fun _ => rfl) fun p => ?_⟩
    · simp [dequeue, hstopped, kassert, inQueues, hprio, hseek, get_cellFrom_end hpath,
        bind, Except.bind, pure, Except.pure]
    · exact ⟨And.left, fun hon => ⟨hon, fun he => hoff (he ▸ hon)⟩⟩
  | cons i rest =>
    obtain rfl : i = rp := by simpa using hpost i rest rfl
    refine ⟨_, _, ?_, removeReady_spec h hprio hL⟩
    simp [dequeue, hstopped, kassert, inQueues, hprio, hseek, Links.Holds.get hpath,
      bind, Except.bind, pure, Except.pure]

theorem QueuesHold.insert (h : QueuesHold s on L) (hq : q < nrSchedQueues)
    (hprio : (s.proc rp).priority = q) (hoff : ¬ on rp) {l : List (Slot H)}
    (hl : ∀ p, p ∈ l ↔ p = rp ∨ p ∈ L q) (hproc : s'.proc = s.proc)
    (hself : (s'.ready q).Holds l) (htail : s'.rdyTail q = l.getLast?)
    (hhead : ∀ q', q' ≠ q → s'.rdyHead q' = s.rdyHead q' ∧ s'.rdyTail q' = s.rdyTail q')
    (hnext : ∀ i, i ∉ L q → i ≠ rp → s'.nextready i = s.nextready i) :
    QueuesHold s' (fun p => on p ∨ p = rp) (Function.update L q l) where
  holds q' hq' := by
    by_cases hne : q' = q
    · subst hne
      rwa [Function.update_self]
    · rw [Function.update_of_ne hne]
      refine (h.holds q' hq').congr (hhead q' hne).1 fun i hi => hnext i ?_ ?_
      · exact fun hi' => h.not_mem_other hq hq' hne hi' hi
      · rintro rfl
        exact hoff ((h.mem q' hq' i).mp hi).1
  tail q' hq' := by
    by_cases hne : q' = q
    · subst hne
      rwa [Function.update_self]
    · rw [Function.update_of_ne hne, (hhead q' hne).2, h.tail q' hq']
  mem q' hq' p := by
    rw [hproc]
    by_cases hne : q' = q
    · subst hne
      rw [Function.update_self, hl, h.mem q' hq p]
      constructor
      · rintro (rfl | ⟨hon, hp⟩)
        · exact ⟨.inr rfl, hprio⟩
        · exact ⟨.inl hon, hp⟩
      · rintro ⟨hon | rfl, hp⟩
        · exact .inr ⟨hon, hp⟩
        · exact .inl rfl
    · rw [Function.update_of_ne hne, h.mem q' hq' p]
      constructor
      · rintro ⟨hon, hp⟩
        exact ⟨.inl hon, hp⟩
      · rintro ⟨hon | rfl, hp⟩
        · exact ⟨hon, hp⟩
        · exact absurd (hp.symm.trans hprio) hne

theorem QueuesHold.not_mem (h : QueuesHold s on L) (hq : q < nrSchedQueues) (hoff : ¬ on rp) :
    rp ∉ L q := fun hmem => hoff ((h.mem q hq rp).mp hmem).1

theorem linkTail_spec (h : QueuesHold s on L) (hq : q < nrSchedQueues)
    (hprio : (s.proc rp).priority = q) (hoff : ¬ on rp) :
    ∃ s', linkTail s rp q = .ok s' ∧
      QueuesHold s' (fun p => on p ∨ p = rp) (Function.update L q (L q ++ [rp])) := by
  have hnot := h.not_mem hq hoff
  have hpath := h.holds q hq
  have htail := h.tail q hq
  have hl : ∀ p, p ∈ L q ++ [rp] ↔ p = rp ∨ p ∈ L q := fun p => by simp [or_comm]
  cases hL : L q using List.reverseRecOn with
  | nil =>
    rw [hL] at hpath hl
    have hnone : s.rdyHead q = none := hpath
    rw [linkTail, hnone]
    refine ⟨_, rfl, h.insert hq hprio hoff (hL ▸ hl) rfl ?_ ?_ ?_ ?_⟩
    · simp [Links.Holds, KState.ready, Chain.Path]
    · simp
    · intro q' hne
      simp [hne]
    · intro i _ hi
      simp [hi]
  | append_singleton l t _ =>
    rw [hL] at hpath htail hnot
    obtain ⟨i, hi⟩ : ∃ i, s.rdyHead q = some i := by
      cases l with
      | nil => exact ⟨_, hpath.1⟩
      | cons i l => exact ⟨_, hpath.1⟩
    have htail : s.rdyTail q = some t := by rw [htail]; simp
    have hne : rp ≠ t := fun he => hnot (by simp [he])
    have hfresh : Links.Holds ⟨s.rdyHead q, Function.update s.nextready rp none⟩ (l ++ [t]) :=
      path_update hnot hpath
    have happend := hfresh.append hnot (Function.update_self ..)
    rw [cellFrom_append_singleton] at happend
    rw [linkTail, hi, htail]
    refine ⟨_, rfl, h.insert hq hprio hoff (hL ▸ hl) rfl ?_ ?_ ?_ ?_⟩
    · simp only [Links.set, KState.ready] at happend ⊢
      rwa [Function.update_comm hne] at happend
    · simp
    · intro q' hne
      simp [hne]
    · intro j hj hjrp
      have hjt : j ≠ t := by
        rintro rfl
        exact hj (by simp [hL])
      simp [hjrp, hjt]

theorem linkHead_spec (h : QueuesHold s on L) (hq : q < nrSchedQueues)
    (hprio : (s.proc rp).priority = q) (hoff : ¬ on rp) :
    QueuesHold (linkHead s rp q) (fun p => on p ∨ p = rp) (Function.update L q (rp :: L q)) := by
  have hnot := h.not_mem hq hoff
  have hpath := h.holds q hq
  have htail := h.tail q hq
  have hl : ∀ p, p ∈ rp :: L q ↔ p = rp ∨ p ∈ L q := fun p => List.mem_cons
  cases hL : L q with
  | nil =>
    rw [hL] at hpath hl
    have hnone : s.rdyHead q = none := hpath
    rw [linkHead, hnone]
    refine h.insert hq hprio hoff (hL ▸ hl) rfl ?_ ?_ ?_ ?_
    · simp [Links.Holds, KState.ready, Chain.Path]
    · simp
    · intro q' hne
      simp [hne]
    · intro i _ hi
      simp [hi]
  | cons i l =>
    have hi : s.rdyHead q = some i := by
      rw [hL] at hpath
      exact hpath.1
    rw [linkHead, hi]
    refine h.insert hq hprio hoff (hL ▸ hl) rfl ?_ ?_ ?_ ?_
    · have hcons := hpath.cons hnot
      rw [hL] at hcons
      simpa [KState.ready, hi] using hcons
    · simpa [hL] using htail
    · intro q' hne
      simp [hne]
    · intro j _ hj
      simp [hj]

end Lists

section RuntimeFlags

structure RunQueues (s : KState H M) : Prop where
  priority_lt : ∀ p, (s.proc p).isRunnable = true → (s.proc p).priority < nrSchedQueues
  queues : ∃ L, QueuesHold s (fun p => (s.proc p).isRunnable = true) L

variable {f : Flags}

theorem isRunnable_iff {x : Proc H M} : x.isRunnable = true ↔ x.rtsFlags = 0#16 := by
  simp [Proc.isRunnable, rtsFIsRunnable]

theorem QueuesHold.setRts {on on' : Slot H → Prop} {L : ℕ → List (Slot H)}
    (h : QueuesHold s on L) (hon : ∀ p, on' p ↔ on p) : QueuesHold (s.setRts rp f) on' L :=
  h.congr ⟨rfl, rfl, rfl⟩ (fun _ => setRts_priority) hon

theorem rtsSet_spec (h : RunQueues s) (rp : Slot H) (f : Flags) :
    ∃ s', rtsSet s rp f = .ok s' ∧ RunQueues s' := by
  obtain ⟨L, hL⟩ := h.queues
  have hother : ∀ p ≠ rp, (s.setRts rp ((s.proc rp).rtsFlags ||| f)).proc p = s.proc p :=
    fun p hp => setRts_proc_of_ne hp
  rw [rtsSet]
  split
  · rename_i hstops
    simp only [setRts_isRunnable, Bool.and_eq_true, Bool.not_eq_true'] at hstops
    have hset : QueuesHold (s.setRts rp ((s.proc rp).rtsFlags ||| f)) _ L := hL.setRts fun _ => .rfl
    obtain ⟨s', L', hs', hL'⟩ := dequeue_spec hset
      (by rw [setRts_priority]; exact h.priority_lt rp hstops.1)
      (by rw [setRts_isRunnable]; exact hstops.2)
    have hproc := (Rescheduled.dequeue hs').1
    refine ⟨s', hs', ?_, L', hL'.congr ⟨rfl, rfl, rfl⟩ (fun _ => rfl) fun p => ?_⟩
    · intro p hrun
      rw [hproc] at hrun ⊢
      rw [setRts_priority]
      by_cases hp : p = rp
      · subst hp
        exact h.priority_lt p hstops.1
      · rw [hother p hp] at hrun
        exact h.priority_lt p hrun
    · rw [hproc]
      by_cases hp : p = rp
      · subst hp
        simp [hstops.2]
      · simp [hother p hp, hp]
  · rename_i hstays
    have hsame : ∀ p, ((s.setRts rp ((s.proc rp).rtsFlags ||| f)).proc p).isRunnable = true ↔
        (s.proc p).isRunnable = true := by
      intro p
      by_cases hp : p = rp
      · subst hp
        simp only [setRts_isRunnable, rtsFIsRunnable, Bool.and_eq_true, beq_iff_eq,
          Bool.not_eq_true', beq_eq_false_iff_ne, isRunnable_iff] at hstays ⊢
        simp only [ne_eq, BitVec.or_eq_zero_iff] at hstays ⊢
        tauto
      · rw [hother p hp]
    refine ⟨_, rfl, fun p hrun => ?_, L, hL.setRts hsame⟩
    rw [setRts_priority]
    exact h.priority_lt p ((hsame p).mp hrun)

theorem enqueue_spec {on : Slot H → Prop} {L : ℕ → List (Slot H)} (hL : QueuesHold s on L)
    (hprio : ∀ p, (s.proc p).isRunnable = true → (s.proc p).priority < nrSchedQueues)
    (hoff : ¬ on rp) (hon : ∀ p, (s.proc p).isRunnable = true ↔ on p ∨ p = rp) :
    ∃ s', enqueue s rp = .ok s' ∧ RunQueues s' := by
  have hrun : (s.proc rp).isRunnable = true := (hon rp).mpr (.inr rfl)
  obtain ⟨t, hlink, ht⟩ := linkTail_spec hL (hprio rp hrun) rfl hoff
  obtain ⟨hproc, hrest⟩ := Rescheduled.linkTail hlink
  have hqueues : RunQueues t := by
    refine ⟨by rw [hproc]; exact hprio, _, ht.congr ⟨rfl, rfl, rfl⟩ (fun _ => rfl) ?_⟩
    intro p
    rw [hproc, hon]
  simp only [enqueue, hrun, kassert, inQueues, hprio rp hrun, if_true, hlink, bind, Except.bind]
  split
  · exact rtsSet_spec hqueues _ _
  · exact ⟨t, rfl, hqueues⟩

theorem enqueue_inQueues (h : enqueue s rp = .ok s') : (s.proc rp).priority < nrSchedQueues := by
  rw [enqueue] at h
  obtain ⟨-, h⟩ := kassert_bind_ok.mp h
  obtain ⟨_, hq, -⟩ := bind_ok.mp h
  rw [inQueues] at hq
  split at hq
  · assumption
  · cases hq

theorem enqueueHead_inQueues (h : enqueueHead s rp = .ok s') :
    (s.proc rp).priority < nrSchedQueues := by
  rw [enqueueHead] at h
  obtain ⟨-, h⟩ := kassert_bind_ok.mp h
  obtain ⟨-, h⟩ := kassert_bind_ok.mp h
  obtain ⟨_, hq, -⟩ := bind_ok.mp h
  rw [inQueues] at hq
  split at hq
  · assumption
  · cases hq

theorem setRts_on (hstarts : rtsFIsRunnable f = true) (p : Slot H) :
    ((s.setRts rp f).proc p).isRunnable = true ↔ (s.proc p).isRunnable = true ∨ p = rp := by
  by_cases hp : p = rp
  · subst hp
    simp [hstarts]
  · rw [setRts_proc_of_ne hp]
    simp [hp]

theorem setRts_priority_lt (h : RunQueues s) (hprio : (s.proc rp).priority < nrSchedQueues)
    (p : Slot H) (hrun : ((s.setRts rp f).proc p).isRunnable = true) :
    ((s.setRts rp f).proc p).priority < nrSchedQueues := by
  rw [setRts_priority]
  by_cases hp : p = rp
  · subst hp
    exact hprio
  · rw [setRts_proc_of_ne hp] at hrun
    exact h.priority_lt p hrun

theorem enqueue_runQueues (h : RunQueues s) (hoff : ¬ (s.proc rp).isRunnable = true)
    (hstarts : rtsFIsRunnable f = true) (hs : enqueue (s.setRts rp f) rp = .ok s') :
    RunQueues s' := by
  obtain ⟨L, hL⟩ := h.queues
  have hprio : (s.proc rp).priority < nrSchedQueues := by
    rw [← setRts_priority]
    exact enqueue_inQueues hs
  obtain ⟨t, ht, hqueues⟩ := enqueue_spec (hL.setRts fun _ => .rfl) (setRts_priority_lt h hprio)
    hoff (setRts_on hstarts)
  obtain rfl := Except.ok.inj (hs.symm.trans ht)
  exact hqueues

theorem enqueueHead_runQueues (h : RunQueues s) (hoff : ¬ (s.proc rp).isRunnable = true)
    (hstarts : rtsFIsRunnable f = true) (hs : enqueueHead (s.setRts rp f) rp = .ok s') :
    RunQueues s' := by
  obtain ⟨L, hL⟩ := h.queues
  have hprio : (s.proc rp).priority < nrSchedQueues := by
    rw [← setRts_priority]
    exact enqueueHead_inQueues hs
  have hlink : QueuesHold (linkHead (s.setRts rp f) rp (s.proc rp).priority) _ _ :=
    linkHead_spec (hL.setRts fun _ => .rfl) hprio setRts_priority hoff
  have hproc : (linkHead (s.setRts rp f) rp (s.proc rp).priority).proc = (s.setRts rp f).proc := by
    rw [linkHead]
    split <;> rfl
  rw [enqueueHead] at hs
  obtain ⟨-, hs⟩ := kassert_bind_ok.mp hs
  obtain ⟨-, hs⟩ := kassert_bind_ok.mp hs
  obtain ⟨_, -, hs⟩ := bind_ok.mp hs
  rw [setRts_priority] at hs
  cases hs
  refine ⟨?_, _, hlink.congr ⟨rfl, rfl, rfl⟩ (fun _ => rfl) fun p => ?_⟩
  · rw [hproc]
    exact setRts_priority_lt h hprio
  · rw [hproc]
    exact setRts_on hstarts p

theorem rtsUnset_runQueues (h : RunQueues s) (hs : rtsUnset s rp f = .ok s') : RunQueues s' := by
  obtain ⟨L, hL⟩ := h.queues
  have hother : ∀ p ≠ rp, (s.setRts rp ((s.proc rp).rtsFlags &&& ~~~f)).proc p = s.proc p :=
    fun p hp => setRts_proc_of_ne hp
  rw [rtsUnset] at hs
  split at hs
  · rename_i hstarts
    simp only [setRts_isRunnable, Bool.and_eq_true, Bool.not_eq_true'] at hstarts
    have hoff : ¬ (s.proc rp).isRunnable = true := by simp [Proc.isRunnable, hstarts.1]
    exact enqueue_runQueues h hoff hstarts.2 hs
  · rename_i hstays
    have hsame : ∀ p, ((s.setRts rp ((s.proc rp).rtsFlags &&& ~~~f)).proc p).isRunnable = true ↔
        (s.proc p).isRunnable = true := by
      intro p
      by_cases hp : p = rp
      · subst hp
        simp only [setRts_isRunnable, rtsFIsRunnable, Bool.and_eq_true, beq_iff_eq,
          Bool.not_eq_true', beq_eq_false_iff_ne, isRunnable_iff] at hstays ⊢
        constructor
        · intro hzero
          by_contra hne
          exact hstays ⟨hne, hzero⟩
        · intro hzero
          simp [hzero]
      · rw [hother p hp]
    cases hs
    refine ⟨fun p hrun => ?_, L, hL.setRts hsame⟩
    rw [setRts_priority]
    exact h.priority_lt p ((hsame p).mp hrun)

theorem rtsSetflags_runQueues (h : RunQueues s)
    (hf : f ≠ 0#16 ∨ (s.proc rp).isRunnable = true) (hs' : rtsSetflags s rp f = .ok s') :
    RunQueues s' := by
  have hsame : f = 0#16 ∨ (s.proc rp).isRunnable = false := by
    by_contra hstops
    rw [not_or, Bool.not_eq_false] at hstops
    obtain ⟨hf, hrun⟩ := hstops
    have hdequeue : dequeue s rp = .error .assertion := by
      simp [dequeue, hrun, kassert, bind, Except.bind]
    simp [rtsSetflags, hrun, hf, hdequeue, bind, Except.bind] at hs'
  have hskip : ((s.proc rp).isRunnable && f != 0#16) = false := by
    rcases hsame with rfl | hstopped
    · simp
    · simp [hstopped]
  simp only [rtsSetflags, hskip, Bool.false_eq_true, if_false, bind_ok, pure_ok] at hs'
  obtain ⟨t, rfl, rfl⟩ := hs'
  have hon : ∀ p, ((s.setRts rp f).proc p).isRunnable = true ↔
      (s.proc p).isRunnable = true := by
    intro p
    by_cases hp : p = rp
    · subst hp
      rw [setRts_isRunnable, rtsFIsRunnable, beq_iff_eq]
      rcases hsame with rfl | hstopped
      · simpa using hf
      · simpa [hstopped] using hf
    · rw [setRts_proc_of_ne hp]
  obtain ⟨L, hL⟩ := h.queues
  refine ⟨fun p hrun => ?_, L, hL.setRts hon⟩
  rw [setRts_priority]
  exact h.priority_lt p ((hon p).mp hrun)

theorem RunQueues.congr (h : RunQueues s)
    (hsame : s'.nextready = s.nextready ∧ s'.rdyHead = s.rdyHead ∧ s'.rdyTail = s.rdyTail)
    (hproc : ∀ p, (s'.proc p).priority = (s.proc p).priority ∧
      (s'.proc p).rtsFlags = (s.proc p).rtsFlags) : RunQueues s' := by
  obtain ⟨L, hL⟩ := h.queues
  have hon : ∀ p, (s'.proc p).isRunnable = true ↔ (s.proc p).isRunnable = true := by
    intro p
    rw [isRunnable_iff, isRunnable_iff, (hproc p).2]
  refine ⟨fun p hrun => ?_, L, hL.congr hsame (fun p => (hproc p).1) hon⟩
  rw [(hproc p).1]
  exact h.priority_lt p ((hon p).mp hrun)

theorem RunQueues.upd (h : RunQueues s) {f : Proc H M → Proc H M}
    (hf : ∀ x, (f x).priority = x.priority ∧ (f x).rtsFlags = x.rtsFlags) :
    RunQueues (s.upd rp f) := by
  refine h.congr ⟨rfl, rfl, rfl⟩ fun p => ?_
  by_cases hp : p = rp
  · subst hp
    rw [upd_proc_self]
    exact hf _
  · rw [upd_proc_of_ne hp]
    exact ⟨rfl, rfl⟩

end RuntimeFlags

end Kernel
