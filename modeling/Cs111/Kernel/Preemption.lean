import Cs111.Kernel.Scheduling

-- The current process makes way for a runnable process with a better priority.
namespace Kernel
open Minix FlagWord Chain TransitionSystem
variable {H : Headers} {M : Type} {s t u : KState H M} {p q : Slot H} {f : Flags}

def Proc.marked (x : Proc H M) : Prop := x.rtsFlags &&& (RTS_PREEMPTED ||| RTS_SLOT_FREE) ≠ 0

def KState.preemptible (s : KState H M) : Prop := (s.privOf s.procPtr).has PREEMPTIBLE = true

def Spared (s : KState H M) (q : Slot H) : Prop :=
  (s.proc s.procPtr).marked ∨ ¬ s.preemptible ∨
    (s.proc s.procPtr).priority ≤ (s.proc q).priority

def Ranked (s : KState H M) : Prop := ∀ q, (s.proc q).isRunnable = true → Spared s q

structure Settles (s t : KState H M) : Prop where
  ptr : t.procPtr = s.procPtr
  preemptible : t.preemptible → s.preemptible
  priority : ∀ q, (t.proc q).priority = (s.proc q).priority
  marked : (s.proc s.procPtr).marked → (t.proc t.procPtr).marked
  runs : ∀ q, (t.proc q).isRunnable = true → (s.proc q).isRunnable = true ∨ Spared t q

theorem Spared.settles (h : Spared s q) (hs : Settles s t) : Spared t q := by
  rcases h with hmarked | hfixed | hle
  · exact .inl (hs.marked hmarked)
  · exact .inr (.inl fun hpre => hfixed (hs.preemptible hpre))
  · rw [Spared, hs.priority, hs.priority, hs.ptr]
    exact .inr (.inr hle)

theorem Ranked.settles (h : Ranked s) (hs : Settles s t) : Ranked t := by
  intro q hq
  rcases hs.runs q hq with hbefore | hspared
  · exact (h q hbefore).settles hs
  · exact hspared

namespace Settles

theorem refl (s : KState H M) : Settles s s :=
  ⟨rfl, id, fun _ => rfl, id, fun _ => .inl⟩

theorem trans (h : Settles s t) (h' : Settles t u) : Settles s u where
  ptr := h'.ptr.trans h.ptr
  preemptible hpre := h.preemptible (h'.preemptible hpre)
  priority q := (h'.priority q).trans (h.priority q)
  marked hmarked := h'.marked (h.marked hmarked)
  runs q hq := by
    rcases h'.runs q hq with hbefore | hspared
    · rcases h.runs q hbefore with hfirst | hspared
      · exact .inl hfirst
      · exact .inr (hspared.settles h')
    · exact .inr hspared

theorem of_same (hptr : t.procPtr = s.procPtr) (hpriv : t.priv = s.priv)
    (hproc : ∀ q, (t.proc q).rtsFlags = (s.proc q).rtsFlags ∧
      (t.proc q).priority = (s.proc q).priority ∧ (t.proc q).priv = (s.proc q).priv) :
    Settles s t where
  ptr := hptr
  preemptible hpre := by
    simpa only [KState.preemptible, KState.privOf, hptr, hpriv, (hproc _).2.2] using hpre
  priority q := (hproc q).2.1
  marked hmarked := by
    simpa only [Proc.marked, hptr, (hproc _).1] using hmarked
  runs q hq := by
    left
    simpa only [Proc.isRunnable, (hproc q).1] using hq

theorem upd {g : Proc H M → Proc H M} (hg : ∀ x, (g x).rtsFlags = x.rtsFlags ∧
    (g x).priority = x.priority ∧ (g x).priv = x.priv) : Settles s (s.upd p g) := by
  refine of_same rfl rfl fun q => ?_
  rw [proc_upd_apply]
  split
  · rename_i hq
    rw [hq]
    exact hg _
  · exact ⟨rfl, rfl, rfl⟩

theorem marked_or {x : Flags} (h : x &&& (RTS_PREEMPTED ||| RTS_SLOT_FREE) ≠ 0) :
    (x ||| f) &&& (RTS_PREEMPTED ||| RTS_SLOT_FREE) ≠ 0 := by
  intro hzero
  rw [BitVec.and_comm, BitVec.and_or_distrib_left] at hzero
  apply h
  rw [BitVec.and_comm]
  exact (BitVec.or_eq_zero_iff.mp hzero).1

theorem rescheduled (h : Rescheduled s t) : Settles s t where
  ptr := h.procPtr_eq
  preemptible hpre := by
    have hptr : ∀ i, (t.proc i).priv = (s.proc i).priv :=
      h.view_eq (v := Proc.priv) fun _ => rfl
    simpa only [KState.preemptible, KState.privOf, h.procPtr_eq, h.priv_eq, hptr] using hpre
  priority := h.view_eq (v := Proc.priority) fun _ => rfl
  marked hmarked := by
    rw [h.procPtr_eq]
    rcases h.proc s.procPtr with hsame | ⟨-, hset⟩
    · rw [hsame]
      exact hmarked
    · rw [hset]
      exact marked_or hmarked
  runs q hq := by
    left
    rcases h.proc q with hsame | ⟨-, hset⟩
    · rwa [hsame] at hq
    · rw [hset, isRunnable_iff] at hq
      have hzero := (BitVec.or_eq_zero_iff.mp hq).2
      exact absurd hzero (by decide)

theorem rtsSet (h : rtsSet s p f = .ok t) : Settles s t := by
  obtain ⟨hproc, hrest⟩ := Rescheduled.rtsSet h
  have hptr : t.procPtr = s.procPtr := by rw [hrest]
  have hpriv : t.priv = s.priv := by rw [hrest]
  have hat (q : Slot H) : t.proc q =
      if q = p then (s.proc p).setRts ((s.proc p).rtsFlags ||| f) else s.proc q := by
    rw [hproc, KState.setRts, proc_upd_apply]
  refine ⟨hptr, fun hpre => ?_, fun q => ?_, fun hmarked => ?_, fun q hq => ?_⟩
  · have hsame : ∀ q, (t.proc q).priv = (s.proc q).priv := by
      intro q
      rw [hat]
      split
      · rename_i hq
        rw [hq]
        rfl
      · rfl
    simpa only [KState.preemptible, KState.privOf, hptr, hpriv, hsame] using hpre
  · rw [hproc, setRts_priority]
  · rw [hptr, hat]
    split
    · rename_i hq
      rw [hq] at hmarked
      exact marked_or hmarked
    · exact hmarked
  · left
    rw [hat] at hq
    split at hq
    · rename_i hqp
      rw [hqp, isRunnable_iff]
      rw [isRunnable_iff] at hq
      exact (BitVec.or_eq_zero_iff.mp hq).1
    · exact hq

end Settles

theorem enqueue_spares (h : enqueue s p = .ok t) : Spared t p := by
  have hsettles := Settles.rescheduled (Rescheduled.enqueue h)
  simp only [enqueue, bind_ok] at h
  obtain ⟨-, -, -, -, u, hlink, h⟩ := h
  obtain ⟨hproc, hrest⟩ := Rescheduled.linkTail hlink
  split at h
  · left
    obtain ⟨hset, hkept⟩ := Rescheduled.rtsSet h
    have hptr : t.procPtr = u.procPtr := by rw [hkept]
    rw [hptr, hset, Proc.marked, setRts_rtsFlags]
    intro hzero
    have hbits := congrArg (· &&& RTS_PREEMPTED) hzero
    simp only [BitVec.and_assoc] at hbits
    have hmask : (RTS_PREEMPTED ||| RTS_SLOT_FREE) &&& RTS_PREEMPTED = RTS_PREEMPTED := by decide
    rw [hmask, BitVec.and_comm, BitVec.and_or_distrib_left] at hbits
    have hboth := BitVec.or_eq_zero_iff.mp (hbits.trans BitVec.zero_and)
    exact absurd hboth.2 (by decide)
  · rename_i hnot
    cases h
    simp only [Bool.and_eq_true, decide_eq_true_eq, not_and, gt_iff_lt] at hnot
    by_cases hpre : t.preemptible
    · right
      right
      by_contra hworse
      exact absurd hpre (hnot (not_le.mp hworse))
    · exact .inr (.inl hpre)

theorem Settles.rtsUnset (hf : f &&& (RTS_PREEMPTED ||| RTS_SLOT_FREE) = 0)
    (h : rtsUnset s p f = .ok t) : Settles s t := by
  have hrescheduled := Settles.rescheduled (Rescheduled.rtsUnset h)
  have hat (q : Slot H) : (s.setRts p ((s.proc p).rtsFlags &&& ~~~f)).proc q =
      if q = p then (s.proc p).setRts ((s.proc p).rtsFlags &&& ~~~f) else s.proc q := by
    rw [KState.setRts, proc_upd_apply]
  refine ⟨hrescheduled.ptr, fun hpre => ?_, fun q => ?_, fun hmarked => ?_, fun q hq => ?_⟩
  · have hbefore := hrescheduled.preemptible hpre
    rw [KState.preemptible, KState.privOf, hat] at hbefore
    split at hbefore
    · rename_i hp
      rw [KState.preemptible, KState.privOf]
      exact hp ▸ hbefore
    · exact hbefore
  · rw [hrescheduled.priority, setRts_priority]
  · refine hrescheduled.marked ?_
    change ((s.setRts p ((s.proc p).rtsFlags &&& ~~~f)).proc s.procPtr).marked
    rw [hat]
    split
    · rename_i hp
      rw [hp] at hmarked
      rw [Proc.marked, Proc.setRts, clear_and_of_disjoint hf]
      exact hmarked
    · exact hmarked
  · by_cases hqp : q = p
    · subst hqp
      rw [Kernel.rtsUnset] at h
      split at h
      · exact .inr (enqueue_spares h)
      · rename_i hstays
        cases h
        left
        rw [setRts_isRunnable] at hq hstays
        simpa [hq, Proc.isRunnable] using hstays
    · rcases hrescheduled.runs q hq with hbefore | hspared
      · rw [hat, if_neg hqp] at hbefore
        exact .inl hbefore
      · exact .inr hspared

theorem Settles.setFree : Settles s (s.setRts p RTS_SLOT_FREE) := by
  have hat (q : Slot H) : (s.setRts p RTS_SLOT_FREE).proc q =
      if q = p then (s.proc p).setRts RTS_SLOT_FREE else s.proc q := by
    rw [KState.setRts, proc_upd_apply]
  refine ⟨rfl, fun hpre => ?_, fun q => setRts_priority, fun hmarked => ?_, fun q hq => ?_⟩
  · rw [KState.preemptible, KState.privOf, hat] at hpre
    split at hpre
    · rename_i hp
      rw [KState.preemptible, KState.privOf]
      exact hp ▸ hpre
    · exact hpre
  · change ((s.setRts p RTS_SLOT_FREE).proc s.procPtr).marked
    rw [hat]
    split
    · exact (by decide : RTS_SLOT_FREE &&& (RTS_PREEMPTED ||| RTS_SLOT_FREE) ≠ 0)
    · exact hmarked
  · left
    rw [hat] at hq
    split at hq
    · exact absurd (isRunnable_iff.mp hq) (by decide : RTS_SLOT_FREE ≠ 0)
    · exact hq

theorem Settles.rtsSetflags (h : rtsSetflags s p RTS_SLOT_FREE = .ok t) : Settles s t := by
  rw [Kernel.rtsSetflags] at h
  split at h
  · obtain ⟨u, hu, h⟩ := bind_ok.mp h
    obtain rfl := pure_ok.mp h
    obtain ⟨hproc, hrest⟩ := Rescheduled.dequeue hu
    exact (rescheduled (.of_proc_eq hproc hrest)).trans setFree
  · cases h
    exact setFree

theorem Settles.setCallers (d : Slot H) (xpp : Cell (Slot H)) (v : Option (Slot H)) :
    Settles s (s.setCallers d xpp v) := by
  cases xpp with
  | head =>
    rw [KState.setCallers]
    exact upd fun _ => ⟨rfl, rfl, rfl⟩
  | link i =>
    rw [KState.setCallers]
    exact upd fun _ => ⟨rfl, rfl, rfl⟩

theorem ipcStatusAdd_priv (x : Proc H M) (item : StatusItem) :
    (x.ipcStatusAdd item).priv = x.priv := by
  rw [Proc.ipcStatusAdd]
  split <;> rfl

theorem receiveSent_priv (x : Proc H M) (flags : SendFlags) (call : CallNr) (m : Message M)
    (source : ℤ) : (x.receiveSent flags call m source).priv = x.priv := by
  rw [Proc.receiveSent]
  split
  · exact (ipcStatusAdd_priv ..).trans (ipcStatusAdd_priv ..)
  · exact ipcStatusAdd_priv ..

theorem holdMessage_priv (x : Proc H M) (flags : SendFlags) (m : Message M) :
    (x.holdMessage flags m).priv = x.priv := by
  rw [Proc.holdMessage]
  split <;> rfl

theorem Settles.miniSend {dstE : ℤ} {m : Option (Message M)} {flags : SendFlags} {r : Errno}
    (h : miniSend s p dstE m flags = .ok (r, t)) : Settles s t := by
  cases miniSend_outcome h with
  | refused => exact refl s
  | delivered _ _ _ _ _ hunset =>
    refine trans (upd fun x => ?_) (rtsUnset (by decide) hunset)
    exact ⟨(receiveSent_queues x ..).2, (receiveSent_queues x ..).1, receiveSent_priv x ..⟩
  | blocked _ _ _ _ _ _ hset =>
    have hheld : Settles s _ := trans (upd fun x => ⟨(holdMessage_queues x ..).2,
      (holdMessage_queues x ..).1, holdMessage_priv x ..⟩) (rtsSet hset)
    refine (hheld.trans ?_).trans (setCallers ..)
    exact upd fun _ => ⟨rfl, rfl, rfl⟩

theorem Settles.procNoTime (h : procNoTime s p = .ok t) : Settles s t := by
  rw [Kernel.procNoTime] at h
  split at h
  · rw [notifyScheduler] at h
    obtain ⟨-, h⟩ := kassert_bind_ok.mp h
    obtain ⟨u, hu, h⟩ := bind_ok.mp h
    refine (rtsSet hu).trans ?_
    split at h
    · cases h
    · obtain ⟨⟨err, v⟩, hv, h⟩ := bind_ok.mp h
      dsimp only at h
      split at h
      · cases h
      · cases h
        exact miniSend hv
  · cases h
    exact upd fun _ => ⟨rfl, rfl, rfl⟩

section PickNew

theorem find_first {α : Type} {g : ℕ → Option α} {n : ℕ} {a : α}
    (h : (List.range n).findSome? g = some a) : ∃ k < n, g k = some a ∧ ∀ j < k, g j = none := by
  induction n with
  | zero => cases h
  | succ n ih =>
    rw [List.range_succ, List.findSome?_append] at h
    cases hbefore : (List.range n).findSome? g with
    | some b =>
      rw [hbefore] at h ih
      obtain ⟨k, hk, hfound, hfirst⟩ := ih h
      exact ⟨k, Nat.lt_succ_of_lt hk, hfound, hfirst⟩
    | none =>
      rw [hbefore] at h
      refine ⟨n, Nat.lt_succ_self n, by simpa using h, fun j hj => ?_⟩
      exact List.findSome?_eq_none_iff.mp hbefore j (List.mem_range.mpr hj)

theorem RunQueues.head (h : RunQueues s) (hrun : (s.proc q).isRunnable = true) :
    (s.proc q).priority < nrSchedQueues ∧ s.rdyHead (s.proc q).priority ≠ none := by
  obtain ⟨L, hL⟩ := h.queues
  have hlt := h.priority_lt q hrun
  have hmem := (hL.mem _ hlt q).mpr ⟨hrun, rfl⟩
  have hholds := hL.holds _ hlt
  refine ⟨hlt, fun hnone => ?_⟩
  have hempty : L (s.proc q).priority = [] := path_unique hholds hnone
  rw [hempty] at hmem
  exact absurd hmem List.not_mem_nil

theorem RunQueues.priority_head (h : RunQueues s) {k : ℕ} (hk : k < nrSchedQueues)
    (hhead : s.rdyHead k = some p) : (s.proc p).priority = k := by
  obtain ⟨L, hL⟩ := h.queues
  have hholds := hL.holds k hk
  cases hlist : L k with
  | nil =>
    rw [hlist] at hholds
    have hnone : s.rdyHead k = none := hholds
    rw [hnone] at hhead
    cases hhead
  | cons i l =>
    rw [hlist] at hholds
    have hfirst : s.rdyHead k = some i := hholds.1
    obtain rfl : i = p := Option.some.inj (hfirst.symm.trans hhead)
    have hmem : i ∈ L k := hlist ▸ List.mem_cons_self
    exact ((hL.mem k hk i).mp hmem).2

theorem pickNew_ranked (h : RunQueues s) (hs : pickNew s = .ok t) : Ranked t := by
  simp only [pickNew, bind_ok] at hs
  obtain ⟨u, hu, ⟨rp, v⟩, hv, hs⟩ := hs
  have hqueues := requeuePreempted_runQueues h hu
  rw [pickProc] at hv
  split at hv
  · rename_i hnone
    cases hv
    have hidle : ∀ q, ¬ (u.proc q).isRunnable = true := by
      intro q hq
      obtain ⟨hlt, hhead⟩ := hqueues.head hq
      exact hhead (List.findSome?_eq_none_iff.mp hnone _ (List.mem_range.mpr hlt))
    dsimp only at hs
    split at hs
    · cases hs
      exact fun q hq => absurd hq (hidle q)
    · cases hs
      exact fun q hq => absurd hq (hidle q)
  · rename_i first hfirst
    obtain ⟨k, hk, hhead, hbefore⟩ := find_first hfirst
    have hprio := hqueues.priority_head hk hhead
    have hbest : ∀ q, (u.proc q).isRunnable = true →
        (u.proc first).priority ≤ (u.proc q).priority := by
      intro q hq
      obtain ⟨-, hother⟩ := hqueues.head hq
      rw [hprio]
      by_contra hless
      exact hother (hbefore _ (not_le.mp hless))
    obtain ⟨-, hv⟩ := kassert_bind_ok.mp hv
    split at hv
    · cases hv
      cases hs
      exact fun q hq => .inr (.inr (hbest q hq))
    · cases hv
      cases hs
      exact fun q hq => .inr (.inr (hbest q hq))

end PickNew

section SchedProc
variable {priority quantum : ℕ}

def Outranks (s : KState H M) (p : Slot H) (priority : ℕ) : Prop :=
  ∃ q, q ≠ p ∧ (s.proc q).isRunnable = true ∧ (s.proc q).priority < priority

def Demotes (s : KState H M) (p : Slot H) (priority quantum : ℕ) : Prop :=
  p = s.procPtr ∧ s.preemptible ∧ ¬ (s.proc p).marked ∧
    (taskQ ≤ priority ∧ priority ≤ nrSchedQueues ∧ quantum ≠ 0) ∧ Outranks s p priority

theorem stopRunnable_settles (h : stopRunnable s p = .ok t) :
    Settles s t ∧ (t.proc p).isRunnable = false := by
  rw [stopRunnable] at h
  split at h
  · refine ⟨.rtsSet h, ?_⟩
    rw [Proc.isRunnable, (Rescheduled.rtsSet h).1, setRts_rtsFlags, rtsFIsRunnable,
      beq_eq_false_iff_ne]
    exact fun hzero => absurd (BitVec.or_eq_zero_iff.mp hzero).2 (by decide)
  · rename_i hstopped
    cases h
    exact ⟨.refl s, by simpa using hstopped⟩

theorem stopRunnable_runs (h : stopRunnable s p = .ok t) (hq : (t.proc q).isRunnable = true) :
    q ≠ p ∧ (s.proc q).isRunnable = true := by
  obtain ⟨-, hstopped⟩ := stopRunnable_settles h
  have hne : q ≠ p := by
    rintro rfl
    rw [hstopped] at hq
    cases hq
  refine ⟨hne, ?_⟩
  rw [stopRunnable] at h
  split at h
  · rwa [(Rescheduled.rtsSet h).1, setRts_proc_of_ne hne] at hq
  · cases h
    exact hq

theorem Spared.upd {g : Proc H M → Proc H M}
    (hg : ∀ x, (g x).rtsFlags = x.rtsFlags ∧ (g x).priv = x.priv) (hne : q ≠ p)
    (h : Spared s q) (hcurrent : s.procPtr = p → ¬ (s.proc p).marked → s.preemptible →
      (g (s.proc p)).priority ≤ (s.proc q).priority) : Spared (s.upd p g) q := by
  have hpre : (s.upd p g).preemptible ↔ s.preemptible := by
    rw [KState.preemptible, KState.preemptible, KState.privOf, KState.privOf, upd_procPtr, upd_priv,
      proc_upd_apply]
    split
    · rename_i hp
      rw [(hg _).2, hp]
    · rfl
  rw [Spared, hpre, upd_procPtr, upd_proc_of_ne hne]
  by_cases hp : s.procPtr = p
  · rw [hp, upd_proc_self, Proc.marked, (hg _).1]
    by_cases hmarked : (s.proc p).marked
    · exact .inl hmarked
    · by_cases hpreemptible : s.preemptible
      · exact .inr (.inr (hcurrent hp hmarked hpreemptible))
      · exact .inr (.inl hpreemptible)
  · rw [upd_proc_of_ne hp]
    exact h

theorem schedProc_ranked {r : Errno} (h : Ranked s) (hkeeps : ¬ Demotes s p priority quantum)
    (hs : schedProc s p priority quantum = .ok (r, t)) : Ranked t := by
  rw [schedProc] at hs
  split at hs
  · cases hs
    exact h
  · rename_i hrange
    split at hs
    · cases hs
      exact h
    · rename_i hquantum
      obtain ⟨u, hu, hs⟩ := bind_ok.mp hs
      obtain ⟨v, hv, hs⟩ := bind_ok.mp hs
      cases hs
      obtain ⟨hsettles, hstopped⟩ := stopRunnable_settles hu
      refine Ranked.settles (fun q hq => ?_) (.rtsUnset (by decide) hv)
      have hne : q ≠ p := by
        rintro rfl
        rw [upd_proc_self] at hq
        rw [Proc.isRunnable] at hstopped hq
        rw [hstopped] at hq
        cases hq
      rw [upd_proc_of_ne hne] at hq
      obtain ⟨-, hbefore⟩ := stopRunnable_runs hu hq
      refine ((h q hbefore).settles hsettles).upd (fun _ => ⟨rfl, rfl⟩) hne ?_
      intro hcurrent hmarked hpre
      by_contra hlower
      rw [hsettles.priority] at hlower
      rw [hsettles.ptr] at hcurrent
      apply hkeeps
      refine ⟨hcurrent.symm, hsettles.preemptible hpre, fun hbefore => ?_, ?_, ?_⟩
      · apply hmarked
        subst hcurrent
        have hkept := hsettles.marked hbefore
        rwa [hsettles.ptr] at hkept
      · rw [not_or, not_lt, not_lt] at hrange
        exact ⟨hrange.1, hrange.2, hquantum⟩
      · exact ⟨q, hne, hbefore, not_le.mp hlower⟩

end SchedProc

structure Unscheduled (s t : KState H M) : Prop where
  ptr : t.procPtr = s.procPtr
  ends : t.rdyHead = s.rdyHead ∧ t.rdyTail = s.rdyTail
  nextready : ∀ p, (s.proc p).isRunnable = true → t.nextready p = s.nextready p
  runnable : ∀ p, (t.proc p).isRunnable = (s.proc p).isRunnable
  priority : ∀ p, (s.proc p).isRunnable = true → (t.proc p).priority = (s.proc p).priority
  current : (t.proc s.procPtr).rtsFlags = (s.proc s.procPtr).rtsFlags ∧
    (t.proc s.procPtr).priority = (s.proc s.procPtr).priority

theorem Unscheduled.runQueues (h : RunQueues s) (hs : Unscheduled s t) : RunQueues t := by
  obtain ⟨L, hL⟩ := h.queues
  constructor
  · intro p hp
    rw [hs.runnable] at hp
    rw [hs.priority p hp]
    exact h.priority_lt p hp
  · refine ⟨L, fun k hk => ?_, fun k hk => ?_, fun k hk p => ?_⟩
    · change Path t.nextready (t.rdyHead k) (L k)
      rw [hs.ends.1]
      exact path_congr (fun p hp => hs.nextready p ((hL.mem k hk p).mp hp).1) (hL.holds k hk)
    · rw [hs.ends.2]
      exact hL.tail k hk
    · rw [hL.mem k hk, hs.runnable]
      constructor
      · rintro ⟨hp, hprio⟩
        exact ⟨hp, (hs.priority p hp).trans hprio⟩
      · rintro ⟨hp, hprio⟩
        exact ⟨hp, (hs.priority p hp).symm.trans hprio⟩

def Exposes (s t : KState H M) : Prop :=
  ¬ s.preemptible ∧ t.preemptible ∧ ¬ (s.proc s.procPtr).marked ∧
    Outranks s s.procPtr (s.proc s.procPtr).priority

theorem Unscheduled.ranked (h : Ranked s) (hs : Unscheduled s t) (hkeeps : ¬ Exposes s t) :
    Ranked t := by
  intro q hq
  rw [hs.runnable] at hq
  rw [Spared, Proc.marked, hs.ptr, hs.current.1, hs.current.2, hs.priority q hq]
  rcases h q hq with hmarked | hfixed | hle
  · exact .inl hmarked
  · by_contra hnot
    rw [not_or, not_or] at hnot
    obtain ⟨hunmarked, hpre, hlower⟩ := hnot
    refine hkeeps ⟨hfixed, not_not.mp hpre, hunmarked, q, ?_, hq, not_le.mp hlower⟩
    rintro rfl
    exact hlower le_rfl
  · exact .inr (.inr hle)

inductive PreemptOp (H : Headers) (M : Type) where
  | queue (op : QueueOp H)
  | others (t : KState H M)

def MarksKept (s : KState H M) : PreemptOp H M → Prop
  | .queue (.rtsUnset _ f) => f &&& (RTS_PREEMPTED ||| RTS_SLOT_FREE) = 0
  | .queue (.rtsSetflags _ f) => f = RTS_SLOT_FREE
  | .queue .pickNew => (s.proc s.procPtr).isRunnable = false
  | .queue _ => True
  | .others t => Unscheduled s t

def PreemptOp.perform (s : KState H M) : PreemptOp H M → Except Fault (KState H M)
  | .queue op => op.perform s
  | .others t => .ok t

def preemptSystem (H : Headers) (M : Type) : TransitionSystem (KState H M) (PreemptOp H M) where
  initial := emptyQueues
  step s op t := MarksKept s op ∧ op.perform s = .ok t

def LeavesBetter (s : KState H M) : PreemptOp H M → Prop
  | .queue (.schedProc p priority quantum) => Demotes s p priority quantum
  | .others t => Exposes s t
  | _ => False

theorem preempt_step {op : PreemptOp H M} (hqueues : RunQueues s) (h : Ranked s)
    (hmarks : MarksKept s op) (hkeeps : ¬ LeavesBetter s op) (hs : op.perform s = .ok t) :
    RunQueues t ∧ Ranked t := by
  cases op with
  | others t' =>
    cases hs
    exact ⟨Unscheduled.runQueues hqueues hmarks, Unscheduled.ranked h hmarks hkeeps⟩
  | queue op =>
    cases op with
    | rtsSet p f => exact ⟨rtsSet_runQueues hqueues hs, h.settles (.rtsSet hs)⟩
    | rtsUnset p f => exact ⟨rtsUnset_runQueues hqueues hs, h.settles (.rtsUnset hmarks hs)⟩
    | rtsSetflags p f =>
      obtain rfl : f = RTS_SLOT_FREE := hmarks
      exact ⟨rtsSetflags_runQueues hqueues (.inl (by decide)) hs, h.settles (.rtsSetflags hs)⟩
    | timeUsed p left =>
      cases hs
      exact ⟨hqueues.upd fun _ => ⟨rfl, rfl⟩, h.settles (.upd fun _ => ⟨rfl, rfl, rfl⟩)⟩
    | noTime p => exact ⟨procNoTime_runQueues hqueues hs, h.settles (.procNoTime hs)⟩
    | pickNew => exact ⟨pickNew_runQueues hqueues hs, pickNew_ranked hqueues hs⟩
    | schedProc p priority quantum =>
      rw [PreemptOp.perform, QueueOp.perform] at hs
      cases hsched : schedProc s p priority quantum with
      | error e =>
        rw [hsched] at hs
        cases hs
      | ok r =>
        rw [hsched] at hs
        cases hs
        exact ⟨schedProc_runQueues hqueues hsched, schedProc_ranked h hkeeps hsched⟩

def OnQueue (s : KState H M) (q : Slot H) : Prop :=
  ∃ k < nrSchedQueues, ∃ l, (s.ready k).Holds l ∧ q ∈ l

def Restores (s : KState H M) : Prop :=
  (s.proc s.procPtr).isRunnable = true ∧ (s.proc s.procPtr).cpuTimeLeft ≠ 0

def RestoresBest (s : KState H M) : Prop :=
  Restores s → s.preemptible → ∀ q, OnQueue s q →
    (s.proc s.procPtr).priority ≤ (s.proc q).priority

theorem restoresBest_of_ranked (hqueues : RunQueues s) (h : Ranked s) : RestoresBest s := by
  rintro ⟨hrun, -⟩ hpre q ⟨k, hk, l, hl, hq⟩
  obtain ⟨L, hL⟩ := hqueues.queues
  obtain rfl := path_unique hl (hL.holds k hk)
  obtain ⟨hqrun, -⟩ := (hL.mem k hk q).mp hq
  rcases h q hqrun with hmarked | hfixed | hle
  · rw [isRunnable_iff] at hrun
    rw [Proc.marked, hrun] at hmarked
    exact absurd BitVec.zero_and hmarked
  · exact absurd hpre hfixed
  · exact hle

theorem restoresBest {past : List (KState H M × PreemptOp H M)}
    (h : Run (preemptSystem H M) (fun _ s op => ¬ LeavesBetter s op) past s) :
    RestoresBest s := by
  have hkept := h.invariant (P := fun s => RunQueues s ∧ Ranked s)
    (fun s hinit => ⟨runQueues_initial hinit, fun q hq => ?_⟩)
    fun _ s op t hs hkeeps hstep => preempt_step hs.1 hs.2 hstep.1 hkeeps hstep.2
  · exact restoresBest_of_ranked hkept.1 hkept.2
  · rw [hinit.2 q] at hq
    cases hq

section Sample

def stoppedAll : KState Headers.sample ℕ := KState.sample fun _ => RTS_NO_QUANTUM

def startSixth : PreemptOp Headers.sample ℕ := .queue (.schedProc 6 10 200)
def startFifth : PreemptOp Headers.sample ℕ := .queue (.schedProc 5 7 200)
def lowerFifth : PreemptOp Headers.sample ℕ := .queue (.schedProc 5 15 200)

theorem preempt_next {ok : List (KState H M × PreemptOp H M) → KState H M → PreemptOp H M → Prop}
    {past : List (KState H M × PreemptOp H M)} (h : Run (preemptSystem H M) ok past s)
    (op : PreemptOp H M) (hok : ok past s op) (hmarks : MarksKept s op)
    (hs : op.perform s = .ok t) : Run (preemptSystem H M) ok ((s, op) :: past) t :=
  h.next hok ⟨hmarks, hs⟩

theorem restoresBest_started : ∃ past, ∃ s : KState Headers.sample ℕ,
    Run (preemptSystem _ _) (fun _ s op => ¬ LeavesBetter s op) past s ∧
    Restores s ∧ s.procPtr = 5 ∧ RestoresBest s := by
  have hstart : Run (preemptSystem Headers.sample ℕ) (fun _ s op => ¬ LeavesBetter s op) []
      stoppedAll := .start ⟨fun _ _ => ⟨rfl, rfl⟩, fun _ => rfl⟩
  have hsixth := preempt_next hstart startSixth (fun h => absurd h.1 (by decide)) trivial rfl
  have hfifth := preempt_next hsixth startFifth (fun h => absurd h.1 (by decide)) trivial rfl
  have hpicked := preempt_next hfifth (.queue .pickNew) id rfl rfl
  exact ⟨_, _, hpicked, ⟨rfl, by decide⟩, rfl, restoresBest hpicked⟩

theorem lowered_keeps_running : ¬ ∀ (H : Headers) (M : Type) (s : KState H M),
    (preemptSystem H M).Reachable s → RestoresBest s := by
  intro hall
  have hstart : Run (preemptSystem Headers.sample ℕ) always [] stoppedAll :=
    .start ⟨fun _ _ => ⟨rfl, rfl⟩, fun _ => rfl⟩
  have hsixth := preempt_next hstart startSixth trivial trivial rfl
  have hfifth := preempt_next hsixth startFifth trivial trivial rfl
  have hpicked := preempt_next hfifth (.queue .pickNew) trivial rfl rfl
  have hlowered := preempt_next hpicked lowerFifth trivial trivial rfl
  have hbest := hall _ _ _ ⟨_, hlowered⟩ ⟨rfl, by decide⟩ rfl 6
    ⟨10, by decide, [6], ⟨rfl, rfl⟩, List.mem_cons_self⟩
  exact absurd hbest (by decide)

end Sample

end Kernel
