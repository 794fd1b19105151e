import Cs111.Kernel.Scheduling

namespace Kernel
open Minix FlagWord Chain
variable {H : Headers} {M : Type} {s t : KState H M} {caller p rp : Slot H} {r : Errno}
  {f : Flags} {priority quantum : ℕ}

structure ScheduleMessage where
  schedulingEndpoint : ℤ
  schedulingPriority : BitVec 32
  schedulingQuantum : BitVec 32
  deriving DecidableEq, Repr

structure SchedctlMessage where
  schedctlFlags : BitVec 32
  schedctlEndpoint : ℤ
  schedctlPriority : BitVec 32
  schedctlQuantum : BitVec 32
  deriving DecidableEq, Repr

def doSchedule (s : KState H M) (caller : Slot H) (m : ScheduleMessage) :
    Except Fault (Errno × KState H M) :=
  match isokendpt s m.schedulingEndpoint with
  | none => .ok (.EINVAL, s)
  | some p =>
    if (s.proc p).scheduler ≠ some caller then .ok (.EPERM, s)
    else schedProc s p m.schedulingPriority.toNat m.schedulingQuantum.toNat

-- The first argument is SCHEDCTL_FLAG_KERNEL. What a failed sched_proc gives back is the value
-- of its comparison with OK.
def doSchedctl (flagKernel : BitVec 32) (s : KState H M) (caller : Slot H)
    (m : SchedctlMessage) : Except Fault (Errno × KState H M) :=
  if m.schedctlFlags &&& ~~~flagKernel ≠ 0 then .ok (.EINVAL, s)
  else
    match isokendpt s m.schedctlEndpoint with
    | none => .ok (.EINVAL, s)
    | some p =>
      if m.schedctlFlags &&& flagKernel = flagKernel then do
        let (r, s) ← schedProc s p m.schedctlPriority.toNat m.schedctlQuantum.toNat
        if r ≠ .OK then pure (.other 1, s)
        else pure (.OK, s.upd p fun x => { x with scheduler := none })
      else .ok (.OK, s.upd p fun x => { x with scheduler := some caller })

inductive SchedRequest where
  | schedule (m : ScheduleMessage)
  | schedctl (m : SchedctlMessage)
  deriving DecidableEq, Repr

def SchedRequest.perform (flagKernel : BitVec 32) (s : KState H M) (caller : Slot H) :
    SchedRequest → Except Fault (Errno × KState H M)
  | .schedule m => doSchedule s caller m
  | .schedctl m => doSchedctl flagKernel s caller m

def negative : Errno → Prop
  | .OK => False
  | .other code => code < 0
  | _ => True

inductive Reaches (flagKernel : BitVec 32) (s : KState H M) (caller : Slot H) :
    SchedRequest → Slot H → ℕ → ℕ → Prop
  | schedule {m p} : isokendpt s m.schedulingEndpoint = some p →
      (s.proc p).scheduler = some caller →
      Reaches flagKernel s caller (.schedule m) p m.schedulingPriority.toNat
        m.schedulingQuantum.toNat
  | schedctl {m p} : m.schedctlFlags &&& ~~~flagKernel = 0 →
      isokendpt s m.schedctlEndpoint = some p → m.schedctlFlags &&& flagKernel = flagKernel →
      Reaches flagKernel s caller (.schedctl m) p m.schedctlPriority.toNat
        m.schedctlQuantum.toNat

inductive Takes (flagKernel : BitVec 32) (s : KState H M) : SchedRequest → Slot H → Prop
  | intro {m p} : m.schedctlFlags &&& ~~~flagKernel = 0 →
      isokendpt s m.schedctlEndpoint = some p → m.schedctlFlags &&& flagKernel ≠ flagKernel →
      Takes flagKernel s (.schedctl m) p

def InBounds (priority quantum : ℕ) : Prop :=
  taskQ ≤ priority ∧ priority < nrSchedQueues ∧ 0 < quantum

def Acceptable (flagKernel : BitVec 32) (s : KState H M) (caller : Slot H)
    (req : SchedRequest) : Prop :=
  (∃ p, Takes flagKernel s req p) ∨
    ∃ p priority quantum, Reaches flagKernel s caller req p priority quantum ∧
      InBounds priority quantum

def QueueIndices (s : KState H M) : Prop := ∀ p, (s.proc p).priority < nrSchedQueues

structure RequestRight (flagKernel : BitVec 32) (s : KState H M) (caller : Slot H)
    (req : SchedRequest) : Prop where
  rejects : ¬ Acceptable flagKernel s caller req →
    ∃ r, negative r ∧ req.perform flagKernel s caller = .ok (r, s)
  accepts : Acceptable flagKernel s caller req →
    ∀ r t, req.perform flagKernel s caller = .ok (r, t) → r = .OK
  indices : QueueIndices s → req.perform flagKernel s caller ≠ .error .outOfBounds ∧
    ∀ r t, req.perform flagKernel s caller = .ok (r, t) → QueueIndices t

def Slips (flagKernel : BitVec 32) (s : KState H M) (caller : Slot H) (req : SchedRequest) :
    Prop :=
  ∃ p priority quantum, Reaches flagKernel s caller req p priority quantum ∧
    (priority = nrSchedQueues ∧ 0 < quantum ∨
      (∃ m, req = .schedctl m) ∧ (nrSchedQueues < priority ∨ quantum = 0))

section Indices

theorem bind_ne_error {α β : Type} {x : Except Fault α} {g : α → Except Fault β} {e : Fault}
    (hx : x ≠ .error e) (hg : ∀ a, x = .ok a → g a ≠ .error e) : (x >>= g) ≠ .error e := by
  cases x with
  | error e' => exact fun h => hx (congrArg Except.error (Except.error.inj h))
  | ok a => exact hg a rfl

theorem kassert_indices (b : Bool) : kassert b ≠ .error .outOfBounds := by
  cases b <;> rintro ⟨⟩

theorem inQueues_indices {q : ℕ} (hq : q < nrSchedQueues) : inQueues q ≠ .error .outOfBounds := by
  rw [inQueues, if_pos hq]
  rintro ⟨⟩

theorem rtsSet_priority (h : rtsSet s rp f = .ok t) (i : Slot H) :
    (t.proc i).priority = (s.proc i).priority := by
  rw [(Rescheduled.of_rtsSet h).view_eq (v := Proc.priority) (fun _ => rfl) i, setRts_priority]

theorem rtsUnset_priority (h : rtsUnset s rp f = .ok t) (i : Slot H) :
    (t.proc i).priority = (s.proc i).priority := by
  rw [(Rescheduled.rtsUnset h).view_eq (v := Proc.priority) (fun _ => rfl) i, setRts_priority]

theorem QueueIndices.of_same (h : QueueIndices s)
    (hsame : ∀ i, (t.proc i).priority = (s.proc i).priority) : QueueIndices t := by
  intro i
  rw [hsame]
  exact h i

theorem dequeue_indices (h : QueueIndices s) : dequeue s rp ≠ .error .outOfBounds := by
  rw [dequeue]
  refine bind_ne_error (kassert_indices _) fun _ _ => ?_
  refine bind_ne_error (inQueues_indices (h rp)) fun _ _ => ?_
  split
  · rintro ⟨⟩
  · split <;> rintro ⟨⟩

theorem rtsSet_indices (h : QueueIndices s) : rtsSet s rp f ≠ .error .outOfBounds := by
  rw [rtsSet]
  split
  · exact dequeue_indices (h.of_same fun _ => setRts_priority)
  · rintro ⟨⟩

theorem linkTail_same {q : ℕ} (h : linkTail s rp q = .ok t) : t.proc = s.proc := by
  rw [linkTail] at h
  split at h
  · cases h
    rfl
  · split at h
    · cases h
    · cases h
      rfl

theorem enqueue_indices (h : QueueIndices s) : enqueue s rp ≠ .error .outOfBounds := by
  rw [enqueue]
  refine bind_ne_error (kassert_indices _) fun _ _ => ?_
  refine bind_ne_error (inQueues_indices (h rp)) fun _ _ => ?_
  refine bind_ne_error ?_ fun t ht => ?_
  · rw [linkTail]
    split
    · rintro ⟨⟩
    · split <;> rintro ⟨⟩
  · split
    · exact rtsSet_indices (h.of_same fun i => by rw [linkTail_same ht])
    · rintro ⟨⟩

theorem rtsUnset_indices (h : QueueIndices s) : rtsUnset s rp f ≠ .error .outOfBounds := by
  rw [rtsUnset]
  split
  · exact enqueue_indices (h.of_same fun _ => setRts_priority)
  · rintro ⟨⟩

end Indices

section SchedProc

theorem stopRunnable_priority (h : stopRunnable s rp = .ok t) (i : Slot H) :
    (t.proc i).priority = (s.proc i).priority := by
  rw [stopRunnable] at h
  split at h
  · exact rtsSet_priority h i
  · cases h
    rfl

theorem schedProc_refuses (h : nrSchedQueues < priority ∨ quantum = 0) :
    schedProc s rp priority quantum = .ok (.EINVAL, s) := by
  rw [schedProc]
  split
  · rfl
  · rename_i hrange
    rw [if_pos (h.resolve_left fun hgt => hrange (.inr hgt))]

theorem schedProc_passes (hprio : priority ≤ nrSchedQueues) (hquantum : 0 < quantum)
    (h : schedProc s rp priority quantum = .ok (r, t)) :
    r = .OK ∧ ∀ i, (t.proc i).priority = if i = rp then priority else (s.proc i).priority := by
  rw [schedProc, if_neg (by simp only [taskQ]; omega), if_neg (by omega)] at h
  obtain ⟨u, hu, h⟩ := bind_ok.mp h
  obtain ⟨v, hv, h⟩ := bind_ok.mp h
  obtain ⟨rfl, rfl⟩ := Prod.mk.inj (pure_ok.mp h)
  refine ⟨rfl, fun i => ?_⟩
  rw [rtsUnset_priority hv, proc_upd_apply]
  split
  · rfl
  · exact stopRunnable_priority hu i

theorem schedProc_indices (h : QueueIndices s) (hprio : priority < nrSchedQueues) :
    schedProc s rp priority quantum ≠ .error .outOfBounds := by
  rw [schedProc]
  split
  · rintro ⟨⟩
  · split
    · rintro ⟨⟩
    · refine bind_ne_error ?_ fun u hu => ?_
      · rw [stopRunnable]
        split
        · exact rtsSet_indices h
        · rintro ⟨⟩
      · refine bind_ne_error (rtsUnset_indices ?_) fun _ _ => by rintro ⟨⟩
        intro i
        rw [proc_upd_apply]
        split
        · exact hprio
        · rw [stopRunnable_priority hu]
          exact h i

theorem schedProc_keeps_indices (h : QueueIndices s) (hprio : priority < nrSchedQueues)
    (hs : schedProc s rp priority quantum = .ok (r, t)) : QueueIndices t := by
  by_cases hquantum : 0 < quantum
  · intro i
    rw [(schedProc_passes hprio.le hquantum hs).2]
    split
    · exact hprio
    · exact h i
  · rw [schedProc_refuses (.inr (by omega))] at hs
    cases hs
    exact h

end SchedProc

section Requests
variable {flagKernel : BitVec 32} {req : SchedRequest}

inductive RequestOutcome (flagKernel : BitVec 32) (s : KState H M) (caller : Slot H) :
    SchedRequest → Except Fault (Errno × KState H M) → Prop
  | taken {req : SchedRequest} {p} : Takes flagKernel s req p →
      RequestOutcome flagKernel s caller req
        (.ok (.OK, s.upd p fun x => { x with scheduler := some caller }))
  | failed {req : SchedRequest} {r} : negative r → (∀ p, ¬ Takes flagKernel s req p) →
      (∀ p priority quantum, ¬ Reaches flagKernel s caller req p priority quantum) →
      RequestOutcome flagKernel s caller req (.ok (r, s))
  | scheduled {m p} : Reaches flagKernel s caller (.schedule m) p m.schedulingPriority.toNat
        m.schedulingQuantum.toNat →
      RequestOutcome flagKernel s caller (.schedule m)
        (schedProc s p m.schedulingPriority.toNat m.schedulingQuantum.toNat)
  | controlled {m p} : Reaches flagKernel s caller (.schedctl m) p m.schedctlPriority.toNat
        m.schedctlQuantum.toNat →
      RequestOutcome flagKernel s caller (.schedctl m)
        (schedProc s p m.schedctlPriority.toNat m.schedctlQuantum.toNat >>= fun r =>
          if r.1 ≠ .OK then pure (.other 1, r.2)
          else pure (.OK, r.2.upd p fun x => { x with scheduler := none }))

theorem requestOutcome (flagKernel : BitVec 32) (s : KState H M) (caller : Slot H)
    (req : SchedRequest) :
    RequestOutcome flagKernel s caller req (req.perform flagKernel s caller) := by
  cases req with
  | schedule m =>
    rw [SchedRequest.perform, doSchedule]
    cases hend : isokendpt s m.schedulingEndpoint with
    | none =>
      refine .failed trivial (by rintro p ⟨⟩) ?_
      rintro p priority quantum ⟨hend', -⟩
      rw [hend] at hend'
      cases hend'
    | some p =>
      dsimp only
      split
      · rename_i hother
        refine .failed trivial (by rintro p ⟨⟩) ?_
        rintro q priority quantum ⟨hend', hscheduler⟩
        obtain rfl := Option.some.inj (hend.symm.trans hend')
        exact hother hscheduler
      · rename_i hscheduler
        exact .scheduled (.schedule hend (not_not.mp hscheduler))
  | schedctl m =>
    rw [SchedRequest.perform, doSchedctl]
    split
    · rename_i hflags
      refine .failed trivial ?_ ?_
      · rintro p ⟨hflags', -⟩
        exact hflags hflags'
      · rintro p priority quantum (_ | ⟨hflags', -⟩)
        exact hflags hflags'
    · rename_i hflags
      rw [not_not] at hflags
      cases hend : isokendpt s m.schedctlEndpoint with
      | none =>
        refine .failed trivial ?_ ?_
        · rintro p ⟨-, hend', -⟩
          rw [hend] at hend'
          cases hend'
        · rintro p priority quantum (_ | ⟨-, hend', -⟩)
          rw [hend] at hend'
          cases hend'
      | some p =>
        dsimp only
        split
        · rename_i hkernel
          exact .controlled (.schedctl hflags hend hkernel)
        · rename_i hkernel
          exact .taken ⟨hflags, hend, hkernel⟩

theorem Reaches.not_takes {q : Slot H} (h : Reaches flagKernel s caller req p priority quantum) :
    ¬ Takes flagKernel s req q := by
  rintro ⟨-, -, hkernel⟩
  cases h with
  | schedctl _ _ hkernel' => exact hkernel hkernel'

theorem Reaches.unique {q : Slot H} {priority' quantum' : ℕ}
    (h : Reaches flagKernel s caller req p priority quantum)
    (h' : Reaches flagKernel s caller req q priority' quantum') :
    priority' = priority ∧ quantum' = quantum := by
  cases h with
  | schedule => cases h' with | schedule => exact ⟨rfl, rfl⟩
  | schedctl => cases h' with | schedctl => exact ⟨rfl, rfl⟩

theorem Reaches.acceptable_iff (h : Reaches flagKernel s caller req p priority quantum) :
    Acceptable flagKernel s caller req ↔ InBounds priority quantum := by
  constructor
  · rintro (⟨q, htakes⟩ | ⟨q, priority', quantum', hreaches, hbounds⟩)
    · exact absurd htakes h.not_takes
    · obtain ⟨rfl, rfl⟩ := h.unique hreaches
      exact hbounds
  · intro hbounds
    exact .inr ⟨p, priority, quantum, h, hbounds⟩

theorem Reaches.slips_iff (h : Reaches flagKernel s caller req p priority quantum) :
    Slips flagKernel s caller req ↔ priority = nrSchedQueues ∧ 0 < quantum ∨
      (∃ m, req = .schedctl m) ∧ (nrSchedQueues < priority ∨ quantum = 0) := by
  constructor
  · rintro ⟨q, priority', quantum', hreaches, hslip⟩
    obtain ⟨rfl, rfl⟩ := h.unique hreaches
    exact hslip
  · intro hslip
    exact ⟨p, priority, quantum, h, hslip⟩

theorem inBounds_or (priority quantum : ℕ) : InBounds priority quantum ∨
    priority = nrSchedQueues ∧ 0 < quantum ∨ nrSchedQueues < priority ∨ quantum = 0 := by
  simp only [InBounds, taskQ]
  omega

theorem schedule_requestRight (h : ¬ Slips flagKernel s caller req) :
    RequestRight flagKernel s caller req := by
  have houtcome := requestOutcome flagKernel s caller req
  generalize hresult : req.perform flagKernel s caller = result at houtcome
  cases houtcome with
  | @taken _ p htakes =>
    have hok : Acceptable flagKernel s caller req := .inl ⟨p, htakes⟩
    refine ⟨fun hno => absurd hok hno, fun _ r t hrt => ?_, fun hindices => ?_⟩
    · rw [hresult] at hrt
      cases hrt
      rfl
    · rw [hresult]
      refine ⟨by rintro ⟨⟩, fun r t hrt => ?_⟩
      cases hrt
      refine hindices.of_same fun i => ?_
      rw [proc_upd_apply]
      split
      · rename_i hi
        rw [hi]
      · rfl
  | @failed _ r hnegative htakes hreaches =>
    refine ⟨fun _ => ⟨r, hnegative, hresult⟩, ?_, fun hindices => ?_⟩
    · rintro (⟨p, htaken⟩ | ⟨p, priority, quantum, hreached, -⟩)
      · exact absurd htaken (htakes p)
      · exact absurd hreached (hreaches p priority quantum)
    · rw [hresult]
      refine ⟨by rintro ⟨⟩, fun r t hrt => ?_⟩
      cases hrt
      exact hindices
  | @scheduled m p hreaches =>
    rw [hreaches.slips_iff] at h
    have hbounds := hreaches.acceptable_iff
    rcases inBounds_or m.schedulingPriority.toNat m.schedulingQuantum.toNat with
      hin | hedge | hout
    · refine ⟨fun hno => absurd (hbounds.mpr hin) hno, fun _ r t hrt => ?_, fun hindices => ?_⟩
      · rw [hresult] at hrt
        exact (schedProc_passes hin.2.1.le hin.2.2 hrt).1
      · rw [hresult]
        exact ⟨schedProc_indices hindices hin.2.1,
          fun r t hrt => schedProc_keeps_indices hindices hin.2.1 hrt⟩
    · exact absurd (.inl hedge) h
    · rw [schedProc_refuses hout] at hresult
      refine ⟨fun _ => ⟨.EINVAL, trivial, hresult⟩, fun hok => ?_, fun hindices => ?_⟩
      · have hin := hbounds.mp hok
        simp only [InBounds] at hin
        omega
      · rw [hresult]
        refine ⟨by rintro ⟨⟩, fun r t hrt => ?_⟩
        cases hrt
        exact hindices
  | @controlled m p hreaches =>
    rw [hreaches.slips_iff] at h
    rcases inBounds_or m.schedctlPriority.toNat m.schedctlQuantum.toNat with hin | hedge | hout
    · have hok := hreaches.acceptable_iff.mpr hin
      -- what sched_proc gives back decides the reply and loses the scheduler
      have hreply {r : Errno} {t : KState H M}
          (hrt : SchedRequest.perform flagKernel s caller (.schedctl m) = .ok (r, t)) :
          r = .OK ∧ ∀ i, (t.proc i).priority =
            if i = p then m.schedctlPriority.toNat else (s.proc i).priority := by
        rw [hresult] at hrt
        obtain ⟨⟨r', u⟩, hu, hrt⟩ := bind_ok.mp hrt
        obtain ⟨rfl, hprio⟩ := schedProc_passes hin.2.1.le hin.2.2 hu
        obtain ⟨rfl, rfl⟩ := Prod.mk.inj (pure_ok.mp hrt)
        refine ⟨rfl, fun i => ?_⟩
        rw [← hprio, proc_upd_apply]
        split
        · rename_i hi
          rw [hi]
        · rfl
      refine ⟨fun hno => absurd hok hno, fun _ r t hrt => (hreply hrt).1, fun hindices => ?_⟩
      constructor
      · rw [hresult]
        refine bind_ne_error (schedProc_indices hindices hin.2.1) fun _ _ => ?_
        split <;> rintro ⟨⟩
      · intro r t hrt i
        rw [(hreply hrt).2]
        split
        · exact hin.2.1
        · exact hindices i
    · exact absurd (.inl hedge) h
    · exact absurd (.inr ⟨⟨m, rfl⟩, hout⟩) h

theorem Slips.wrong (h : Slips flagKernel s caller req) :
    ¬ RequestRight flagKernel s caller req := by
  intro hright
  obtain ⟨p, priority, quantum, hreaches, hslip⟩ := h
  have hno : ¬ Acceptable flagKernel s caller req := by
    rw [hreaches.acceptable_iff]
    simp only [InBounds]
    omega
  obtain ⟨r, hnegative, hresult⟩ := hright.rejects hno
  have houtcome := requestOutcome flagKernel s caller req
  generalize hgiven : req.perform flagKernel s caller = result at houtcome
  rw [hgiven] at hresult
  cases houtcome with
  | @taken _ q htakes => exact hreaches.not_takes htakes
  | failed _ _ hreached => exact hreached p priority quantum hreaches
  | @scheduled m q hreached =>
    obtain ⟨rfl, rfl⟩ := hreached.unique hreaches
    rcases hslip with ⟨hprio, hquantum⟩ | ⟨⟨m', hm⟩, -⟩
    · obtain ⟨rfl, -⟩ := schedProc_passes hprio.le hquantum hresult
      exact hnegative
    · cases hm
  | @controlled m q hreached =>
    obtain ⟨rfl, rfl⟩ := hreached.unique hreaches
    rcases hslip with ⟨hprio, hquantum⟩ | ⟨-, hout⟩
    · obtain ⟨⟨r', u⟩, hu, hresult⟩ := bind_ok.mp hresult
      obtain ⟨rfl, -⟩ := schedProc_passes hprio.le hquantum hu
      obtain ⟨rfl, -⟩ := Prod.mk.inj (pure_ok.mp hresult)
      exact hnegative
    · rw [schedProc_refuses hout] at hresult
      obtain ⟨rfl, -⟩ := Prod.mk.inj (pure_ok.mp hresult)
      exact absurd hnegative (by decide : ¬ (1 : ℤ) < 0)

theorem schedule_requestRight_iff (flagKernel : BitVec 32) (s : KState H M) (caller : Slot H)
    (req : SchedRequest) :
    RequestRight flagKernel s caller req ↔ ¬ Slips flagKernel s caller req :=
  ⟨fun hright hslips => hslips.wrong hright, schedule_requestRight⟩

theorem last_queue_accepted :
    ¬ ∀ (H : Headers) (flagKernel : BitVec 32) (s : KState H ℕ) (caller : Slot H)
      (req : SchedRequest), RequestRight flagKernel s caller req := by
  intro hall
  have hright := hall .sample 1 (KState.sample fun _ => RTS_P_STOP) (4 : Fin 12)
    (.schedctl ⟨1, 32769, 18, 200⟩)
  have hindices := (hright.indices fun _ => (by decide : 7 < nrSchedQueues)).2 .OK _ rfl (5 : Fin 12)
  exact absurd hindices (by decide)

end Requests

end Kernel
