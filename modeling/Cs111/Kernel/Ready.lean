import Cs111.Kernel.Proc

namespace Kernel
open Minix FlagWord Chain
variable {H : Headers} {M : Type}

def inQueues (q : ℕ) : Except Fault Unit :=
  if q < nrSchedQueues then .ok () else .error .outOfBounds

def prevXp (xpp : Cell (Slot H)) : Option (Slot H) :=
  match xpp with
  | .head => none
  | .link i => some i

section Queues
variable (s : KState H M) (rp : Slot H)

def removeReady (q : ℕ) (xpp : Cell (Slot H)) : KState H M :=
  let s := s.setReady q xpp (s.nextready rp)
  if s.rdyTail q = some rp then
    { s with rdyTail := Function.update s.rdyTail q (prevXp xpp) }
  else s

def dequeue : Except Fault (KState H M) := do
  kassert (!(s.proc rp).isRunnable)
  let q := (s.proc rp).priority
  inQueues q
  match seek (s.ready q) (· == rp) (bound H) .head with
  | none => .error .hang
  | some xpp =>
    match (s.ready q).get xpp with
    | none => pure s
    | some _ => pure (removeReady s rp q xpp)

def rtsSet (f : Flags) : Except Fault (KState H M) :=
  let rts := (s.proc rp).rtsFlags
  let s := s.setRts rp (rts ||| f)
  if rtsFIsRunnable rts && !(s.proc rp).isRunnable then dequeue s rp else .ok s

def linkTail (q : ℕ) : Except Fault (KState H M) :=
  match s.rdyHead q with
  | none => .ok { s with
      rdyHead := Function.update s.rdyHead q (some rp)
      rdyTail := Function.update s.rdyTail q (some rp)
      nextready := Function.update s.nextready rp none }
  | some _ =>
    match s.rdyTail q with
    | none => .error .nullPointer
    | some t => .ok { s with
        nextready := Function.update (Function.update s.nextready t (some rp)) rp none
        rdyTail := Function.update s.rdyTail q (some rp) }

def enqueue : Except Fault (KState H M) := do
  kassert (s.proc rp).isRunnable
  let q := (s.proc rp).priority
  inQueues q
  let s ← linkTail s rp q
  if (s.proc s.procPtr).priority > (s.proc rp).priority && (s.privOf s.procPtr).has PREEMPTIBLE then
    rtsSet s s.procPtr RTS_PREEMPTED
  else pure s

def rtsUnset (f : Flags) : Except Fault (KState H M) :=
  let rts := (s.proc rp).rtsFlags
  let s := s.setRts rp (rts &&& ~~~f)
  if !rtsFIsRunnable rts && (s.proc rp).isRunnable then enqueue s rp else .ok s

def rtsSetflags (f : Flags) : Except Fault (KState H M) := do
  let s ← if (s.proc rp).isRunnable && f != 0#16 then dequeue s rp else pure s
  pure (s.setRts rp f)

def linkHead (q : ℕ) : KState H M :=
  match s.rdyHead q with
  | none => { s with
      rdyHead := Function.update s.rdyHead q (some rp)
      rdyTail := Function.update s.rdyTail q (some rp)
      nextready := Function.update s.nextready rp none }
  | some h => { s with
      nextready := Function.update s.nextready rp (some h)
      rdyHead := Function.update s.rdyHead q (some rp) }

def enqueueHead : Except Fault (KState H M) := do
  kassert (s.proc rp).isRunnable
  kassert ((s.proc rp).cpuTimeLeft != 0)
  let q := (s.proc rp).priority
  inQueues q
  pure (linkHead s rp q)

def pickProc : Except Fault (Option (Slot H) × KState H M) :=
  match (List.range nrSchedQueues).findSome? s.rdyHead with
  | none => .ok (none, s)
  | some rp => do
    kassert (s.proc rp).isRunnable
    if (s.privOf rp).has BILLABLE then pure (some rp, { s with billPtr := rp })
    else pure (some rp, s)

end Queues

structure Rescheduled (s s' : KState H M) : Prop where
  rest : s' = { s with
    proc := s'.proc, nextready := s'.nextready, rdyHead := s'.rdyHead, rdyTail := s'.rdyTail }
  proc : ∀ i, s'.proc i = s.proc i ∨
    i = s.procPtr ∧ s'.proc i = (s.proc i).setRts ((s.proc i).rtsFlags ||| RTS_PREEMPTED)

namespace Rescheduled
variable {s s' s'' : KState H M} {rp : Slot H} {f : Flags}

theorem refl (s : KState H M) : Rescheduled s s := ⟨rfl, fun _ => .inl rfl⟩

theorem of_proc_eq (hproc : s'.proc = s.proc)
    (hrest : s' = { s with
      nextready := s'.nextready, rdyHead := s'.rdyHead, rdyTail := s'.rdyTail }) :
    Rescheduled s s' :=
  ⟨by rw [hproc]; exact hrest, fun i => .inl (congrFun hproc i)⟩

theorem procPtr_eq (h : Rescheduled s s') : s'.procPtr = s.procPtr := by rw [h.rest]

theorem priv_eq (h : Rescheduled s s') : s'.priv = s.priv := by rw [h.rest]

theorem view_eq {α : Type} {v : Proc H M → α} (h : Rescheduled s s')
    (hv : ∀ x, v (x.setRts (x.rtsFlags ||| RTS_PREEMPTED)) = v x) (i : Slot H) :
    v (s'.proc i) = v (s.proc i) := by
  rcases h.proc i with hsame | ⟨-, hmarked⟩
  · rw [hsame]
  · rw [hmarked, hv]

theorem removeReady (q : ℕ) (xpp : Cell (Slot H)) :
    (Kernel.removeReady s rp q xpp).proc = s.proc ∧
    Kernel.removeReady s rp q xpp = { s with
      nextready := (Kernel.removeReady s rp q xpp).nextready
      rdyHead := (Kernel.removeReady s rp q xpp).rdyHead
      rdyTail := (Kernel.removeReady s rp q xpp).rdyTail } := by
  rw [Kernel.removeReady]
  cases xpp with
  | head => split <;> exact ⟨rfl, rfl⟩
  | link i => split <;> exact ⟨rfl, rfl⟩

theorem dequeue (h : Kernel.dequeue s rp = .ok s') :
    s'.proc = s.proc ∧ s' = { s with
      nextready := s'.nextready, rdyHead := s'.rdyHead, rdyTail := s'.rdyTail } := by
  simp only [Kernel.dequeue, bind_ok] at h
  obtain ⟨-, -, -, -, h⟩ := h
  split at h
  · cases h
  · split at h
    · cases h
      exact ⟨rfl, rfl⟩
    · cases h
      exact removeReady ..

theorem rtsSet (h : Kernel.rtsSet s rp f = .ok s') :
    s'.proc = (s.setRts rp ((s.proc rp).rtsFlags ||| f)).proc ∧
    s' = { s with
      proc := s'.proc
      nextready := s'.nextready, rdyHead := s'.rdyHead, rdyTail := s'.rdyTail } := by
  rw [Kernel.rtsSet] at h
  split at h
  · obtain ⟨hproc, hrest⟩ := dequeue h
    refine ⟨hproc, ?_⟩
    rw [hproc]
    exact hrest
  · cases h
    exact ⟨rfl, rfl⟩

theorem linkTail {q : ℕ} (h : Kernel.linkTail s rp q = .ok s') :
    s'.proc = s.proc ∧ s' = { s with
      nextready := s'.nextready, rdyHead := s'.rdyHead, rdyTail := s'.rdyTail } := by
  rw [Kernel.linkTail] at h
  split at h
  · cases h
    exact ⟨rfl, rfl⟩
  · split at h
    · cases h
    · cases h
      exact ⟨rfl, rfl⟩

theorem enqueue (h : Kernel.enqueue s rp = .ok s') : Rescheduled s s' := by
  simp only [Kernel.enqueue, bind_ok] at h
  obtain ⟨-, -, -, -, t, hlink, h⟩ := h
  obtain ⟨hproc, hrest⟩ := linkTail hlink
  have hptr : t.procPtr = s.procPtr := by rw [hrest]
  split at h
  · obtain ⟨hproc', hrest'⟩ := rtsSet h
    constructor
    · rw [hrest', hrest]
    · intro i
      rw [hproc', ← hproc, ← hptr]
      by_cases hi : i = t.procPtr
      · subst hi
        exact .inr ⟨rfl, upd_proc_self⟩
      · exact .inl (setRts_proc_of_ne hi)
  · cases h
    exact of_proc_eq hproc hrest

theorem rtsUnset (h : Kernel.rtsUnset s rp f = .ok s') :
    Rescheduled (s.setRts rp ((s.proc rp).rtsFlags &&& ~~~f)) s' := by
  rw [Kernel.rtsUnset] at h
  split at h
  · exact enqueue h
  · cases h
    exact refl _

theorem of_rtsSet (h : Kernel.rtsSet s rp f = .ok s') :
    Rescheduled (s.setRts rp ((s.proc rp).rtsFlags ||| f)) s' := by
  obtain ⟨hproc, hrest⟩ := rtsSet h
  exact of_proc_eq hproc (by rw [hrest, hproc]; rfl)

end Rescheduled

end Kernel
