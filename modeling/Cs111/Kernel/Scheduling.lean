import Cs111.Kernel.Ipc
import Cs111.Kernel.RunQueues
import Cs111.Lib.Runs

namespace Kernel
open Minix FlagWord Chain TransitionSystem
variable {H : Headers} {M : Type}

section Quantum
variable (s : KState H M)

def Proc.kernelScheduler (rp : Proc H M) (p : Slot H) : Bool :=
  rp.scheduler.isNone || rp.scheduler == some p

def notifyScheduler (p : Slot H) : Except Fault (KState H M) := do
  kassert (!(s.proc p).kernelScheduler p)
  let s ← rtsSet s p RTS_NO_QUANTUM
  let mNoQuantum : Message M := ⟨(s.proc p).endpoint, .schedulingNoQuantum⟩
  match (s.proc p).scheduler with
  | none => .error .nullPointer
  | some scheduler =>
    let (err, s) ← miniSend s p (s.proc scheduler).endpoint (some mNoQuantum) ⟨false, true⟩
    if err ≠ .OK then .error .panic else pure s

def procNoTime (p : Slot H) : Except Fault (KState H M) :=
  if !(s.proc p).kernelScheduler p && (s.privOf p).has PREEMPTIBLE then notifyScheduler s p
  else .ok (s.upd p fun x => { x with cpuTimeLeft := H.ms2CpuTime x.quantumSizeMs })

def requeuePreempted : Except Fault (KState H M) :=
  let p := s.procPtr
  if (s.proc p).rtsFlags &&& RTS_PREEMPTED ≠ 0 then
    let s := s.setRts p ((s.proc p).rtsFlags &&& ~~~RTS_PREEMPTED)
    if (s.proc p).isRunnable then
      if (s.proc p).cpuTimeLeft ≠ 0 then enqueueHead s p else enqueue s p
    else .ok s
  else .ok s

def pickNew : Except Fault (KState H M) := do
  let s ← requeuePreempted s
  let (rp, s) ← pickProc s
  match rp with
  | some rp => pure { s with procPtr := rp }
  | none =>
    if (s.privOf H.idle).has BILLABLE then pure { s with procPtr := H.idle, billPtr := H.idle }
    else pure { s with procPtr := H.idle }

def stopRunnable (rp : Slot H) : Except Fault (KState H M) :=
  if (s.proc rp).isRunnable then rtsSet s rp RTS_NO_QUANTUM else .ok s

def schedProc (rp : Slot H) (priority quantum : ℕ) : Except Fault (Errno × KState H M) :=
  if priority < taskQ ∨ nrSchedQueues < priority then .ok (.EINVAL, s)
  else if quantum = 0 then .ok (.EINVAL, s)
  else do
    let s ← stopRunnable s rp
    let s := s.upd rp fun x => { x with
      priority := priority, quantumSizeMs := quantum, cpuTimeLeft := H.ms2CpuTime quantum }
    let s ← rtsUnset s rp RTS_NO_QUANTUM
    pure (.OK, s)

end Quantum

inductive QueueOp (H : Headers) where
  | rtsSet (p : Slot H) (f : Flags)
  | rtsUnset (p : Slot H) (f : Flags)
  | rtsSetflags (p : Slot H) (f : Flags)
  | timeUsed (p : Slot H) (left : ℕ)
  | noTime (p : Slot H)
  | pickNew
  | schedProc (p : Slot H) (priority quantum : ℕ)

def QueueOp.perform (s : KState H M) : QueueOp H → Except Fault (KState H M)
  | .rtsSet p f => Kernel.rtsSet s p f
  | .rtsUnset p f => Kernel.rtsUnset s p f
  | .rtsSetflags p f => Kernel.rtsSetflags s p f
  | .timeUsed p left => .ok (s.upd p fun x => { x with cpuTimeLeft := left })
  | .noTime p => procNoTime s p
  | .pickNew => Kernel.pickNew s
  | .schedProc p priority quantum => (Kernel.schedProc s p priority quantum).map Prod.snd

def emptyQueues (s : KState H M) : Prop :=
  (∀ q < nrSchedQueues, s.rdyHead q = none ∧ s.rdyTail q = none) ∧
    ∀ p, (s.proc p).isRunnable = false

def runQueueSystem (H : Headers) (M : Type) : TransitionSystem (KState H M) (QueueOp H) where
  initial := emptyQueues
  step s op s' := op.perform s = .ok s'

section Invariant
variable {s s' : KState H M} {rp : Slot H} {f : Flags}

theorem rtsSet_runQueues (h : RunQueues s) (hs : rtsSet s rp f = .ok s') : RunQueues s' := by
  obtain ⟨t, ht, hqueues⟩ := rtsSet_spec h rp f
  obtain rfl := Except.ok.inj (hs.symm.trans ht)
  exact hqueues

theorem RunQueues.setCallers (h : RunQueues s) (d : Slot H) (xpp : Cell (Slot H))
    (v : Option (Slot H)) : RunQueues (s.setCallers d xpp v) := by
  cases xpp with
  | head => exact h.upd (f := fun x => { x with callerQ := v }) fun _ => ⟨rfl, rfl⟩
  | link i => exact h.upd (f := fun x => { x with qLink := v }) fun _ => ⟨rfl, rfl⟩

theorem ipcStatusAdd_queues (x : Proc H M) (item : StatusItem) :
    (x.ipcStatusAdd item).priority = x.priority ∧ (x.ipcStatusAdd item).rtsFlags = x.rtsFlags := by
  rw [Proc.ipcStatusAdd]
  split <;> exact ⟨rfl, rfl⟩

theorem receiveSent_queues (x : Proc H M) (flags : SendFlags) (call : CallNr) (m : Message M)
    (source : ℤ) : (x.receiveSent flags call m source).priority = x.priority ∧
      (x.receiveSent flags call m source).rtsFlags = x.rtsFlags := by
  rw [Proc.receiveSent]
  split
  · exact ⟨(ipcStatusAdd_queues ..).1.trans (ipcStatusAdd_queues ..).1,
      (ipcStatusAdd_queues ..).2.trans (ipcStatusAdd_queues ..).2⟩
  · exact ipcStatusAdd_queues ..

theorem holdMessage_queues (x : Proc H M) (flags : SendFlags) (m : Message M) :
    (x.holdMessage flags m).priority = x.priority ∧
      (x.holdMessage flags m).rtsFlags = x.rtsFlags := by
  rw [Proc.holdMessage]
  split <;> exact ⟨rfl, rfl⟩

theorem miniSend_runQueues {dstE : ℤ} {m : Option (Message M)} {flags : SendFlags} {r : Errno}
    (h : RunQueues s) (hs : miniSend s rp dstE m flags = .ok (r, s')) : RunQueues s' := by
  cases miniSend_outcome hs with
  | refused => exact h
  | delivered _ _ _ _ _ hunset =>
    exact rtsUnset_runQueues (h.upd fun x => receiveSent_queues x ..) hunset
  | blocked _ _ _ _ _ _ hset =>
    have hqueues := rtsSet_runQueues (h.upd fun x => holdMessage_queues x ..) hset
    exact (hqueues.upd (f := fun x => { x with sendtoE := dstE }) fun _ => ⟨rfl, rfl⟩).setCallers ..

theorem procNoTime_runQueues (h : RunQueues s) (hs : procNoTime s rp = .ok s') :
    RunQueues s' := by
  rw [procNoTime] at hs
  split at hs
  · rw [notifyScheduler] at hs
    obtain ⟨-, hs⟩ := kassert_bind_ok.mp hs
    obtain ⟨t, ht, hs⟩ := bind_ok.mp hs
    have hqueues := rtsSet_runQueues h ht
    split at hs
    · cases hs
    · obtain ⟨⟨err, u⟩, hu, hs⟩ := bind_ok.mp hs
      dsimp only at hs
      split at hs
      · cases hs
      · cases hs
        exact miniSend_runQueues hqueues hu
  · cases hs
    exact h.upd fun _ => ⟨rfl, rfl⟩

theorem requeuePreempted_runQueues (h : RunQueues s) (hs : requeuePreempted s = .ok s') :
    RunQueues s' := by
  obtain ⟨L, hL⟩ := h.queues
  simp only [requeuePreempted] at hs
  split at hs
  · rename_i hpreempted
    have hoff : ¬ (s.proc s.procPtr).isRunnable = true := by
      rw [isRunnable_iff]
      intro hzero
      simp [hzero] at hpreempted
    split at hs
    · rename_i hstarts
      rw [setRts_isRunnable] at hstarts
      split at hs
      · exact enqueueHead_runQueues h hoff hstarts hs
      · exact enqueue_runQueues h hoff hstarts hs
    · rename_i hstopped
      cases hs
      have hon : ∀ p, ((s.setRts s.procPtr
          ((s.proc s.procPtr).rtsFlags &&& ~~~RTS_PREEMPTED)).proc p).isRunnable = true ↔
          (s.proc p).isRunnable = true := by
        intro p
        by_cases hp : p = s.procPtr
        · subst hp
          simp only [hstopped, hoff]
        · rw [setRts_proc_of_ne hp]
      refine ⟨fun p hrun => ?_, L, hL.setRts hon⟩
      rw [setRts_priority]
      exact h.priority_lt p ((hon p).mp hrun)
  · cases hs
    exact h

theorem pickNew_runQueues (h : RunQueues s) (hs : pickNew s = .ok s') : RunQueues s' := by
  simp only [pickNew, bind_ok] at hs
  obtain ⟨t, ht, ⟨rp, u⟩, hu, hs⟩ := hs
  have hqueues := requeuePreempted_runQueues h ht
  have hpicked : RunQueues u := by
    rw [pickProc] at hu
    split at hu
    · cases hu
      exact hqueues
    · obtain ⟨-, hu⟩ := kassert_bind_ok.mp hu
      split at hu
      · cases hu
        exact hqueues.congr ⟨rfl, rfl, rfl⟩ fun _ => ⟨rfl, rfl⟩
      · cases hu
        exact hqueues
  cases rp with
  | some rp =>
    cases hs
    exact hpicked.congr ⟨rfl, rfl, rfl⟩ fun _ => ⟨rfl, rfl⟩
  | none =>
    dsimp only at hs
    split at hs
    · cases hs
      exact hpicked.congr ⟨rfl, rfl, rfl⟩ fun _ => ⟨rfl, rfl⟩
    · cases hs
      exact hpicked.congr ⟨rfl, rfl, rfl⟩ fun _ => ⟨rfl, rfl⟩

theorem schedProc_runQueues {priority quantum : ℕ} {r : Errno} (h : RunQueues s)
    (hs : schedProc s rp priority quantum = .ok (r, s')) : RunQueues s' := by
  rw [schedProc] at hs
  split at hs
  · cases hs
    exact h
  · split at hs
    · cases hs
      exact h
    · obtain ⟨t, ht, hs⟩ := bind_ok.mp hs
      obtain ⟨u, hu, hs⟩ := bind_ok.mp hs
      cases hs
      have hstopped : RunQueues t ∧ (t.proc rp).isRunnable = false := by
        rw [stopRunnable] at ht
        split at ht
        · refine ⟨rtsSet_runQueues h ht, ?_⟩
          rw [Proc.isRunnable, (Rescheduled.rtsSet ht).1, setRts_rtsFlags, rtsFIsRunnable,
            beq_eq_false_iff_ne, ne_eq, BitVec.or_eq_zero_iff]
          exact fun hzero => absurd hzero.2 (by decide)
        · rename_i hrun
          cases ht
          exact ⟨h, by simpa using hrun⟩
      obtain ⟨hqueues, hoff⟩ := hstopped
      obtain ⟨L, hL⟩ := hqueues.queues
      refine rtsUnset_runQueues ⟨fun p hrun => ?_, L, ?_⟩ hu
      · by_cases hp : p = rp
        · subst hp
          rw [upd_proc_self, Proc.isRunnable] at hrun
          rw [Proc.isRunnable, hrun] at hoff
          cases hoff
        · rw [upd_proc_of_ne hp] at hrun ⊢
          exact hqueues.priority_lt p hrun
      · refine ⟨hL.holds, hL.tail, fun q hq p => ?_⟩
        rw [hL.mem q hq p]
        by_cases hp : p = rp
        · subst hp
          rw [upd_proc_self]
          have hoff' : ¬ (t.proc p).isRunnable = true := by simp [hoff]
          exact ⟨fun hon => absurd hon.1 hoff', fun hon => absurd hon.1 hoff'⟩
        · rw [upd_proc_of_ne hp]

def KeepsQueues (s : KState H M) : QueueOp H → Prop
  | .rtsSetflags p f => f ≠ 0#16 ∨ (s.proc p).isRunnable = true
  | .schedProc _ priority _ => priority < nrSchedQueues
  | _ => True

theorem runQueues_step {op : QueueOp H} (h : RunQueues s) (hok : KeepsQueues s op)
    (hs : op.perform s = .ok s') : RunQueues s' := by
  cases op with
  | rtsSet p f => exact rtsSet_runQueues h hs
  | rtsUnset p f => exact rtsUnset_runQueues h hs
  | rtsSetflags p f => exact rtsSetflags_runQueues h hok hs
  | timeUsed p left =>
    cases hs
    exact h.upd fun _ => ⟨rfl, rfl⟩
  | noTime p => exact procNoTime_runQueues h hs
  | pickNew => exact pickNew_runQueues h hs
  | schedProc p priority quantum =>
    rw [QueueOp.perform] at hs
    cases hsched : schedProc s p priority quantum with
    | error e => simp [hsched, Except.map] at hs
    | ok r =>
      rw [hsched] at hs
      cases hs
      exact schedProc_runQueues h hsched

theorem runQueues_initial (h : emptyQueues s) : RunQueues s := by
  refine ⟨fun p hrun => ?_, fun _ => [], fun q hq => (h.1 q hq).1, fun q hq => (h.1 q hq).2, ?_⟩
  · rw [h.2 p] at hrun
    exact absurd hrun (by simp)
  · intro q _ p
    simp [h.2 p]

end Invariant

def QueuesRunnable (s : KState H M) : Prop :=
  ∃ L : ℕ → List (Slot H),
    (∀ q < nrSchedQueues, (s.ready q).Holds (L q) ∧ (L q).Nodup ∧ s.rdyTail q = (L q).getLast?) ∧
    (∀ p, (s.proc p).isRunnable = true →
      (s.proc p).priority < nrSchedQueues ∧ p ∈ L (s.proc p).priority) ∧
    ∀ q < nrSchedQueues, ∀ p ∈ L q, (s.proc p).isRunnable = true ∧ (s.proc p).priority = q

theorem RunQueues.runnable {s : KState H M} (h : RunQueues s) : QueuesRunnable s := by
  obtain ⟨L, hL⟩ := h.queues
  refine ⟨L, fun q hq => ⟨hL.holds q hq, path_nodup (hL.holds q hq), hL.tail q hq⟩, ?_, ?_⟩
  · intro p hrun
    have hprio := h.priority_lt p hrun
    exact ⟨hprio, (hL.mem _ hprio p).mpr ⟨hrun, rfl⟩⟩
  · intro q hq p hp
    exact (hL.mem q hq p).mp hp

theorem queuesHold_runnable {past : List (KState H M × QueueOp H)} {s : KState H M}
    (h : Run (runQueueSystem H M) (fun _ s op => KeepsQueues s op) past s) : QueuesRunnable s := by
  refine (h.invariant (fun _ hinit => runQueues_initial hinit) ?_).runnable
  intro _ s op s' hqueues hok hstep
  exact runQueues_step hqueues hok hstep

theorem queuesHold_started : ∃ past, ∃ s : KState Headers.sample ℕ,
    Run (runQueueSystem _ _) (fun _ s op => KeepsQueues s op) past s ∧
    (s.proc 5).isRunnable = true ∧ QueuesRunnable s := by
  have hrun : Run (runQueueSystem Headers.sample ℕ) (fun _ s op => KeepsQueues s op)
      [(KState.sample fun _ => RTS_SLOT_FREE, .rtsUnset 5 RTS_SLOT_FREE)] _ :=
    .next (.start ⟨fun _ _ => ⟨rfl, rfl⟩, fun _ => rfl⟩) trivial rfl
  exact ⟨_, _, hrun, rfl, queuesHold_runnable hrun⟩

theorem setflags_leavesQueues : ∃ past s,
    Run (runQueueSystem Headers.sample ℕ) always past s ∧ ¬ QueuesRunnable s := by
  refine ⟨[(KState.sample fun _ => RTS_SLOT_FREE, .rtsSetflags 5 0)], _,
    .next (.start ⟨fun _ _ => ⟨rfl, rfl⟩, fun _ => rfl⟩) trivial rfl, ?_⟩
  rintro ⟨L, hholds, hon, -⟩
  obtain ⟨hprio, hmem⟩ := hon 5 rfl
  have hempty : L 7 = [] := path_unique (hholds 7 (by decide)).1 rfl
  exact absurd (hempty ▸ hmem) List.not_mem_nil

end Kernel
