import Cs111.Lib.Binary64
import Cs111.Lib.Runs
import Cs111.Sched.Schedproc

namespace Sched
open Minix

structure Handled (H : Headers) where
  result : Errno
  s : State H
  m : Message

variable {H : Headers}

section Handlers
variable (k : KernelReplies) (s : State H) (m : Message)

def scheduleProcess (rmp : Schedproc) : Errno :=
  k.sysSchedule rmp.endpoint rmp.priority rmp.timeSlice

def lowerPriority (rmp : Schedproc) : Schedproc :=
  if rmp.priority.toNat < minUserQ then { rmp with priority := rmp.priority + 1 } else rmp

def doNoquantum : Handled H :=
  match schedIsokendpt s m.source with
  | .error _ => ⟨.EBADEPT, s, m⟩
  | .ok i =>
    let rmp := lowerPriority (s.schedproc i)
    ⟨scheduleProcess k rmp, s.set i rmp, m⟩

def doStopScheduling : Handled H :=
  if acceptMessage H m = false then ⟨.EPERM, s, m⟩
  else
    match schedIsokendpt s m.schedulingEndpoint with
    | .error _ => ⟨.EBADEPT, s, m⟩
    | .ok i => ⟨.OK, s.set i { s.schedproc i with flags := 0 }, m⟩

def populateSlot (rmp : Schedproc) : Schedproc :=
  { rmp with
    endpoint := m.schedulingEndpoint
    parent := m.schedulingParent
    maxPriority := m.schedulingMaxprio }

def startValues (type : StartType) (rmp : Schedproc) : Except Errno Schedproc :=
  match type with
  | .SCHEDULING_START =>
    .ok { rmp with priority := rmp.maxPriority, tickets := 20, timeSlice := m.schedulingQuantum }
  | .SCHEDULING_INHERIT =>
    match schedIsokendpt s m.schedulingParent with
    | .error rv => .error rv
    | .ok p =>
      let parent := s.schedproc p
      .ok { rmp with
        priority := parent.priority, tickets := parent.tickets, timeSlice := parent.timeSlice }

def doStartScheduling (type : StartType) : Handled H :=
  if acceptMessage H m = false then ⟨.EPERM, s, m⟩
  else
    match schedIsemtyendpt s m.schedulingEndpoint with
    | .error rv => ⟨rv, s, m⟩
    | .ok i =>
      let rmp := populateSlot m (s.schedproc i)
      let s := s.set i rmp
      if nrSchedQueues ≤ rmp.maxPriority.toNat then ⟨.EINVAL, s, m⟩
      else
        match startValues s m type rmp with
        | .error rv => ⟨rv, s, m⟩
        | .ok rmp =>
          let s := { s.set i rmp with totalTickets := s.totalTickets + rmp.tickets }
          match k.sysSchedctl 0 rmp.endpoint 0 0 with
          | .OK =>
            let rmp := { rmp with flags := IN_USE }
            match scheduleProcess k rmp with
            | .OK => ⟨.OK, s.set i rmp, { m with schedulingScheduler := H.schedProcNr }⟩
            | rv => ⟨rv, s.set i rmp, m⟩
          | rv => ⟨rv, s, m⟩

def ticketsToAdd (tmp : Unsigned) : Unsigned :=
  Binary64.toUnsigned 32 (Binary64.mul (Binary64.div tmp.toInt 20) 100)

-- Only additions are capped at 100 and only subtractions at 1.
def adjustTickets (tmp : Unsigned) (tickets : BitVec 32) : BitVec 32 :=
  if 0 < tmp.toInt then
    let tickets := tickets + ticketsToAdd tmp
    if 100 ≤ tickets.toInt then 100 else tickets
  else
    let tickets := tickets - ticketsToAdd tmp
    if tickets.toInt < 1 then 1 else tickets

-- A refusal by the kernel rolls back the two priorities; the tickets stay changed.
def doNice : Handled H :=
  if acceptMessage H m = false then ⟨.EPERM, s, m⟩
  else
    match schedIsokendpt s m.schedulingEndpoint with
    | .error _ => ⟨.EBADEPT, s, m⟩
    | .ok i =>
      let rmp := s.schedproc i
      let tmp := m.schedulingMaxprio
      if (nrSchedQueues : ℤ) ≤ tmp.toInt then ⟨.EINVAL, s, m⟩
      else
        let rmp := { rmp with tickets := adjustTickets tmp rmp.tickets }
        let new := { rmp with maxPriority := tmp, priority := tmp }
        match scheduleProcess k new with
        | .OK => ⟨.OK, s.set i new, m⟩
        | rv => ⟨rv, s.set i rmp, m⟩

end Handlers

section Lottery
variable (k : KernelReplies) (s : State H)

def lotteryLoop (lucky : Unsigned) :
    Unsigned → List (Fin H.nrProcs) → Option (Fin H.nrProcs)
  | _, [] => none
  | calculateWinner, i :: procs =>
    if (s.schedproc i).inUse then
      let calculateWinner := calculateWinner + (s.schedproc i).tickets
      if lucky < calculateWinner then some i else lotteryLoop lucky calculateWinner procs
    else lotteryLoop lucky calculateWinner procs

def lotteryWinner (lucky : Unsigned) : Option (Fin H.nrProcs) :=
  lotteryLoop s lucky 0 (List.finRange H.nrProcs)

def raisePriority (rmp : Schedproc) : Schedproc := { rmp with priority := rmp.priority - 1 }

def upperBound : ℤ := s.totalTickets.toInt

def luckyTicket (rand : ℕ) : Unsigned := BitVec.ofInt 32 (Int.tmod rand (upperBound s) + 1)

def doLottery (rand : ℕ) : Option (State H) :=
  if upperBound s = 0 then none
  else
    match lotteryWinner s (luckyTicket s rand) with
    | none => some s
    | some i => some (s.set i (raisePriority (s.schedproc i)))

def balanceQueues (rand : ℕ) : Option (State H) := doLottery s rand

end Lottery

inductive Event where
  | message (m : Message) (fromKernel : Bool) (k : KernelReplies)
  | timer (rand : ℕ)

def handle (k : KernelReplies) (s : State H) (m : Message) (fromKernel : Bool) : Handled H :=
  match m.type with
  | .start type => doStartScheduling k s m type
  | .SCHEDULING_STOP => doStopScheduling s m
  | .SCHEDULING_SET_NICE => doNice k s m
  | .SCHEDULING_NO_QUANTUM => if fromKernel then doNoquantum k s m else ⟨.EPERM, s, m⟩
  | .unknown => ⟨.ENOSYS, s, m⟩

def mainStep (s : State H) : Event → Option (State H)
  | .message m fromKernel k => some (handle k s m fromKernel).s
  | .timer rand => balanceQueues s rand

def initScheduling : State H :=
  { schedproc := fun _ => ⟨0, 0, 0, 0, 0, 0, 0⟩, totalTickets := 0 }

def server (H : Headers) : TransitionSystem (State H) Event where
  initial s := s = initScheduling
  step s e s' := mainStep s e = some s'

def Addressed (s : State H) (m : Message) (i : Fin H.nrProcs) : Prop :=
  acceptMessage H m = true ∧ schedIsokendpt s m.schedulingEndpoint = .ok i

def Starts (s : State H) (type : StartType) (m : Message) (i : Fin H.nrProcs)
    (rmp : Schedproc) : Prop :=
  acceptMessage H m = true ∧ schedIsemtyendpt s m.schedulingEndpoint = .ok i ∧
    m.schedulingMaxprio.toNat < nrSchedQueues ∧
    startValues (s.set i (populateSlot m (s.schedproc i))) m type
      (populateSlot m (s.schedproc i)) = .ok rmp

def State.count (s : State H) (i : Fin H.nrProcs) (rmp : Schedproc) : State H :=
  { s.set i rmp with totalTickets := s.totalTickets + rmp.tickets }

inductive Effect (s : State H) : Event → State H → Prop
  | idle {e} : Effect s e s
  | lowered {m fromKernel k i} : (s.schedproc i).inUse = true →
      Effect s (.message m fromKernel k) (s.set i (lowerPriority (s.schedproc i)))
  | stopped {m fromKernel k i} : m.type = .SCHEDULING_STOP → Addressed s m i →
      Effect s (.message m fromKernel k) (s.set i { s.schedproc i with flags := 0 })
  | populated {m fromKernel k i rmp} : (s.schedproc i).inUse = false → rmp.inUse = false →
      Effect s (.message m fromKernel k) (s.set i rmp)
  | refused {m fromKernel k type i rmp} : m.type = .start type → Starts s type m i rmp →
      k.sysSchedctl 0 rmp.endpoint 0 0 ≠ .OK →
      Effect s (.message m fromKernel k) (s.count i rmp)
  | started {m fromKernel k type i rmp} : m.type = .start type → Starts s type m i rmp →
      k.sysSchedctl 0 rmp.endpoint 0 0 = .OK →
      Effect s (.message m fromKernel k) ((s.count i rmp).set i { rmp with flags := IN_USE })
  | niced {m fromKernel k i rmp} : m.type = .SCHEDULING_SET_NICE → Addressed s m i →
      m.schedulingMaxprio.toInt < nrSchedQueues →
      rmp = { s.schedproc i with
        tickets := adjustTickets m.schedulingMaxprio (s.schedproc i).tickets
        maxPriority := m.schedulingMaxprio
        priority := m.schedulingMaxprio } →
      scheduleProcess k rmp = .OK →
      Effect s (.message m fromKernel k) (s.set i rmp)
  | niceUndone {m fromKernel k i} : m.type = .SCHEDULING_SET_NICE → Addressed s m i →
      m.schedulingMaxprio.toInt < nrSchedQueues →
      Effect s (.message m fromKernel k) (s.set i { s.schedproc i with
        tickets := adjustTickets m.schedulingMaxprio (s.schedproc i).tickets })
  | raised {rand i} : upperBound s ≠ 0 → lotteryWinner s (luckyTicket s rand) = some i →
      Effect s (.timer rand) (s.set i (raisePriority (s.schedproc i)))

section Inversion
variable {s s' : State H} {m : Message} {fromKernel : Bool} {k : KernelReplies}

theorem noquantum_effect : Effect s (.message m fromKernel k) (doNoquantum k s m).s := by
  rw [doNoquantum]
  cases hlookup : schedIsokendpt s m.source with
  | error e => exact .idle
  | ok i => exact .lowered (isokendpt_ok hlookup).1

theorem stop_effect (htype : m.type = .SCHEDULING_STOP) :
    Effect s (.message m fromKernel k) (doStopScheduling s m).s := by
  rw [doStopScheduling]
  split
  · exact .idle
  · rename_i haccept
    cases hlookup : schedIsokendpt s m.schedulingEndpoint with
    | error e => exact .idle
    | ok i => exact .stopped htype ⟨by simpa using haccept, hlookup⟩

theorem start_effect {type : StartType} (htype : m.type = .start type) :
    Effect s (.message m fromKernel k) (doStartScheduling k s m type).s := by
  rw [doStartScheduling]
  split
  · exact .idle
  · rename_i haccept
    rw [Bool.not_eq_false] at haccept
    cases hempty : schedIsemtyendpt s m.schedulingEndpoint with
    | error e => exact .idle
    | ok i =>
      have hfree := isemtyendpt_ok hempty
      dsimp only
      split
      · exact .populated hfree hfree
      · rename_i hprio
        cases hvalues : startValues (s.set i (populateSlot m (s.schedproc i))) m type
            (populateSlot m (s.schedproc i)) with
        | error e => exact .populated hfree hfree
        | ok rmp =>
          have hstarts : Starts s type m i rmp := ⟨haccept, hempty, not_le.mp hprio, hvalues⟩
          dsimp only
          simp only [set_set, set_totalTickets]
          split
          · rename_i hctl
            split
            · exact .started htype hstarts hctl
            · exact .started htype hstarts hctl
          · rename_i hctl
            exact .refused htype hstarts hctl

theorem nice_effect (htype : m.type = .SCHEDULING_SET_NICE) :
    Effect s (.message m fromKernel k) (doNice k s m).s := by
  rw [doNice]
  split
  · exact .idle
  · rename_i haccept
    cases hlookup : schedIsokendpt s m.schedulingEndpoint with
    | error e => exact .idle
    | ok i =>
      have haddr : Addressed s m i := ⟨by simpa using haccept, hlookup⟩
      dsimp only
      split
      · exact .idle
      · rename_i hnice
        split
        · rename_i hsched
          exact .niced htype haddr (not_le.mp hnice) rfl hsched
        · exact .niceUndone htype haddr (not_le.mp hnice)

theorem step_effect {e : Event} (h : mainStep s e = some s') : Effect s e s' := by
  cases e with
  | message m fromKernel k =>
    obtain rfl := Option.some.inj h
    rw [handle]
    split
    · rename_i htype
      exact start_effect htype
    · rename_i htype
      exact stop_effect htype
    · rename_i htype
      exact nice_effect htype
    · split
      · exact noquantum_effect
      · exact .idle
    · exact .idle
  | timer rand =>
    simp only [mainStep, balanceQueues, doLottery] at h
    split_ifs at h with hzero
    cases hwinner : lotteryWinner s (luckyTicket s rand) with
    | none =>
      rw [hwinner] at h
      cases h
      exact .idle
    | some i =>
      rw [hwinner] at h
      cases h
      exact .raised hzero hwinner

theorem starts_spec {type : StartType} {i : Fin H.nrProcs} {rmp : Schedproc}
    (h : Starts s type m i rmp) :
    (s.schedproc i).inUse = false ∧ rmp.inUse = false ∧
    rmp.endpoint = m.schedulingEndpoint ∧ rmp.maxPriority = m.schedulingMaxprio ∧
    m.schedulingMaxprio.toNat < nrSchedQueues ∧
    (type = .SCHEDULING_START ∧ rmp.priority = m.schedulingMaxprio ∧ rmp.tickets = 20 ∨
      type = .SCHEDULING_INHERIT ∧ ∃ p, schedIsokendpt s m.schedulingParent = .ok p ∧
        rmp.priority = (s.schedproc p).priority ∧ rmp.tickets = (s.schedproc p).tickets) := by
  obtain ⟨-, hempty, hprio, hvalues⟩ := h
  have hfree := isemtyendpt_ok hempty
  cases type with
  | SCHEDULING_START =>
    obtain rfl := Except.ok.inj hvalues
    exact ⟨hfree, hfree, rfl, rfl, hprio, .inl ⟨rfl, rfl, rfl⟩⟩
  | SCHEDULING_INHERIT =>
    rw [startValues] at hvalues
    split at hvalues
    · cases hvalues
    · rename_i p hparent
      obtain rfl := Except.ok.inj hvalues
      have hpopulated : (populateSlot m (s.schedproc i)).inUse = false := hfree
      obtain ⟨hne, hparent⟩ := isokendpt_set_unused hpopulated hparent
      have hsame : (s.set i (populateSlot m (s.schedproc i))).schedproc p = s.schedproc p :=
        set_of_ne hne
      exact ⟨hfree, hfree, rfl, rfl, hprio, .inr ⟨rfl, p, hparent, by simp only [hsame],
        by simp only [hsame]⟩⟩

end Inversion

end Sched
