import Cs111.Sched.Nice

namespace Sched
open Minix
variable {H : Headers} {k : KernelReplies} {s : State H} {m : Message} {i j : Fin H.nrProcs}
  {type : StartType} {rmp : Schedproc} {priority timeSlice : Unsigned} {tickets : BitVec 32}

theorem isokendpt_iff {endpoint : ℤ} : schedIsokendpt s endpoint = .ok i ↔
    procSlot H endpoint = .ok i ∧ (s.schedproc i).endpoint = endpoint ∧
      (s.schedproc i).inUse = true := by
  rw [schedIsokendpt]
  cases procSlot H endpoint with
  | error e => simp [bind, Except.bind]
  | ok proc =>
    simp only [bind, Except.bind, Except.ok.injEq]
    split_ifs with hendpoint huse
    · simp only [false_iff]
      rintro ⟨rfl, hsame, -⟩
      exact hendpoint hsame.symm
    · rw [Except.ok.injEq, iff_self_and]
      rintro rfl
      exact ⟨(not_not.mp hendpoint).symm, huse⟩
    · simp only [false_iff]
      rintro ⟨rfl, -, hused⟩
      exact huse hused

inductive Given (s : State H) (m : Message) : StartType → Unsigned → BitVec 32 → Unsigned → Prop
  | start : Given s m .SCHEDULING_START m.schedulingMaxprio 20 m.schedulingQuantum
  | inherit {p} : schedIsokendpt s m.schedulingParent = .ok p →
      Given s m .SCHEDULING_INHERIT (s.schedproc p).priority (s.schedproc p).tickets
        (s.schedproc p).timeSlice

structure StartChecked (s : State H) (m : Message) (i : Fin H.nrProcs) : Prop where
  accepted : acceptMessage H m = true
  empty : schedIsemtyendpt s m.schedulingEndpoint = .ok i
  maxprio : m.schedulingMaxprio.toNat < nrSchedQueues

def startSlot (m : Message) (rmp : Schedproc) (priority : Unsigned) (tickets : BitVec 32)
    (timeSlice : Unsigned) : Schedproc :=
  { populateSlot m rmp with priority := priority, tickets := tickets, timeSlice := timeSlice }

theorem starts_of_given (hchecked : StartChecked s m i)
    (hgiven : Given s m type priority tickets timeSlice) :
    Starts s type m i (startSlot m (s.schedproc i) priority tickets timeSlice) := by
  obtain ⟨haccept, hempty, hprio⟩ := hchecked
  refine ⟨haccept, hempty, hprio, ?_⟩
  cases hgiven with
  | start => rfl
  | @inherit p hparent =>
    obtain ⟨hslot, hendpoint, huse⟩ := isokendpt_iff.mp hparent
    have hne : p ≠ i := by
      rintro rfl
      rw [isemtyendpt_ok hempty] at huse
      cases huse
    have hparent' : schedIsokendpt (s.set i (populateSlot m (s.schedproc i))) m.schedulingParent =
        .ok p := by
      rw [isokendpt_iff, set_of_ne hne]
      exact ⟨hslot, hendpoint, huse⟩
    simp only [startValues, hparent', set_of_ne hne]
    rfl

theorem Starts.given (h : Starts s type m i rmp) : StartChecked s m i ∧
    ∃ priority tickets timeSlice, Given s m type priority tickets timeSlice ∧
      rmp = startSlot m (s.schedproc i) priority tickets timeSlice := by
  obtain ⟨haccept, hempty, hprio, hvalues⟩ := h
  have hchecked : StartChecked s m i := ⟨haccept, hempty, hprio⟩
  refine ⟨hchecked, ?_⟩
  cases type with
  | SCHEDULING_START => exact ⟨_, _, _, .start, (Except.ok.inj hvalues).symm⟩
  | SCHEDULING_INHERIT =>
    have hvalues' := hvalues
    rw [startValues] at hvalues'
    split at hvalues'
    · cases hvalues'
    · rename_i p hparent
      have hfree : (populateSlot m (s.schedproc i)).inUse = false := isemtyendpt_ok hempty
      have hgiven : Given s m .SCHEDULING_INHERIT _ _ _ :=
        .inherit (isokendpt_set_unused hfree hparent).2
      have hstarts := starts_of_given hchecked hgiven
      exact ⟨_, _, _, hgiven, Except.ok.inj (hvalues.symm.trans hstarts.2.2.2)⟩

section Outcome

theorem start_checked_out (h : ∀ i rmp, ¬ Starts s type m i rmp) :
    users (doStartScheduling k s m type).s = users s ∧
      (doStartScheduling k s m type).s.totalTickets = s.totalTickets := by
  rw [doStartScheduling]
  split
  · exact ⟨rfl, rfl⟩
  · rename_i haccept
    rw [Bool.not_eq_false] at haccept
    cases hempty : schedIsemtyendpt s m.schedulingEndpoint with
    | error e => exact ⟨rfl, rfl⟩
    | ok i =>
      have hpopulated : users (s.set i (populateSlot m (s.schedproc i))) = users s :=
        users_set_same rfl
      dsimp only
      split
      · exact ⟨hpopulated, rfl⟩
      · rename_i hprio
        cases hvalues : startValues (s.set i (populateSlot m (s.schedproc i))) m type
            (populateSlot m (s.schedproc i)) with
        | error e => exact ⟨hpopulated, rfl⟩
        | ok rmp => exact absurd ⟨haccept, hempty, not_le.mp hprio, hvalues⟩ (h i rmp)

variable (h : Starts s type m i rmp)
include h

theorem start_refused (hctl : k.sysSchedctl 0 rmp.endpoint 0 0 ≠ .OK) :
    (doStartScheduling k s m type).result ≠ .OK ∧
      (doStartScheduling k s m type).s = s.count i rmp := by
  obtain ⟨haccept, hempty, hprio, hvalues⟩ := h
  have hlow : ¬ nrSchedQueues ≤ (populateSlot m (s.schedproc i)).maxPriority.toNat :=
    not_le.mpr hprio
  simp only [doStartScheduling, haccept, hempty, hlow, hvalues, if_false, Bool.true_eq_false]
  simp only [set_set, set_totalTickets]
  exact ⟨hctl, rfl⟩

theorem start_unscheduled (hctl : k.sysSchedctl 0 rmp.endpoint 0 0 = .OK)
    (hsched : k.sysSchedule rmp.endpoint rmp.priority rmp.timeSlice ≠ .OK) :
    (doStartScheduling k s m type).result ≠ .OK ∧
      (doStartScheduling k s m type).s = (s.count i rmp).set i { rmp with flags := IN_USE } := by
  obtain ⟨haccept, hempty, hprio, hvalues⟩ := h
  have hlow : ¬ nrSchedQueues ≤ (populateSlot m (s.schedproc i)).maxPriority.toNat :=
    not_le.mpr hprio
  simp only [doStartScheduling, haccept, hempty, hlow, hvalues, hctl, scheduleProcess, if_false,
    Bool.true_eq_false]
  simp only [set_set, set_totalTickets]
  exact ⟨hsched, rfl⟩

theorem start_scheduled (hctl : k.sysSchedctl 0 rmp.endpoint 0 0 = .OK)
    (hsched : k.sysSchedule rmp.endpoint rmp.priority rmp.timeSlice = .OK) :
    (doStartScheduling k s m type).result = .OK := by
  obtain ⟨haccept, hempty, hprio, hvalues⟩ := h
  have hlow : ¬ nrSchedQueues ≤ (populateSlot m (s.schedproc i)).maxPriority.toNat :=
    not_le.mpr hprio
  simp only [doStartScheduling, haccept, hempty, hlow, hvalues, hctl, hsched, scheduleProcess,
    if_false, Bool.true_eq_false]

end Outcome

def ErrorKeepsTotals (k : KernelReplies) (s : State H) (m : Message) (type : StartType) : Prop :=
  (doStartScheduling k s m type).result ≠ .OK →
    users (doStartScheduling k s m type).s = users s ∧
      (doStartScheduling k s m type).s.totalTickets = s.totalTickets

theorem start_errorKeepsTotals_iff : ErrorKeepsTotals k s m type ↔
    ∀ i priority tickets timeSlice, StartChecked s m i →
      Given s m type priority tickets timeSlice →
      (k.sysSchedctl 0 m.schedulingEndpoint 0 0 ≠ .OK → tickets = 0) ∧
      (k.sysSchedctl 0 m.schedulingEndpoint 0 0 = .OK →
        k.sysSchedule m.schedulingEndpoint priority timeSlice = .OK) := by
  constructor
  · intro hkeeps i priority tickets timeSlice hchecked hgiven
    have hstarts := starts_of_given hchecked hgiven
    constructor
    · intro hctl
      obtain ⟨hresult, hslots⟩ := start_refused hstarts hctl
      have htotal := (hkeeps hresult).2
      rw [hslots] at htotal
      exact add_eq_left.mp htotal
    · intro hctl
      by_contra hsched
      obtain ⟨hresult, hslots⟩ := start_unscheduled hstarts hctl hsched
      have husers := (hkeeps hresult).1
      have hi : i ∈ users s := by
        rw [← husers, hslots, mem_users, set_self]
        exact in_use_flag
      rw [mem_users, isemtyendpt_ok hchecked.empty] at hi
      cases hi
  · intro hreplies hresult
    by_cases hstarts : ∃ i rmp, Starts s type m i rmp
    · obtain ⟨i, rmp, hstarts⟩ := hstarts
      obtain ⟨hchecked, priority, tickets, timeSlice, hgiven, rfl⟩ := hstarts.given
      obtain ⟨hrefused, htaken⟩ := hreplies i priority tickets timeSlice hchecked hgiven
      by_cases hctl : k.sysSchedctl 0 m.schedulingEndpoint 0 0 = .OK
      · exact absurd (start_scheduled hstarts hctl (htaken hctl)) hresult
      · obtain ⟨-, hslots⟩ := start_refused hstarts hctl
        rw [hslots]
        obtain rfl := hrefused hctl
        exact ⟨users_set_same rfl, add_zero _⟩
    · simp only [not_exists] at hstarts
      exact start_checked_out hstarts

theorem unscheduled_start_stays_in_use :
    ¬ ∀ (H : Headers) (k : KernelReplies) (s : State H) (m : Message) (type : StartType),
      ErrorKeepsTotals k s m type := by
  intro hall
  have hkeeps := hall .sample .refusing initScheduling
    { Message.fromPM .sample (.start .SCHEDULING_START) 5 16 with schedulingQuantum := 0 }
    .SCHEDULING_START (by decide)
  exact absurd hkeeps.2 (by decide)

end Sched
