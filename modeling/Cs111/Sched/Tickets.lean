import Cs111.Sched.Schedule
import Mathlib.Algebra.BigOperators.Fin

namespace Sched
open Minix TransitionSystem
variable {H : Headers} {s s' : State H} {i : Fin H.nrProcs} {rmp : Schedproc}

def users (s : State H) : Finset (Fin H.nrProcs) :=
  Finset.univ.filter fun i => (s.schedproc i).inUse = true

@[simp] theorem mem_users : i ∈ users s ↔ (s.schedproc i).inUse = true := by simp [users]

@[simp] theorem users_count (i : Fin H.nrProcs) (rmp : Schedproc) :
    users (s.count i rmp) = users (s.set i rmp) := rfl

theorem users_set_same (h : rmp.inUse = (s.schedproc i).inUse) : users (s.set i rmp) = users s := by
  ext j
  by_cases hj : j = i
  · subst hj
    simp [h]
  · simp [set_of_ne hj]

theorem users_set_new (h : rmp.inUse = true) : users (s.set i rmp) = insert i (users s) := by
  ext j
  by_cases hj : j = i
  · subst hj
    simp [h]
  · simp [set_of_ne hj, hj]

theorem card_users_le : (users s).card ≤ H.nrProcs := by
  simpa using Finset.card_le_univ (users s)

theorem in_use_flag : (IN_USE &&& IN_USE != 0) = true := by decide

section Counting

def ticketsInUse (s : State H) : ℤ := ∑ i ∈ users s, (s.schedproc i).tickets.toInt

def TicketsCounted (s : State H) : Prop := (s.totalTickets.toNat : ℤ) = ticketsInUse s

instance : Decidable (TicketsCounted s) := inferInstanceAs (Decidable (_ = _))

def KeepsTickets (s : State H) : Event → Prop
  | .message m _ k =>
    (m.type = .SCHEDULING_STOP → ∀ i, ¬ Addressed s m i) ∧
    (m.type = .SCHEDULING_SET_NICE → ∀ i, Addressed s m i →
      m.schedulingMaxprio.toInt < nrSchedQueues → m.schedulingMaxprio = 0) ∧
    ∀ type i rmp, m.type = .start type → Starts s type m i rmp →
      k.sysSchedctl 0 rmp.endpoint 0 0 = .OK
  | .timer _ => True

structure StandardTickets (s : State H) : Prop where
  tickets : ∀ i ∈ users s, (s.schedproc i).tickets = 20
  total : s.totalTickets.toNat = 20 * (users s).card

theorem StandardTickets.counted (h : StandardTickets s) : TicketsCounted s := by
  have hsum : ticketsInUse s = ∑ _i ∈ users s, (20 : ℤ) :=
    Finset.sum_congr rfl fun i hi => by rw [h.tickets i hi]; rfl
  rw [TicketsCounted, h.total, hsum, Finset.sum_const]
  simp [mul_comm]

theorem standard_init : StandardTickets (initScheduling : State H) where
  tickets i hi := by
    rw [mem_users] at hi
    exact absurd hi (by simp [initScheduling, Schedproc.inUse])
  total := by simp [initScheduling, users, Schedproc.inUse]

theorem StandardTickets.set (h : StandardTickets s)
    (huse : rmp.inUse = (s.schedproc i).inUse)
    (htickets : rmp.inUse = true → rmp.tickets = (s.schedproc i).tickets) :
    StandardTickets (s.set i rmp) where
  tickets j hj := by
    rw [users_set_same huse] at hj
    by_cases heq : j = i
    · subst heq
      have hj' := mem_users.mp hj
      rw [set_self, htickets (huse.trans hj'), h.tickets j hj]
    · rw [set_of_ne heq, h.tickets j hj]
  total := by rw [users_set_same huse, set_totalTickets, h.total]

theorem adjustTickets_zero : adjustTickets 0 20 = 20 := by
  have hadd : ticketsToAdd 0 = 0 := by simp [ticketsToAdd]
  rw [adjustTickets, if_neg (by decide), hadd]
  decide

theorem StandardTickets.start (h : StandardTickets s) (hfree : (s.schedproc i).inUse = false)
    (htickets : rmp.tickets = 20) :
    StandardTickets ((s.count i rmp).set i { rmp with flags := IN_USE }) := by
  have hnew : users ((s.count i rmp).set i { rmp with flags := IN_USE }) = insert i (users s) := by
    have hsame : (s.count i rmp).set i { rmp with flags := IN_USE } =
        { s.set i { rmp with flags := IN_USE } with
          totalTickets := s.totalTickets + rmp.tickets } := by
      simp [State.count, State.set]
    rw [hsame]
    exact users_set_new in_use_flag
  have hi : i ∉ users s := by simp [hfree]
  have hle := card_users_le (s := (s.count i rmp).set i { rmp with flags := IN_USE })
  rw [hnew, Finset.card_insert_of_notMem hi] at hle
  constructor
  · intro j hj
    by_cases heq : j = i
    · subst heq
      rw [set_self, htickets]
    · rw [hnew, Finset.mem_insert] at hj
      rw [set_of_ne heq, ← h.tickets j (hj.resolve_left heq)]
      exact congrArg _ (set_of_ne heq)
  · have hbound := H.nrProcs_le
    rw [hnew, Finset.card_insert_of_notMem hi, set_totalTickets, State.count, htickets,
      BitVec.toNat_add, h.total]
    change (20 * (users s).card + 20) % 2 ^ 32 = _
    rw [Nat.mod_eq_of_lt (by omega)]
    ring

theorem lower_inUse (rmp : Schedproc) : (lowerPriority rmp).inUse = rmp.inUse := by
  rw [lowerPriority]
  split <;> rfl

theorem lower_tickets (rmp : Schedproc) : (lowerPriority rmp).tickets = rmp.tickets := by
  rw [lowerPriority]
  split <;> rfl

theorem standard_step {e : Event} (h : StandardTickets s) (hok : KeepsTickets s e)
    (heff : Effect s e s') : StandardTickets s' := by
  cases heff with
  | idle => exact h
  | lowered huse => exact h.set (lower_inUse _) fun _ => lower_tickets _
  | stopped htype haddr => exact absurd haddr (hok.1 htype _)
  | populated hfree hempty =>
    exact h.set (hempty.trans hfree.symm) fun huse => absurd huse (by simp [hempty])
  | refused htype hstarts hctl => exact absurd (hok.2.2 _ _ _ htype hstarts) hctl
  | started htype hstarts hctl =>
    obtain ⟨hfree, -, -, -, -, ⟨-, -, htickets⟩ | ⟨-, p, hparent, -, htickets⟩⟩ :=
      starts_spec hstarts
    · exact h.start hfree htickets
    · exact h.start hfree (htickets.trans (h.tickets p (mem_users.mpr (isokendpt_ok hparent).1)))
  | @niced m _ _ i rmp htype haddr hnice hrmp hsched =>
    have hzero := hok.2.1 htype _ haddr hnice
    have htickets := h.tickets i (mem_users.mpr (isokendpt_ok haddr.2).1)
    subst hrmp
    refine h.set rfl fun _ => ?_
    simp only [hzero, htickets, adjustTickets_zero]
  | @niceUndone m _ _ i htype haddr hnice =>
    have hzero := hok.2.1 htype _ haddr hnice
    have htickets := h.tickets i (mem_users.mpr (isokendpt_ok haddr.2).1)
    refine h.set rfl fun _ => ?_
    simp only [hzero, htickets, adjustTickets_zero]
  | raised => exact h.set rfl fun _ => rfl

theorem total_ticketsCounted {past : List (State H × Event)}
    (h : Run (server H) (fun _ => KeepsTickets) past s) : TicketsCounted s := by
  refine (h.invariant (P := StandardTickets) ?_ ?_).counted
  · rintro s rfl
    exact standard_init
  · intro past s e s' hs hok hstep
    exact standard_step hs hok (step_effect hstep)

def startFive : Event :=
  .message (.fromPM .sample (.start .SCHEDULING_START) 5 16) false .accepting

def stopFive : Event := .message (.fromPM .sample .SCHEDULING_STOP 5 0) false .accepting

theorem total_ticketsCounted_started :
    ∃ s, Run (server .sample) (fun _ => KeepsTickets) [(initScheduling, startFive)] s ∧
      TicketsCounted s := by
  have hrun : Run (server .sample) (fun _ => KeepsTickets) [(initScheduling, startFive)] _ :=
    .next (.start rfl) ⟨nofun, nofun, fun _ _ _ _ _ => rfl⟩ rfl
  exact ⟨_, hrun, total_ticketsCounted hrun⟩

theorem stopped_tickets_stay :
    ¬ ∀ (H : Headers) (s : State H), (server H).Reachable s → TicketsCounted s := by
  intro hall
  have hrun : Run (server .sample) always [(_, stopFive), (initScheduling, startFive)] _ :=
    .next (.next (.start rfl) trivial rfl) trivial rfl
  exact absurd (hall _ _ ⟨_, hrun⟩) (by decide)

end Counting

section Divisor
variable {e : Event} {past : List (State H × Event)}

def Counts (s : State H) (e : Event) (tickets : BitVec 32) : Prop :=
  ∃ m fromKernel k type i rmp, e = .message m fromKernel k ∧ m.type = .start type ∧
    Starts s type m i rmp ∧ tickets = rmp.tickets

def KeepsDivisor (past : List (State H × Event)) (s : State H) (e : Event) : Prop :=
  (∀ rand, e = .timer rand → ∃ p ∈ past, ∃ tickets, Counts p.1 p.2 tickets) ∧
  ∀ tickets, Counts s e tickets →
    0 < s.totalTickets.toInt + tickets.toInt ∧ s.totalTickets.toInt + tickets.toInt < 2 ^ 31

theorem start_total {k : KernelReplies} {m : Message} {type : StartType}
    (h : Starts s type m i rmp) :
    (doStartScheduling k s m type).s.totalTickets = s.totalTickets + rmp.tickets := by
  obtain ⟨haccept, hempty, hprio, hvalues⟩ := h
  have hlow : ¬ nrSchedQueues ≤ (populateSlot m (s.schedproc i)).maxPriority.toNat :=
    not_le.mpr hprio
  simp only [doStartScheduling, haccept, hempty, hlow, hvalues, if_false, Bool.true_eq_false]
  split
  · split <;> rfl
  · rfl

theorem total_of_counts {tickets : BitVec 32} (h : Counts s e tickets)
    (hstep : mainStep s e = some s') : s'.totalTickets = s.totalTickets + tickets := by
  obtain ⟨m, fromKernel, k, type, i, rmp, rfl, htype, hstarts, rfl⟩ := h
  obtain rfl := Option.some.inj hstep
  rw [handle, htype]
  exact start_total hstarts

theorem total_of_not_counts (h : ¬ ∃ tickets, Counts s e tickets) (heff : Effect s e s') :
    s'.totalTickets = s.totalTickets := by
  cases heff with
  | refused htype hstarts hctl => exact absurd ⟨_, _, _, _, _, _, _, rfl, htype, hstarts, rfl⟩ h
  | started htype hstarts hctl => exact absurd ⟨_, _, _, _, _, _, _, rfl, htype, hstarts, rfl⟩ h
  | _ => rfl

theorem toInt_add_of_lt {a b : BitVec 32} (hlow : 0 < a.toInt + b.toInt)
    (hhigh : a.toInt + b.toInt < 2 ^ 31) : (a + b).toInt = a.toInt + b.toInt := by
  rw [BitVec.toInt_add, Int.bmod_eq_of_le] <;> omega

structure Divisor (past : List (State H × Event)) (s : State H) : Prop where
  nonneg : 0 ≤ s.totalTickets.toInt
  pos : (∃ p ∈ past, ∃ tickets, Counts p.1 p.2 tickets) → 0 < s.totalTickets.toInt

theorem divisor_step (h : Divisor past s) (hok : KeepsDivisor past s e)
    (hstep : mainStep s e = some s') : Divisor ((s, e) :: past) s' := by
  by_cases hcounts : ∃ tickets, Counts s e tickets
  · obtain ⟨tickets, htickets⟩ := hcounts
    obtain ⟨hlow, hhigh⟩ := hok.2 tickets htickets
    have htotal : 0 < s'.totalTickets.toInt := by
      rw [total_of_counts htickets hstep, toInt_add_of_lt hlow hhigh]
      exact hlow
    exact ⟨htotal.le, fun _ => htotal⟩
  · have htotal := total_of_not_counts hcounts (step_effect hstep)
    refine ⟨htotal ▸ h.nonneg, ?_⟩
    rintro ⟨p, hp, hcounted⟩
    rw [htotal]
    rcases List.mem_cons.mp hp with rfl | hp
    · exact absurd hcounted hcounts
    · exact h.pos ⟨p, hp, hcounted⟩

theorem run_divisor (h : Run (server H) KeepsDivisor past s) : Divisor past s := by
  refine h.trace_invariant ?_ ?_
  · rintro s rfl
    exact ⟨by simp [initScheduling], by simp⟩
  · intro past s e s' hs hok hstep
    exact divisor_step hs hok hstep

theorem timer_keepsDivisor {rand : ℕ}
    (h : ∃ p ∈ past, ∃ tickets, Counts p.1 p.2 tickets) : KeepsDivisor past s (.timer rand) := by
  refine ⟨fun _ _ => h, ?_⟩
  rintro tickets ⟨m, fromKernel, k, type, i, rmp, hevent, -⟩
  cases hevent

theorem lottery_divisor_positive (h : Run (server H) KeepsDivisor past s) (rand : ℕ)
    (htimer : KeepsDivisor past s (.timer rand)) :
    0 < upperBound s ∧ ∃ s', balanceQueues s rand = some s' := by
  have hpos : 0 < upperBound s := (run_divisor h).pos (htimer.1 rand rfl)
  refine ⟨hpos, ?_⟩
  rw [balanceQueues, doLottery, if_neg hpos.ne']
  cases lotteryWinner s (luckyTicket s rand) with
  | none => exact ⟨_, rfl⟩
  | some i => exact ⟨_, rfl⟩

theorem started_counts : Counts (initScheduling : State .sample) startFive 20 :=
  ⟨_, _, _, _, (5 : Fin 8), _, rfl, rfl, ⟨rfl, rfl, by decide, rfl⟩, rfl⟩

theorem lottery_divisor_positive_started :
    ∃ s, Run (server .sample) KeepsDivisor [(initScheduling, startFive)] s ∧
      0 < upperBound s ∧ ∃ s', balanceQueues s 7 = some s' := by
  have hok : KeepsDivisor [] (initScheduling : State .sample) startFive := by
    refine ⟨nofun, ?_⟩
    rintro tickets hcounts
    have h := total_of_counts hcounts rfl
    have h20 := total_of_counts started_counts rfl
    obtain rfl : tickets = 20 := by simpa [initScheduling] using h.symm.trans h20
    decide
  have hrun : Run (server .sample) KeepsDivisor [(initScheduling, startFive)] _ :=
    .next (.start rfl) hok rfl
  have hcounted : ∃ p ∈ [(initScheduling, startFive)], ∃ tickets : BitVec 32,
      Counts p.1 p.2 tickets := ⟨_, List.mem_singleton_self _, 20, started_counts⟩
  exact ⟨_, hrun, lottery_divisor_positive hrun 7 (timer_keepsDivisor hcounted)⟩

theorem first_timer_divides_by_zero :
    ¬ ∀ (H : Headers) (s : State H) (rand : ℕ), (server H).Reachable s →
      0 < upperBound s ∧ balanceQueues s rand ≠ none := by
  intro hall
  exact (hall .sample initScheduling 0 ⟨_, .start rfl⟩).2 rfl

end Divisor

end Sched
