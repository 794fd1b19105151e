import Cs111.Sched.Tickets

namespace Sched
open Minix TransitionSystem
variable {H : Headers} {k : KernelReplies} {s : State H} {m : Message} {i : Fin H.nrProcs}

def Schedproc.nice (rmp : Schedproc) (tmp : Unsigned) : Schedproc :=
  { rmp with tickets := adjustTickets tmp rmp.tickets, maxPriority := tmp, priority := tmp }

def Nices (s : State H) (m : Message) (i : Fin H.nrProcs) : Prop :=
  Addressed s m i ∧ m.schedulingMaxprio.toInt < nrSchedQueues

theorem nice_refused (h : ∀ i, ¬ Nices s m i) : (doNice k s m).s = s := by
  rw [doNice]
  split
  · rfl
  · rename_i haccept
    cases hlookup : schedIsokendpt s m.schedulingEndpoint with
    | error e => rfl
    | ok i =>
      have haddr : Addressed s m i := ⟨by simpa using haccept, hlookup⟩
      dsimp only
      split
      · rfl
      · rename_i hlow
        exact absurd ⟨haddr, not_le.mp hlow⟩ (h i)

theorem nice_done (h : Nices s m i)
    (hsched : scheduleProcess k ((s.schedproc i).nice m.schedulingMaxprio) = .OK) :
    doNice k s m = ⟨.OK, s.set i ((s.schedproc i).nice m.schedulingMaxprio), m⟩ := by
  obtain ⟨⟨haccept, hlookup⟩, hlow⟩ := h
  have hsched' := hsched
  rw [Schedproc.nice] at hsched'
  simp only [doNice, haccept, hlookup, not_le.mpr hlow, hsched', if_false, Bool.true_eq_false]
  rfl

theorem nice_undone (h : Nices s m i)
    (hsched : scheduleProcess k ((s.schedproc i).nice m.schedulingMaxprio) ≠ .OK) :
    (doNice k s m).result ≠ .OK ∧ (doNice k s m).s = s.set i { s.schedproc i with
      tickets := adjustTickets m.schedulingMaxprio (s.schedproc i).tickets } := by
  obtain ⟨⟨haccept, hlookup⟩, hlow⟩ := h
  rw [Schedproc.nice] at hsched
  simp only [doNice, haccept, hlookup, not_le.mpr hlow, if_false, Bool.true_eq_false]
  exact ⟨hsched, trivial⟩

section Amount
variable {tmp : Unsigned} {tickets : BitVec 32}

theorem tickets_added : ∀ n : Fin nrSchedQueues, ticketsToAdd (n.val : Unsigned) = (5 * n.val : ℕ) := by
  decide +kernel

theorem ticketsToAdd_pos (hpos : 0 < tmp.toInt) (hlow : tmp.toInt < nrSchedQueues) :
    (ticketsToAdd tmp).toNat = 5 * tmp.toNat := by
  have htmp : tmp.toNat < nrSchedQueues := by
    rw [BitVec.toInt_eq_toNat_cond] at hpos hlow
    split at hlow <;> omega
  have hadd := tickets_added ⟨tmp.toNat, htmp⟩
  simp only [BitVec.natCast_eq_ofNat, BitVec.ofNat_toNat, BitVec.setWidth_eq] at hadd
  rw [hadd, BitVec.toNat_ofNat]
  simp only [nrSchedQueues] at htmp
  omega

def TicketsStay (tmp : Unsigned) (tickets : BitVec 32) : Prop :=
  if 0 < tmp.toInt then tickets = 100
  else ticketsToAdd tmp = 0 ∧ 1 ≤ tickets.toInt ∨
    tickets = 1 ∧ (ticketsToAdd tmp).toNat ≤ 2 ^ 31 + 1

theorem adjust_add (hpos : 0 < tmp.toInt) : adjustTickets tmp tickets =
    if 100 ≤ (tickets + ticketsToAdd tmp).toInt then 100 else tickets + ticketsToAdd tmp :=
  if_pos hpos

theorem adjust_subtract (hneg : ¬ 0 < tmp.toInt) : adjustTickets tmp tickets =
    if (tickets - ticketsToAdd tmp).toInt < 1 then 1 else tickets - ticketsToAdd tmp :=
  if_neg hneg

theorem ticketsStay_iff (hlow : tmp.toInt < nrSchedQueues) :
    adjustTickets tmp tickets = tickets ↔ TicketsStay tmp tickets := by
  rw [TicketsStay]
  by_cases hpos : 0 < tmp.toInt
  · have hadd := ticketsToAdd_pos hpos hlow
    have hrange : 0 < tmp.toNat ∧ tmp.toNat < 18 := by
      rw [BitVec.toInt_eq_toNat_cond] at hpos hlow
      simp only [nrSchedQueues] at hlow
      split at hlow <;> omega
    rw [adjust_add hpos, if_pos hpos]
    generalize ticketsToAdd tmp = amount at hadd ⊢
    split
    · exact eq_comm
    · rename_i hcap
      constructor
      · bv_omega
      · rintro rfl
        have hsum : (100 + amount).toNat = 100 + amount.toNat := by bv_omega
        rw [BitVec.toInt_eq_toNat_of_lt (by omega), hsum] at hcap
        omega
  · rw [adjust_subtract hpos, if_neg hpos]
    generalize ticketsToAdd tmp = amount
    split
    · rename_i hcap
      rw [BitVec.toInt_eq_toNat_cond, BitVec.toNat_sub] at hcap
      rw [BitVec.toInt_eq_toNat_cond, BitVec.toNat_eq, BitVec.toNat_eq, BitVec.toNat_eq]
      simp only [BitVec.ofNat_eq_ofNat, BitVec.toNat_ofNat]
      split at hcap <;> split <;> omega
    · rename_i hcap
      rw [BitVec.toInt_eq_toNat_cond, BitVec.toNat_sub] at hcap
      rw [BitVec.toInt_eq_toNat_cond, BitVec.toNat_eq, BitVec.toNat_eq, BitVec.toNat_eq,
        BitVec.toNat_sub]
      simp only [BitVec.ofNat_eq_ofNat, BitVec.toNat_ofNat]
      split at hcap <;> split <;> omega

end Amount

section Errors

def ErrorKeepsSlots (k : KernelReplies) (s : State H) (m : Message) : Prop :=
  (doNice k s m).result ≠ .OK → ∀ i, (doNice k s m).s.schedproc i = s.schedproc i

theorem nice_errorKeepsSlots_iff : ErrorKeepsSlots k s m ↔ ∀ i, Nices s m i →
    k.sysSchedule (s.schedproc i).endpoint m.schedulingMaxprio (s.schedproc i).timeSlice ≠ .OK →
    TicketsStay m.schedulingMaxprio (s.schedproc i).tickets := by
  constructor
  · intro hkeeps i hnices hrefused
    obtain ⟨hresult, hslots⟩ := nice_undone hnices hrefused
    have hslot := hkeeps hresult i
    rw [hslots, set_self] at hslot
    exact (ticketsStay_iff hnices.2).mp (congrArg Schedproc.tickets hslot)
  · intro hstay hresult j
    by_cases hnices : ∃ i, Nices s m i
    · obtain ⟨i, hnices⟩ := hnices
      by_cases hsched : scheduleProcess k ((s.schedproc i).nice m.schedulingMaxprio) = .OK
      · rw [nice_done hnices hsched] at hresult
        exact absurd rfl hresult
      · have htickets := (ticketsStay_iff hnices.2).mpr (hstay i hnices hsched)
        rw [(nice_undone hnices hsched).2, htickets]
        by_cases hj : j = i
        · rw [hj, set_self]
        · rw [set_of_ne hj]
    · rw [nice_refused (not_exists.mp hnices)]

def niceFive (nice : BitVec 32) : Message := .fromPM .sample .SCHEDULING_SET_NICE 5 nice

def KernelReplies.refusing : KernelReplies := ⟨fun _ _ _ _ => .OK, fun _ _ _ => .EINVAL⟩

def fiveStarted : State .sample :=
  (doStartScheduling .accepting initScheduling (.fromPM .sample (.start .SCHEDULING_START) 5 16)
    .SCHEDULING_START).s

theorem refused_nice_keeps_tickets :
    ¬ ∀ (H : Headers) (k : KernelReplies) (s : State H) (m : Message), ErrorKeepsSlots k s m := by
  intro hall
  have hkeeps := hall .sample .refusing fiveStarted (niceFive (-1)) (by decide +kernel) (5 : Fin 8)
  exact absurd (congrArg Schedproc.tickets hkeeps) (by decide +kernel)

end Errors

section Bounds
variable {tmp : Unsigned} {tickets : BitVec 32}

structure FairChange (nice : ℤ) (old new : BitVec 32) : Prop where
  pos : 1 ≤ new.toInt
  le : new.toInt ≤ 100
  raised : 0 < nice → old.toInt ≤ new.toInt
  lowered : nice < 0 → new.toInt ≤ old.toInt

def FairTickets (tmp : Unsigned) (tickets : BitVec 32) : Prop :=
  if 0 < tmp.toInt then tickets.toInt ≤ 100 ∧ 1 ≤ tickets.toInt + 5 * tmp.toInt
  else if tmp.toInt = 0 then tickets.toInt ≤ 100
  else 1 ≤ tickets.toInt ∧ tickets.toInt ≤ (ticketsToAdd tmp).toNat + 100 ∧
    (ticketsToAdd tmp).toNat ≤ tickets.toInt + 2 ^ 31

theorem fair_add_iff (hpos : 0 < tmp.toInt) (hlow : tmp.toInt < nrSchedQueues) :
    FairChange tmp.toInt tickets (adjustTickets tmp tickets) ↔
      tickets.toInt ≤ 100 ∧ 1 ≤ tickets.toInt + 5 * tmp.toInt := by
  have hadd := ticketsToAdd_pos hpos hlow
  have hlevel : tmp.toInt = tmp.toNat := by
    rw [BitVec.toInt_eq_toNat_cond] at hpos ⊢
    split at hpos <;> omega
  simp only [nrSchedQueues] at hlow
  rw [adjust_add hpos]
  generalize ticketsToAdd tmp = amount at hadd ⊢
  have hamount : amount.toInt = 5 * tmp.toInt := by
    rw [BitVec.toInt_eq_toNat_of_lt (by omega), hadd, hlevel]
    norm_cast
  have hbounds := tickets.toInt_lt
  have hbounds' := tickets.le_toInt
  by_cases hwrap : tickets.toInt + 5 * tmp.toInt < 2 ^ 31
  · have hsum : (tickets + amount).toInt = tickets.toInt + 5 * tmp.toInt := by
      rw [BitVec.toInt_add, hamount, Int.bmod_eq_of_le] <;> omega
    rw [hsum]
    split
    · constructor
      · intro h
        exact ⟨h.raised hpos, by omega⟩
      · intro h
        exact ⟨by decide, by decide, fun _ => h.1, by omega⟩
    · constructor
      · intro h
        have hlow := h.pos
        rw [hsum] at hlow
        omega
      · intro h
        constructor <;> rw [hsum] <;> omega
  · have hsum : (tickets + amount).toInt = tickets.toInt + 5 * tmp.toInt - 2 ^ 32 := by
      rw [BitVec.toInt_add, hamount, Int.bmod_def]
      split <;> omega
    rw [hsum, if_neg (by omega)]
    constructor
    · intro h
      have hlow := h.pos
      rw [hsum] at hlow
      omega
    · omega

theorem fair_subtract_iff (hneg : tmp.toInt < 0) :
    FairChange tmp.toInt tickets (adjustTickets tmp tickets) ↔
      1 ≤ tickets.toInt ∧ tickets.toInt ≤ (ticketsToAdd tmp).toNat + 100 ∧
        (ticketsToAdd tmp).toNat ≤ tickets.toInt + 2 ^ 31 := by
  rw [adjust_subtract (by omega)]
  generalize ticketsToAdd tmp = amount
  have hbounds := tickets.toInt_lt
  have hbounds' := tickets.le_toInt
  have hamount := amount.isLt
  have hdiff : (tickets - amount).toInt = if amount.toNat ≤ tickets.toInt + 2 ^ 31 then
      tickets.toInt - amount.toNat else tickets.toInt - amount.toNat + 2 ^ 32 := by
    rw [BitVec.toInt_sub, BitVec.toInt_eq_toNat_cond (x := amount), Int.bmod_def]
    split_ifs <;> omega
  by_cases hwrap : amount.toNat ≤ tickets.toInt + 2 ^ 31
  · rw [if_pos hwrap] at hdiff
    rw [hdiff]
    split
    · constructor
      · intro h
        exact ⟨h.lowered hneg, by omega, hwrap⟩
      · intro h
        exact ⟨by decide, by decide, by omega, fun _ => h.1⟩
    · constructor
      · intro h
        have hhigh := h.le
        omega
      · intro h
        constructor <;> omega
  · rw [if_neg hwrap] at hdiff
    rw [hdiff]
    constructor
    · intro h
      have hfall := h.lowered hneg
      split at hfall
      · have hone : (1 : BitVec 32).toInt = 1 := by decide
        omega
      · omega
    · intro h
      exact absurd h.2.2 hwrap

theorem fair_zero_iff : FairChange 0 tickets (adjustTickets 0 tickets) ↔ tickets.toInt ≤ 100 := by
  have hzero : ticketsToAdd 0 = 0 := by simp [ticketsToAdd]
  rw [adjust_subtract (by decide), hzero, sub_zero]
  split
  · constructor
    · omega
    · intro h
      exact ⟨by decide, by decide, fun hlt => by omega, fun hlt => by omega⟩
  · constructor
    · exact FairChange.le
    · intro h
      exact ⟨by omega, h, fun hlt => by omega, fun hlt => by omega⟩

theorem fairChange_iff (hlow : tmp.toInt < nrSchedQueues) :
    FairChange tmp.toInt tickets (adjustTickets tmp tickets) ↔ FairTickets tmp tickets := by
  rw [FairTickets]
  split
  · rename_i hpos
    exact fair_add_iff hpos hlow
  · split
    · rename_i hzero
      obtain rfl : tmp = 0 := BitVec.eq_of_toInt_eq (by simpa using hzero)
      exact fair_zero_iff
    · exact fair_subtract_iff (by omega)

theorem nice_tickets (h : Nices s m i) : ((doNice k s m).s.schedproc i).tickets =
    adjustTickets m.schedulingMaxprio (s.schedproc i).tickets := by
  by_cases hsched : scheduleProcess k ((s.schedproc i).nice m.schedulingMaxprio) = .OK
  · rw [nice_done h hsched, set_self, Schedproc.nice]
  · rw [(nice_undone h hsched).2, set_self]

theorem nice_fair_iff (h : Nices s m i) :
    FairChange m.schedulingMaxprio.toInt (s.schedproc i).tickets
        ((doNice k s m).s.schedproc i).tickets ↔
      FairTickets m.schedulingMaxprio (s.schedproc i).tickets := by
  rw [nice_tickets h]
  exact fairChange_iff h.2

theorem five_found : schedIsokendpt fiveStarted 5 = .ok (5 : Fin 8) := by rfl

theorem five_niced (nice : BitVec 32) (hlow : nice.toInt < nrSchedQueues) :
    Nices fiveStarted (niceFive nice) (5 : Fin 8) := ⟨⟨rfl, five_found⟩, hlow⟩

theorem nice_four_fair :
    FairChange 4 20 ((doNice .accepting fiveStarted (niceFive 4)).s.schedproc (5 : Fin 8)).tickets ↔
      FairTickets 4 20 :=
  nice_fair_iff (k := .accepting) (five_niced 4 (by decide))

def fiveRefused : State .sample := (doNice .refusing fiveStarted (niceFive (-20))).s

theorem nice_below_zero_adds :
    ¬ ∀ (H : Headers) (k : KernelReplies) (s : State H) (m : Message) (i : Fin H.nrProcs),
      (server H).Reachable s → Nices s m i → (doNice k s m).result = .OK →
      FairChange m.schedulingMaxprio.toInt (s.schedproc i).tickets
        ((doNice k s m).s.schedproc i).tickets := by
  intro hall
  have hrun : Run (server .sample) always
      [(_, .message (niceFive (-20)) false .refusing), (initScheduling, startFive)] fiveRefused :=
    .next (.next (.start rfl) trivial rfl) trivial rfl
  have hnices : Nices fiveRefused (niceFive 0) (5 : Fin 8) := ⟨⟨rfl, by rfl⟩, by decide⟩
  have hfair := hall .sample .accepting fiveRefused (niceFive 0) (5 : Fin 8) ⟨_, hrun⟩ hnices rfl
  exact absurd hfair.le (by decide +kernel)

end Bounds

end Sched
