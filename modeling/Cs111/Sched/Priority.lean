import Cs111.Sched.Lottery

namespace Sched
open Minix TransitionSystem
variable {H : Headers} {s s' : State H} {i : Fin H.nrProcs} {rmp : Schedproc}

def Schedproc.InRange (rmp : Schedproc) : Prop :=
  rmp.priority.toNat < nrSchedQueues ∧ rmp.maxPriority.toNat ≤ rmp.priority.toNat

instance (rmp : Schedproc) : Decidable rmp.InRange := inferInstanceAs (Decidable (_ ∧ _))

def PrioritiesInRange (s : State H) : Prop :=
  ∀ i, (s.schedproc i).inUse = true → (s.schedproc i).InRange

def KeepsPriorities (s : State H) : Event → Prop
  | .message m _ k =>
    (m.type = .SCHEDULING_SET_NICE → ∀ i, Addressed s m i →
      0 ≤ m.schedulingMaxprio.toInt ∨
        k.sysSchedule (s.schedproc i).endpoint m.schedulingMaxprio (s.schedproc i).timeSlice ≠ .OK) ∧
    (m.type = .start .SCHEDULING_INHERIT → ∀ p, schedIsokendpt s m.schedulingParent = .ok p →
      (∃ i rmp, Starts s .SCHEDULING_INHERIT m i rmp) →
      k.sysSchedctl 0 m.schedulingEndpoint 0 0 = .OK →
      m.schedulingMaxprio.toNat ≤ (s.schedproc p).priority.toNat)
  | .timer rand => ∀ i, upperBound s ≠ 0 → Wins s (luckyTicket s rand) i →
      (s.schedproc i).maxPriority.toNat < (s.schedproc i).priority.toNat

theorem PrioritiesInRange.set (h : PrioritiesInRange s)
    (hrmp : rmp.inUse = true → rmp.InRange) : PrioritiesInRange (s.set i rmp) := by
  intro j hj
  by_cases heq : j = i
  · subst heq
    rw [set_self] at hj ⊢
    exact hrmp hj
  · rw [set_of_ne heq] at hj ⊢
    exact h j hj

theorem lower_inRange (h : rmp.InRange) : (lowerPriority rmp).InRange := by
  obtain ⟨hlt, hle⟩ := h
  rw [lowerPriority]
  split
  · rename_i hlow
    have hnext : (rmp.priority + 1).toNat = rmp.priority.toNat + 1 := by
      simp only [minUserQ, nrSchedQueues] at hlow
      rw [BitVec.toNat_add]
      exact Nat.mod_eq_of_lt (by simp; omega)
    constructor
    · simp only [hnext, minUserQ, nrSchedQueues] at hlow ⊢
      omega
    · simp only [hnext]
      omega
  · exact ⟨hlt, hle⟩

theorem raise_inRange (h : rmp.InRange) (hlow : rmp.maxPriority.toNat < rmp.priority.toNat) :
    (raisePriority rmp).InRange := by
  have hone : 1#32 ≤ rmp.priority := by
    rw [BitVec.le_def]
    simp
    omega
  have hprev : (rmp.priority - 1).toNat = rmp.priority.toNat - 1 :=
    BitVec.toNat_sub_of_le hone
  obtain ⟨hlt, -⟩ := h
  constructor
  · simp only [raisePriority, hprev]
    omega
  · simp only [raisePriority, hprev]
    omega

theorem toNat_lt_of_toInt {x : BitVec 32} {n : ℕ} (hlow : 0 ≤ x.toInt) (hhigh : x.toInt < n) :
    x.toNat < n := by
  rw [BitVec.toInt_eq_toNat_cond] at hlow hhigh
  split at hhigh <;> omega

theorem in_range_step {e : Event} (h : PrioritiesInRange s) (hok : KeepsPriorities s e)
    (heff : Effect s e s') : PrioritiesInRange s' := by
  cases heff with
  | idle => exact h
  | lowered huse => exact h.set fun _ => lower_inRange (h _ huse)
  | stopped => exact h.set fun huse => absurd huse (by simp [Schedproc.inUse])
  | populated hfree hempty => exact h.set fun huse => absurd huse (by simp [hempty])
  | refused htype hstarts hctl =>
    obtain ⟨-, hempty, -⟩ := starts_spec hstarts
    exact h.set fun huse => absurd huse (by simp [hempty])
  | @started m _ k type i rmp htype hstarts hctl =>
    obtain ⟨-, hempty, hendpoint, hmax, hlow, hvalues⟩ := starts_spec hstarts
    have hcounted : PrioritiesInRange (s.count i rmp) :=
      h.set fun huse => absurd huse (by simp [hempty])
    refine hcounted.set fun _ => ?_
    change rmp.priority.toNat < _ ∧ rmp.maxPriority.toNat ≤ rmp.priority.toNat
    rw [hmax]
    rcases hvalues with ⟨-, hpriority, -⟩ | ⟨rfl, p, hparent, hpriority, -⟩
    · rw [hpriority]
      exact ⟨hlow, le_rfl⟩
    · rw [hendpoint] at hctl
      rw [hpriority]
      exact ⟨(h p (isokendpt_ok hparent).1).1, hok.2 htype p hparent ⟨i, rmp, hstarts⟩ hctl⟩
  | @niced m _ _ i rmp htype haddr hnice hrmp hsched =>
    subst hrmp
    refine h.set fun _ => ⟨?_, le_rfl⟩
    rcases hok.1 htype i haddr with hpos | hrefused
    · exact toNat_lt_of_toInt hpos hnice
    · exact absurd hsched hrefused
  | @niceUndone m _ _ i htype haddr hnice =>
    exact h.set fun _ => h i (isokendpt_ok haddr.2).1
  | @raised rand i hzero hwinner =>
    have hwins := lotteryWinner_iff.mp hwinner
    exact h.set fun _ => raise_inRange (h i hwins.1) (hok i hzero hwins)

theorem prioritiesInRange {past : List (State H × Event)}
    (h : Run (server H) (fun _ => KeepsPriorities) past s) : PrioritiesInRange s := by
  refine h.invariant ?_ ?_
  · rintro s rfl i huse
    exact absurd huse (by simp [initScheduling, Schedproc.inUse])
  · intro past s e s' hs hok hstep
    exact in_range_step hs hok (step_effect hstep)

theorem prioritiesInRange_started :
    ∃ s, Run (server .sample) (fun _ => KeepsPriorities) [(initScheduling, startFive)] s ∧
      PrioritiesInRange s := by
  have hrun : Run (server .sample) (fun _ => KeepsPriorities) [(initScheduling, startFive)] _ :=
    .next (.start rfl) ⟨nofun, nofun⟩ rfl
  exact ⟨_, hrun, prioritiesInRange hrun⟩

theorem winner_passes_maximum :
    ¬ ∀ (H : Headers) (s : State H), (server H).Reachable s → PrioritiesInRange s := by
  intro hall
  have hrun : Run (server .sample) always [(_, .timer 0), (initScheduling, startFive)] _ :=
    .next (.next (.start rfl) trivial rfl) trivial rfl
  exact absurd (hall _ _ ⟨_, hrun⟩ (5 : Fin 8) (by decide)) (by decide)

end Sched
