import Cs111.Sched.Schedule

namespace Pm
open Minix Sched

structure Mproc where
  mpEndpoint : ℤ
  mpScheduler : ℤ
  mpPid : ℤ
  mpInUse : Bool
  mpEffuid : ℕ
  mpRealuid : ℕ
  mpNice : BitVec 32
  deriving DecidableEq, Repr

inductive CallNr where
  | GETPRIORITY | SETPRIORITY
  deriving DecidableEq, Repr

structure Request where
  callNr : CallNr
  which : ℤ
  who : ℤ
  pri : BitVec 32
  deriving DecidableEq, Repr

inductive Reply where
  | status (code : Errno)
  | nice (value : BitVec 32)
  deriving DecidableEq, Repr

variable {H : Headers}

-- PM's table, the caller's slot in it, and the table of the SCHED server it talks to.
structure World (H : Headers) where
  mproc : Fin H.nrProcs → Mproc
  mp : Fin H.nrProcs
  sched : State H

def findProc (w : World H) (lpid : ℤ) : Option (Fin H.nrProcs) :=
  (List.finRange H.nrProcs).find? fun i => (w.mproc i).mpInUse && (w.mproc i).mpPid == lpid

-- The range check of this function is commented out.
def niceToPriority (H : Headers) (nice : BitVec 32) : Errno × BitVec 32 :=
  let low := BitVec.ofInt 32 H.prioMin
  let high := BitVec.ofInt 32 H.prioMax
  let minQ := BitVec.ofNat 32 minUserQ
  let maxQ := BitVec.ofNat 32 maxUserQ
  let newQ := maxQ + ((nice - low) * (minQ - maxQ + 1)).sdiv (high - low + 1)
  let newQ := if newQ < maxQ then maxQ else newQ
  (.OK, if minQ < newQ then minQ else newQ)

section Calls
variable (k : KernelReplies) (elsewhere : ℤ → Message → Errno) (w : World H)

def taskcall (who : ℤ) (m : Message) : Errno × World H :=
  if who = H.schedProcNr then
    let handled := handle k w.sched m false
    (handled.result, { w with sched := handled.s })
  else (elsewhere who m, w)

def schedNice (i : Fin H.nrProcs) (nice : BitVec 32) : Errno × World H :=
  let rmp := w.mproc i
  if rmp.mpScheduler = H.kernelEndpoint ∨ rmp.mpScheduler = H.none then (.EINVAL, w)
  else
    match niceToPriority H nice with
    | (.OK, _) =>
      taskcall k elsewhere w rmp.mpScheduler
        (.fromPM H .SCHEDULING_SET_NICE rmp.mpEndpoint nice)
    | (rv, _) => (rv, w)

def priorityTarget (m : Request) : Except Errno (Fin H.nrProcs) :=
  if m.who = 0 then .ok w.mp
  else
    match findProc w m.who with
    | none => .error .ESRCH
    | some i => .ok i

def doGetsetpriority (m : Request) : Reply × World H :=
  if m.which ≠ H.prioProcess then (.status .EINVAL, w)
  else
    match priorityTarget w m with
    | .error e => (.status e, w)
    | .ok i =>
      let mp := w.mproc w.mp
      let rmp := w.mproc i
      if mp.mpEffuid ≠ H.superUser ∧ mp.mpEffuid ≠ rmp.mpEffuid ∧ mp.mpEffuid ≠ rmp.mpRealuid then
        (.status .EPERM, w)
      else
        match m.callNr with
        | .GETPRIORITY => (.nice (rmp.mpNice - BitVec.ofInt 32 H.prioMin), w)
        | .SETPRIORITY =>
          if m.pri.toInt < rmp.mpNice.toInt ∧ mp.mpEffuid ≠ H.superUser then (.status .EACCES, w)
          else
            match schedNice k elsewhere w i m.pri with
            | (.OK, w) =>
              (.status .OK, { w with
                mproc := Function.update w.mproc i { rmp with mpNice := m.pri } })
            | (r, w) => (.status r, w)

end Calls

section Range
variable {k : KernelReplies} {elsewhere : ℤ → Message → Errno} {w w' : World H} {m : Request}

def InUserRange (q : Unsigned) : Prop := maxUserQ ≤ q.toNat ∧ q.toNat ≤ minUserQ

theorem nice_ok {s : State H} {m : Message} (h : (doNice k s m).result = .OK) :
    ∃ i, Addressed s m i ∧ m.schedulingMaxprio.toInt < nrSchedQueues ∧
      ((doNice k s m).s.schedproc i).endpoint = m.schedulingEndpoint ∧
      ((doNice k s m).s.schedproc i).priority = m.schedulingMaxprio ∧
      ((doNice k s m).s.schedproc i).maxPriority = m.schedulingMaxprio := by
  unfold doNice at h ⊢
  split at h
  · cases h
  · rename_i haccept
    rw [if_neg haccept]
    cases hlookup : schedIsokendpt s m.schedulingEndpoint with
    | error e => simp [hlookup] at h
    | ok i =>
      have haddr : Addressed s m i := ⟨by simpa using haccept, hlookup⟩
      simp only [hlookup] at h ⊢
      split at h
      · cases h
      · rename_i hnice
        rw [if_neg hnice]
        split at h
        · rename_i hsched
          refine ⟨i, haddr, not_le.mp hnice, ?_⟩
          simp only [set_self, and_true]
          exact (isokendpt_ok hlookup).2
        · rename_i hrefused
          exact absurd h hrefused

theorem inUserRange_iff (q : Unsigned) : InUserRange q ↔ q = 16 ∨ q = 17 := by
  rw [InUserRange, maxUserQ, minUserQ, nrSchedQueues, BitVec.toNat_eq, BitVec.toNat_eq]
  change _ ↔ q.toNat = 16 ∨ q.toNat = 17
  omega

structure Accepted (k : KernelReplies) (elsewhere : ℤ → Message → Errno) (w w' : World H)
    (m : Request) (i : Fin H.nrProcs) : Prop where
  set : m.callNr = .SETPRIORITY
  target : priorityTarget w m = .ok i
  scheduler : (w.mproc i).mpScheduler = H.schedProcNr
  accepted : doGetsetpriority k elsewhere w m = (.status .OK, w')

theorem Accepted.sched_eq {i : Fin H.nrProcs} (h : Accepted k elsewhere w w' m i) :
    ∃ msg : Message, msg = .fromPM H .SCHEDULING_SET_NICE (w.mproc i).mpEndpoint m.pri ∧
      (doNice k w.sched msg).result = .OK ∧ w'.sched = (doNice k w.sched msg).s := by
  refine ⟨_, rfl, ?_⟩
  obtain ⟨hset, htarget, hsched, haccepted⟩ := h
  unfold doGetsetpriority at haccepted
  simp only [htarget, hset] at haccepted
  split_ifs at haccepted with hwhich hperm hacces
  · cases haccepted
  · cases haccepted
  · cases haccepted
  · have hcall : ∀ w₂ r, schedNice k elsewhere w i m.pri = (r, w₂) → r = .OK →
        (doNice k w.sched (.fromPM H .SCHEDULING_SET_NICE (w.mproc i).mpEndpoint m.pri)).result = .OK ∧
        w₂.sched =
          (doNice k w.sched (.fromPM H .SCHEDULING_SET_NICE (w.mproc i).mpEndpoint m.pri)).s := by
      intro w₂ r hr hok
      simp only [schedNice, niceToPriority, taskcall, hsched, if_true] at hr
      split at hr
      · cases hr; cases hok
      · cases hr
        exact ⟨hok, rfl⟩
    split at haccepted
    · rename_i w₂ hr
      cases haccepted
      exact hcall w₂ _ hr rfl
    · rename_i r w₂ hne hr
      cases haccepted
      exact absurd rfl hne

theorem accepted_inUserRange_iff {i : Fin H.nrProcs} (h : Accepted k elsewhere w w' m i) :
    ∃ j, schedIsokendpt w.sched (w.mproc i).mpEndpoint = .ok j ∧
      (InUserRange (w'.sched.schedproc j).priority ∧
          InUserRange (w'.sched.schedproc j).maxPriority ↔
        m.pri = 16 ∨ m.pri = 17) := by
  obtain ⟨msg, rfl, hok, hsched⟩ := h.sched_eq
  obtain ⟨j, haddr, -, -, hpriority, hmax⟩ := nice_ok hok
  refine ⟨j, haddr.2, ?_⟩
  rw [hsched, hpriority, hmax, and_self]
  exact inUserRange_iff m.pri

def initOnly : World .sample where
  mproc i := if i.val = 5 then ⟨5, 4, 1, true, 0, 0, 0⟩ else ⟨0, 0, 0, false, 0, 0, 0⟩
  mp := (5 : Fin 8)
  sched :=
    { schedproc := fun i =>
        if i.val = 5 then ⟨5, 5, IN_USE, 16, 16, 200, 20⟩ else ⟨0, 0, 0, 0, 0, 0, 0⟩
      totalTickets := 20 }

def setNice (nice : BitVec 32) : Request := ⟨.SETPRIORITY, 0, 0, nice⟩

theorem accepted_nice_sixteen :
    ∃ w' : World .sample, ∃ j, schedIsokendpt initOnly.sched (initOnly.mproc (5 : Fin 8)).mpEndpoint =
        .ok j ∧
      (InUserRange (w'.sched.schedproc j).priority ∧
          InUserRange (w'.sched.schedproc j).maxPriority ↔
        (setNice 16).pri = 16 ∨ (setNice 16).pri = 17) := by
  have haccepted : Accepted .accepting (fun _ _ => .OK) initOnly _ (setNice 16) (5 : Fin 8) :=
    ⟨rfl, rfl, rfl, rfl⟩
  exact ⟨_, accepted_inUserRange_iff haccepted⟩

theorem accepted_nice_zero_leaves_range :
    ¬ ∀ (H : Headers) (k : KernelReplies) (elsewhere : ℤ → Message → Errno) (w w' : World H)
      (m : Request) (i j : Fin H.nrProcs), Accepted k elsewhere w w' m i →
      schedIsokendpt w.sched (w.mproc i).mpEndpoint = .ok j →
      InUserRange (w'.sched.schedproc j).priority ∧
        InUserRange (w'.sched.schedproc j).maxPriority := by
  intro hall
  have hrange := hall .sample .accepting (fun _ _ => .OK) initOnly _ (setNice 0) (5 : Fin 8)
    (5 : Fin 8) ⟨rfl, rfl, rfl, rfl⟩ rfl
  exact absurd hrange.1.1 (by decide)

end Range

end Pm

namespace Pm
open Minix Sched
variable {H : Headers} {nice n₁ n₂ : BitVec 32}

def FitsInt (x : ℤ) : Prop := -2 ^ 31 ≤ x ∧ x < 2 ^ 31

def scaledNice (H : Headers) (nice : ℤ) : ℤ := (nice - H.prioMin) * (minUserQ - maxUserQ + 1)

structure FitsNice (H : Headers) (nice : ℤ) : Prop where
  offset : FitsInt (nice - H.prioMin)
  scaled : FitsInt (scaledNice H nice)
  span : FitsInt (H.prioMax - H.prioMin + 1)
  queue : FitsInt (maxUserQ + (scaledNice H nice).tdiv (H.prioMax - H.prioMin + 1))

structure OrderedQueues (H : Headers) (n₁ n₂ : BitVec 32) : Prop where
  fits₁ : FitsNice H n₁.toInt
  fits₂ : FitsNice H n₂.toInt
  low : maxUserQ ≤ (niceToPriority H n₁).2.toNat
  mono : (niceToPriority H n₁).2.toNat ≤ (niceToPriority H n₂).2.toNat
  high : (niceToPriority H n₂).2.toNat ≤ minUserQ

def clampQueue (q : Unsigned) : Unsigned :=
  if 17 < (if q < 16 then 16 else q) then 17 else if q < 16 then 16 else q

theorem tdiv_span (x : ℤ) : x.tdiv 41 = if 0 ≤ x then x / 41 else -(-x / 41) := by
  split
  · rename_i hx
    exact Int.tdiv_eq_ediv_of_nonneg hx
  · rename_i hx
    rw [← Int.neg_neg x, Int.neg_tdiv, Int.tdiv_eq_ediv_of_nonneg (by omega), Int.neg_neg]

variable (hmin : H.prioMin = -20) (hmax : H.prioMax = 20)
include hmin hmax

theorem fitsNice_iff : FitsNice H nice.toInt ↔
    -2 ^ 30 - 20 ≤ nice.toInt ∧ nice.toInt < 2 ^ 30 - 20 := by
  have hspan : H.prioMax - H.prioMin + 1 = 41 := by omega
  have hscaled : scaledNice H nice.toInt = 2 * (nice.toInt + 20) := by
    simp only [scaledNice, hmin, minUserQ, maxUserQ, nrSchedQueues]
    omega
  constructor
  · intro h
    have hfits := h.scaled
    rw [hscaled, FitsInt] at hfits
    omega
  · intro h
    constructor
    · rw [FitsInt]
      omega
    · rw [hscaled, FitsInt]
      omega
    · rw [hspan, FitsInt]
      omega
    · rw [hspan, hscaled, FitsInt, tdiv_span, maxUserQ]
      split <;> omega

theorem niceToPriority_eq (hlow : -2 ^ 30 - 20 ≤ nice.toInt) (hhigh : nice.toInt < 2 ^ 30 - 20) :
    (niceToPriority H nice).2.toNat = if nice.toInt ≤ -369 ∨ 1 ≤ nice.toInt then 17 else 16 := by
  have hoffset : (nice - BitVec.ofInt 32 (-20)).toInt = nice.toInt + 20 := by
    rw [BitVec.toInt_sub, Int.bmod_eq_of_le] <;> simp <;> omega
  have hscaled : ((nice - BitVec.ofInt 32 (-20)) * 2).toInt = 2 * (nice.toInt + 20) := by
    rw [BitVec.toInt_mul, hoffset, Int.bmod_eq_of_le] <;> simp <;> omega
  have hquotient : (((nice - BitVec.ofInt 32 (-20)) * 2).sdiv 41).toInt =
      (2 * (nice.toInt + 20)).tdiv 41 := by
    have hspan : (41 : BitVec 32).toInt = 41 := rfl
    rw [BitVec.toInt_sdiv, hscaled, hspan, tdiv_span, Int.bmod_eq_of_le] <;> split <;> omega
  rw [tdiv_span] at hquotient
  have hqueue : (niceToPriority H nice).2 =
      clampQueue (16 + ((nice - BitVec.ofInt 32 (-20)) * 2).sdiv 41) := by
    simp only [niceToPriority, hmin, hmax]
    rfl
  rw [hqueue, clampQueue]
  generalize ((nice - BitVec.ofInt 32 (-20)) * 2).sdiv 41 = quotient at hquotient ⊢
  have hbound := quotient.isLt
  have hsum : (16 + quotient).toNat =
      if quotient.toNat < 2 ^ 32 - 16 then 16 + quotient.toNat
      else quotient.toNat + 16 - 2 ^ 32 := by
    rw [BitVec.toNat_add]
    split <;> simp <;> omega
  generalize 16 + quotient = queue at hsum ⊢
  rw [BitVec.toInt_eq_toNat_cond] at hquotient
  have h16 : (16 : BitVec 32).toNat = 16 := rfl
  have h17 : (17 : BitVec 32).toNat = 17 := rfl
  simp only [BitVec.lt_def, apply_ite BitVec.toNat, h16, h17]
  split_ifs at hquotient hsum ⊢ <;> omega

theorem orderedQueues_iff (h : n₁.toInt ≤ n₂.toInt) : OrderedQueues H n₁ n₂ ↔
    -2 ^ 30 - 20 ≤ n₁.toInt ∧ n₂.toInt < 2 ^ 30 - 20 ∧
      ¬ (n₁.toInt ≤ -369 ∧ -368 ≤ n₂.toInt ∧ n₂.toInt ≤ 0) := by
  constructor
  · rintro ⟨hfits₁, hfits₂, -, hmono, -⟩
    obtain ⟨hlow₁, hhigh₁⟩ := (fitsNice_iff hmin hmax).mp hfits₁
    obtain ⟨hlow₂, hhigh₂⟩ := (fitsNice_iff hmin hmax).mp hfits₂
    rw [niceToPriority_eq hmin hmax hlow₁ hhigh₁, niceToPriority_eq hmin hmax hlow₂ hhigh₂]
      at hmono
    refine ⟨hlow₁, hhigh₂, ?_⟩
    split_ifs at hmono <;> omega
  · rintro ⟨hlow, hhigh, horder⟩
    have hq₁ := niceToPriority_eq hmin hmax hlow (h.trans_lt hhigh)
    have hq₂ := niceToPriority_eq hmin hmax (hlow.trans h) hhigh
    refine ⟨(fitsNice_iff hmin hmax).mpr ⟨hlow, h.trans_lt hhigh⟩,
      (fitsNice_iff hmin hmax).mpr ⟨hlow.trans h, hhigh⟩, ?_, ?_, ?_⟩
    · rw [hq₁, maxUserQ]
      split <;> omega
    · rw [hq₁, hq₂]
      split_ifs <;> omega
    · rw [hq₂, minUserQ, nrSchedQueues]
      split <;> omega

omit hmin hmax

theorem orderedQueues_five_ten : OrderedQueues .sample 5 10 ↔
    -2 ^ 30 - 20 ≤ (5 : BitVec 32).toInt ∧ (10 : BitVec 32).toInt < 2 ^ 30 - 20 ∧
      ¬ ((5 : BitVec 32).toInt ≤ -369 ∧ -368 ≤ (10 : BitVec 32).toInt ∧
        (10 : BitVec 32).toInt ≤ 0) :=
  orderedQueues_iff rfl rfl (by decide)

theorem low_nice_gets_worst_queue :
    ¬ ∀ (H : Headers) (n₁ n₂ : BitVec 32), H.prioMin = -20 → H.prioMax = 20 →
      n₁.toInt ≤ n₂.toInt → OrderedQueues H n₁ n₂ := by
  intro hall
  exact absurd (hall .sample (-400) 0 rfl rfl (by decide)).mono (by decide)

end Pm
