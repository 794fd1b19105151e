import Cs111.Vfs.LockTable

-- Who waits for a lock has a lock of another process to wait for.
namespace Vfs.Locks
open TransitionSystem

variable {C : LockConfig} {s s' : LockVfs} {R : Region} {pid : ℤ} {req : LockRequest} {p : ℕ}

structure Conflicts (C : LockConfig) (flp : FileLock) (rfp : Fproc) : Prop where
  used : flp.used
  pid : flp.lockPid ≠ rfp.fpPid
  vnode : flp.lockVnode = rfp.sought.vnode
  first : C.off flp.lockFirst ≤ C.off rfp.sought.last
  last : C.off rfp.sought.first ≤ C.off flp.lockLast
  writes : rfp.sought.ltype = .F_RDLCK → flp.lockType ≠ some .F_RDLCK

structure Waits (C : LockConfig) (s : LockVfs) (p : ℕ) : Prop where
  used : Used C s p
  blocked : (s.fproc p).fpBlockedOn = .LOCK
  still : (s.fproc p).fpRevived = false

def WaitsRight (C : LockConfig) (s : LockVfs) : Prop :=
  ∀ p, Waits C s p → ∃ i < C.NR_LOCKS, Conflicts C (s.table.fileLock i) (s.fproc p)

section Torn
variable {t u u' t' : LockTable} {a : ℕ} {unlocking : Bool}

def Swallowed (C : LockConfig) (R : Region) (flp : FileLock) : Prop :=
  flp.used ∧ Meets C R flp ∧
    C.off R.first ≤ C.off flp.lockFirst ∧ C.off flp.lockLast ≤ C.off R.last

def Splits (C : LockConfig) (R : Region) (flp : FileLock) : Prop :=
  flp.used ∧ Meets C R flp ∧
    C.off flp.lockFirst < C.off R.first ∧ C.off R.last < C.off flp.lockLast

instance (R : Region) : DecidablePred (Swallowed C R) :=
  fun _ => inferInstanceAs (Decidable (_ ∧ _ ∧ _ ∧ _))

instance (R : Region) : DecidablePred (Splits C R) :=
  fun _ => inferInstanceAs (Decidable (_ ∧ _ ∧ _ ∧ _))

structure StopsAt (C : LockConfig) (R : Region) (t : LockTable) (j : ℕ) : Prop where
  splits : Splits C R (t.fileLock j)
  full : t.nrLocks + Tally.tally j (Splits C R) t.fileLock =
    C.NR_LOCKS + Tally.tally j (Swallowed C R) t.fileLock

structure TornAt (C : LockConfig) (R : Region) (t : LockTable) (j : ℕ) : Prop
    extends StopsAt C R t j where
  slot : j < C.NR_LOCKS
  reached : ∀ i < j, ¬ StopsAt C R t i
  edited : ∃ i < j, (t.fileLock i).used ∧ Meets C R (t.fileLock i)

structure Edited (C : LockConfig) (R : Region) (t : LockTable) (a : ℕ) (u : LockTable)
    (unlocking : Bool) : Prop where
  ahead : ∀ k, a ≤ k → k < C.NR_LOCKS → u.fileLock k = t.fileLock k ∨
    ¬ (t.fileLock k).used ∧ ¬ Meets C R (u.fileLock k)
  count : u.nrLocks + Tally.tally a (Swallowed C R) t.fileLock =
    t.nrLocks + Tally.tally a (Splits C R) t.fileLock
  same : unlocking = false → u = t
  edited : unlocking = true → ∃ i < a, (t.fileLock i).used ∧ Meets C R (t.fileLock i)
  reached : ∀ i < a, ¬ StopsAt C R t i

theorem Edited.met (h : Edited C R t a u unlocking) (ha : a < C.NR_LOCKS)
    (hmeets : Meets C R (u.fileLock a)) : u.fileLock a = t.fileLock a :=
  (h.ahead a le_rfl ha).resolve_right fun hno => hno.2 hmeets

theorem Edited.pass (h : Edited C R t a u unlocking) (ha : a < C.NR_LOCKS)
    (hpass : (u.fileLock a).used → ¬ Meets C R (u.fileLock a)) :
    Edited C R t (a + 1) u unlocking := by
  have hnot : ¬ ((t.fileLock a).used ∧ Meets C R (t.fileLock a)) := by
    rintro ⟨hused, hmeets⟩
    rcases h.ahead a le_rfl ha with hsame | ⟨hunused, -⟩
    · rw [hsame] at hpass
      exact hpass hused hmeets
    · exact hunused hused
  have hswallowed : ¬ Swallowed C R (t.fileLock a) := fun hs => hnot ⟨hs.1, hs.2.1⟩
  have hsplits : ¬ Splits C R (t.fileLock a) := fun hs => hnot ⟨hs.1, hs.2.1⟩
  refine ⟨fun k hk => h.ahead k (by omega), ?_, h.same, fun hyes => ?_, fun i hi hstops => ?_⟩
  · rw [Tally.tally_succ, Tally.tally_succ, if_neg hswallowed, if_neg hsplits]
    exact h.count
  · obtain ⟨i, hi, hmet⟩ := h.edited hyes
    exact ⟨i, by omega, hmet⟩
  · rcases Nat.lt_succ_iff_lt_or_eq.mp hi with hlt | rfl
    · exact h.reached i hlt hstops
    · exact hsplits hstops.splits

theorem Edited.change (h : Edited C R t a u unlocking) (ha : a < C.NR_LOCKS)
    (hused : (u.fileLock a).used) (hmeets : Meets C R (u.fileLock a))
    (hroom : Splits C R (u.fileLock a) → u.nrLocks ≠ C.NR_LOCKS)
    (hahead : ∀ k, a + 1 ≤ k → k < C.NR_LOCKS → u'.fileLock k = u.fileLock k ∨
      (u.fileLock k).lockType = none ∧ ¬ Meets C R (u'.fileLock k))
    (hcount : u'.nrLocks + (if Swallowed C R (u.fileLock a) then 1 else 0) =
      u.nrLocks + if Splits C R (u.fileLock a) then 1 else 0) :
    Edited C R t (a + 1) u' true := by
  have hsame := h.met ha hmeets
  refine ⟨fun k hk hlt => ?_, ?_, by rintro ⟨⟩, fun _ => ?_, fun i hi hstops => ?_⟩
  · rcases hahead k hk hlt with hkept | ⟨hunused, hbehind⟩
    · rw [hkept]
      exact h.ahead k (by omega) hlt
    · refine .inr ⟨?_, hbehind⟩
      rcases h.ahead k (by omega) hlt with hkept | ⟨hno, -⟩
      · rw [← hkept]
        exact fun hused => hused hunused
      · exact hno
  · have hbefore := h.count
    rw [hsame] at hcount
    rw [Tally.tally_succ, Tally.tally_succ]
    push_cast
    omega
  · rw [hsame] at hused hmeets
    exact ⟨a, Nat.lt_succ_self a, hused, hmeets⟩
  · rcases Nat.lt_succ_iff_lt_or_eq.mp hi with hlt | rfl
    · exact h.reached i hlt hstops
    · have hbefore := h.count
      have hfull := hstops.full
      rw [hsame] at hroom
      exact hroom hstops.splits (by omega)

theorem Edited.clear (h : Edited C R t a u unlocking) (ha : a < C.NR_LOCKS)
    (hused : (u.fileLock a).used) (hmeets : Meets C R (u.fileLock a))
    (hclear : clearRegion C R a u = some u') : Edited C R t (a + 1) u' true := by
  have hother {k : ℕ} {flp : FileLock} (hk : a + 1 ≤ k) :
      (u.set a flp).fileLock k = u.fileLock k := LockTable.set_ne (by omega)
  rw [clearRegion] at hclear
  split at hclear
  · rename_i hall
    cases hclear
    have hswallowed : Swallowed C R (u.fileLock a) := ⟨hused, hmeets, hall⟩
    have hsplits : ¬ Splits C R (u.fileLock a) := fun hs => absurd hall.1 (not_le.mpr hs.2.2.1)
    refine h.change ha hused hmeets (fun hs => absurd hs hsplits) (fun k hk _ => .inl (hother hk)) ?_
    rw [if_pos hswallowed, if_neg hsplits]
    exact (Int.sub_add_cancel _ 1).trans (Int.add_zero _).symm
  · rename_i hall
    have hswallowed : ¬ Swallowed C R (u.fileLock a) := fun hs => hall hs.2.2
    split at hclear
    · rename_i hfirst
      cases hclear
      have hsplits : ¬ Splits C R (u.fileLock a) := fun hs => absurd hfirst (not_le.mpr hs.2.2.1)
      refine h.change ha hused hmeets (fun hs => absurd hs hsplits) (fun k hk _ => .inl (hother hk)) ?_
      rw [if_neg hswallowed, if_neg hsplits]
      rfl
    · rename_i hfirst
      split at hclear
      · rename_i hlast
        cases hclear
        have hsplits : ¬ Splits C R (u.fileLock a) := fun hs => absurd hlast (not_le.mpr hs.2.2.2)
        refine h.change ha hused hmeets (fun hs => absurd hs hsplits) (fun k hk _ => .inl (hother hk)) ?_
        rw [if_neg hswallowed, if_neg hsplits]
        rfl
      · rename_i hlast
        split at hclear
        · cases hclear
        · rename_i hroom
          cases hclear
          have hsplits : Splits C R (u.fileLock a) :=
            ⟨hused, hmeets, not_le.mp hfirst, not_le.mp hlast⟩
          refine h.change ha hused hmeets (fun _ => hroom) (fun k hk hlt => ?_) ?_
          · simp only [splitLock]
            rw [LockTable.set_ne (by omega)]
            by_cases hslot : k = unusedSlot C u
            · -- the second half of the split lock begins behind the region
              subst hslot
              rw [LockTable.set_self]
              refine .inr ⟨unusedSlot_unused hlt, ?_⟩
              rintro ⟨-, hbehind, -⟩
              have hsucc := off_succ (not_le.mp hlast)
              simp only [hsucc] at hbehind
              omega
            · rw [LockTable.set_ne hslot]
              exact .inl rfl
          · rw [if_neg hswallowed, if_pos hsplits]
            exact Int.add_zero _

theorem clear_none (hmeets : Meets C R (u.fileLock a)) (hused : (u.fileLock a).used)
    (h : clearRegion C R a u = none) :
    Splits C R (u.fileLock a) ∧ u.nrLocks = C.NR_LOCKS := by
  rw [clearRegion] at h
  split at h
  · cases h
  · split at h
    · cases h
    · rename_i hfirst
      split at h
      · cases h
      · rename_i hlast
        split at h
        · rename_i hfull
          exact ⟨⟨hused, hmeets, not_le.mp hfirst, not_le.mp hlast⟩, hfull⟩
        · cases h

theorem scan_full {n : ℕ} {empty : Option ℕ} (hn : a + n = C.NR_LOCKS) (hreq : req ≠ .F_GETLK)
    (hltype : R.ltype = .F_UNLCK) (h : Edited C R t a u unlocking)
    (hscan : lockScan C R pid req (List.range' a n) empty unlocking u = (.full, t')) :
    t' = t ∨ ∃ j, TornAt C R t j := by
  induction n generalizing a empty unlocking u with
  | zero => cases hscan
  | succ n ih =>
    have ha : a < C.NR_LOCKS := by omega
    rw [List.range'_succ, lockScan] at hscan
    split at hscan
    · rename_i hunused
      exact ih (by omega) (h.pass ha fun hused => absurd hunused hused) hscan
    · rename_i hused
      split at hscan
      · rename_i hpasses
        exact ih (by omega) (h.pass ha fun _ hmeets => (meets_iff hltype).mpr hmeets hpasses) hscan
      · rename_i hstops
        have hmeets := (meets_iff hltype).mp hstops
        rw [if_neg (not_not.mpr hltype)] at hscan
        split at hscan
        · rename_i hnone
          cases hscan
          cases hunlocking : unlocking with
          | false => exact .inl (h.same hunlocking)
          | true =>
            obtain ⟨hsplits, hfull⟩ := clear_none hmeets hused hnone
            have hcount := h.count
            rw [h.met ha hmeets] at hsplits
            exact .inr ⟨a, ⟨hsplits, by omega⟩, ha, h.reached, h.edited hunlocking⟩
        · rename_i v hclear
          exact ih (by omega) (h.clear ha hused hmeets hclear) hscan

theorem scan_through_same {slots : List ℕ} {empty last : Option ℕ} {unlocks : Bool}
    (hreq : req ≠ .F_GETLK) (hltype : R.ltype = .F_UNLCK)
    (hscan : lockScan C R pid req slots empty unlocking t = (.through last unlocks, t')) :
    (unlocks = false → t' = t) ∧ (unlocking = true → unlocks = true) := by
  induction slots generalizing empty unlocking t with
  | nil =>
    cases hscan
    exact ⟨fun _ => rfl, id⟩
  | cons i slots ih =>
    rw [lockScan] at hscan
    split at hscan
    · exact ih hscan
    · split at hscan
      · exact ih hscan
      · rw [if_neg (not_not.mpr hltype)] at hscan
        split at hscan
        · cases hscan
        · obtain ⟨-, hset⟩ := ih hscan
          refine ⟨fun hno => ?_, fun _ => hset rfl⟩
          rw [hset rfl] at hno
          cases hno

end Torn

section Revived

def Awake (s : LockVfs) (p : ℕ) : Prop :=
  (s.fproc p).fpPid ≠ PID_FREE → (s.fproc p).fpBlockedOn = .LOCK → (s.fproc p).fpRevived = true

theorem reviveLocked_awake : Awake (reviveLocked p s) p := by
  rw [reviveLocked]
  split
  · rename_i hfree
    exact fun hused => absurd hfree hused
  · split
    · rw [revive]
      split
      · rename_i hrevived
        exact fun _ _ => hrevived
      · intro _ _
        simp only [setProc, Function.update_self]
    · rename_i hblocked
      exact fun _ hlock => absurd hlock hblocked

theorem Awake.reviveLocked_kept {q : ℕ} (h : Awake s q) : Awake (reviveLocked p s) q := by
  by_cases heq : q = p
  · subst heq
    exact reviveLocked_awake
  · rw [Awake, reviveLocked_same p q heq]
    exact h

theorem lockRevive_awake (hp : p < C.NR_PROCS) : Awake (lockRevive C s) p := by
  have hloop : ∀ (procs : List ℕ) (s : LockVfs), Awake s p ∨ p ∈ procs →
      Awake (procs.foldl (fun s p => reviveLocked p s) s) p := by
    intro procs
    induction procs with
    | nil => exact fun s h => h.resolve_right List.not_mem_nil
    | cons q procs ih =>
      intro s h
      refine ih _ ?_
      rcases h with hawake | hmem
      · exact .inl hawake.reviveLocked_kept
      · rcases List.mem_cons.mp hmem with rfl | hmem
        · exact .inl reviveLocked_awake
        · exact .inr hmem
  exact hloop _ s (.inr (List.mem_range.mpr hp))

theorem lockRevive_waits : WaitsRight C (lockRevive C s) := by
  intro p hwaits
  have hrevived := lockRevive_awake hwaits.used.slot hwaits.used.used hwaits.blocked
  rw [hwaits.still] at hrevived
  cases hrevived

end Revived

section Steps
variable {fd : ℤ} {flock : Option Flock} {reply : LockReply} {e : LockEvent}

def FewerWait (C : LockConfig) (s s' : LockVfs) : Prop :=
  ∀ p, Waits C s' p → Waits C s p ∧ (s'.fproc p).fpPid = (s.fproc p).fpPid ∧
    (s'.fproc p).sought = (s.fproc p).sought

theorem WaitsRight.fewer (h : WaitsRight C s) (hfewer : FewerWait C s s')
    (hlocks : ∀ i < C.NR_LOCKS, (s.table.fileLock i).used →
      s'.table.fileLock i = s.table.fileLock i) : WaitsRight C s' := by
  intro p hwaits
  obtain ⟨hbefore, hpid, hsought⟩ := hfewer p hwaits
  obtain ⟨i, hi, hconflict⟩ := h p hbefore
  refine ⟨i, hi, ?_⟩
  rw [hlocks i hi hconflict.used]
  constructor
  · exact hconflict.used
  · rw [hpid]
    exact hconflict.pid
  · rw [hsought]
    exact hconflict.vnode
  · rw [hsought]
    exact hconflict.first
  · rw [hsought]
    exact hconflict.last
  · rw [hsought]
    exact hconflict.writes

theorem FewerWait.of_same (h : s'.fproc = s.fproc) : FewerWait C s s' := by
  intro p hwaits
  refine ⟨⟨⟨hwaits.used.slot, ?_⟩, ?_, ?_⟩, ?_, ?_⟩
  · rw [← h]
    exact hwaits.used.used
  · rw [← h]
    exact hwaits.blocked
  · rw [← h]
    exact hwaits.still
  · rw [h]
  · rw [h]

theorem FewerWait.set {rfp : Fproc} (h : rfp.fpPid ≠ PID_FREE → rfp.fpBlockedOn = .LOCK →
      rfp.fpPid = (s.fproc p).fpPid ∧ (s.fproc p).fpBlockedOn = .LOCK ∧
        rfp.fpRevived = (s.fproc p).fpRevived ∧ rfp.sought = (s.fproc p).sought) :
    FewerWait C s (setProc p rfp s) := by
  intro q hwaits
  by_cases heq : q = p
  · subst heq
    have hself : (setProc q rfp s).fproc q = rfp := by
      simp only [setProc, Function.update_self]
    obtain ⟨⟨hslot, hused⟩, hblocked, hstill⟩ := hwaits
    rw [hself] at hused hblocked hstill
    obtain ⟨hpid, hlock, hrevived, hsought⟩ := h hused hblocked
    rw [hself]
    refine ⟨⟨⟨hslot, ?_⟩, hlock, hrevived ▸ hstill⟩, hpid, hsought⟩
    rw [← hpid]
    exact hused
  · have hother : (setProc p rfp s).fproc q = s.fproc q := by
      simp only [setProc, Function.update_of_ne heq]
    obtain ⟨⟨hslot, hused⟩, hblocked, hstill⟩ := hwaits
    rw [hother] at hused hblocked hstill
    rw [hother]
    exact ⟨⟨⟨hslot, hused⟩, hblocked, hstill⟩, rfl, rfl⟩

theorem conflicts_of_stops {flp : FileLock} (hset : R.ltype ≠ .F_UNLCK) (hused : flp.used)
    (hstops : ¬ passes C R pid flp) {rfp : Fproc} (hsought : rfp.sought = R)
    (hpid : rfp.fpPid = pid) : Conflicts C flp rfp := by
  simp only [passes, not_or, not_and, not_lt, not_not] at hstops
  obtain ⟨hvnode, hfirst, hlast, htype, hown⟩ := hstops
  subst hsought hpid
  exact ⟨hused, hown hset, hvnode, hfirst, hlast, htype⟩

theorem unlock_request {f : Filp} {fl : Flock} (h : region C s f req fl = .ok (.ok R))
    (hltype : R.ltype = .F_UNLCK) : req ≠ .F_GETLK :=
  fun hreq => (checks_ltype (region_found h).1).2 hreq hltype

theorem LockOutcome.waitsRight {f : Filp} (h : LockOutcome C p fd f req flock s s')
    (hs : WaitsRight C s)
    (htorn : ∀ fl R, flock = some fl → region C s f req fl = .ok (.ok R) → R.ltype = .F_UNLCK →
      ¬ ∃ j, TornAt C R s.table j) : WaitsRight C s' := by
  cases h with
  | same => exact hs
  | @waits R i hset hvnode hi hused hconflict =>
    intro q hwaits
    by_cases heq : q = p
    · subst heq
      have hself : (suspend q fd req R s).fproc q = { s.fproc q with
          fpBlockedOn := .LOCK, fpBlockFd := fd, fpNbytes := req, sought := R } :=
        Function.update_self q _ _
      refine ⟨i, hi, conflicts_of_stops hset hused hconflict ?_ ?_⟩
      · rw [hself]
      · rw [hself]
    · have hother : (suspend p fd req R s).fproc q = s.fproc q := Function.update_of_ne heq _ _
      obtain ⟨⟨hslot, hqused⟩, hblocked, hstill⟩ := hwaits
      rw [hother] at hqused hblocked hstill
      obtain ⟨j, hj, hwaitsfor⟩ := hs q ⟨⟨hslot, hqused⟩, hblocked, hstill⟩
      refine ⟨j, hj, ?_⟩
      rw [hother]
      exact hwaitsfor
  | stores hR hi hunused hadmits =>
    refine hs.fewer (.of_same rfl) fun j hj hused => LockTable.set_ne ?_
    rintro rfl
    exact hused hunused
  | @clears fl R empty unlocking t hflock hregion hltype hscan =>
    have hreq := unlock_request hregion hltype
    split
    · exact lockRevive_waits
    · rename_i hno
      obtain rfl := (scan_through_same hreq hltype hscan).1 (Bool.eq_false_iff.mpr hno)
      exact hs
  | @stops fl R t hflock hregion hltype hscan =>
    have hreq := unlock_request hregion hltype
    have hstart : Edited C R s.table 0 s.table false :=
      ⟨fun _ _ _ => .inl rfl, by simp [Tally.tally], fun _ => rfl, by rintro ⟨⟩,
        fun i hi => absurd hi (Nat.not_lt_zero i)⟩
    rw [List.range_eq_range'] at hscan
    rcases scan_full (Nat.zero_add _) hreq hltype hstart hscan with rfl | hj
    · exact hs
    · exact absurd hj (htorn fl R hflock hregion hltype)

def TearsAt (C : LockConfig) (s : LockVfs) (p : ℕ) (fd : ℤ) (req : LockRequest)
    (flock : Option Flock) : Prop :=
  ∃ f fl R, getFilp2 C (s.fproc p) fd = .ok f ∧ flock = some fl ∧
    region C s (s.filp f) req fl = .ok (.ok R) ∧ R.ltype = .F_UNLCK ∧ ∃ j, TornAt C R s.table j

def Tears (C : LockConfig) (s : LockVfs) : LockEvent → Prop
  | .fcntl p fd req flock => TearsAt C s p fd req flock
  | .restart p flock => TearsAt C s p (s.fproc p).fpBlockFd (s.fproc p).fpNbytes flock
  | _ => False

theorem doFcntl_waits (h : doFcntl C p fd req flock s = .ok (reply, s')) (hs : WaitsRight C s)
    (htorn : ¬ TearsAt C s p fd req flock) : WaitsRight C s' := by
  rw [doFcntl] at h
  split at h
  · cases h
    exact hs
  · rename_i f hf
    refine (lockOp_outcome h).waitsRight hs fun fl R hflock hregion hltype hj => ?_
    exact htorn ⟨f, fl, R, hf, hflock, hregion, hltype, hj⟩

theorem releaseLocks_less {vp : ℕ} {t : LockTable} : releaseLocks C vp pid t = t ∨
    (releaseLocks C vp pid t).nrLocks < t.nrLocks := by
  have hstep (i : ℕ) (t : LockTable) : releaseLock vp pid i t = t ∨
      (releaseLock vp pid i t).nrLocks < t.nrLocks := by
    simp only [releaseLock]
    split
    · exact .inl rfl
    · split
      · exact .inr (Int.sub_one_lt_of_le le_rfl)
      · exact .inl rfl
  have hloop : ∀ (slots : List ℕ) (t : LockTable),
      slots.foldl (fun t i => releaseLock vp pid i t) t = t ∨
        (slots.foldl (fun t i => releaseLock vp pid i t) t).nrLocks < t.nrLocks := by
    intro slots
    induction slots with
    | nil => exact fun _ => .inl rfl
    | cons i slots ih =>
      intro t
      rcases hstep i t with hsame | hless
      · rw [List.foldl_cons, hsame]
        exact ih t
      · rcases ih (releaseLock vp pid i t) with hrest | hrest
        · rw [List.foldl_cons, hrest]
          exact .inr hless
        · exact .inr (hrest.trans hless)
  exact hloop _ t

theorem unlockClosed_waits {vp : ℕ} (hs : WaitsRight C s) :
    WaitsRight C (unlockClosed C vp pid s) := by
  rw [unlockClosed]
  split
  · exact hs
  · simp only
    split
    · exact lockRevive_waits
    · rename_i hnot
      rw [releaseLocks_less.resolve_right hnot]
      exact hs

theorem closeFd_waits (fd : ℤ) (hs : WaitsRight C s) : WaitsRight C (closeFd C p fd s).2 := by
  rw [closeFd]
  split
  · exact hs
  · rename_i f hf
    refine unlockClosed_waits ?_
    have hclosed : WaitsRight C (closeFilp f s) := hs.fewer (.of_same rfl) fun _ _ _ => rfl
    refine hclosed.fewer (.set fun _ hblocked => ?_) fun _ _ _ => rfl
    exact ⟨rfl, hblocked, rfl, rfl⟩

theorem closeAll_waits (hs : WaitsRight C s) : WaitsRight C (closeAll C p s) := by
  have hloop : ∀ (fds : List ℕ) (s : LockVfs), WaitsRight C s →
      WaitsRight C (fds.foldl (fun s fd => (closeFd C p fd s).2) s) := by
    intro fds
    induction fds with
    | nil => exact fun _ h => h
    | cons fd fds ih => exact fun s h => ih _ (closeFd_waits fd h)
  exact hloop _ s hs

theorem WaitsRight.woken (hs : WaitsRight C s) (p : ℕ) (reviving : ℤ) : WaitsRight C
    { setProc p { s.fproc p with fpBlockedOn := .NONE, fpRevived := false } s with
      reviving := reviving } := by
  have hset : WaitsRight C (setProc p { s.fproc p with
      fpBlockedOn := .NONE, fpRevived := false } s) :=
    hs.fewer (.set fun _ => by rintro ⟨⟩) fun _ _ _ => rfl
  exact hset.fewer (.of_same rfl) fun _ _ _ => rfl

theorem unpause_waits (hs : WaitsRight C s) : WaitsRight C (unpause p s) := by
  simp only [unpause]
  split
  · exact hs.woken p _
  · exact hs

theorem freeProc_waits (hs : WaitsRight C s) : WaitsRight C (freeProc C p s) :=
  (closeAll_waits (unpause_waits hs)).fewer (.set fun hused => absurd rfl hused) fun _ _ _ => rfl

theorem waits_step (hs : WaitsRight C s) (hsent : Sent C s e) (htorn : ¬ Tears C s e)
    (h : handle C s e = .ok s') : WaitsRight C s' := by
  cases e with
  | fcntl p fd req flock =>
    obtain ⟨reply, h⟩ := ok_of_snd h
    exact doFcntl_waits h hs htorn
  | restart p flock =>
    obtain ⟨reply, h⟩ := ok_of_snd h
    rw [restart] at h
    refine doFcntl_waits h (hs.woken p _) ?_
    rintro ⟨f, fl, R, hf, hrest⟩
    refine htorn ⟨f, fl, R, ?_, hrest⟩
    simp only [setProc, Function.update_self] at hf
    exact hf
  | close p fd =>
    cases h
    exact closeFd_waits fd hs
  | exit p =>
    cases h
    exact freeProc_waits hs
  | signal p =>
    cases h
    exact unpause_waits hs
  | others fproc filp vnode reviving =>
    cases h
    refine hs.fewer (fun p hwaits => ?_) fun _ _ _ => rfl
    obtain ⟨⟨hslot, hused⟩, hblocked, hstill⟩ := hwaits
    have hsame := hsent p (.inr hblocked)
    simp only at hused hblocked hstill ⊢
    rw [hsame] at hused hblocked hstill ⊢
    exact ⟨⟨⟨hslot, hused⟩, hblocked, hstill⟩, rfl, rfl⟩

theorem lock_waitsRight {past : List (LockVfs × LockEvent)}
    (h : Run (lockSystem C) (fun _ s e => ¬ Tears C s e) past s) : WaitsRight C s :=
  h.invariant (fun _ hinit p hwaits => absurd hwaits.blocked (hinit.waiting p))
    fun _ _ _ _ hs htorn hstep => waits_step hs hstep.1 htorn hstep.2

end Steps

section Sample

def sampleWait : LockEvent := .fcntl 1 0 .F_SETLKW (some (sampleFlock .F_RDLCK 5 6))

def sampleWaiting : LockVfs :=
  suspend 1 0 .F_SETLKW ⟨0, .F_RDLCK, 5#32, 10#32⟩ (sampleLocked 8)

def sampleUnlock : LockEvent := .fcntl 0 0 .F_SETLK (some (sampleFlock .F_UNLCK 5 6))

theorem sample_waits :
    (lockSystem sampleConfig).step (sampleLocked 8) sampleWait sampleWaiting :=
  ⟨⟨⟨by decide, by decide⟩, rfl⟩, rfl⟩

theorem no_unlock_tears {fd : ℤ} {fl : Flock} (h : fl.lType ≠ some .F_UNLCK) :
    ¬ Tears C s (.fcntl p fd req (some fl)) := by
  rintro ⟨f, fl', R, -, hflock, hregion, hltype, -⟩
  cases hflock
  rw [(checks_ltype (region_found hregion).1).1, hltype] at h
  exact h rfl

theorem sampleRequest_kept {n : ℕ} (hn : n < 8) :
    ¬ Tears sampleConfig (sampleLocked n) (sampleRequest n) := by
  interval_cases n <;> exact no_unlock_tears (by decide)

theorem lock_waitsRight_sample : WaitsRight sampleConfig sampleWaiting := by
  have hlocked : ∃ past, Run (lockSystem sampleConfig) (fun _ s e => ¬ Tears sampleConfig s e) past
      (sampleLocked 8) := sample_run le_rfl fun _ _ hn => sampleRequest_kept hn
  obtain ⟨past, hrun⟩ := hlocked
  exact lock_waitsRight (hrun.next (no_unlock_tears (by decide)) sample_waits)

theorem unlock_leaves_waiter :
    ¬ ∀ (C : LockConfig) (s : LockVfs), (lockSystem C).Reachable s → WaitsRight C s := by
  intro hall
  have hlocked : (lockSystem sampleConfig).Reachable (sampleLocked 8) :=
    sample_run le_rfl fun _ _ _ => trivial
  obtain ⟨past, hrun⟩ := hlocked
  have hwaiting := hrun.next trivial sample_waits
  have hunlocked : handle sampleConfig sampleWaiting sampleUnlock = .ok { sampleWaiting with
      table := sampleWaiting.table.set 0 ⟨some .F_WRLCK, 10, 0, 11#32, 15#32⟩ } := rfl
  have hsent : Sent sampleConfig sampleWaiting sampleUnlock := ⟨⟨by decide, by decide⟩, rfl⟩
  obtain ⟨i, hi, hconflict⟩ := hall _ _ ⟨_, hwaiting.next trivial ⟨hsent, hunlocked⟩⟩ 1
    ⟨⟨by decide, by decide⟩, rfl, rfl⟩
  have hlt : i < 8 := hi
  have hfirst := hconflict.first
  have hwrites := hconflict.writes rfl
  interval_cases i
  · exact absurd hfirst (by decide)
  all_goals exact hwrites rfl

end Sample

end Vfs.Locks
