import Cs111.Vfs.Lock
import Mathlib.Tactic.IntervalCases

-- Locks of two processes do not meet unless both are read locks.
namespace Vfs.Locks
open TransitionSystem

variable {C : LockConfig} {s t : LockVfs} {R : Region} {pid : ℤ} {req : LockRequest} {p : ℕ}

section Offsets
variable {a b : BitVec 32}

theorem off_succ (h : C.off a < C.off b) : C.off (a + 1) = C.off a + 1 := by
  simp only [LockConfig.off] at h ⊢
  cases hsigned : C.offSigned with
  | true =>
    simp only [hsigned, if_true] at h ⊢
    have hlt := b.toInt_lt
    have hle := a.le_toInt
    have hone : BitVec.toInt (1 : BitVec 32) = 1 := rfl
    rw [BitVec.toInt_add, hone, Int.bmod_eq_of_le] <;> omega
  | false =>
    simp only [hsigned, Bool.false_eq_true, if_false] at h ⊢
    have hlt := b.isLt
    have hone : BitVec.toNat (1 : BitVec 32) = 1 := rfl
    rw [BitVec.toNat_add, hone, Nat.mod_eq_of_lt (by omega)]
    omega

theorem off_pred (h : C.off a < C.off b) : C.off (b - 1) = C.off b - 1 := by
  simp only [LockConfig.off] at h ⊢
  cases hsigned : C.offSigned with
  | true =>
    simp only [hsigned, if_true] at h ⊢
    have hlt := b.toInt_lt
    have hle := a.le_toInt
    have hone : BitVec.toInt (1 : BitVec 32) = 1 := rfl
    rw [BitVec.toInt_sub, hone, Int.bmod_eq_of_le] <;> omega
  | false =>
    simp only [hsigned, Bool.false_eq_true, if_false] at h ⊢
    have hlt := b.isLt
    have hone : BitVec.toNat (1 : BitVec 32) = 1 := rfl
    rw [BitVec.toNat_sub, hone]
    omega

end Offsets

theorem bounds_ordered {base : BitVec 32} {flock : Flock} {bound : BitVec 32 × BitVec 32}
    (h : bounds C base flock = .ok bound) : C.off bound.1 ≤ C.off bound.2 := by
  simp only [bounds] at h
  generalize (if flock.lLen = 0 then C.MAX_FILE_POS else _) = last at h
  split at h
  · cases h
  · split at h
    · cases h
    · split at h
      · cases h
      · rename_i hle
        cases h
        exact not_lt.mp hle

theorem region_found {f : Filp} {flock : Flock} (h : region C s f req flock = .ok (.ok R)) :
    lockChecks s f req flock = .ok R.ltype ∧ R.vnode = f.filpVno ∧
      ∃ base, bounds C base flock = .ok (R.first, R.last) := by
  rw [region] at h
  cases hchecks : lockChecks s f req flock with
  | error e =>
    rw [hchecks] at h
    cases h
  | ok ltype =>
    simp only [hchecks] at h
    split at h
    · cases h
    · rename_i whence _
      cases hbase : seekBase s f whence with
      | error e =>
        rw [hbase] at h
        cases h
      | ok base =>
        rw [hbase] at h
        cases hbounds : bounds C base flock with
        | error e =>
          simp only [Except.map, hbounds] at h
          cases h
        | ok bound =>
          simp only [Except.map, hbounds] at h
          cases h
          exact ⟨rfl, rfl, base, hbounds⟩

theorem region_ordered {f : Filp} {flock : Flock} (h : region C s f req flock = .ok (.ok R)) :
    C.off R.first ≤ C.off R.last := by
  obtain ⟨-, -, base, hbounds⟩ := region_found h
  exact bounds_ordered hbounds

theorem checks_ltype {f : Filp} {flock : Flock} {ltype : LockType}
    (h : lockChecks s f req flock = .ok ltype) :
    flock.lType = some ltype ∧ (req = .F_GETLK → ltype ≠ .F_UNLCK) := by
  rw [lockChecks] at h
  split at h
  · cases h
  · rename_i hsome
    split at h
    · cases h
    · rename_i hget
      split at h
      · cases h
      · split at h
        · cases h
        · split at h
          · cases h
          · cases h
            exact ⟨hsome, fun hreq hunlock => hget ⟨hreq, hunlock⟩⟩

def Overlap (C : LockConfig) (a b : FileLock) : Prop :=
  C.off a.lockFirst ≤ C.off b.lockLast ∧ C.off b.lockFirst ≤ C.off a.lockLast

def Compatible (C : LockConfig) (a b : FileLock) : Prop :=
  a.lockPid ≠ b.lockPid → a.lockVnode = b.lockVnode → Overlap C a b →
    a.lockType = some .F_RDLCK ∧ b.lockType = some .F_RDLCK

structure LockTable.Sound (C : LockConfig) (t : LockTable) : Prop where
  ordered : ∀ i < C.NR_LOCKS, (t.fileLock i).used →
    C.off (t.fileLock i).lockFirst ≤ C.off (t.fileLock i).lockLast
  apart : ∀ i < C.NR_LOCKS, ∀ j < C.NR_LOCKS, (t.fileLock i).used → (t.fileLock j).used →
    Compatible C (t.fileLock i) (t.fileLock j)
  count : t.nrLocks = Tally.tally C.NR_LOCKS FileLock.used t.fileLock

theorem Compatible.symm {a b : FileLock} (h : Compatible C a b) : Compatible C b a :=
  fun hpid hvnode hover => (h hpid.symm hvnode.symm ⟨hover.2, hover.1⟩).symm

structure FileLock.Part (C : LockConfig) (a b : FileLock) : Prop where
  type : a.lockType = b.lockType
  pid : a.lockPid = b.lockPid
  vnode : a.lockVnode = b.lockVnode
  first : C.off b.lockFirst ≤ C.off a.lockFirst
  ordered : C.off a.lockFirst ≤ C.off a.lockLast
  last : C.off a.lockLast ≤ C.off b.lockLast

theorem Compatible.parts {a a' b b' : FileLock} (h : Compatible C a b) (ha : a'.Part C a)
    (hb : b'.Part C b) : Compatible C a' b' := by
  intro hpid hvnode hover
  rw [ha.pid, hb.pid] at hpid
  rw [ha.vnode, hb.vnode] at hvnode
  rw [ha.type, hb.type]
  refine h hpid hvnode ⟨?_, ?_⟩
  · exact ha.first.trans (hover.1.trans hb.last)
  · exact hb.first.trans (hover.2.trans ha.last)

def LockTable.PartOf (C : LockConfig) (t' t : LockTable) : Prop :=
  ∀ i < C.NR_LOCKS, (t'.fileLock i).used →
    ∃ j < C.NR_LOCKS, (t.fileLock j).used ∧ (t'.fileLock i).Part C (t.fileLock j)

section Parts
variable {t t' : LockTable} {i : ℕ} {flp : FileLock}

theorem FileLock.part_self {a : FileLock} (h : C.off a.lockFirst ≤ C.off a.lockLast) :
    a.Part C a :=
  ⟨rfl, rfl, rfl, le_rfl, h, le_rfl⟩

theorem LockTable.Sound.parts (h : t.Sound C) (hparts : t'.PartOf C t)
    (hcount : t'.nrLocks = Tally.tally C.NR_LOCKS FileLock.used t'.fileLock) : t'.Sound C where
  ordered i hi hused := by
    obtain ⟨j, hj, hjused, hpart⟩ := hparts i hi hused
    exact hpart.ordered
  apart i hi k hk hiused hkused := by
    obtain ⟨j, hj, hjused, hjpart⟩ := hparts i hi hiused
    obtain ⟨l, hl, hlused, hlpart⟩ := hparts k hk hkused
    exact (h.apart j hj l hl hjused hlused).parts hjpart hlpart
  count := hcount

theorem LockTable.set_self : (t.set i flp).fileLock i = flp := by
  simp only [LockTable.set, Function.update_self]

theorem LockTable.set_ne {j : ℕ} (h : j ≠ i) : (t.set i flp).fileLock j = t.fileLock j := by
  simp only [LockTable.set, Function.update_of_ne h]

theorem LockTable.Sound.part_self (h : t.Sound C) (hi : i < C.NR_LOCKS)
    (hused : (t.fileLock i).used) :
    ∃ j < C.NR_LOCKS, (t.fileLock j).used ∧ (t.fileLock i).Part C (t.fileLock j) :=
  ⟨i, hi, hused, FileLock.part_self (h.ordered i hi hused)⟩

theorem LockTable.Sound.drop (h : t.Sound C) (hi : i < C.NR_LOCKS) (hused : (t.fileLock i).used) :
    LockTable.Sound C { t.set i { t.fileLock i with lockType := none } with
      nrLocks := t.nrLocks - 1 } := by
  refine h.parts ?_ ?_
  · intro j hj hjused
    by_cases heq : j = i
    · subst heq
      exact absurd (congrArg FileLock.lockType LockTable.set_self) hjused
    · have hsame : (t.set i { t.fileLock i with lockType := none }).fileLock j = t.fileLock j :=
        LockTable.set_ne heq
      simp only [hsame] at hjused ⊢
      exact h.part_self hj hjused
  · have hleave : Tally.tally C.NR_LOCKS FileLock.used
        (Function.update t.fileLock i { t.fileLock i with lockType := none }) + 1 =
          Tally.tally C.NR_LOCKS FileLock.used t.fileLock :=
      Tally.tally_leave hi hused fun hno => hno rfl
    have hcount := h.count
    have hless : t.nrLocks - 1 = (Tally.tally C.NR_LOCKS FileLock.used
        (Function.update t.fileLock i { t.fileLock i with lockType := none }) : ℤ) := by omega
    exact hless

variable (flp) in
theorem LockTable.Sound.shrink (h : t.Sound C) (hi : i < C.NR_LOCKS) (hused : (t.fileLock i).used)
    (hpart : flp.Part C (t.fileLock i)) : (t.set i flp).Sound C := by
  have hflp : flp.used := by
    rw [FileLock.used, hpart.type]
    exact hused
  refine h.parts ?_ ?_
  · intro j hj hjused
    by_cases heq : j = i
    · subst heq
      rw [LockTable.set_self]
      exact ⟨j, hi, hused, hpart⟩
    · rw [LockTable.set_ne heq] at hjused ⊢
      exact h.part_self hj hjused
  · rw [LockTable.set, h.count]
    exact congrArg Nat.cast (Tally.tally_same hi ⟨fun _ => hflp, fun _ => hused⟩).symm

variable (flp) in
theorem LockTable.Sound.enter (h : t.Sound C) (hi : i < C.NR_LOCKS)
    (hunused : (t.fileLock i).lockType = none) (hused : flp.used)
    (hordered : C.off flp.lockFirst ≤ C.off flp.lockLast)
    (hapart : ∀ j < C.NR_LOCKS, (t.fileLock j).used → Compatible C flp (t.fileLock j)) :
    LockTable.Sound C { t.set i flp with nrLocks := t.nrLocks + 1 } := by
  have hself : Compatible C flp flp := fun hpid => absurd rfl hpid
  constructor
  · intro j hj hjused
    by_cases heq : j = i
    · subst heq
      simpa only [LockTable.set_self] using hordered
    · simp only [LockTable.set_ne heq] at hjused ⊢
      exact h.ordered j hj hjused
  · intro j hj k hk hjused hkused
    by_cases hji : j = i
    · by_cases hki : k = i
      · subst hji hki
        simpa only [LockTable.set_self] using hself
      · subst hji
        simp only [LockTable.set_self, LockTable.set_ne hki] at hkused ⊢
        exact hapart k hk hkused
    · by_cases hki : k = i
      · subst hki
        simp only [LockTable.set_self, LockTable.set_ne hji] at hjused ⊢
        exact (hapart j hj hjused).symm
      · simp only [LockTable.set_ne hji, LockTable.set_ne hki] at hjused hkused ⊢
        exact h.apart j hj k hk hjused hkused
  · have henter : Tally.tally C.NR_LOCKS FileLock.used (Function.update t.fileLock i flp) =
        Tally.tally C.NR_LOCKS FileLock.used t.fileLock + 1 :=
      Tally.tally_enter hi (fun hno => hno hunused) hused
    have hcount := h.count
    simp only [LockTable.set]
    omega

end Parts

section Scan
variable {t t' : LockTable} {i : ℕ} {r : Scanned}

def Admits (C : LockConfig) (R : Region) (pid : ℤ) (flp : FileLock) : Prop :=
  flp.used → passes C R pid flp

theorem Compatible.of_admits {flp : FileLock} (h : Admits C R pid flp) (hused : flp.used) :
    Compatible C ⟨some R.ltype, pid, R.vnode, R.first, R.last⟩ flp := by
  intro hpid hvnode hover
  rcases h hused with hother | hfront | hafter | ⟨hread, hreads⟩ | ⟨-, hown⟩
  · exact absurd hvnode.symm hother
  · exact absurd hover.2 (not_le.mpr hfront)
  · exact absurd hover.1 (not_le.mpr hafter)
  · exact ⟨congrArg some hread, hreads⟩
  · exact absurd hown.symm hpid

inductive SetScan (C : LockConfig) (R : Region) (pid : ℤ) (t : LockTable) (slots : List ℕ)
    (empty : Option ℕ) (unlocking : Bool) : Scanned → Prop
  | found (i : ℕ) : SetScan C R pid t slots empty unlocking (.found i)
  | refused : SetScan C R pid t slots empty unlocking .refused
  | waits {j : ℕ} (hj : j ∈ slots) (hstops : ¬ Admits C R pid (t.fileLock j)) :
      SetScan C R pid t slots empty unlocking .waits
  | through {last : Option ℕ} (hadmits : ∀ j ∈ slots, Admits C R pid (t.fileLock j))
      (hslot : ∀ k, last = some k → empty = some k ∨ k ∈ slots ∧ (t.fileLock k).lockType = none) :
      SetScan C R pid t slots empty unlocking (.through last unlocking)

theorem SetScan.cons {slots : List ℕ} {empty empty' : Option ℕ} {unlocking : Bool}
    (h : SetScan C R pid t slots empty' unlocking r) (hi : Admits C R pid (t.fileLock i))
    (hempty : ∀ k, empty' = some k → empty = some k ∨ k = i ∧ (t.fileLock k).lockType = none) :
    SetScan C R pid t (i :: slots) empty unlocking r := by
  cases h with
  | found i => exact .found i
  | refused => exact .refused
  | waits hj hstops => exact .waits (List.mem_cons_of_mem _ hj) hstops
  | through hadmits hslot =>
    refine .through ?_ fun k hk => ?_
    · intro j hj
      rcases List.mem_cons.mp hj with rfl | hj
      · exact hi
      · exact hadmits j hj
    · rcases hslot k hk with hk | ⟨hmem, hnone⟩
      · rcases hempty k hk with hk | ⟨rfl, hnone⟩
        · exact .inl hk
        · exact .inr ⟨List.mem_cons_self, hnone⟩
      · exact .inr ⟨List.mem_cons_of_mem _ hmem, hnone⟩

theorem scan_set {slots : List ℕ} {empty : Option ℕ} {unlocking : Bool}
    (hset : req = .F_GETLK ∨ R.ltype ≠ .F_UNLCK)
    (h : lockScan C R pid req slots empty unlocking t = (r, t')) :
    t' = t ∧ SetScan C R pid t slots empty unlocking r := by
  induction slots generalizing empty with
  | nil =>
    cases h
    exact ⟨rfl, .through (fun j hj => absurd hj List.not_mem_nil) fun k hk => .inl hk⟩
  | cons i slots ih =>
    rw [lockScan] at h
    split at h
    · rename_i hunused
      obtain ⟨hsame, hscan⟩ := ih h
      refine ⟨hsame, hscan.cons (fun hused => absurd hunused hused) fun k hk => ?_⟩
      cases empty with
      | some e => exact .inl hk
      | none =>
        obtain rfl : i = k := Option.some.inj hk
        exact .inr ⟨rfl, hunused⟩
    · rename_i hused
      split at h
      · rename_i hpasses
        obtain ⟨hsame, hscan⟩ := ih h
        exact ⟨hsame, hscan.cons (fun _ => hpasses) fun k hk => .inl hk⟩
      · rename_i hstops
        split at h
        · cases h
          exact ⟨rfl, .found i⟩
        · rename_i hget
          rw [if_pos (hset.resolve_left hget)] at h
          split at h
          · cases h
            exact ⟨rfl, .refused⟩
          · cases h
            exact ⟨rfl, .waits List.mem_cons_self fun hadmits => hstops (hadmits hused)⟩

theorem unusedSlot_unused (h : unusedSlot C t < C.NR_LOCKS) :
    (t.fileLock (unusedSlot C t)).lockType = none := by
  cases hfind : (List.range C.NR_LOCKS).find? fun i => (t.fileLock i).lockType = none with
  | none =>
    rw [unusedSlot, hfind] at h
    exact absurd h (lt_irrefl _)
  | some i =>
    have hnone := List.find?_some hfind
    rw [unusedSlot, hfind]
    exact of_decide_eq_true hnone

theorem LockTable.Sound.unusedSlot_lt (h : t.Sound C) (hroom : t.nrLocks ≠ C.NR_LOCKS) :
    unusedSlot C t < C.NR_LOCKS := by
  cases hfind : (List.range C.NR_LOCKS).find? fun i => (t.fileLock i).lockType = none with
  | none =>
    have hall : ∀ i < C.NR_LOCKS, (t.fileLock i).used := by
      intro i hi hnone
      have hno := List.find?_eq_none.mp hfind i (List.mem_range.mpr hi)
      exact hno (decide_eq_true hnone)
    have hfull : Tally.tally C.NR_LOCKS FileLock.used t.fileLock = C.NR_LOCKS := by
      rw [Tally.tally, Finset.filter_true_of_mem, Finset.card_range]
      intro i hi
      exact hall i (Finset.mem_range.mp hi)
    rw [h.count, hfull] at hroom
    exact absurd rfl hroom
  | some i =>
    rw [unusedSlot, hfind]
    exact List.mem_range.mp (List.mem_of_find?_eq_some hfind)

def Meets (C : LockConfig) (R : Region) (flp : FileLock) : Prop :=
  flp.lockVnode = R.vnode ∧ C.off flp.lockFirst ≤ C.off R.last ∧ C.off R.first ≤ C.off flp.lockLast

instance (C : LockConfig) (R : Region) : DecidablePred (Meets C R) :=
  fun _ => inferInstanceAs (Decidable (_ ∧ _ ∧ _))

theorem meets_iff {flp : FileLock} (hltype : R.ltype = .F_UNLCK) :
    ¬ passes C R pid flp ↔ Meets C R flp := by
  constructor
  · intro h
    simp only [passes, not_or, not_lt, not_not] at h
    exact ⟨h.1, h.2.1, h.2.2.1⟩
  · rintro ⟨hvnode, hfirst, hlast⟩ (hother | hfront | hafter | ⟨hread, -⟩ | ⟨hset, -⟩)
    · exact hother hvnode
    · exact absurd hfront (not_lt.mpr hfirst)
    · exact absurd hafter (not_lt.mpr hlast)
    · rw [hltype] at hread
      cases hread
    · exact hset hltype

theorem LockTable.Sound.split (h : t.Sound C) (hi : i < C.NR_LOCKS) (hused : (t.fileLock i).used)
    (hfirst : C.off (t.fileLock i).lockFirst < C.off R.first)
    (hlast : C.off R.last < C.off (t.fileLock i).lockLast)
    (hR : C.off R.first ≤ C.off R.last) (hroom : t.nrLocks ≠ C.NR_LOCKS) :
    (splitLock C R i t).Sound C := by
  have hslot := h.unusedSlot_lt hroom
  have hunused := unusedSlot_unused hslot
  have hne : i ≠ unusedSlot C t := by
    intro heq
    rw [← heq] at hunused
    exact hused hunused
  have hsucc := off_succ hlast
  have hpred := off_pred hfirst
  have hpart : FileLock.Part C { t.fileLock i with lockFirst := R.last + 1 } (t.fileLock i) := by
    refine ⟨rfl, rfl, rfl, ?_, ?_, le_rfl⟩
    · simp only [hsucc]
      omega
    · exact hsucc.le.trans hlast
  have hentered := h.enter { t.fileLock i with lockFirst := R.last + 1 } hslot hunused hused
    hpart.ordered fun j hj hjused => (h.apart i hi j hj hused hjused).parts hpart
      (FileLock.part_self (h.ordered j hj hjused))
  have hsame : (t.set (unusedSlot C t)
      { t.fileLock i with lockFirst := R.last + 1 }).fileLock i = t.fileLock i :=
    LockTable.set_ne hne
  refine hentered.shrink { t.fileLock i with lockLast := R.first - 1 } hi ?_ ?_
  · simpa only [hsame] using hused
  · simp only [hsame]
    refine ⟨rfl, rfl, rfl, le_rfl, ?_, ?_⟩
    · simp only [hpred]
      omega
    · simp only [hpred]
      omega

theorem LockTable.Sound.clear (h : t.Sound C) (hR : C.off R.first ≤ C.off R.last)
    (hi : i < C.NR_LOCKS) (hused : (t.fileLock i).used) (hmeets : Meets C R (t.fileLock i))
    (hclear : clearRegion C R i t = some t') : t'.Sound C := by
  obtain ⟨-, hfirst, hlast⟩ := hmeets
  have hordered := h.ordered i hi hused
  rw [clearRegion] at hclear
  split at hclear
  · cases hclear
    exact h.drop hi hused
  · split at hclear
    · cases hclear
      have hinside : C.off R.last < C.off (t.fileLock i).lockLast := by omega
      have hsucc := off_succ hinside
      refine h.shrink _ hi hused ⟨rfl, rfl, rfl, ?_, ?_, le_rfl⟩
      · simp only [hsucc]
        omega
      · simp only [hsucc]
        omega
    · split at hclear
      · cases hclear
        have hinside : C.off (t.fileLock i).lockFirst < C.off R.first := by omega
        have hpred := off_pred hinside
        refine h.shrink _ hi hused ⟨rfl, rfl, rfl, le_rfl, ?_, ?_⟩
        · simp only [hpred]
          omega
        · simp only [hpred]
          omega
      · split at hclear
        · cases hclear
        · rename_i hroom
          cases hclear
          exact h.split hi hused (by omega) (by omega) hR hroom

theorem LockTable.Sound.scan {slots : List ℕ} {empty : Option ℕ} {unlocking : Bool}
    (h : t.Sound C) (hR : C.off R.first ≤ C.off R.last) (hltype : R.ltype = .F_UNLCK)
    (hslots : ∀ i ∈ slots, i < C.NR_LOCKS)
    (hscan : lockScan C R pid req slots empty unlocking t = (r, t')) : t'.Sound C := by
  induction slots generalizing empty unlocking t with
  | nil =>
    cases hscan
    exact h
  | cons i slots ih =>
    have hrest : ∀ i ∈ slots, i < C.NR_LOCKS := fun j hj => hslots j (List.mem_cons_of_mem _ hj)
    rw [lockScan] at hscan
    split at hscan
    · exact ih h hrest hscan
    · rename_i hused
      split at hscan
      · exact ih h hrest hscan
      · rename_i hstops
        split at hscan
        · cases hscan
          exact h
        · rw [if_neg (not_not.mpr hltype)] at hscan
          split at hscan
          · cases hscan
            exact h
          · rename_i u hclear
            have hmeets := (meets_iff hltype).mp hstops
            exact ih (h.clear hR (hslots i List.mem_cons_self) hused hmeets hclear) hrest hscan

end Scan

section Close
variable {t : LockTable} {vp i : ℕ}

theorem LockTable.Sound.release (h : t.Sound C) (hi : i < C.NR_LOCKS) :
    (releaseLock vp pid i t).Sound C := by
  simp only [releaseLock]
  split
  · exact h
  · rename_i hused
    split
    · exact h.drop hi hused
    · exact h

theorem LockTable.Sound.release_all (h : t.Sound C) (vp : ℕ) (pid : ℤ) :
    (releaseLocks C vp pid t).Sound C := by
  have hloop : ∀ (slots : List ℕ) (t : LockTable), (∀ i ∈ slots, i < C.NR_LOCKS) → t.Sound C →
      LockTable.Sound C (slots.foldl (fun t i => releaseLock vp pid i t) t) := by
    intro slots
    induction slots with
    | nil => exact fun t _ ht => ht
    | cons i slots ih =>
      intro t hslots ht
      exact ih _ (fun j hj => hslots j (List.mem_cons_of_mem _ hj))
        (ht.release (hslots i List.mem_cons_self))
  exact hloop _ t (fun i hi => List.mem_range.mp hi) h

end Close

section Revive

theorem reviveLocked_same (p q : ℕ) (h : q ≠ p) :
    (reviveLocked p s).fproc q = s.fproc q := by
  rw [reviveLocked]
  split
  · rfl
  · split
    · rw [revive]
      split
      · rfl
      · exact Function.update_of_ne h _ _
    · rfl

theorem reviveLocked_table (p : ℕ) : (reviveLocked p s).table = s.table := by
  rw [reviveLocked]
  split
  · rfl
  · split
    · rw [revive]
      split <;> rfl
    · rfl

theorem lockRevive_table : (lockRevive C s).table = s.table := by
  have hloop : ∀ (procs : List ℕ) (s : LockVfs),
      (procs.foldl (fun s p => reviveLocked p s) s).table = s.table := by
    intro procs
    induction procs with
    | nil => exact fun _ => rfl
    | cons p procs ih => exact fun s => (ih _).trans (reviveLocked_table p)
  exact hloop _ s

end Revive

section Outcome
variable {fd : ℤ} {f : Filp} {flock : Option Flock} {reply : LockReply} {s' : LockVfs}

inductive LockOutcome (C : LockConfig) (p : ℕ) (fd : ℤ) (f : Filp) (req : LockRequest)
    (flock : Option Flock) (s : LockVfs) : LockVfs → Prop
  | same : LockOutcome C p fd f req flock s s
  | waits {R : Region} {i : ℕ} (hset : R.ltype ≠ .F_UNLCK) (hvnode : R.vnode = f.filpVno)
      (hi : i < C.NR_LOCKS) (hused : (s.table.fileLock i).used)
      (hconflict : ¬ passes C R (s.fproc p).fpPid (s.table.fileLock i)) :
      LockOutcome C p fd f req flock s (suspend p fd req R s)
  | stores {R : Region} {i : ℕ} (hR : C.off R.first ≤ C.off R.last) (hi : i < C.NR_LOCKS)
      (hunused : (s.table.fileLock i).lockType = none)
      (hadmits : ∀ j < C.NR_LOCKS, Admits C R (s.fproc p).fpPid (s.table.fileLock j)) :
      LockOutcome C p fd f req flock s
        { s with table := storeLock R (s.fproc p).fpPid i s.table }
  | clears {fl : Flock} {R : Region} {empty : Option ℕ} {unlocking : Bool} {t : LockTable}
      (hflock : flock = some fl) (hregion : region C s f req fl = .ok (.ok R))
      (hltype : R.ltype = .F_UNLCK)
      (hscan : lockScan C R (s.fproc p).fpPid req (List.range C.NR_LOCKS) none false s.table =
        (.through empty unlocking, t)) :
      LockOutcome C p fd f req flock s
        (if unlocking then lockRevive C { s with table := t } else { s with table := t })
  | stops {fl : Flock} {R : Region} {t : LockTable}
      (hflock : flock = some fl) (hregion : region C s f req fl = .ok (.ok R))
      (hltype : R.ltype = .F_UNLCK)
      (hscan : lockScan C R (s.fproc p).fpPid req (List.range C.NR_LOCKS) none false s.table =
        (.full, t)) :
      LockOutcome C p fd f req flock s { s with table := t }

theorem scan_unlockEnds {slots : List ℕ} {empty : Option ℕ} {unlocking : Bool} {r : Scanned}
    {t t' : LockTable} (hreq : req ≠ .F_GETLK) (hltype : R.ltype = .F_UNLCK)
    (h : lockScan C R pid req slots empty unlocking t = (r, t')) :
    r = .full ∨ ∃ last unlocks, r = .through last unlocks := by
  induction slots generalizing empty unlocking t with
  | nil =>
    cases h
    exact .inr ⟨empty, unlocking, rfl⟩
  | cons i slots ih =>
    rw [lockScan] at h
    split at h
    · exact ih h
    · split at h
      · exact ih h
      · rw [if_neg (not_not.mpr hltype)] at h
        split at h
        · cases h
          exact .inl rfl
        · exact ih h

theorem lockOp_outcome (h : lockOp C p fd f req flock s = .ok (reply, s')) :
    LockOutcome C p fd f req flock s s' := by
  cases flock with
  | none =>
    cases h
    exact .same
  | some fl =>
    rw [lockOp] at h
    cases hregion : region C s f req fl with
    | error e =>
      simp only [hregion] at h
      cases h
    | ok checked =>
      cases checked with
      | error e =>
        simp only [hregion] at h
        cases h
        exact .same
      | ok R =>
        obtain ⟨hchecks, hvnode, -⟩ := region_found hregion
        have hget := (checks_ltype hchecks).2
        have hR := region_ordered hregion
        simp only [hregion, Except.map] at h
        rcases hscan : lockScan C R (s.fproc p).fpPid req (List.range C.NR_LOCKS) none false
          s.table with ⟨r, t⟩
        rw [hscan] at h
        by_cases hltype : R.ltype = .F_UNLCK
        · have hreq : req ≠ .F_GETLK := fun hreq => hget hreq hltype
          rcases scan_unlockEnds hreq hltype hscan with rfl | ⟨last, unlocks, rfl⟩
          · cases h
            exact .stops rfl hregion hltype hscan
          · simp only [if_neg hreq, if_pos hltype] at h
            cases h
            exact .clears rfl hregion hltype hscan
        · obtain ⟨rfl, hends⟩ := scan_set (.inr hltype) hscan
          cases hends with
          | found i =>
            cases h
            exact .same
          | refused =>
            cases h
            exact .same
          | waits hj hstops =>
            cases h
            obtain ⟨hused, hconflict⟩ := not_forall.mp hstops
            exact .waits hltype hvnode (List.mem_range.mp hj) hused hconflict
          | @through last hadmits hslot =>
            simp only [Bool.false_eq_true, if_false, if_neg hltype] at h
            split at h
            · cases h
              exact .same
            · cases last with
              | none =>
                cases h
                exact .same
              | some i =>
                cases h
                obtain ⟨hi, hunused⟩ := (hslot i rfl).resolve_left (by rintro ⟨⟩)
                exact .stores hR (List.mem_range.mp hi) hunused fun j hj =>
                  hadmits j (List.mem_range.mpr hj)

theorem LockOutcome.sound (h : LockOutcome C p fd f req flock s s') (hs : s.table.Sound C) :
    s'.table.Sound C := by
  cases h with
  | same => exact hs
  | waits => exact hs
  | stores hR hi hunused hadmits =>
    exact hs.enter _ hi hunused (by rintro ⟨⟩) hR fun j hj hused =>
      Compatible.of_admits (hadmits j hj) hused
  | clears hflock hregion hltype hscan =>
    have ht := hs.scan (region_ordered hregion) hltype (fun i hi => List.mem_range.mp hi) hscan
    split
    · rw [lockRevive_table]
      exact ht
    · exact ht
  | stops hflock hregion hltype hscan =>
    exact hs.scan (region_ordered hregion) hltype (fun i hi => List.mem_range.mp hi) hscan

end Outcome

section Exclusion
variable {e : LockEvent} {s' : LockVfs}

theorem unlockClosed_sound {vp : ℕ} (hs : s.table.Sound C) :
    (unlockClosed C vp pid s).table.Sound C := by
  rw [unlockClosed]
  split
  · exact hs
  · have hreleased := hs.release_all vp pid
    simp only
    split
    · rw [lockRevive_table]
      exact hreleased
    · exact hreleased

theorem closeFd_sound (fd : ℤ) (hs : s.table.Sound C) : (closeFd C p fd s).2.table.Sound C := by
  rw [closeFd]
  split
  · exact hs
  · exact unlockClosed_sound hs

theorem closeAll_sound (hs : s.table.Sound C) : (closeAll C p s).table.Sound C := by
  have hloop : ∀ (fds : List ℕ) (s : LockVfs), s.table.Sound C →
      LockTable.Sound C (fds.foldl (fun s fd => (closeFd C p fd s).2) s).table := by
    intro fds
    induction fds with
    | nil => exact fun _ h => h
    | cons fd fds ih => exact fun s h => ih _ (closeFd_sound fd h)
  exact hloop _ s hs

theorem unpause_table : (unpause p s).table = s.table := by
  simp only [unpause]
  split <;> rfl

theorem freeProc_sound (hs : s.table.Sound C) : (freeProc C p s).table.Sound C := by
  have hunpaused : (unpause p s).table.Sound C := by
    rw [unpause_table]
    exact hs
  exact closeAll_sound hunpaused

theorem doFcntl_sound {fd : ℤ} {flock : Option Flock} {reply : LockReply}
    (hs : s.table.Sound C) (h : doFcntl C p fd req flock s = .ok (reply, s')) :
    s'.table.Sound C := by
  rw [doFcntl] at h
  split at h
  · cases h
    exact hs
  · exact (lockOp_outcome h).sound hs

theorem ok_of_snd {x : Except LockPanic (LockReply × LockVfs)} (h : x.map (·.2) = .ok s') :
    ∃ reply, x = .ok (reply, s') := by
  cases x with
  | error e => cases h
  | ok r => exact ⟨r.1, congrArg Except.ok (Prod.ext rfl (Except.ok.inj h))⟩

theorem sound_step (hs : s.table.Sound C) (h : handle C s e = .ok s') : s'.table.Sound C := by
  cases e with
  | fcntl p fd req flock =>
    obtain ⟨reply, h⟩ := ok_of_snd h
    exact doFcntl_sound hs h
  | restart p flock =>
    obtain ⟨reply, h⟩ := ok_of_snd h
    rw [restart] at h
    refine doFcntl_sound ?_ h
    exact hs
  | close p fd =>
    cases h
    exact closeFd_sound fd hs
  | exit p =>
    cases h
    exact freeProc_sound hs
  | signal p =>
    cases h
    rw [unpause_table]
    exact hs
  | others fproc filp vnode reviving =>
    cases h
    exact hs

theorem sound_initially (h : Initial C s) : s.table.Sound C where
  ordered i hi hused := absurd (h.locks i hi) hused
  apart i hi _ _ hused _ := absurd (h.locks i hi) hused
  count := by
    rw [h.count, Tally.tally_zero_iff.mpr fun i hi hused => hused (h.locks i hi)]
    rfl

theorem locks_exclude (h : (lockSystem C).Reachable s) : s.table.Sound C := by
  obtain ⟨past, hrun⟩ := h
  exact hrun.invariant (fun _ => sound_initially) fun _ _ _ _ hs _ hstep => sound_step hs hstep.2

end Exclusion

-- Slots and processes of a small system, with one regular file that is open for all.
section Sample

def sampleConfig : LockConfig where
  NR_LOCKS := 8
  NR_PROCS := 2
  OPEN_MAX := 20
  offSigned := true
  MAX_FILE_POS := 0x7FFFFFFF#32

def sampleVfs : LockVfs where
  fproc p := {
    fpPid := p + 10
    fpFilp := fun fd => if fd = 0 then some p else none
    fpFilpInuse := fun fd => decide (fd = 0)
    fpBlockedOn := .NONE
    fpRevived := false
    fpBlockFd := 0
    fpNbytes := .F_SETLK
    sought := ⟨0, .F_UNLCK, 0#32, 0#32⟩ }
  filp _ := { filpMode := ⟨true, true⟩, filpCount := 1, filpVno := 0, filpPos := 0#64 }
  vnode _ := { regular := true, vSize := 1000#32 }
  table := { fileLock := fun _ => ⟨none, 0, 0, 0#32, 0#32⟩, nrLocks := 0 }
  reviving := 0

def sampleFlock (ltype : LockType) (start len : ℕ) : Flock :=
  ⟨some ltype, some .SEEK_SET, BitVec.ofNat 32 start, BitVec.ofNat 32 len, 0⟩

def sampleRequest : ℕ → LockEvent
  | 0 => .fcntl 0 0 .F_SETLK (some (sampleFlock .F_WRLCK 5 11))
  | 1 => .fcntl 0 0 .F_SETLK (some (sampleFlock .F_RDLCK 0 101))
  | n => .fcntl 0 0 .F_SETLK (some (sampleFlock .F_RDLCK (200 + n) 1))

def sampleLock : ℕ → Region
  | 0 => ⟨0, .F_WRLCK, 5#32, 15#32⟩
  | 1 => ⟨0, .F_RDLCK, 0#32, 100#32⟩
  | n => ⟨0, .F_RDLCK, BitVec.ofNat 32 (200 + n), BitVec.ofNat 32 (200 + n)⟩

def sampleLocked : ℕ → LockVfs
  | 0 => sampleVfs
  | n + 1 =>
    { sampleLocked n with table := storeLock (sampleLock n) 10 n (sampleLocked n).table }

theorem sample_initial : Initial sampleConfig sampleVfs :=
  ⟨fun _ _ => rfl, rfl, fun _ => by rintro ⟨⟩⟩

theorem sample_locks {n : ℕ} (hn : n < 8) :
    (lockSystem sampleConfig).step (sampleLocked n) (sampleRequest n) (sampleLocked (n + 1)) := by
  interval_cases n <;> exact ⟨⟨⟨by decide, by decide⟩, rfl⟩, rfl⟩

theorem sample_run {ok : List (LockVfs × LockEvent) → LockVfs → LockEvent → Prop} {n : ℕ}
    (hn : n ≤ 8) (hok : ∀ past, ∀ m < 8, ok past (sampleLocked m) (sampleRequest m)) :
    ∃ past, Run (lockSystem sampleConfig) ok past (sampleLocked n) := by
  induction n with
  | zero => exact ⟨[], .start sample_initial⟩
  | succ n ih =>
    obtain ⟨past, hrun⟩ := ih (by omega)
    exact ⟨_, hrun.next (hok past n hn) (sample_locks hn)⟩

theorem locks_exclude_sample : (sampleLocked 8).table.Sound sampleConfig := by
  have hrun : ∃ past, Run (lockSystem sampleConfig) always past (sampleLocked 8) :=
    sample_run le_rfl fun _ _ _ => trivial
  exact locks_exclude hrun

end Sample

end Vfs.Locks
