import Cs111.Ipc.Sem
import Cs111.Lib.Runs
import Mathlib.Algebra.Order.Group.Multiset

namespace Ipc
open TransitionSystem
open HeapList (Fault)

structure SemView where
  val : ℕ
  zs : List Waiting
  ns : List Waiting

def Semaphore.view (x : Semaphore) : SemView := ⟨x.semval, x.zlist.entries, x.nlist.entries⟩

structure Semaphore.Sound (x : Semaphore) : Prop where
  zlist : x.zlist.Sound
  nlist : x.nlist.Sound
  zlt : x.semzcnt < cntMax
  nlt : x.semncnt < cntMax

def Semaphore.Spent (x : Semaphore) : Prop :=
  x.zlist.cells.isSome = true ∧ x.semval = 0 ∧ x.semzcnt = 0

structure SetView where
  id : ℤ
  sems : List SemView

def SemStruct.view (sem : SemStruct) : SetView := ⟨sem.id, sem.sems.map Semaphore.view⟩

def AllSound (l : List SemStruct) : Prop := ∀ sem ∈ l, ∀ x ∈ sem.sems, x.Sound

inductive Removed (pt : ℤ) (p : Place) : List Waiting → List Waiting → List Deed → Prop
  | none {ws : List Waiting} : (∀ w ∈ ws, w.who ≠ pt) → Removed pt p ws ws []
  | one {pre w post} : w.who = pt → Removed pt p (pre ++ w :: post) (pre ++ post) [.left p w .EINTR]

inductive WokeZero (set : ℤ) (num : ℕ) : SemView → SemView → List Deed → Prop
  | idle {v : SemView} : (v.val = 0 → v.zs = []) → WokeZero set num v v []
  | woke {w zs ns} : WokeZero set num ⟨0, w :: zs, ns⟩ ⟨0, zs, ns⟩
      [.performed w.op set num 0, .left ⟨set, num, true⟩ w .OK]

inductive WokeIncrease (set : ℤ) (num : ℕ) : SemView → SemView → List Deed → Prop
  | idle {v : SemView} : (∀ w ∈ v.ns, (v.val : ℤ) < w.val) → WokeIncrease set num v v []
  | woke {val : ℕ} {zs pre w post} : (∀ b ∈ pre, (val : ℤ) < b.val) → w.val ≤ (val : ℤ) →
      WokeIncrease set num ⟨val, zs, pre ++ w :: post⟩ ⟨((val : ℤ) - w.val).toNat, zs, pre ++ post⟩
        [.performed w.op set num (-w.val), .left ⟨set, num, false⟩ w .OK]

def Removal (pt set : ℤ) (num : ℕ) (v v' : SemView) (d : List Deed) : Prop :=
  ∃ dz dn, d = dz ++ dn ∧ v'.val = v.val ∧ Removed pt ⟨set, num, true⟩ v.zs v'.zs dz ∧
    Removed pt ⟨set, num, false⟩ v.ns v'.ns dn

def Woken (set : ℤ) (num : ℕ) (v v' : SemView) (d : List Deed) : Prop :=
  ∃ u dz dn, d = dz ++ dn ∧ WokeZero set num v u dz ∧ WokeIncrease set num u v' dn

def allDropped (set : ℤ) (num : ℕ) (v : SemView) : List Deed :=
  v.zs.map (.left ⟨set, num, true⟩ · .EIDRM) ++ v.ns.map (.left ⟨set, num, false⟩ · .EIDRM)

section Lists
variable {x y : HeapList Waiting} {p : Place} {pre post ws : List Waiting} {w : Waiting}

theorem leave_ok (h : x.Holds (pre ++ w :: post)) (p : Place) (w' : Waiting) (ret : Errno) :
    ∃ y, leave p x pre.length w' ret = .ok (y, [.left p w' ret]) ∧ y.Holds (pre ++ post) := by
  obtain ⟨y, hy, hholds⟩ := h.removeAt
  refine ⟨y, ?_, hholds⟩
  simp [leave, hy, bind, Except.bind, pure, Except.pure]

theorem removeWaiting_ok (h : x.Sound) (pt : ℤ) (p : Place) :
    ∃ y d, removeWaiting pt p x = .ok (y, d) ∧ Removed pt p x.entries y.entries d ∧ y.Sound := by
  rcases h.find (fun w => decide (w.who = pt)) with ⟨hnone, hfind⟩ |
    ⟨pre, w, post, hentries, -, hw, hfind⟩
  · refine ⟨x, [], ?_, .none fun w hw => by simpa using hnone w hw, h⟩
    simp [removeWaiting, hfind, bind, Except.bind, pure, Except.pure]
  · have hholds : x.Holds (pre ++ w :: post) := hentries ▸ h
    obtain ⟨y, hy, hrest⟩ := leave_ok hholds p w .EINTR
    refine ⟨y, [.left p w .EINTR], ?_, ?_, hrest.sound⟩
    · simp [removeWaiting, hfind, hy, bind, Except.bind]
    · rw [hentries, hrest.entries_eq]
      exact .one (by simpa using hw)

theorem readAll_ok (h : x.Holds (pre ++ ws)) : readAll x ws.length pre.length = .ok ws := by
  induction ws generalizing pre with
  | nil => rfl
  | cons w ws ih =>
    have hrest : readAll x ws.length (pre.length + 1) = .ok ws := by
      have hnext := ih (show x.Holds ((pre ++ [w]) ++ ws) by simpa using h)
      simpa using hnext
    simp [readAll, h.get, hrest, bind, Except.bind, pure, Except.pure]

end Lists

section Semaphores
variable {x y : Semaphore} {set : ℤ} {num : ℕ} {d : List Deed}

theorem Removed.length_le {pt : ℤ} {p : Place} {ws ws' : List Waiting} (h : Removed pt p ws ws' d) :
    ws'.length ≤ ws.length := by
  cases h with
  | none => exact le_rfl
  | one => simp

theorem removeFrom_ok (h : x.Sound) (pt set : ℤ) (num : ℕ) :
    ∃ y d, removeFrom pt set num x = .ok (y, d) ∧ Removal pt set num x.view y.view d ∧ y.Sound := by
  obtain ⟨z, dz, hz, hzs, hzsound⟩ := removeWaiting_ok h.zlist pt ⟨set, num, true⟩
  obtain ⟨n, dn, hn, hns, hnsound⟩ := removeWaiting_ok h.nlist pt ⟨set, num, false⟩
  refine ⟨{ x with zlist := z, nlist := n }, dz ++ dn, ?_, ⟨dz, dn, rfl, rfl, hzs, hns⟩,
    hzsound, hnsound, ?_, ?_⟩
  · simp [removeFrom, hz, hn, bind, Except.bind, pure, Except.pure]
  · have hcnt := HeapList.Holds.cnt hzsound
    have hcnt' := HeapList.Holds.cnt h.zlist
    have hle := hzs.length_le
    have hlt := h.zlt
    simp only [Semaphore.semzcnt] at hlt ⊢
    omega
  · have hcnt := HeapList.Holds.cnt hnsound
    have hcnt' := HeapList.Holds.cnt h.nlist
    have hle := hns.length_le
    have hlt := h.nlt
    simp only [Semaphore.semncnt] at hlt ⊢
    omega

theorem wakeZero_spent (hspent : x.Spent) (set : ℤ) (num : ℕ) :
    ∃ e, wakeZero set num x = .error e := by
  obtain ⟨hused, hzero, hcnt⟩ := hspent
  obtain ⟨l, hl⟩ := Option.isSome_iff_exists.mp hused
  change x.zlist.cnt = 0 at hcnt
  rw [wakeZero, if_pos (by simp [hused, hzero])]
  cases hget : x.zlist.get 0 with
  | error e => exact ⟨e, rfl⟩
  | ok w => exact ⟨.outOfBounds, by simp [leave, HeapList.removeAt, hl, hcnt, bind, Except.bind]⟩

theorem wakeZero_ok (h : x.Sound) (hspent : ¬ x.Spent) (set : ℤ) (num : ℕ) :
    ∃ y d, wakeZero set num x = .ok (y, d) ∧ WokeZero set num x.view y.view d ∧ y.Sound := by
  rw [wakeZero]
  split
  · rename_i hzero
    rw [Bool.and_eq_true, beq_iff_eq] at hzero
    have hholds := h.zlist
    cases hzs : x.zlist.entries with
    | nil =>
      refine absurd ⟨hzero.1, hzero.2, ?_⟩ hspent
      rw [Semaphore.semzcnt, hholds.cnt, hzs, List.length_nil]
    | cons w zs =>
      have hfirst : x.zlist.Holds ([] ++ w :: zs) := by
        rw [List.nil_append, ← hzs]
        exact hholds
      obtain ⟨z, hz, hrest⟩ := leave_ok hfirst ⟨set, num, true⟩ w .OK
      have hget : x.zlist.get 0 = .ok w := hfirst.get
      refine ⟨{ x with zlist := z }, .performed w.op set num 0 :: [.left ⟨set, num, true⟩ w .OK],
        ?_, ?_, hrest.sound, h.nlist, ?_, h.nlt⟩
      · rw [List.length_nil] at hz
        simp only [hget, hz, bind, Except.bind, pure, Except.pure]
      · simp only [Semaphore.view, hzs, hzero.2, hrest.entries_eq, List.nil_append]
        exact .woke
      · have hlt := h.zlt
        rw [Semaphore.semzcnt, hfirst.cnt] at hlt
        rw [Semaphore.semzcnt, hrest.cnt]
        simp only [List.nil_append, List.length_cons] at hlt ⊢
        omega
  · rename_i hidle
    refine ⟨x, [], rfl, .idle fun hzero => ?_, h⟩
    have hnull : x.zlist.cells = none := by
      change x.semval = 0 at hzero
      simpa [hzero] using hidle
    change x.zlist.entries = []
    rw [HeapList.entries, hnull]
    simp

theorem wakeIncrease_ok (h : x.Sound) (set : ℤ) (num : ℕ) :
    ∃ y d, wakeIncrease set num x = .ok (y, d) ∧ WokeIncrease set num x.view y.view d ∧ y.Sound := by
  rw [wakeIncrease]
  split
  · rcases h.nlist.find (fun w => decide (w.val ≤ x.semval)) with ⟨hnone, hfind⟩ |
      ⟨pre, w, post, hentries, hpre, hw, hfind⟩
    · refine ⟨x, [], ?_, .idle fun w hw => not_le.mp (of_decide_eq_false (hnone w hw)), h⟩
      simp [hfind, bind, Except.bind, pure, Except.pure]
    · have hholds : x.nlist.Holds (pre ++ w :: post) := hentries ▸ h.nlist
      obtain ⟨n, hn, hrest⟩ := leave_ok hholds ⟨set, num, false⟩ w .OK
      refine ⟨{ x with semval := ((x.semval : ℤ) - w.val).toNat, nlist := n },
        .performed w.op set num (-w.val) :: [.left ⟨set, num, false⟩ w .OK], ?_, ?_,
        h.zlist, hrest.sound, h.zlt, ?_⟩
      · simp only [hfind, hn, bind, Except.bind, pure, Except.pure]
      · simp only [Semaphore.view, hentries, hrest.entries_eq]
        exact .woke (fun b hb => by simpa using hpre b hb) (by simpa using hw)
      · have hlt := h.nlt
        rw [Semaphore.semncnt, hholds.cnt] at hlt
        rw [Semaphore.semncnt, hrest.cnt]
        simp only [List.length_append, List.length_cons] at hlt ⊢
        omega
  · rename_i hnull
    refine ⟨x, [], rfl, .idle fun w hw => ?_, h⟩
    have hnone : x.nlist.cells = none := by simpa using hnull
    have hempty : x.nlist.entries = [] := by
      rw [HeapList.entries, hnone]
      simp
    change w ∈ x.nlist.entries at hw
    rw [hempty] at hw
    cases hw

theorem updateSemaphore_ok (h : x.Sound) (hspent : ¬ x.Spent) (set : ℤ) (num : ℕ) :
    ∃ y d, updateSemaphore set num x = .ok (y, d) ∧ Woken set num x.view y.view d ∧ y.Sound := by
  obtain ⟨u, dz, hu, hzero, hsound⟩ := wakeZero_ok h hspent set num
  obtain ⟨y, dn, hy, hincr, hsound'⟩ := wakeIncrease_ok hsound set num
  refine ⟨y, dz ++ dn, ?_, ⟨u.view, dz, dn, rfl, hzero, hincr⟩, hsound'⟩
  simp [updateSemaphore, hu, hy, bind, Except.bind, pure, Except.pure]

theorem updateSemaphore_spent (hspent : x.Spent) (set : ℤ) (num : ℕ) :
    ∃ e, updateSemaphore set num x = .error e := by
  obtain ⟨e, he⟩ := wakeZero_spent hspent set num
  exact ⟨e, by simp [updateSemaphore, he, bind, Except.bind]⟩

theorem dropFrom_ok (h : x.Sound) (set : ℤ) (num : ℕ) :
    dropFrom set num x = .ok (x, allDropped set num x.view) := by
  have hz : readAll x.zlist x.semzcnt 0 = .ok x.view.zs := by
    rw [Semaphore.semzcnt, HeapList.Holds.cnt h.zlist]
    exact readAll_ok (show x.zlist.Holds ([] ++ x.view.zs) from h.zlist)
  have hn : readAll x.nlist x.semncnt 0 = .ok x.view.ns := by
    rw [Semaphore.semncnt, HeapList.Holds.cnt h.nlist]
    exact readAll_ok (show x.nlist.Holds ([] ++ x.view.ns) from h.nlist)
  simp [dropFrom, allDropped, hz, hn, bind, Except.bind, pure, Except.pure]

end Semaphores

section Passes
variable {f : ℤ → ℕ → Semaphore → Except Fault (Semaphore × List Deed)}
  {R : ℤ → ℕ → SemView → SemView → List Deed → Prop} {l l' : List SemStruct} {d : List Deed}

def Pass (R : ℤ → ℕ → SemView → SemView → List Deed → Prop) (L L' : List SetView)
    (d : List Deed) : Prop :=
  Each (fun _ V V' d => V'.id = V.id ∧ Each (R V.id) 0 V.sems V'.sems d) 0 L L' d

theorem forSemaphores_refines (hf : ∀ set num x y d, x.Sound → f set num x = .ok (y, d) →
      R set num x.view y.view d ∧ y.Sound)
    (hl : AllSound l) (h : forSemaphores f l = .ok (l', d)) :
    Pass R (l.map SemStruct.view) (l'.map SemStruct.view) d ∧ AllSound l' := by
  rw [forSemaphores] at h
  refine eachM_refines (P := fun sem => ∀ x ∈ sem.sems, x.Sound) ?_ h
  intro _ sem hsem sem' d hsem'
  dsimp only at hsem'
  cases hsems : eachM (f sem.id) 0 sem.sems with
  | error e => simp [hsems, bind, Except.bind] at hsem'
  | ok r =>
    obtain ⟨sems, d'⟩ := r
    simp only [hsems, bind, Except.bind, pure, Except.pure, Except.ok.injEq, Prod.mk.injEq] at hsem'
    obtain ⟨rfl, rfl⟩ := hsem'
    obtain ⟨heach, hall⟩ := eachM_refines (v := Semaphore.view) (R := R sem.id) (P := Semaphore.Sound)
      (fun i x hx y d hy => hf sem.id i x y d (hl sem hsem x hx) hy) hsems
    exact ⟨⟨rfl, heach⟩, hall⟩

theorem forSemaphores_total (hf : ∀ sem ∈ l, ∀ num, ∀ x ∈ sem.sems, ∃ y d,
    f sem.id num x = .ok (y, d)) : ∃ l' d, forSemaphores f l = .ok (l', d) := by
  refine eachM_total (fun _ sem hsem => ?_) 0
  obtain ⟨ys, ds, hys⟩ := eachM_total (fun i x hx => hf sem hsem i x hx) 0
  exact ⟨{ sem with sems := ys }, ds, by simp [hys, bind, Except.bind, pure, Except.pure]⟩

theorem removeProcess_ok (hl : AllSound l) (pt : ℤ) : ∃ l' d, removeProcess l pt = .ok (l', d) ∧
    Pass (Removal pt) (l.map SemStruct.view) (l'.map SemStruct.view) d ∧ AllSound l' := by
  obtain ⟨l', d, h⟩ := forSemaphores_total (f := removeFrom pt) fun sem hsem num x hx => by
    obtain ⟨y, d, hy, -⟩ := removeFrom_ok (hl sem hsem x hx) pt sem.id num
    exact ⟨y, d, hy⟩
  refine ⟨l', d, h, forSemaphores_refines (fun set num x y d hx hy => ?_) hl h⟩
  obtain ⟨y', d', hy', hR, hsound⟩ := removeFrom_ok hx pt set num
  rw [hy'] at hy
  cases hy
  exact ⟨hR, hsound⟩

def NoneSpent (l : List SemStruct) : Prop := ∀ sem ∈ l, ∀ x ∈ sem.sems, ¬ x.Spent

theorem updateSemaphores_total (hl : AllSound l) (hspent : NoneSpent l) :
    ∃ l' d, updateSemaphores l = .ok (l', d) := by
  refine forSemaphores_total fun sem hsem num x hx => ?_
  obtain ⟨y, d, hy, -⟩ := updateSemaphore_ok (hl sem hsem x hx) (hspent sem hsem x hx) sem.id num
  exact ⟨y, d, hy⟩

theorem updateSemaphores_refines (hl : AllSound l) (h : updateSemaphores l = .ok (l', d)) :
    Pass Woken (l.map SemStruct.view) (l'.map SemStruct.view) d ∧ AllSound l' := by
  refine forSemaphores_refines (fun set num x y d hx hy => ?_) hl h
  by_cases hspent : x.Spent
  · obtain ⟨e, he⟩ := updateSemaphore_spent hspent set num
    rw [he] at hy
    cases hy
  · obtain ⟨y', d', hy', hR, hsound⟩ := updateSemaphore_ok hx hspent set num
    rw [hy'] at hy
    cases hy
    exact ⟨hR, hsound⟩

end Passes

end Ipc
