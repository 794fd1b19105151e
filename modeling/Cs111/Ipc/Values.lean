import Cs111.Ipc.Waiters

namespace Ipc
open TransitionSystem
open HeapList (Fault)

structure Semaphore.InRange (H : SemHeaders) (x : Semaphore) : Prop where
  val : x.semval ≤ H.semvmx
  waits : ∀ w, x.nlist.Stores w → 0 ≤ w.val

def AllInRange (H : SemHeaders) (l : List SemStruct) : Prop :=
  ∀ sem ∈ l, ∀ x ∈ sem.sems, x.InRange H

section Passes
variable {H : SemHeaders} {x y : Semaphore} {set : ℤ} {num : ℕ} {d : List Deed}
  {l l' : List SemStruct}

theorem leave_stores {p : Place} {z z' : HeapList Waiting} {k : ℕ} {w a : Waiting} {ret : Errno}
    (h : leave p z k w ret = .ok (z', d)) (ha : z'.Stores a) : z.Stores a := by
  obtain ⟨z₁, hz₁, h⟩ := bind_eq_ok.mp h
  cases h
  exact HeapList.removeAt_stores hz₁ ha

theorem removeWaiting_stores {p : Place} {z z' : HeapList Waiting} {pt : ℤ} {a : Waiting}
    (h : removeWaiting pt p z = .ok (z', d)) (ha : z'.Stores a) : z.Stores a := by
  obtain ⟨r, -, h⟩ := bind_eq_ok.mp h
  cases r with
  | none =>
    cases h
    exact ha
  | some r => exact leave_stores h ha

theorem removeFrom_inRange {pt : ℤ} (hx : x.InRange H)
    (h : removeFrom pt set num x = .ok (y, d)) : y.InRange H := by
  obtain ⟨⟨z, dz⟩, -, h⟩ := bind_eq_ok.mp h
  obtain ⟨⟨n, dn⟩, hn, h⟩ := bind_eq_ok.mp h
  cases h
  exact ⟨hx.val, fun w hw => hx.waits w (removeWaiting_stores hn hw)⟩

theorem wakeZero_same (h : wakeZero set num x = .ok (y, d)) :
    y.semval = x.semval ∧ y.nlist = x.nlist := by
  rw [wakeZero] at h
  split at h
  · obtain ⟨w, -, h⟩ := bind_eq_ok.mp h
    obtain ⟨⟨z, dz⟩, -, h⟩ := bind_eq_ok.mp h
    cases h
    exact ⟨rfl, rfl⟩
  · cases h
    exact ⟨rfl, rfl⟩

theorem wakeIncrease_cases (h : wakeIncrease set num x = .ok (y, d)) :
    y = x ∨ ∃ w, x.nlist.Stores w ∧ w ∈ x.nlist.entries ∧ w.val ≤ x.semval ∧
      y.semval = (x.semval - w.val).toNat ∧ ∀ a, y.nlist.Stores a → x.nlist.Stores a := by
  rw [wakeIncrease] at h
  split at h
  · obtain ⟨r, hfind, h⟩ := bind_eq_ok.mp h
    cases r with
    | none =>
      cases h
      exact .inl rfl
    | some r =>
      obtain ⟨k, w⟩ := r
      obtain ⟨⟨n, dn⟩, hn, h⟩ := bind_eq_ok.mp h
      cases h
      obtain ⟨hget, hw, hk⟩ := HeapList.find_get hfind
      obtain ⟨hstores, hentry⟩ := HeapList.get_stores hget
      exact .inr ⟨w, hstores, hentry (by omega), of_decide_eq_true hw, rfl,
        fun a ha => leave_stores hn ha⟩
  · cases h
    exact .inl rfl

theorem updateSemaphore_cases (h : updateSemaphore set num x = .ok (y, d)) :
    y.semval = x.semval ∧ y.nlist = x.nlist ∨
      ∃ w, x.nlist.Stores w ∧ w ∈ x.nlist.entries ∧ w.val ≤ x.semval ∧
        y.semval = (x.semval - w.val).toNat ∧ ∀ a, y.nlist.Stores a → x.nlist.Stores a := by
  obtain ⟨⟨u, dz⟩, hu, h⟩ := bind_eq_ok.mp h
  obtain ⟨⟨y, dn⟩, hy, h⟩ := bind_eq_ok.mp h
  cases h
  obtain ⟨hval, hlist⟩ := wakeZero_same hu
  rw [← hval, ← hlist]
  rcases wakeIncrease_cases hy with rfl | hwoke
  · exact .inl ⟨rfl, rfl⟩
  · exact .inr hwoke

theorem updateSemaphore_inRange (hx : x.InRange H)
    (h : updateSemaphore set num x = .ok (y, d)) : y.InRange H := by
  rcases updateSemaphore_cases h with ⟨hval, hlist⟩ | ⟨w, hstores, -, -, hval, hkept⟩
  · exact ⟨hval ▸ hx.val, hlist ▸ hx.waits⟩
  · refine ⟨?_, fun a ha => hx.waits a (hkept a ha)⟩
    have hle := hx.val
    have hpos := hx.waits w hstores
    omega

theorem forSemaphores_each {f : ℤ → ℕ → Semaphore → Except Fault (Semaphore × List Deed)}
    (h : forSemaphores f l = .ok (l', d)) : Each (fun _ sem sem' d => sem'.id = sem.id ∧
      Each (fun k x y d => f sem.id k x = .ok (y, d)) 0 sem.sems sem'.sems d) 0 l l' d := by
  refine (eachM_graph h).mono fun _ sem sem' d hsem => ?_
  obtain ⟨⟨sems, d'⟩, hsems, h⟩ := bind_eq_ok.mp hsem
  cases h
  exact ⟨rfl, eachM_graph hsems⟩

theorem forSemaphores_inRange
    {f : ℤ → ℕ → Semaphore → Except Fault (Semaphore × List Deed)}
    (hf : ∀ set num x y d, x.InRange H → f set num x = .ok (y, d) → y.InRange H)
    (hl : AllInRange H l) (h : forSemaphores f l = .ok (l', d)) : AllInRange H l' := by
  refine (forSemaphores_each h).forall_mem fun _ sem hsem sem' d' hsem' => ?_
  exact hsem'.2.forall_mem fun k x hx y d hy => hf _ _ _ _ _ (hl sem hsem x hx) hy

theorem exits_in_range {pts : List ℤ} (hl : AllInRange H l)
    (h : semProcessVmNotify l pts = .ok (l', d)) : AllInRange H l' := by
  induction pts generalizing l d with
  | nil =>
    cases h
    exact hl
  | cons pt pts ih =>
    obtain ⟨⟨l₁, d₁⟩, h₁, h⟩ := bind_eq_ok.mp h
    obtain ⟨⟨l₂, d₂⟩, h₂, h⟩ := bind_eq_ok.mp h
    cases h
    exact ih (forSemaphores_inRange (fun _ _ _ _ _ => removeFrom_inRange) hl h₁) h₂

end Passes

section Operations
variable {H : SemHeaders} {s : SemServer} {c : Caller} {call : ℕ} {grows : ℕ → Bool}
  {os : List Sembuf} {i : ℕ} {alter : Bool} {set : ℤ}

def RisesFit (H : SemHeaders) (alter : Bool) (grows : ℕ → Bool) (sems : List Semaphore) :
    ℕ → List Sembuf → Prop
  | _, [] => True
  | i, o :: os => ∀ x, sems[o.semNum.toNat]? = some x →
      (alter = true → 0 < o.semOp → x.semval + o.semOp ≤ H.semvmx) ∧
        ((x.view.waits o.semOp → grows i = true) → RisesFit H alter grows sems (i + 1) os)

theorem risesFit_set {sems : List Semaphore} {num : ℕ} (h : RisesFit H alter grows sems i os)
    (hnum : ∀ o ∈ os, num ≠ o.semNum.toNat) (y : Semaphore) :
    RisesFit H alter grows (sems.set num y) i os := by
  induction os generalizing i with
  | nil => trivial
  | cons o os ih =>
    obtain ⟨hfirst, hrest⟩ := List.forall_mem_cons.mp hnum
    intro x hx
    rw [List.getElem?_set_ne hfirst] at hx
    obtain ⟨hrise, hnext⟩ := h x hx
    exact ⟨hrise, fun hgrows => ih (hnext hgrows) hrest⟩

theorem sleep_cases {z z' : HeapList Waiting} {p : Place} {w : Waiting} {g : Bool} {r : Round}
    {d : List Deed} (h : sleep z p w g = .ok (r, z', d)) :
    r = (if g then .slept else .lost) ∧ ∀ a, z'.Stores a → z.Stores a ∨ a = w := by
  obtain ⟨⟨grown, z₁⟩, hpush, h⟩ := bind_eq_ok.mp h
  cases h
  refine ⟨?_, fun a ha => HeapList.push_stores hpush ha⟩
  rw [HeapList.push] at hpush
  cases g with
  | false =>
    cases hpush
    rfl
  | true =>
    dsimp only [Bool.not_true] at hpush
    split_ifs at hpush
    · exact absurd ‹false = true› Bool.false_ne_true
    · cases hpush
      rfl

theorem semopOne_inRange {who : ℤ} {op : OpId} {num : ℕ} {semOp : ℤ} {g : Bool}
    {x y : Semaphore} {r : Round} {d : List Deed} (hx : x.InRange H)
    (hrise : alter = true → 0 < semOp → x.semval + semOp ≤ H.semvmx)
    (h : semopOne alter who op set num semOp g x = .ok (r, y, d)) :
    y.InRange H ∧ (r = .done ∨ r = .slept → x.view.waits semOp → g = true) := by
  rw [semopOne] at h
  split at h
  · rename_i hpos
    have hwaits : ¬ x.view.waits semOp := by
      rintro (⟨h0, -⟩ | ⟨h0, -⟩) <;> omega
    split at h
    · cases h
      exact ⟨hx, fun _ hw => absurd hw hwaits⟩
    · rename_i halter
      cases h
      refine ⟨⟨?_, hx.waits⟩, fun _ hw => absurd hw hwaits⟩
      have hle := hrise (Bool.eq_true_of_not_eq_false halter) hpos
      have hlt := H.semvmx_lt
      rw [Int.emod_eq_of_lt (by omega) (by omega)]
      change ((x.semval : ℤ) + semOp).toNat ≤ H.semvmx
      omega
  · split at h
    · rename_i hzero
      split at h
      · obtain ⟨⟨r', z, d'⟩, hsleep, h⟩ := bind_eq_ok.mp h
        cases h
        obtain ⟨rfl, -⟩ := sleep_cases hsleep
        refine ⟨⟨hx.val, hx.waits⟩, fun hr _ => ?_⟩
        cases g with
        | true => rfl
        | false => rcases hr with hr | hr <;> cases hr
      · rename_i hval
        cases h
        refine ⟨hx, fun _ hw => ?_⟩
        rcases hw with ⟨-, hne⟩ | ⟨hneg, -⟩
        · exact absurd hne hval
        · omega
    · rename_i hpos hzero
      split at h
      · cases h
        refine ⟨hx, fun hr => ?_⟩
        rcases hr with hr | hr <;> cases hr
      · split at h
        · rename_i hval
          cases h
          refine ⟨⟨?_, hx.waits⟩, fun _ hw => ?_⟩
          · have hle := hx.val
            change ((x.semval : ℤ) + semOp).toNat ≤ H.semvmx
            omega
          · rcases hw with ⟨h0, -⟩ | ⟨-, hlt⟩
            · exact absurd h0 hzero
            · exact absurd hlt (not_lt.mpr hval)
        · obtain ⟨⟨r', n, d'⟩, hsleep, h⟩ := bind_eq_ok.mp h
          cases h
          obtain ⟨rfl, hstores⟩ := sleep_cases hsleep
          refine ⟨⟨hx.val, fun w hw => ?_⟩, fun hr _ => ?_⟩
          · rcases hstores w hw with hw | rfl
            · exact hx.waits w hw
            · dsimp only
              omega
          · cases g with
            | true => rfl
            | false => rcases hr with hr | hr <;> cases hr

theorem semopLoop_inRange {t t' : Semop} {r : Errno} (ht : ∀ x ∈ t.sems, x.InRange H)
    (hnums : os.Pairwise fun o o' => o.semNum.toNat ≠ o'.semNum.toNat)
    (hrises : RisesFit H alter grows t.sems i os)
    (h : semopLoop alter c call set grows os i t = .ok (r, t')) : ∀ x ∈ t'.sems, x.InRange H := by
  induction os generalizing i t with
  | nil =>
    cases h
    exact ht
  | cons o os ih =>
    obtain ⟨hfirst, hnums⟩ := List.pairwise_cons.mp hnums
    rw [semopLoop] at h
    dsimp only at h
    split at h
    · cases h
    · rename_i x hx
      obtain ⟨⟨q, y, d⟩, hone, h⟩ := bind_eq_ok.mp h
      have hxr : Semaphore.InRange H { x with sempid := c.pid } := by
        obtain ⟨hval, hwaits⟩ := ht x (List.mem_of_getElem? hx)
        exact ⟨hval, hwaits⟩
      obtain ⟨hrise, hrest⟩ := hrises x hx
      obtain ⟨hy, hreached⟩ := semopOne_inRange hxr hrise hone
      have hset : ∀ z ∈ t.sems.set o.semNum.toNat y, z.InRange H := by
        intro z hz
        rcases List.mem_or_eq_of_mem_set hz with hz | rfl
        · exact ht z hz
        · exact hy
      have hnext : q = .done ∨ q = .slept →
          RisesFit H alter grows (t.sems.set o.semNum.toNat y) (i + 1) os :=
        fun hq => risesFit_set (hrest (hreached hq)) hfirst y
      cases q with
      | refused | lost =>
        cases h
        exact hset
      | done => exact ih hset hnums (hnext (.inl rfl)) h
      | slept => exact ih hset hnums (hnext (.inr rfl)) h

end Operations

section Control
variable {H : SemHeaders} {s s' : SemServer} {c : Caller} {id num : ℤ} {cmd : SemctlCmd}
  {buf : ℕ → BitVec 16} {xs : List Semaphore} {l l' : List SemStruct} {d : List Deed}

theorem setallLoop_inRange (k : ℕ) (hxs : ∀ x ∈ xs, x.InRange H) :
    ∀ x ∈ (setallLoop H buf k xs).2, x.InRange H := by
  induction xs generalizing k with
  | nil => exact hxs
  | cons x xs ih =>
    obtain ⟨hx, hrest⟩ := List.forall_mem_cons.mp hxs
    rw [setallLoop]
    split
    · exact hxs
    · rename_i hle
      exact List.forall_mem_cons.mpr ⟨⟨not_lt.mp hle, hx.waits⟩, ih (k + 1) hrest⟩

def FirstOut (H : SemHeaders) (buf : ℕ → BitVec 16) (n k : ℕ) : Prop :=
  k < n ∧ H.semvmx < (buf k).toNat ∧ ∀ j < k, (buf j).toNat ≤ H.semvmx

theorem setallLoop_out {i : ℕ} (h : (setallLoop H buf i xs).1 = false) :
    ∃ k, FirstOut H (fun j => buf (i + j)) xs.length k ∧
      ((∀ j < k, ∀ x, xs[j]? = some x → x.semval = (buf (i + j)).toNat) →
        (setallLoop H buf i xs).2 = xs) := by
  induction xs generalizing i with
  | nil => cases h
  | cons x xs ih =>
    rw [setallLoop] at h ⊢
    split at h
    · rename_i hout
      refine ⟨0, ⟨Nat.succ_pos _, hout, fun j hj => absurd hj (Nat.not_lt_zero j)⟩, fun _ => ?_⟩
      rw [if_pos hout]
    · rename_i hin
      obtain ⟨k, ⟨hk, hout, hbefore⟩, hsame⟩ := ih h
      have hshift : ∀ j, buf (i + 1 + j) = buf (i + (j + 1)) := fun j => congrArg buf (by omega)
      simp only [hshift] at hout hbefore hsame
      refine ⟨k + 1, ⟨Nat.succ_lt_succ hk, hout, fun j hj => ?_⟩, fun hequal => ?_⟩
      · cases j with
        | zero => exact not_lt.mp hin
        | succ j => exact hbefore j (Nat.lt_of_succ_lt_succ hj)
      · rw [if_neg hin]
        have hrest := hsame fun j hj y hy => hequal (j + 1) (Nat.succ_lt_succ hj) y hy
        have hx : (buf i).toNat = x.semval := (hequal 0 (Nat.succ_pos k) x rfl).symm
        dsimp only
        rw [hrest, hx]

def SemctlCmd.KeepsValues (H : SemHeaders) (sem : SemStruct) : SemctlCmd → Prop
  | .SETALL true (some buf) => ∀ k, FirstOut H buf sem.semNsems k →
      (∀ j < k, ∀ x, sem.sems[j]? = some x → x.semval = (buf j).toNat) ∧
        ∀ x ∈ sem.sems, ∀ w ∈ x.nlist.entries, (x.semval : ℤ) < w.val
  | _ => True

def SemRequest.KeepsRange (H : SemHeaders) (s : SemServer) : SemRequest → Prop
  | .semop c m => ∀ i sem, semFindId s m.id = some (i, sem) → refuseSemop H sem c m = none →
      RisesFit H (checkPerm sem.perm c 0o222) m.grows sem.sems 0 m.sops
  | .semctl c id _ cmd => ∀ i sem, semFindId s id = some (i, sem) →
      checkPerm sem.perm c 0o444 = true → cmd.KeepsValues H sem
  | _ => True

theorem AllInRange.set {i : ℕ} {sem : SemStruct} (hl : AllInRange H l)
    (hsem : ∀ x ∈ sem.sems, x.InRange H) : AllInRange H (l.set i sem) := by
  intro z hz
  rcases List.mem_or_eq_of_mem_set hz with hz | rfl
  · exact hl z hz
  · exact hsem

theorem setval_inRange {val : ℕ} (hval : val ≤ H.semvmx) (k : ℕ)
    (hxs : ∀ x ∈ xs, x.InRange H) :
    ∀ x ∈ xs.modify k fun x => { x with semval := val }, x.InRange H := by
  intro x hx
  obtain ⟨j, hj⟩ := List.mem_iff_getElem?.mp hx
  rw [List.getElem?_modify] at hj
  obtain ⟨y, hy, rfl⟩ := Option.map_eq_some_iff.mp hj
  have hyr := hxs y (List.mem_of_getElem? hy)
  split
  · exact ⟨hval, hyr.waits⟩
  · exact hyr

theorem semctlCalled_in_range {r : SemctlReply} (hs : AllInRange H s.semList)
    (h : semctlCalled H s c id num cmd = .ok r) : AllInRange H r.s.semList := by
  have hsame : r.toPrepared = ⟨s, [], false⟩ → AllInRange H r.s.semList := by
    intro hr
    rw [hr]
    exact hs
  rw [semctlCalled] at h
  split at h
  · cases h
    exact hs
  · rename_i i sem hfind
    obtain ⟨hget, -⟩ := semFindId_found hfind
    have hsem := hs sem (List.mem_of_getElem? hget)
    split at h
    · cases h
      exact hs
    · by_cases hlooks : cmd.looks = true
      · exact hsame (semctl_looks hlooks h)
      · cases cmd with
        | IPC_SET ds =>
          simp only [semctlCmd] at h
          split at h
          · cases h
            exact hs
          · split at h <;> cases h
            · exact hs
            · exact hs.set hsem
        | IPC_RMID =>
          simp only [semctlCmd] at h
          split at h
          · cases h
            exact hs
          · obtain ⟨⟨l', d⟩, hremove, h⟩ := bind_eq_ok.mp h
            obtain ⟨⟨_, d'⟩, -, hremove⟩ := bind_eq_ok.mp hremove
            cases h
            cases hremove
            exact fun z hz => hs z (mem_removeSemaphore hget hz)
        | SETALL allocates buf =>
          simp only [semctlCmd] at h
          split at h
          · cases h
            exact hs
          · split at h <;> cases h
            · exact hs
            · exact hs.set (setallLoop_inRange 0 hsem)
        | SETVAL val =>
          simp only [semctlCmd] at h
          split_ifs at h with hperm hnum hrange <;> cases h
          · exact hs
          · exact hs
          · exact hs
          · exact hs.set (setval_inRange (by omega) _ hsem)
        | _ => exact absurd rfl hlooks

theorem prepare_in_range {call : ℕ} {e : SemRequest} {r : Prepared} (hs : AllInRange H s.semList)
    (he : e.KeepsRange H s) (h : e.prepare H s call = .ok r) : AllInRange H r.s.semList := by
  cases e with
  | semget c key nsems flag =>
    cases h
    dsimp only [doSemget]
    split
    · split_ifs <;> exact hs
    · split_ifs <;> try exact hs
      intro z hz
      rcases List.mem_append.mp hz with hz | hz
      · exact hs z hz
      · obtain rfl := List.mem_singleton.mp hz
        intro x hx
        obtain rfl := List.eq_of_mem_replicate hx
        refine ⟨Nat.zero_le _, fun w hw => ?_⟩
        obtain ⟨_, hnone, -⟩ := hw
        cases hnone
  | semctl c id num cmd =>
    obtain ⟨reply, hr, h⟩ := bind_eq_ok.mp h
    cases h
    exact semctlCalled_in_range hs hr
  | semop c m =>
    rw [SemRequest.prepare, semopCalled] at h
    split at h
    · cases h
      exact hs
    · rename_i i sem hfind
      obtain ⟨hget, -⟩ := semFindId_found hfind
      split at h
      · cases h
        exact hs
      · rename_i hrefuse
        obtain ⟨⟨e, t⟩, hloop, h⟩ := bind_eq_ok.mp h
        cases h
        exact hs.set (semopLoop_inRange (hs sem (List.mem_of_getElem? hget))
          (refuseSemop_none hrefuse).2 (he i sem hfind hrefuse) hloop)
  | vmNotify pts =>
    obtain ⟨⟨l', d⟩, hexits, h⟩ := bind_eq_ok.mp h
    cases h
    exact exits_in_range hs hexits

theorem finish_in_range {r : Prepared} (hr : AllInRange H r.s.semList)
    (h : r.finish = .ok (s', d)) : AllInRange H s'.semList := by
  rw [Prepared.finish] at h
  split at h
  · obtain ⟨⟨l', d'⟩, hu, h⟩ := bind_eq_ok.mp h
    cases h
    exact forSemaphores_inRange (fun _ _ _ _ _ => updateSemaphore_inRange) hr hu
  · cases h
    exact hr

end Control

section Unchanged
variable {H : SemHeaders} {s s' : SemServer} {c : Caller} {id num : ℤ} {cmd : SemctlCmd}
  {l l' : List SemStruct} {d : List Deed}

def valuesOf (s : SemServer) (id : ℤ) : Option (List ℕ) :=
  (semFindId s id).map fun r => r.2.sems.map (·.semval)

theorem sem_find_passed {f : ℤ → ℕ → Semaphore → Except Fault (Semaphore × List Deed)}
    (h : forSemaphores f s.semList = .ok (l', d)) {i : ℕ} {sem : SemStruct}
    (hfind : semFindId s id = some (i, sem)) (next : ℤ) :
    ∃ sem' d', semFindId ⟨l', next⟩ id = some (i, sem') ∧
      Each (fun k x y d => f sem.id k x = .ok (y, d)) 0 sem.sems sem'.sems d' := by
  have heach := forSemaphores_each h
  have hids : l'.map SemStruct.id = s.semList.map SemStruct.id :=
    heach.map_eq fun _ _ _ _ _ hsem => hsem.1
  simp only [semFindId, Option.bind_eq_bind, Option.bind_eq_some_iff, Option.pure_def,
    Option.some.injEq, Prod.mk.injEq] at hfind
  obtain ⟨j, hj, sem₁, hsem₁, rfl, rfl⟩ := hfind
  have hj' : l'.findIdx? (·.id = id) = some j := by
    have hmap : ∀ m : List SemStruct, m.findIdx? (·.id = id) =
        (m.map SemStruct.id).findIdx? fun i => decide (i = id) := fun m => by
      rw [List.findIdx?_map]
      rfl
    rw [hmap, hids, ← hmap, hj]
  have hlt : j < l'.length := by
    rw [heach.length_eq]
    exact (List.getElem?_eq_some_iff.mp hsem₁).1
  obtain ⟨sem, d', hsem, -, hsems⟩ := heach.origin (List.getElem?_eq_getElem hlt)
  rw [hsem₁] at hsem
  cases hsem
  refine ⟨l'[j], d', ?_, hsems⟩
  simp [semFindId, hj', hlt]

theorem values_kept_by_update (h : updateSemaphores s.semList = .ok (l', d)) {i : ℕ}
    {sem : SemStruct} (hfind : semFindId s id = some (i, sem))
    (hnone : ∀ x ∈ sem.sems, ∀ w ∈ x.nlist.entries, (x.semval : ℤ) < w.val) (next : ℤ) :
    valuesOf ⟨l', next⟩ id = valuesOf s id := by
  obtain ⟨sem', d', hfind', hsems⟩ := sem_find_passed h hfind next
  rw [valuesOf, valuesOf, hfind, hfind', Option.map_some, Option.map_some]
  refine congrArg some (hsems.map_eq fun k x hx y dx hy => ?_)
  rcases updateSemaphore_cases hy with ⟨hval, -⟩ | ⟨w, -, hw, hle, -⟩
  · exact hval
  · exact absurd hle (not_le.mpr (hnone x hx w hw))

theorem semctl_erange {r : SemctlReply} (h : semctlCalled H s c id num cmd = .ok r)
    (herange : r.result = .ERANGE) : r.toPrepared = ⟨s, [], false⟩ ∨
      ∃ i sem buf k, semFindId s id = some (i, sem) ∧ checkPerm sem.perm c 0o444 = true ∧
        cmd = .SETALL true (some buf) ∧ FirstOut H buf sem.semNsems k ∧ r.updates = true ∧
        ((∀ j < k, ∀ x, sem.sems[j]? = some x → x.semval = (buf j).toNat) → r.s = s) := by
  rw [semctlCalled] at h
  split at h
  · cases h
    exact .inl rfl
  · rename_i i sem hfind
    obtain ⟨hget, -⟩ := semFindId_found hfind
    split at h
    · cases h
      exact .inl rfl
    · rename_i hperm
      by_cases hlooks : cmd.looks = true
      · exact .inl (semctl_looks hlooks h)
      · cases cmd with
        | IPC_SET ds =>
          simp only [semctlCmd] at h
          split at h
          · cases h
            exact .inl rfl
          · split at h <;> cases h
            · exact .inl rfl
            · cases herange
        | IPC_RMID =>
          simp only [semctlCmd] at h
          split at h
          · cases h
            exact .inl rfl
          · obtain ⟨_, -, h⟩ := bind_eq_ok.mp h
            cases h
            cases herange
        | SETVAL val =>
          simp only [semctlCmd] at h
          split_ifs at h <;> cases h
          · exact .inl rfl
          · exact .inl rfl
          · exact .inl rfl
          · cases herange
        | SETALL allocates values =>
          simp only [semctlCmd] at h
          split at h
          · cases h
            exact .inl rfl
          · rename_i halloc
            rw [Bool.not_eq_false] at halloc
            subst halloc
            split at h
            · cases h
              exact .inl rfl
            · rename_i buf
              cases h
              have hout : (setallLoop H buf 0 sem.sems).1 = false := by
                by_contra hok
                rw [Bool.not_eq_false] at hok
                simp [hok] at herange
              obtain ⟨k, hk, hloop⟩ := setallLoop_out hout
              simp only [Nat.zero_add] at hk hloop
              have hread : checkPerm sem.perm c 0o444 = true := by
                simpa [SemctlCmd.readChecked] using hperm
              refine .inr ⟨i, sem, buf, k, hfind, hread, rfl, hk, rfl, fun hequal => ?_⟩
              obtain ⟨hlt, hi⟩ := List.getElem?_eq_some_iff.mp hget
              dsimp only
              rw [hloop hequal, replaceSet]
              rw [← hi, List.set_getElem_self]
        | _ => exact absurd rfl hlooks

theorem erange_keepsValues {ret : Option ℤ} (hkeeps : (SemRequest.semctl c id num cmd).KeepsRange H s)
    (h : doSemctl H s c id num cmd = .ok ((.ERANGE, ret), s', d)) :
    valuesOf s' id = valuesOf s id := by
  obtain ⟨r, hr, h⟩ := bind_eq_ok.mp h
  obtain ⟨⟨s₁, d₁⟩, hfinish, h⟩ := bind_eq_ok.mp h
  obtain ⟨hreply, hafter⟩ := Prod.mk.inj (Except.ok.inj h)
  obtain ⟨herange, -⟩ := Prod.mk.inj hreply
  obtain ⟨rfl, rfl⟩ := Prod.mk.inj hafter
  rcases semctl_erange hr herange with hsame |
    ⟨i, sem, buf, k, hfind, hread, rfl, hk, hupdates, hstopped⟩
  · rw [hsame] at hfinish
    cases hfinish
    rfl
  · obtain ⟨hequal, hnone⟩ := hkeeps i sem hfind hread k hk
    have hs := hstopped hequal
    rw [Prepared.finish, if_pos hupdates] at hfinish
    obtain ⟨⟨l', d'⟩, hu, hfinish⟩ := bind_eq_ok.mp hfinish
    cases hfinish
    rw [hs] at hu ⊢
    exact values_kept_by_update hu hfind hnone s.identifier

end Unchanged

theorem values_in_range {H : SemHeaders} {past : List (Traced × SemRequest)} {st : Traced}
    (h : Run (semSystem H) (fun _ st e => e.KeepsRange H st.s) past st) :
    (∀ sem ∈ st.s.semList, ∀ x ∈ sem.sems, x.semval ≤ H.semvmx) ∧
      ∀ c id num cmd ret s' d, (SemRequest.semctl c id num cmd).KeepsRange H st.s →
        doSemctl H st.s c id num cmd = .ok ((.ERANGE, ret), s', d) →
        valuesOf s' id = valuesOf st.s id := by
  have hrange : AllInRange H st.s.semList := by
    refine h.invariant (P := fun st => AllInRange H st.s.semList) ?_ ?_
    · intro st hst
      rw [hst.1]
      exact fun sem hsem => absurd hsem List.not_mem_nil
    · intro past st e st' hst he hstep
      obtain ⟨r, s, d, hprepare, hfinish, rfl⟩ := handled_cases hstep
      exact finish_in_range (prepare_in_range hst he hprepare) hfinish
  exact ⟨fun sem hsem x hx => (hrange sem hsem x hx).val,
    fun _ _ _ _ _ _ _ hkeeps hr => erange_keepsValues hkeeps hr⟩

theorem values_in_range_raised : ∃ st, ipcStart.after usualSemHeaders
    [semgetOf 1, semopOf 2 [⟨0, 5, false⟩]] = .ok st ∧
      ∀ sem ∈ st.s.semList, ∀ x ∈ sem.sems, x.semval ≤ 32767 := by
  obtain ⟨st, hget⟩ : ∃ st, ipcStart.handled usualSemHeaders (semgetOf 1) = .ok st := ⟨_, rfl⟩
  obtain ⟨st', hop⟩ : ∃ st',
      st.handled usualSemHeaders (semopOf 2 [⟨0, 5, false⟩]) = .ok st' := by
    cases hget
    exact ⟨_, rfl⟩
  have hnew : (semgetOf 1).KeepsRange usualSemHeaders ipcStart.s := trivial
  have hfits : (semopOf 2 [⟨0, 5, false⟩]).KeepsRange usualSemHeaders st.s := by
    cases hget
    intro i sem hfind _
    cases hfind
    intro x hx
    cases hx
    exact ⟨fun _ _ => by decide, fun _ => trivial⟩
  have hstart : Run (semSystem usualSemHeaders) (fun _ st e => e.KeepsRange usualSemHeaders st.s) []
      ipcStart := .start ⟨rfl, rfl⟩
  refine ⟨st', ?_, (values_in_range ((hstart.next hnew hget).next hfits hop)).1⟩
  simp only [Traced.after, hget, hop, bind, Except.bind]

theorem value_above_semvmx :
    (∃ past st, Run (semSystem usualSemHeaders) always past st ∧
      ∃ sem ∈ st.s.semList, ∃ x ∈ sem.sems, usualSemHeaders.semvmx < x.semval) ∧
    ∃ past st s' d, Run (semSystem usualSemHeaders) always past st ∧
      doSemctl usualSemHeaders st.s (superuser 1) 0x1234 0
        (.SETALL true (some fun i => [3, 40000].getD i 0)) = .ok ((.ERANGE, none), s', d) ∧
      valuesOf st.s 0x1234 = some [0, 0] ∧ valuesOf s' 0x1234 = some [3, 0] := by
  have hstart : Run (semSystem usualSemHeaders) always [] ipcStart := .start ⟨rfl, rfl⟩
  constructor
  · obtain ⟨st, hafter, hvalue⟩ : ∃ st, ipcStart.after usualSemHeaders
        [semgetOf 1, setvalOf 0 32767, semopOf 1 [⟨0, 1, false⟩]] = .ok st ∧
        ∃ sem ∈ st.s.semList, ∃ x ∈ sem.sems, usualSemHeaders.semvmx < x.semval :=
      ⟨_, rfl, _, List.mem_singleton.mpr rfl, _, List.mem_singleton.mpr rfl, by decide⟩
    obtain ⟨past, hrun⟩ := run_after hstart (fun _ _ => trivial) hafter
    exact ⟨past, st, hrun, hvalue⟩
  · obtain ⟨st, hget⟩ : ∃ st, ipcStart.handled usualSemHeaders (semgetOf 2) = .ok st := ⟨_, rfl⟩
    have hrun := hstart.next trivial hget
    cases hget
    exact ⟨_, _, _, _, hrun, rfl, rfl, rfl⟩

end Ipc
