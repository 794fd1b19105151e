import Cs111.Ipc.WaitLists

namespace Ipc
open TransitionSystem
open HeapList (Fault)

def SemView.waits (v : SemView) (semOp : ℤ) : Prop :=
  semOp = 0 ∧ v.val ≠ 0 ∨ semOp < 0 ∧ (v.val : ℤ) < -semOp

inductive Tried (alter : Bool) (who : ℤ) (op : OpId) (set : ℤ) (num : ℕ) (semOp : ℤ) :
    SemView → Round → SemView → List Deed → Prop
  | refused {v} : semOp ≠ 0 → alter = false → Tried alter who op set num semOp v .refused v []
  | raised {v : SemView} : 0 < semOp → alter = true → Tried alter who op set num semOp v .done
      { v with val := (((v.val : ℤ) + semOp) % 2 ^ 16).toNat } [.performed op set num semOp]
  | lowered {v : SemView} : semOp < 0 → alter = true → -semOp ≤ (v.val : ℤ) →
      Tried alter who op set num semOp v .done { v with val := ((v.val : ℤ) + semOp).toNat }
        [.performed op set num semOp]
  | found {v : SemView} : semOp = 0 → v.val = 0 →
      Tried alter who op set num semOp v .done v [.performed op set num semOp]
  | zero {v : SemView} : semOp = 0 → v.val ≠ 0 → Tried alter who op set num semOp v .slept
      { v with zs := v.zs ++ [⟨who, semOp, op⟩] } [.queued ⟨set, num, true⟩ ⟨who, semOp, op⟩]
  | increase {v : SemView} : semOp < 0 → alter = true → (v.val : ℤ) < -semOp →
      Tried alter who op set num semOp v .slept { v with ns := v.ns ++ [⟨who, -semOp, op⟩] }
        [.queued ⟨set, num, false⟩ ⟨who, -semOp, op⟩]

inductive Carried (alter : Bool) (who : ℤ) (call : ℕ) (set : ℤ) :
    List Sembuf → ℕ → List SemView → Errno → ℕ → List SemView → List Deed → Prop
  | nil {i V} : Carried alter who call set [] i V .OK 0 V []
  | refused {o os i V v} : V[o.semNum.toNat]? = some v →
      Tried alter who ⟨call, i⟩ set o.semNum.toNat o.semOp v .refused v [] →
      Carried alter who call set (o :: os) i V .EACCES 0 V []
  | done {o os i V v v' d r n V' d'} : V[o.semNum.toNat]? = some v →
      Tried alter who ⟨call, i⟩ set o.semNum.toNat o.semOp v .done v' d →
      Carried alter who call set os (i + 1) (V.set o.semNum.toNat v') r n V' d' →
      Carried alter who call set (o :: os) i V r n V' (d ++ d')
  | slept {o os i V v v' d r n V' d'} : V[o.semNum.toNat]? = some v →
      Tried alter who ⟨call, i⟩ set o.semNum.toNat o.semOp v .slept v' d →
      Carried alter who call set os (i + 1) (V.set o.semNum.toNat v') r n V' d' →
      Carried alter who call set (o :: os) i V r (n + 1) V' (d ++ d')

section Operations
variable {alter : Bool} {who : ℤ} {op : OpId} {set : ℤ} {num : ℕ} {semOp : ℤ} {x y : Semaphore}
  {r : Round} {d : List Deed} {grows : Bool}

theorem sleep_total {x : HeapList Waiting} (h : x.Sound) (hlt : x.cnt + 1 < cntMax) (p : Place)
    (w : Waiting) : ∃ y, sleep x p w true = .ok (.slept, y, [.queued p w]) ∧
      y.Holds (x.entries ++ [w]) ∧ y.cnt < cntMax := by
  have hcnt := HeapList.Holds.cnt h
  obtain ⟨y, hy, hholds⟩ := h.push (by omega : x.entries.length + 1 < cntMax) w
  refine ⟨y, ?_, hholds, ?_⟩
  · simp [sleep, hy, bind, Except.bind, pure, Except.pure]
  · rw [hholds.cnt, List.length_append, List.length_singleton]
    omega

theorem sleep_ok {x : HeapList Waiting} {y p w} (h : x.Sound) (hlt : x.cnt < cntMax)
    (hok : sleep x p w true = .ok (r, y, d)) :
    r = .slept ∧ d = [.queued p w] ∧ y.Holds (x.entries ++ [w]) ∧ y.cnt < cntMax := by
  by_cases hroom : x.cnt + 1 < cntMax
  · obtain ⟨y', hy', hholds, hcnt⟩ := sleep_total h hroom p w
    rw [hy'] at hok
    cases hok
    exact ⟨rfl, rfl, hholds, hcnt⟩
  · have hfull : (x.cnt + 1) % cntMax = 0 := by
      rw [show x.cnt + 1 = cntMax by omega, Nat.mod_self]
    simp [sleep, HeapList.push, hfull, bind, Except.bind] at hok

theorem semopOne_refines (h : x.Sound)
    (hok : semopOne alter who op set num semOp true x = .ok (r, y, d)) :
    Tried alter who op set num semOp x.view r y.view d ∧ y.Sound := by
  rw [semopOne] at hok
  split at hok
  · rename_i hpos
    split at hok
    · rename_i halter
      cases hok
      exact ⟨.refused (by omega) halter, h⟩
    · rename_i halter
      cases hok
      exact ⟨.raised hpos (by simpa using halter), h.zlist, h.nlist, h.zlt, h.nlt⟩
  · rename_i hpos
    split at hok
    · rename_i hzero
      split at hok
      · rename_i hval
        cases hsleep : sleep x.zlist ⟨set, num, true⟩ ⟨who, semOp, op⟩ true with
        | error e => simp [hsleep, bind, Except.bind] at hok
        | ok t =>
          obtain ⟨r', z, d'⟩ := t
          simp only [hsleep, bind, Except.bind, pure, Except.pure] at hok
          cases hok
          obtain ⟨rfl, rfl, hholds, hcnt⟩ := sleep_ok h.zlist h.zlt hsleep
          refine ⟨?_, hholds.sound, h.nlist, hcnt, h.nlt⟩
          simp only [Semaphore.view, hholds.entries_eq]
          exact .zero hzero hval
      · rename_i hval
        cases hok
        rw [not_not] at hval
        refine ⟨?_, h⟩
        subst hzero
        exact .found rfl hval
    · rename_i hzero
      split at hok
      · rename_i halter
        cases hok
        exact ⟨.refused hzero halter, h⟩
      · rename_i halter
        rw [Bool.not_eq_false] at halter
        split at hok
        · rename_i hval
          cases hok
          exact ⟨.lowered (by omega) halter hval, h.zlist, h.nlist, h.zlt, h.nlt⟩
        · rename_i hval
          cases hsleep : sleep x.nlist ⟨set, num, false⟩ ⟨who, -semOp, op⟩ true with
          | error e => simp [hsleep, bind, Except.bind] at hok
          | ok t =>
            obtain ⟨r', n, d'⟩ := t
            simp only [hsleep, bind, Except.bind, pure, Except.pure] at hok
            cases hok
            obtain ⟨rfl, rfl, hholds, hcnt⟩ := sleep_ok h.nlist h.nlt hsleep
            refine ⟨?_, h.zlist, hholds.sound, h.zlt, hcnt⟩
            simp only [Semaphore.view, hholds.entries_eq]
            exact .increase (by omega) halter (by simpa using hval)

def Semaphore.Room (x : Semaphore) (semOp : ℤ) : Prop :=
  (semOp = 0 → x.semzcnt + 1 < cntMax) ∧ (semOp < 0 → x.semncnt + 1 < cntMax)

theorem semopOne_total (h : x.Sound) (hroom : x.view.waits semOp → x.Room semOp) :
    ∃ r y d, semopOne alter who op set num semOp true x = .ok (r, y, d) := by
  rw [semopOne]
  split
  · split <;> exact ⟨_, _, _, rfl⟩
  · split
    · rename_i hzero
      split
      · rename_i hval
        obtain ⟨z, hz, -⟩ := sleep_total h.zlist ((hroom (.inl ⟨hzero, hval⟩)).1 hzero)
          ⟨set, num, true⟩ ⟨who, semOp, op⟩
        exact ⟨_, _, _, by rw [hz]; rfl⟩
      · exact ⟨_, _, _, rfl⟩
    · rename_i hpos hzero
      have hneg : semOp < 0 := by omega
      split
      · exact ⟨_, _, _, rfl⟩
      · split
        · exact ⟨_, _, _, rfl⟩
        · rename_i hval
          obtain ⟨n, hn, -⟩ := sleep_total h.nlist
            ((hroom (.inr ⟨hneg, not_le.mp hval⟩)).2 hneg) ⟨set, num, false⟩ ⟨who, -semOp, op⟩
          exact ⟨_, _, _, by rw [hn]; rfl⟩

theorem Tried.refused_same {v v' : SemView}
    (h : Tried alter who op set num semOp v .refused v' d) : v' = v ∧ d = [] := by
  cases h
  exact ⟨rfl, rfl⟩

theorem Tried.not_lost {v v' : SemView} : ¬ Tried alter who op set num semOp v .lost v' d := nofun

end Operations

section Loop
variable {alter : Bool} {c : Caller} {call : ℕ} {set : ℤ} {grows : ℕ → Bool} {os : List Sembuf}
  {i : ℕ} {t t' : Semop} {r : Errno}

def viewsOf (l : List Semaphore) : List SemView := l.map Semaphore.view

theorem semopLoop_refines (hgrows : ∀ i, grows i = true) (h : ∀ x ∈ t.sems, x.Sound)
    (hok : semopLoop alter c call set grows os i t = .ok (r, t')) :
    ∃ n d, Carried alter c.who call set os i (viewsOf t.sems) r n (viewsOf t'.sems) d ∧
      t'.noReply = t.noReply + n ∧ t'.deeds = t.deeds ++ d ∧ ∀ x ∈ t'.sems, x.Sound := by
  induction os generalizing i t with
  | nil =>
    cases hok
    exact ⟨0, [], .nil, rfl, by simp, h⟩
  | cons o os ih =>
    rw [semopLoop] at hok
    dsimp only at hok
    cases hx : t.sems[o.semNum.toNat]? with
    | none => simp [hx] at hok
    | some x =>
      have hsound : Semaphore.Sound { x with sempid := c.pid } := by
        obtain ⟨hz, hn, hzlt, hnlt⟩ := h x (List.mem_of_getElem? hx)
        exact ⟨hz, hn, hzlt, hnlt⟩
      have hview : (viewsOf t.sems)[o.semNum.toNat]? = some x.view := by simp [viewsOf, hx]
      rw [hx] at hok
      dsimp only at hok
      rw [hgrows i] at hok
      cases hone : semopOne alter c.who ⟨call, i⟩ set o.semNum.toNat o.semOp true
          { x with sempid := c.pid } with
      | error e => simp [hone, bind, Except.bind] at hok
      | ok u =>
        obtain ⟨q, y, d⟩ := u
        obtain ⟨htried, hy⟩ := semopOne_refines hsound hone
        have hsems : ∀ z ∈ t.sems.set o.semNum.toNat y, z.Sound := by
          intro z hz
          rcases List.mem_or_eq_of_mem_set hz with hz | rfl
          · exact h z hz
          · exact hy
        have hset : viewsOf (t.sems.set o.semNum.toNat y) =
            (viewsOf t.sems).set o.semNum.toNat y.view := List.map_set
        simp only [hone, bind, Except.bind, pure, Except.pure] at hok
        cases q with
        | done =>
          obtain ⟨n, d', hrest, hreply, hdeeds, hall⟩ := ih hsems hok
          rw [hset] at hrest
          exact ⟨n, d ++ d', .done hview htried hrest, hreply, by rw [hdeeds, List.append_assoc],
            hall⟩
        | slept =>
          obtain ⟨n, d', hrest, hreply, hdeeds, hall⟩ := ih hsems hok
          rw [hset] at hrest
          refine ⟨n + 1, d ++ d', .slept hview htried hrest, ?_, by rw [hdeeds, List.append_assoc],
            hall⟩
          rw [hreply]
          exact Nat.add_right_comm ..
        | refused =>
          cases hok
          obtain ⟨hsame, rfl⟩ := htried.refused_same
          have hkept : (viewsOf t.sems).set o.semNum.toNat y.view = viewsOf t.sems := by
            obtain ⟨hlt, hget⟩ := List.getElem?_eq_some_iff.mp hview
            rw [hsame]
            change (viewsOf t.sems).set o.semNum.toNat x.view = _
            rw [← hget]
            exact List.set_getElem_self hlt
          refine ⟨0, [], ?_, rfl, rfl, hsems⟩
          dsimp only
          rw [hset, hkept]
          rw [hsame] at htried
          exact .refused hview htried
        | lost => exact absurd htried Tried.not_lost

theorem semopLoop_total (hgrows : ∀ i, grows i = true) (h : ∀ x ∈ t.sems, x.Sound)
    (hnum : ∀ o ∈ os, o.semNum.toNat < t.sems.length)
    (hone : os.Pairwise fun o o' => o.semNum.toNat ≠ o'.semNum.toNat)
    (hroom : ∀ o ∈ os, ∀ x, t.sems[o.semNum.toNat]? = some x → x.view.waits o.semOp →
      x.Room o.semOp) :
    ∃ r t', semopLoop alter c call set grows os i t = .ok (r, t') := by
  induction os generalizing i t with
  | nil => exact ⟨_, _, rfl⟩
  | cons o os ih =>
    obtain ⟨hlt, hnum⟩ := List.forall_mem_cons.mp hnum
    obtain ⟨hfirst, hone⟩ := List.pairwise_cons.mp hone
    obtain ⟨hroom₀, hroom⟩ := List.forall_mem_cons.mp hroom
    have hx : t.sems[o.semNum.toNat]? = some t.sems[o.semNum.toNat] := List.getElem?_eq_getElem hlt
    generalize t.sems[o.semNum.toNat] = x at hx
    have hsound : Semaphore.Sound { x with sempid := c.pid } := by
      obtain ⟨hz, hn, hzlt, hnlt⟩ := h x (List.mem_of_getElem? hx)
      exact ⟨hz, hn, hzlt, hnlt⟩
    obtain ⟨q, y, d, hy⟩ : ∃ q y d, semopOne alter c.who ⟨call, i⟩ set o.semNum.toNat o.semOp true
        { x with sempid := c.pid } = .ok (q, y, d) := semopOne_total hsound (hroom₀ x hx)
    obtain ⟨-, hysound⟩ := semopOne_refines hsound hy
    have hnext : ∀ k, ∃ r t', semopLoop alter c call set grows os (i + 1)
        ⟨t.sems.set o.semNum.toNat y, k, t.deeds ++ d⟩ = .ok (r, t') := by
      intro k
      refine ih ?_ ?_ hone ?_
      · intro z hz
        rcases List.mem_or_eq_of_mem_set hz with hz | rfl
        · exact h z hz
        · exact hysound
      · simpa using hnum
      · intro o' ho' z hz
        rw [List.getElem?_set_ne (hfirst o' ho')] at hz
        exact hroom o' ho' z hz
    rw [semopLoop]
    simp only [hx, hgrows i, hy, bind, Except.bind, pure, Except.pure]
    cases q with
    | done => exact hnext _
    | slept => exact hnext _
    | refused => exact ⟨_, _, rfl⟩
    | lost => exact ⟨_, _, rfl⟩

end Loop

structure ServerView where
  sets : List SetView
  next : ℤ

def SemServer.view (s : SemServer) : ServerView := ⟨s.semList.map SemStruct.view, s.identifier⟩

def SemView.queues (v : SemView) : List Waiting × List Waiting := (v.zs, v.ns)

inductive Exited : List ℤ → List SetView → List SetView → List Deed → Prop
  | nil {L} : Exited [] L L []
  | cons {pt pts L L' L'' d d'} : Pass (Removal pt) L L' d → Exited pts L' L'' d' →
      Exited (pt :: pts) L L'' (d ++ d')

inductive Prep (H : SemHeaders) (s : SemServer) (call : ℕ) :
    SemRequest → ServerView → List Deed → Bool → Prop
  | unchanged {e} : (∀ c m, e ≠ .semop c m) → Prep H s call e s.view [] false
  | created {c key nsems flag n} : Prep H s call (.semget c key nsems flag)
      ⟨s.view.sets ++ [⟨s.identifier, List.replicate n ⟨0, [], []⟩⟩], s.identifier + 1⟩ [] false
  | valued {c id num cmd i V vs} : s.view.sets[i]? = some V →
      vs.map SemView.queues = V.sems.map SemView.queues →
      Prep H s call (.semctl c id num cmd) ⟨s.view.sets.set i ⟨V.id, vs⟩, s.identifier⟩ [] true
  | dropped {c id num V L d} : s.view.sets.Perm (V :: L) →
      Each (fun num v v' d => v' = v ∧ d = allDropped V.id num v) 0 V.sems V.sems d →
      Prep H s call (.semctl c id num .IPC_RMID) ⟨L, s.identifier⟩ d false
  | refused {c m e} : e ≠ .OK → Prep H s call (.semop c m) s.view [.answered call c.who e] true
  | carried {c m i sem r n V d} : semFindId s m.id = some (i, sem) → refuseSemop H sem c m = none →
      Carried (checkPerm sem.perm c 0o222) c.who call sem.id m.sops 0 (viewsOf sem.sems) r n V d →
      Prep H s call (.semop c m) ⟨s.view.sets.set i ⟨sem.id, V⟩, s.identifier⟩
        (d ++ answer c call r n) true
  | exited {pts L d} : Exited pts s.view.sets L d →
      Prep H s call (.vmNotify pts) ⟨L, s.identifier⟩ d false

section Prepared
variable {H : SemHeaders} {s : SemServer} {call : ℕ} {c : Caller} {l l' : List SemStruct}
  {i : ℕ} {sem sem' : SemStruct}

theorem semFindId_found {id : ℤ} (h : semFindId s id = some (i, sem)) :
    s.semList[i]? = some sem ∧ sem.id = id := by
  simp only [semFindId, Option.bind_eq_bind, Option.bind_eq_some_iff, Option.pure_def,
    Option.some.injEq, Prod.mk.injEq] at h
  obtain ⟨j, hj, sem', hsem', rfl, rfl⟩ := h
  obtain ⟨hlt, hid, -⟩ := List.findIdx?_eq_some_iff_getElem.mp hj
  obtain ⟨hlt', hget⟩ := List.getElem?_eq_some_iff.mp hsem'
  exact ⟨hsem', by simpa [hget] using hid⟩

theorem AllSound.set (hl : AllSound l) (hsem : ∀ x ∈ sem'.sems, x.Sound) :
    AllSound (l.set i sem') := by
  intro z hz
  rcases List.mem_or_eq_of_mem_set hz with hz | rfl
  · exact hl z hz
  · exact hsem

theorem removeSemaphore_perm (h : l[i]? = some sem) : l.Perm (sem :: removeSemaphore l i) := by
  obtain ⟨hlt, hget⟩ := List.getElem?_eq_some_iff.mp h
  cases l using List.reverseRecOn with
  | nil => simp at hlt
  | append_singleton init last _ =>
    have hremove : removeSemaphore (init ++ [last]) i =
        ((init ++ [last]).set i last).take init.length := by simp [removeSemaphore]
    rw [hremove]
    by_cases hi : i < init.length
    · have hsem : init[i] = sem := by rwa [List.getElem_append_left hi] at hget
      rw [List.set_append_left _ _ hi, List.take_append_of_le_length (by simp),
        List.take_of_length_le (by simp)]
      calc (init ++ [last]).Perm (last :: init) := List.perm_append_singleton ..
        _ |>.Perm (last :: sem :: init.eraseIdx i) :=
          (hsem ▸ (List.getElem_cons_eraseIdx_perm hi).symm).cons last
        _ |>.Perm (sem :: last :: init.eraseIdx i) := List.Perm.swap ..
        _ |>.Perm (sem :: init.set i last) := (List.set_perm_cons_eraseIdx hi last).symm.cons sem
    · have hend : i = init.length := by
        rw [List.length_append, List.length_singleton] at hlt
        omega
      subst hend
      rw [List.getElem_concat_length rfl] at hget
      subst hget
      simp [List.set_append_right, List.perm_append_singleton]

theorem mem_removeSemaphore (h : l[i]? = some sem) {z : SemStruct}
    (hz : z ∈ removeSemaphore l i) : z ∈ l :=
  (removeSemaphore_perm h).mem_iff.mpr (List.mem_cons_of_mem _ hz)

theorem removeSet_ok (hl : AllSound l) (h : l[i]? = some sem) :
    ∃ l' d, removeSet l i sem = .ok (l', d) ∧
      (l.map SemStruct.view).Perm (sem.view :: l'.map SemStruct.view) ∧
      Each (fun num v v' d => v' = v ∧ d = allDropped sem.id num v) 0 sem.view.sems sem.view.sems d ∧
      AllSound l' := by
  have hsound := hl sem (List.mem_of_getElem? h)
  obtain ⟨sems, d, hd⟩ := eachM_total (f := dropFrom sem.id)
    (fun num x (hx : x ∈ sem.sems) => ⟨_, _, dropFrom_ok (hsound x hx) sem.id num⟩) 0
  obtain ⟨heach, -⟩ := eachM_refines (P := fun _ => True) (v := Semaphore.view)
    (R := fun num v v' d => v' = v ∧ d = allDropped sem.id num v)
    (fun num x hx y d hy => by
      rw [dropFrom_ok (hsound x hx)] at hy
      cases hy
      exact ⟨⟨rfl, rfl⟩, trivial⟩) hd
  have hsame : sems.map Semaphore.view = sem.view.sems := heach.eq_of_same fun _ _ _ _ h => h.1
  rw [hsame] at heach
  refine ⟨removeSemaphore l i, d, ?_, ?_, heach, fun z hz => hl z (mem_removeSemaphore h hz)⟩
  · simp [removeSet, hd, bind, Except.bind, pure, Except.pure]
  · exact (removeSemaphore_perm h).map SemStruct.view

theorem setallLoop_queues (buf : ℕ → BitVec 16) (k : ℕ) (xs : List Semaphore) :
    (viewsOf (setallLoop H buf k xs).2).map SemView.queues = (viewsOf xs).map SemView.queues ∧
      ((∀ x ∈ xs, x.Sound) → ∀ x ∈ (setallLoop H buf k xs).2, x.Sound) := by
  induction xs generalizing k with
  | nil => exact ⟨rfl, id⟩
  | cons x xs ih =>
    rw [setallLoop]
    split
    · exact ⟨rfl, id⟩
    · obtain ⟨hqueues, hsound⟩ := ih (k + 1)
      refine ⟨congrArg (x.view.queues :: ·) hqueues, fun h => ?_⟩
      obtain ⟨hx, hxs⟩ := List.forall_mem_cons.mp h
      exact List.forall_mem_cons.mpr ⟨⟨hx.zlist, hx.nlist, hx.zlt, hx.nlt⟩, hsound hxs⟩

theorem getField_same {num : ℤ} {field : Semaphore → ℤ} :
    (getField s sem num field).toPrepared = ⟨s, [], false⟩ := by
  rw [getField]
  split
  · rfl
  · split <;> rfl

def SemctlCmd.looks : SemctlCmd → Bool
  | .IPC_SET _ | .IPC_RMID | .SETALL _ _ | .SETVAL _ => false
  | _ => true

theorem semctl_looks {num : ℤ} {cmd : SemctlCmd} {r : SemctlReply} (hlooks : cmd.looks = true)
    (h : semctlCmd H s c i sem num cmd = .ok r) : r.toPrepared = ⟨s, [], false⟩ := by
  cases cmd with
  | IPC_SET | IPC_RMID | SETALL | SETVAL => cases hlooks
  | IPC_STAT ds copies =>
    simp only [semctlCmd] at h
    split_ifs at h <;> obtain rfl := Except.ok.inj h <;> rfl
  | GETALL allocates copies =>
    simp only [semctlCmd] at h
    split_ifs at h <;> obtain rfl := Except.ok.inj h <;> rfl
  | GETNCNT | GETPID | GETVAL | GETZCNT =>
    obtain rfl := Except.ok.inj h
    exact getField_same
  | IPC_INFO | SEM_INFO | SEM_STAT | unknown =>
    obtain rfl := Except.ok.inj h
    rfl

theorem setval_queues (k val : ℕ) (xs : List Semaphore) :
    (viewsOf (xs.modify k fun x => { x with semval := val })).map SemView.queues =
      (viewsOf xs).map SemView.queues ∧
    ((∀ x ∈ xs, x.Sound) → ∀ x ∈ xs.modify k fun x => { x with semval := val }, x.Sound) := by
  induction xs generalizing k with
  | nil =>
    rw [List.modify_nil]
    exact ⟨rfl, id⟩
  | cons x xs ih =>
    have hx : ∀ h : x.Sound, Semaphore.Sound { x with semval := val } :=
      fun h => ⟨h.zlist, h.nlist, h.zlt, h.nlt⟩
    cases k with
    | zero =>
      rw [List.modify_zero_cons]
      refine ⟨rfl, fun h => ?_⟩
      obtain ⟨hfirst, hrest⟩ := List.forall_mem_cons.mp h
      exact List.forall_mem_cons.mpr ⟨hx hfirst, hrest⟩
    | succ k =>
      rw [List.modify_succ_cons]
      obtain ⟨hqueues, hsound⟩ := ih k
      refine ⟨congrArg (x.view.queues :: ·) hqueues, fun h => ?_⟩
      obtain ⟨hfirst, hrest⟩ := List.forall_mem_cons.mp h
      exact List.forall_mem_cons.mpr ⟨hfirst, hsound hrest⟩

theorem replaceSet_view (perm : IpcPerm) (sems : List Semaphore) :
    (replaceSet s i { sem with perm := perm, sems := sems }).view =
      ⟨s.view.sets.set i ⟨sem.id, viewsOf sems⟩, s.identifier⟩ := by
  rw [SemServer.view, replaceSet, List.map_set]
  rfl

theorem replace_perm_view (h : s.semList[i]? = some sem) (perm : IpcPerm) :
    (replaceSet s i { sem with perm := perm }).view = s.view := by
  have hview : s.view.sets[i]? = some sem.view := by simp [SemServer.view, h]
  obtain ⟨hlt, hi⟩ := List.getElem?_eq_some_iff.mp hview
  refine (replaceSet_view perm sem.sems).trans ?_
  change (⟨s.view.sets.set i sem.view, s.identifier⟩ : ServerView) = ⟨s.view.sets, s.identifier⟩
  rw [← hi, List.set_getElem_self]

theorem semctlCalled_refines {id num : ℤ} {cmd : SemctlCmd} {r : SemctlReply}
    (hl : AllSound s.semList) (h : semctlCalled H s c id num cmd = .ok r) :
    Prep H s call (.semctl c id num cmd) r.s.view r.deeds r.updates ∧ AllSound r.s.semList := by
  have hsame : r.toPrepared = ⟨s, [], false⟩ →
      Prep H s call (.semctl c id num cmd) r.s.view r.deeds r.updates ∧ AllSound r.s.semList := by
    intro hr
    rw [hr]
    exact ⟨.unchanged nofun, hl⟩
  rw [semctlCalled] at h
  split at h
  · obtain rfl := Except.ok.inj h
    exact hsame rfl
  · rename_i i sem hfind
    obtain ⟨hget, -⟩ := semFindId_found hfind
    have hsound := hl sem (List.mem_of_getElem? hget)
    have hview : s.view.sets[i]? = some sem.view := by simp [SemServer.view, hget]
    have hvalued : ∀ sems, (viewsOf sems).map SemView.queues =
        (viewsOf sem.sems).map SemView.queues ∧
          ((∀ x ∈ sem.sems, x.Sound) → ∀ x ∈ sems, x.Sound) →
        Prep H s call (.semctl c id num cmd)
          (replaceSet s i { sem with sems := sems }).view [] true ∧
        AllSound (replaceSet s i { sem with sems := sems }).semList := by
      intro sems hsems
      refine ⟨?_, hl.set (hsems.2 hsound)⟩
      rw [replaceSet_view]
      exact .valued hview hsems.1
    split at h
    · obtain rfl := Except.ok.inj h
      exact hsame rfl
    · by_cases hlooks : cmd.looks = true
      · exact hsame (semctl_looks hlooks h)
      · cases cmd with
        | IPC_SET ds =>
          simp only [semctlCmd] at h
          split at h
          · obtain rfl := Except.ok.inj h
            exact hsame rfl
          · split at h
            · obtain rfl := Except.ok.inj h
              exact hsame rfl
            · obtain rfl := Except.ok.inj h
              refine ⟨?_, hl.set hsound⟩
              dsimp only
              rw [replace_perm_view hget]
              exact .unchanged nofun
        | IPC_RMID =>
          simp only [semctlCmd] at h
          split at h
          · obtain rfl := Except.ok.inj h
            exact hsame rfl
          · obtain ⟨l', d, hremove, hperm, heach, hall⟩ := removeSet_ok hl hget
            simp only [hremove, bind, Except.bind, pure, Except.pure] at h
            obtain rfl := Except.ok.inj h
            exact ⟨.dropped hperm heach, hall⟩
        | SETALL allocates buf =>
          simp only [semctlCmd] at h
          split at h
          · obtain rfl := Except.ok.inj h
            exact hsame rfl
          · split at h
            · obtain rfl := Except.ok.inj h
              exact hsame rfl
            · obtain rfl := Except.ok.inj h
              exact hvalued _ (setallLoop_queues _ 0 sem.sems)
        | SETVAL val =>
          simp only [semctlCmd] at h
          split_ifs at h
          · obtain rfl := Except.ok.inj h
            exact hsame rfl
          · obtain rfl := Except.ok.inj h
            exact hsame rfl
          · obtain rfl := Except.ok.inj h
            exact hsame rfl
          · obtain rfl := Except.ok.inj h
            exact hvalued _ (setval_queues _ _ sem.sems)
        | _ => exact absurd rfl hlooks

theorem refuseSemop_error {m : SemopCall} {e : Errno} (h : refuseSemop H sem c m = some e) :
    e ≠ .OK := by
  rw [refuseSemop] at h
  split_ifs at h <;> cases h <;> decide

theorem semopCalled_refines {m : SemopCall} {r : Prepared} (hl : AllSound s.semList)
    (hgrows : ∀ i, m.grows i = true) (h : semopCalled H s c call m = .ok r) :
    Prep H s call (.semop c m) r.s.view r.deeds r.updates ∧ AllSound r.s.semList := by
  rw [semopCalled] at h
  split at h
  · cases h
    exact ⟨.refused (by decide), hl⟩
  · rename_i i sem hfind
    obtain ⟨hget, -⟩ := semFindId_found hfind
    have hsound := hl sem (List.mem_of_getElem? hget)
    split at h
    · rename_i e hrefuse
      cases h
      have hanswer : answer c call e 0 = [.answered call c.who e] := by simp [answer]
      dsimp only
      rw [hanswer]
      exact ⟨.refused (refuseSemop_error hrefuse), hl⟩
    · rename_i hrefuse
      obtain ⟨⟨e, t⟩, hloop, h⟩ := bind_eq_ok.mp h
      cases h
      obtain ⟨n, d, hcarried, hreply, hdeeds, hall⟩ := semopLoop_refines hgrows hsound hloop
      refine ⟨?_, hl.set hall⟩
      dsimp only at hreply hdeeds ⊢
      rw [replaceSet_view, hreply, hdeeds, Nat.zero_add, List.nil_append]
      exact .carried hfind hrefuse hcarried

theorem exits_ok (hl : AllSound l) (pts : List ℤ) : ∃ l' d, semProcessVmNotify l pts = .ok (l', d) ∧
    Exited pts (l.map SemStruct.view) (l'.map SemStruct.view) d ∧ AllSound l' := by
  induction pts generalizing l with
  | nil => exact ⟨l, [], rfl, .nil, hl⟩
  | cons pt pts ih =>
    obtain ⟨l₁, d, h, hpass, hl₁⟩ := removeProcess_ok hl pt
    obtain ⟨l₂, d', h', hexited, hl₂⟩ := ih hl₁
    refine ⟨l₂, d ++ d', ?_, .cons hpass hexited, hl₂⟩
    simp [semProcessVmNotify, h, h', bind, Except.bind, pure, Except.pure]

theorem doSemget_refines {key nsems : ℤ} {flag : SemgetFlag} (hl : AllSound s.semList) :
    Prep H s call (.semget c key nsems flag) (doSemget H s c key nsems flag).2.view [] false ∧
      AllSound (doSemget H s c key nsems flag).2.semList := by
  rw [doSemget]
  split
  · split_ifs <;> exact ⟨.unchanged nofun, hl⟩
  · split_ifs
    · exact ⟨.unchanged nofun, hl⟩
    · exact ⟨.unchanged nofun, hl⟩
    · exact ⟨.unchanged nofun, hl⟩
    · refine ⟨?_, ?_⟩
      · have hzero : Semaphore.zero.view = ⟨0, [], []⟩ := rfl
        simp only [SemServer.view, List.map_append, List.map_cons, List.map_nil, SemStruct.view,
          newSet, List.map_replicate, hzero]
        exact .created
      · intro z hz
        rcases List.mem_append.mp hz with hz | hz
        · exact hl z hz
        · obtain rfl := List.mem_singleton.mp hz
          intro x hx
          obtain rfl := List.eq_of_mem_replicate hx
          exact ⟨HeapList.holds_empty.sound, HeapList.holds_empty.sound, by decide, by decide⟩

def SemRequest.Grows : SemRequest → Prop
  | .semop _ m => ∀ i, m.grows i = true
  | _ => True

theorem prepare_refines {e : SemRequest} {r : Prepared} (hl : AllSound s.semList)
    (hgrows : e.Grows) (h : e.prepare H s call = .ok r) :
    Prep H s call e r.s.view r.deeds r.updates ∧ AllSound r.s.semList := by
  cases e with
  | semget c key nsems flag =>
    cases h
    exact doSemget_refines hl
  | semctl c id num cmd =>
    rw [SemRequest.prepare] at h
    obtain ⟨reply, hr, h⟩ := bind_eq_ok.mp h
    cases h
    exact semctlCalled_refines hl hr
  | semop c m => exact semopCalled_refines hl hgrows h
  | vmNotify pts =>
    obtain ⟨l', d, hexits, hexited, hl'⟩ := exits_ok hl pts
    simp only [SemRequest.prepare, hexits, bind, Except.bind, pure, Except.pure] at h
    cases h
    exact ⟨.exited hexited, hl'⟩

theorem pairwise_of_not_duplicate {os : List Sembuf} (h : hasDuplicate os = false) :
    os.Pairwise fun o o' => o.semNum ≠ o'.semNum := by
  induction os with
  | nil => exact .nil
  | cons o os ih =>
    rw [hasDuplicate, Bool.or_eq_false_iff] at h
    refine .cons (fun o' ho' heq => ?_) (ih h.2)
    have hany := List.any_eq_false.mp h.1 o' ho'
    simp [heq] at hany

theorem refuseSemop_none {m : SemopCall} (h : refuseSemop H sem c m = none) :
    (∀ o ∈ m.sops, 0 ≤ o.semNum ∧ o.semNum < sem.semNsems) ∧
      m.sops.Pairwise fun o o' => o.semNum.toNat ≠ o'.semNum.toNat := by
  rw [refuseSemop] at h
  split_ifs at h with hlen hbig hperm halloc hcopy hrange hdup hagain
  have hin : ∀ o ∈ m.sops, 0 ≤ o.semNum ∧ o.semNum < sem.semNsems := by
    intro o ho
    have hnot := List.any_eq_false.mp (Bool.eq_false_iff.mpr hrange) o ho
    simp only [decide_eq_true_eq, not_or, not_lt, ge_iff_le, not_le] at hnot
    exact hnot
  refine ⟨hin, ?_⟩
  have hpair := pairwise_of_not_duplicate (Bool.eq_false_iff.mpr hdup)
  refine hpair.imp_of_mem fun {o o'} ho ho' hne heq => hne ?_
  have hpos := (hin o ho).1
  have hpos' := (hin o' ho').1
  omega

def SemRequest.Fits (s : SemServer) : SemRequest → Prop
  | .semop _ m => ∀ i sem, semFindId s m.id = some (i, sem) → ∀ o ∈ m.sops, ∀ x,
      sem.sems[o.semNum.toNat]? = some x → x.view.waits o.semOp → x.Room o.semOp
  | _ => True

theorem semopCalled_total {m : SemopCall} (hl : AllSound s.semList)
    (hgrows : ∀ i, m.grows i = true) (hfits : SemRequest.Fits s (.semop c m)) :
    ∃ r, semopCalled H s c call m = .ok r := by
  rw [semopCalled]
  split
  · exact ⟨_, rfl⟩
  · rename_i i sem hfind
    obtain ⟨hget, -⟩ := semFindId_found hfind
    split
    · exact ⟨_, rfl⟩
    · rename_i hrefuse
      obtain ⟨hin, hpair⟩ := refuseSemop_none hrefuse
      have hnum : ∀ o ∈ m.sops, o.semNum.toNat < sem.sems.length := by
        intro o ho
        have hlt := hin o ho
        rw [SemStruct.semNsems] at hlt
        omega
      obtain ⟨r, t, hloop⟩ : ∃ r t, semopLoop (checkPerm sem.perm c 0o222) c call sem.id m.grows
          m.sops 0 ⟨sem.sems, 0, []⟩ = .ok (r, t) :=
        semopLoop_total hgrows (hl sem (List.mem_of_getElem? hget)) hnum hpair (hfits i sem hfind)
      dsimp only
      rw [hloop]
      exact ⟨_, rfl⟩

theorem prepare_total {e : SemRequest} (hl : AllSound s.semList) (hgrows : e.Grows)
    (hfits : e.Fits s) : ∃ r, e.prepare H s call = .ok r := by
  cases e with
  | semget c key nsems flag => exact ⟨_, rfl⟩
  | semctl c id num cmd =>
    have hcalled : ∃ r, semctlCalled H s c id num cmd = .ok r := by
      rw [semctlCalled]
      split
      · exact ⟨_, rfl⟩
      · rename_i i sem hfind
        obtain ⟨hget, -⟩ := semFindId_found hfind
        split
        · exact ⟨_, rfl⟩
        · cases cmd with
          | IPC_RMID =>
            simp only [semctlCmd]
            split
            · exact ⟨_, rfl⟩
            · obtain ⟨l', d, hremove, -⟩ := removeSet_ok hl hget
              rw [hremove]
              exact ⟨_, rfl⟩
          | IPC_SET ds | SETALL allocates ds =>
            simp only [semctlCmd]
            split
            · exact ⟨_, rfl⟩
            · split <;> exact ⟨_, rfl⟩
          | IPC_STAT ds copies | GETALL ds copies =>
            simp only [semctlCmd]
            split_ifs <;> exact ⟨_, rfl⟩
          | SETVAL val =>
            simp only [semctlCmd]
            split_ifs <;> exact ⟨_, rfl⟩
          | _ => exact ⟨_, rfl⟩
    obtain ⟨r, hr⟩ := hcalled
    exact ⟨r.toPrepared, by rw [SemRequest.prepare, hr]; rfl⟩
  | semop c m => exact semopCalled_total hl hgrows hfits
  | vmNotify pts =>
    obtain ⟨l', d, hexits, -⟩ := exits_ok hl pts
    exact ⟨_, by rw [SemRequest.prepare, hexits]; rfl⟩

theorem finish_refines {r : Prepared} {s' : SemServer} {d : List Deed} (hl : AllSound r.s.semList)
    (h : r.finish = .ok (s', d)) : AllSound s'.semList ∧ s'.identifier = r.s.identifier ∧
    (r.updates = false ∧ s' = r.s ∧ d = r.deeds ∨
      r.updates = true ∧ ∃ d', d = r.deeds ++ d' ∧ Pass Woken r.s.view.sets s'.view.sets d') := by
  rw [Prepared.finish] at h
  split at h
  · rename_i hupdates
    obtain ⟨⟨l', d'⟩, hu, h⟩ := bind_eq_ok.mp h
    cases h
    obtain ⟨hpass, hall⟩ := updateSemaphores_refines hl hu
    exact ⟨hall, rfl, .inr ⟨hupdates, d', rfl, hpass⟩⟩
  · rename_i hupdates
    cases h
    exact ⟨hl, rfl, .inl ⟨Bool.eq_false_iff.mpr hupdates, rfl, rfl⟩⟩

theorem finish_total {r : Prepared} (hl : AllSound r.s.semList)
    (hspent : r.updates = true → NoneSpent r.s.semList) : ∃ s' d, r.finish = .ok (s', d) := by
  rw [Prepared.finish]
  split
  · rename_i hupdates
    obtain ⟨l', d, hu⟩ := updateSemaphores_total hl (hspent hupdates)
    rw [hu]
    exact ⟨_, _, rfl⟩
  · exact ⟨_, _, rfl⟩

end Prepared

end Ipc
