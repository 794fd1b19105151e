import Cs111.Ipc.Waiters

namespace Ipc
open TransitionSystem
open HeapList (Fault)

def Deed.performs : Deed → Multiset (OpId × ℤ)
  | .performed op _ _ a => {(op, a)}
  | _ => 0

def Deed.wakes : Deed → Multiset (Place × Waiting)
  | .left p w e => if e = .OK then {(p, w)} else 0
  | _ => 0

def Deed.fails : Deed → Multiset (Place × Waiting)
  | .left p w e => if e = .OK then 0 else {(p, w)}
  | _ => 0

def Deed.answers (n : ℕ) : Deed → Multiset (ℤ × Errno)
  | .answered call who e => if call = n then {(who, e)} else 0
  | _ => 0

def waitsFor (x : Place × Waiting) : OpId × ℤ := (x.2.op, if x.1.zero then 0 else -x.2.val)

section Calls
variable (n : ℕ)

def ofCall : Multiset (OpId × ℤ) →+ Multiset (OpId × ℤ) where
  toFun m := m.filter fun x => x.1.call = n
  map_zero' := rfl
  map_add' m k := Multiset.filter_add _ m k

def opsOf : Multiset (Place × Waiting) →+ Multiset (OpId × ℤ) where
  toFun m := ofCall n (m.map waitsFor)
  map_zero' := rfl
  map_add' m k := by rw [Multiset.map_add, map_add]

theorem ofCall_single (x : OpId × ℤ) : ofCall n {x} = if x.1.call = n then {x} else 0 := by
  exact Multiset.filter_singleton fun x : OpId × ℤ => x.1.call = n

theorem opsOf_single (x : Place × Waiting) :
    opsOf n {x} = if x.2.op.call = n then {waitsFor x} else 0 := by
  change ofCall n (Multiset.map waitsFor {x}) = _
  rw [Multiset.map_singleton, ofCall_single]
  rfl

def Traced.performedBy (st : Traced) : Multiset (OpId × ℤ) := ofCall n (tally Deed.performs st.deeds)

def Traced.asleep (st : Traced) : Multiset (OpId × ℤ) := opsOf n (waiters.total st.s.view.sets)

def Traced.wokenOf (st : Traced) : Multiset (OpId × ℤ) := opsOf n (tally Deed.wakes st.deeds)

def Traced.failedOf (st : Traced) : Multiset (OpId × ℤ) := opsOf n (tally Deed.fails st.deeds)

def Traced.answers (st : Traced) : Multiset (ℤ × Errno) := tally (Deed.answers n) st.deeds

end Calls

def noted {A : Type*} [Zero A] (f g : Deed → A) : Account A := ⟨fun _ _ _ => 0, f, g⟩

section Notes
variable {A : Type*} [AddCancelCommMonoid A] {f g : Deed → A}

structure NotedOnWake (f g : Deed → A) : Prop where
  zero : ∀ w set num, f (.performed w.op set num 0) + f (.left ⟨set, num, true⟩ w .OK) =
    g (.performed w.op set num 0) + g (.left ⟨set, num, true⟩ w .OK)
  increase : ∀ w set num, f (.performed w.op set num (-w.val)) + f (.left ⟨set, num, false⟩ w .OK) =
    g (.performed w.op set num (-w.val)) + g (.left ⟨set, num, false⟩ w .OK)

theorem NotedOnWake.woken (h : NotedOnWake f g) : (noted f g).Keeps Woken := by
  intro set num v v' d hwoken
  obtain ⟨u, dz, dn, rfl, hz, hn⟩ := hwoken
  have hpart : ∀ d', (d' = [] ∨ ∃ w, d' = [.performed w.op set num 0, .left ⟨set, num, true⟩ w .OK] ∨
      d' = [.performed w.op set num (-w.val), .left ⟨set, num, false⟩ w .OK]) →
      (noted f g).Balanced 0 0 d' := by
    rintro d' (rfl | ⟨w, rfl | rfl⟩)
    · rfl
    · simpa [Account.Balanced, noted] using h.zero w set num
    · simpa [Account.Balanced, noted] using h.increase w set num
  refine (hpart dz ?_).append (hpart dn ?_)
  · cases hz with
    | idle => exact .inl rfl
    | woke => exact .inr ⟨_, .inl rfl⟩
  · cases hn with
    | idle => exact .inl rfl
    | woke => exact .inr ⟨_, .inr rfl⟩

structure NotedElsewhere (f g : Deed → A) (call : ℕ) : Prop extends NotedOnWake f g where
  fail : ∀ p w e, e ≠ .OK → f (.left p w e) = g (.left p w e)
  performed : ∀ i set num a, f (.performed ⟨call, i⟩ set num a) = g (.performed ⟨call, i⟩ set num a)
  queued : ∀ p who val i, f (.queued p ⟨who, val, ⟨call, i⟩⟩) = g (.queued p ⟨who, val, ⟨call, i⟩⟩)
  answered : ∀ who e, f (.answered call who e) = 0 ∧ g (.answered call who e) = 0

theorem noted_single {x : Deed} (h : f x = g x) : (noted f g).Balanced 0 0 [x] := by
  simpa [Account.Balanced, noted] using h

theorem noted_removed {pt : ℤ} {p : Place} {ws ws' : List Waiting} {d : List Deed}
    (h : ∀ p w e, e ≠ .OK → f (.left p w e) = g (.left p w e)) (hr : Removed pt p ws ws' d) :
    (noted f g).Balanced 0 0 d := by
  cases hr with
  | none => rfl
  | one => exact noted_single (h _ _ _ (by decide))

theorem noted_dropped (h : ∀ p w e, e ≠ .OK → f (.left p w e) = g (.left p w e)) (p : Place)
    (ws : List Waiting) : (noted f g).Balanced 0 0 (ws.map (.left p · .EIDRM)) := by
  induction ws with
  | nil => rfl
  | cons w ws ih => exact (noted_single (h p w .EIDRM (by decide))).append ih

theorem NotedElsewhere.lawful {call : ℕ} (h : NotedElsewhere f g call) :
    (noted f g).Lawful call where
  removal pt set num v v' d hr := by
    obtain ⟨dz, dn, rfl, -, hz, hn⟩ := hr
    exact (noted_removed h.fail hz).append (noted_removed h.fail hn)
  woken := h.woken
  tried alter who i semOp r set num v v' d ht := by
    cases ht with
    | refused => rfl
    | raised | lowered | found => exact noted_single (h.performed ..)
    | zero | increase => exact noted_single (h.queued ..)
  dropped set num v := (noted_dropped h.fail _ v.zs).append (noted_dropped h.fail _ v.ns)
  fresh _ _ := rfl
  queues _ _ _ _ _ := rfl
  answered := h.answered

theorem noted_total (L : List SetView) : (noted f g).total L = 0 :=
  weigh_zero 0 L fun _ _ _ => weigh_zero 0 _ fun _ _ _ => rfl

theorem noted_tally {L L' : List SetView} {d : List Deed}
    (h : (noted f g).Balanced ((noted f g).total L) ((noted f g).total L') d) :
    tally f d = tally g d := by
  rw [Account.Balanced, noted_total, noted_total, zero_add, zero_add] at h
  exact h

end Notes

section Ledgers
variable {n call : ℕ}

theorem performs_on_wake (n : ℕ) :
    NotedOnWake (fun d => ofCall n d.performs) (fun d => opsOf n d.wakes) where
  zero w set num := by
    simp [Deed.performs, Deed.wakes, ofCall_single, opsOf_single, waitsFor]
  increase w set num := by
    simp [Deed.performs, Deed.wakes, ofCall_single, opsOf_single, waitsFor]

theorem performs_elsewhere (h : call ≠ n) :
    NotedElsewhere (fun d => ofCall n d.performs) (fun d => opsOf n d.wakes) call where
  toNotedOnWake := performs_on_wake n
  fail p w e he := by simp [Deed.performs, Deed.wakes, he]
  performed i set num a := by simp [Deed.performs, Deed.wakes, ofCall_single, h]
  queued p who val i := by simp [Deed.performs, Deed.wakes]
  answered who e := by simp [Deed.performs, Deed.wakes]

theorem queues_on_wake (n : ℕ) : NotedOnWake (fun d => opsOf n d.queues) fun _ => 0 where
  zero w set num := by simp
  increase w set num := by simp

theorem queues_elsewhere (h : call ≠ n) :
    NotedElsewhere (fun d => opsOf n d.queues) (fun _ => 0) call where
  toNotedOnWake := queues_on_wake n
  fail p w e he := by simp
  performed i set num a := by simp
  queued p who val i := by simp [opsOf_single, h]
  answered who e := by simp

theorem answers_on_wake (n : ℕ) : NotedOnWake (Deed.answers n) fun _ => 0 where
  zero w set num := by simp [Deed.answers]
  increase w set num := by simp [Deed.answers]

theorem answers_elsewhere (h : call ≠ n) : NotedElsewhere (Deed.answers n) (fun _ => 0) call where
  toNotedOnWake := answers_on_wake n
  fail p w e he := by simp [Deed.answers]
  performed i set num a := by simp [Deed.answers]
  queued p who val i := by simp [Deed.answers]
  answered who e := by simp [Deed.answers, h]

theorem tally_hom {A B : Type*} [AddCommMonoid A] [AddCommMonoid B] (f : A →+ B) (φ : Deed → A)
    (d : List Deed) : tally (fun x => f (φ x)) d = f (tally φ d) := by
  induction d with
  | nil => exact (map_zero f).symm
  | cons x d ih => rw [tally_cons, tally_cons, map_add, ih]

theorem tally_none {A : Type*} [AddCommMonoid A] (d : List Deed) :
    tally (fun _ => (0 : A)) d = 0 := by
  induction d with
  | nil => rfl
  | cons x d ih => rw [tally_cons, ih, add_zero]

theorem leaves_eq (d : List Deed) :
    tally Deed.leaves d = tally Deed.wakes d + tally Deed.fails d := by
  induction d with
  | nil => rfl
  | cons x d ih =>
    have hone : x.leaves = x.wakes + x.fails := by
      cases x with
      | left p w e =>
        simp only [Deed.leaves, Deed.wakes, Deed.fails]
        split <;> simp
      | _ => rfl
    rw [tally_cons, tally_cons, tally_cons, ih, hone, add_add_add_comm]

end Ledgers

def opsFrom (call : ℕ) : ℕ → List Sembuf → Multiset (OpId × ℤ)
  | _, [] => 0
  | i, o :: os => {(⟨call, i⟩, o.semOp)} + opsFrom call (i + 1) os

def triedOps (d : List Deed) : Multiset (OpId × ℤ) :=
  tally Deed.performs d + (tally Deed.queues d).map waitsFor

section Loop
variable {alter : Bool} {who : ℤ} {call : ℕ} {set : ℤ} {os : List Sembuf} {i k : ℕ}
  {V V' : List SemView} {r : Errno} {d d' : List Deed}

theorem triedOps_append : triedOps (d ++ d') = triedOps d + triedOps d' := by
  rw [triedOps, triedOps, triedOps, tally_append, tally_append, Multiset.map_add,
    add_add_add_comm]

theorem Tried.ops {op : OpId} {num : ℕ} {semOp : ℤ} {v v' : SemView} {q : Round}
    (h : Tried alter who op set num semOp v q v' d) (hq : q ≠ .refused) :
    triedOps d = {(op, semOp)} ∧ (alter = false → semOp = 0) := by
  cases h with
  | refused => exact absurd rfl hq
  | raised _ halter => exact ⟨rfl, fun hno => absurd (hno.symm.trans halter) Bool.false_ne_true⟩
  | lowered _ halter => exact ⟨rfl, fun hno => absurd (hno.symm.trans halter) Bool.false_ne_true⟩
  | found hzero => exact ⟨rfl, fun _ => hzero⟩
  | zero hzero =>
    subst hzero
    exact ⟨rfl, fun _ => rfl⟩
  | increase _ halter =>
    refine ⟨?_, fun hno => absurd (hno.symm.trans halter) Bool.false_ne_true⟩
    simp [triedOps, Deed.performs, waitsFor]

theorem Carried.ops (h : Carried alter who call set os i V r k V' d) :
    r = .OK ∧ triedOps d = opsFrom call i os ∨
      r ≠ .OK ∧ alter = false ∧ ∀ x ∈ triedOps d, x.2 = 0 := by
  induction h with
  | nil => exact .inl ⟨rfl, rfl⟩
  | refused _ htried =>
    cases htried with
    | refused _ halter => exact .inr ⟨by decide, halter, fun x hx => absurd hx (by simp [triedOps])⟩
  | done _ htried _ ih | slept _ htried _ ih =>
    obtain ⟨hone, hzero⟩ := htried.ops (by decide)
    rcases ih with ⟨hr, hrest⟩ | ⟨hr, halter, hrest⟩
    · exact .inl ⟨hr, by rw [triedOps_append, hone, hrest, opsFrom]⟩
    · refine .inr ⟨hr, halter, fun x hx => ?_⟩
      rw [triedOps_append, hone] at hx
      rcases Multiset.mem_add.mp hx with hx | hx
      · rw [Multiset.mem_singleton.mp hx]
        exact hzero halter
      · exact hrest x hx

theorem Carried.own (h : Carried alter who call set os i V r k V' d) :
    (tally Deed.queues d).card = k ∧ tally Deed.wakes d = 0 ∧ tally Deed.fails d = 0 ∧
      tally (Deed.answers call) d = 0 ∧ (∀ x ∈ tally Deed.queues d, x.2.who = who) ∧
      ∀ x ∈ triedOps d, x.1.call = call := by
  induction h with
  | nil => exact ⟨rfl, rfl, rfl, rfl, by simp, by simp [triedOps]⟩
  | refused => exact ⟨rfl, rfl, rfl, rfl, by simp, by simp [triedOps]⟩
  | done _ htried _ ih | slept _ htried _ ih =>
    obtain ⟨hcard, hwakes, hfails, hanswers, hwho, hcall⟩ := ih
    obtain ⟨hone, -⟩ := htried.ops (by decide)
    refine ⟨?_, ?_, ?_, ?_, ?_, ?_⟩
    · rw [tally_append, Multiset.card_add, hcard]
      cases htried <;> simp [Nat.add_comm]
    · rw [tally_append, hwakes, add_zero]
      cases htried <;> rfl
    · rw [tally_append, hfails, add_zero]
      cases htried <;> rfl
    · rw [tally_append, hanswers, add_zero]
      cases htried <;> rfl
    · intro x hx
      rw [tally_append] at hx
      rcases Multiset.mem_add.mp hx with hx | hx
      · cases htried <;> simp at hx <;> rw [hx]
      · exact hwho x hx
    · intro x hx
      rw [triedOps_append, hone] at hx
      rcases Multiset.mem_add.mp hx with hx | hx
      · rw [Multiset.mem_singleton.mp hx]
      · exact hcall x hx

end Loop

structure Entered where
  done : Multiset (OpId × ℤ)
  slept : Multiset (OpId × ℤ)
  result : Errno

structure Entered.Begins (x : Entered) (n : ℕ) (m : SemopCall) : Prop where
  all : x.result = .OK → x.done + x.slept = opsFrom n 0 m.sops
  none : x.result ≠ .OK → ∀ y ∈ x.done + x.slept, y.2 = 0

structure Entered.Explains (x : Entered) (st : Traced) (n : ℕ) (c : Caller) : Prop where
  performed : st.performedBy n = x.done + st.wokenOf n
  waits : st.wokenOf n + st.asleep n + st.failedOf n = x.slept
  answers : st.answers n = if x.result ≠ .OK ∨ x.slept = 0 then {(c.who, x.result)} else 0
  who : ∀ y ∈ tally Deed.queues st.deeds, y.2.op.call = n → y.2.who = c.who
  once : ∃ y ∈ st.log, x.done ≤ ofCall n (tally Deed.performs y.2)

structure Traced.Blank (st : Traced) (n : ℕ) : Prop where
  performed : st.performedBy n = 0
  asleep : st.asleep n = 0
  woken : st.wokenOf n = 0
  failed : st.failedOf n = 0
  answers : st.answers n = 0

section Steps
variable {H : SemHeaders} {st : Traced} {e : SemRequest} {r : Prepared} {s : SemServer}
  {d : List Deed} {n : ℕ}

theorem parts_zero {A : Type*} {x y : Multiset A} (h : x + y = 0) : x = 0 ∧ y = 0 :=
  ⟨Multiset.le_zero.mp (h ▸ Multiset.le_add_right x y),
    Multiset.le_zero.mp (h ▸ Multiset.le_add_left y x)⟩

theorem not_call_of_none {m : Multiset (Place × Waiting)} (h : opsOf n m = 0) {y : Place × Waiting}
    (hy : y ∈ m) : y.2.op.call ≠ n := by
  intro hcall
  have hmem : waitsFor y ∈ opsOf n m :=
    Multiset.mem_filter.mpr ⟨Multiset.mem_map_of_mem _ hy, hcall⟩
  rw [h] at hmem
  exact Multiset.notMem_zero _ hmem

theorem asleep_handled (hst : st.Kept) (hgrows : e.Grows)
    (hprepare : e.prepare H st.s st.log.length = .ok r) (hfinish : r.finish = .ok (s, d)) (n : ℕ) :
    opsOf n (waiters.total s.view.sets) + opsOf n (tally Deed.wakes d) +
      opsOf n (tally Deed.fails d) = st.asleep n + opsOf n (tally Deed.queues d) := by
  have hbalance := (waiters_lawful _).handle hst.sound hgrows hprepare hfinish
  change _ + tally Deed.leaves d = _ + tally Deed.queues d at hbalance
  rw [add_assoc, ← map_add, ← leaves_eq, ← map_add, hbalance, map_add]
  rfl

theorem handled_elsewhere (hst : st.Kept) (hgrows : e.Grows)
    (hprepare : e.prepare H st.s st.log.length = .ok r) (hfinish : r.finish = .ok (s, d))
    (hn : st.log.length ≠ n) :
    ofCall n (tally Deed.performs d) = opsOf n (tally Deed.wakes d) ∧
      opsOf n (tally Deed.queues d) = 0 ∧ tally (Deed.answers n) d = 0 := by
  have hperforms := noted_tally
    ((performs_elsewhere hn).lawful.handle hst.sound hgrows hprepare hfinish)
  have hqueues := noted_tally ((queues_elsewhere hn).lawful.handle hst.sound hgrows hprepare hfinish)
  have hanswers := noted_tally
    ((answers_elsewhere hn).lawful.handle hst.sound hgrows hprepare hfinish)
  rw [tally_hom, tally_hom] at hperforms
  rw [tally_hom, tally_none] at hqueues
  rw [tally_none] at hanswers
  exact ⟨hperforms, hqueues, hanswers⟩

theorem Entered.Explains.handled {x : Entered} {c : Caller} (hx : x.Explains st n c)
    (hst : st.Kept) (hgrows : e.Grows) (hprepare : e.prepare H st.s st.log.length = .ok r)
    (hfinish : r.finish = .ok (s, d)) (hn : st.log.length ≠ n) :
    x.Explains ⟨s, (e, d) :: st.log⟩ n c := by
  obtain ⟨hperforms, hqueues, hanswers⟩ := handled_elsewhere hst hgrows hprepare hfinish hn
  have hasleep := asleep_handled hst hgrows hprepare hfinish n
  rw [hqueues, add_zero] at hasleep
  refine ⟨?_, ?_, ?_, ?_, ?_⟩
  · change ofCall n (tally Deed.performs (d ++ st.deeds)) =
      x.done + opsOf n (tally Deed.wakes (d ++ st.deeds))
    rw [tally_append, tally_append, map_add, map_add, hperforms]
    have hold := hx.performed
    rw [Traced.performedBy, Traced.wokenOf] at hold
    rw [hold, add_left_comm]
  · change opsOf n (tally Deed.wakes (d ++ st.deeds)) + opsOf n (waiters.total s.view.sets) +
      opsOf n (tally Deed.fails (d ++ st.deeds)) = x.slept
    have hold := hx.waits
    rw [Traced.wokenOf, Traced.failedOf] at hold
    rw [tally_append, tally_append, map_add, map_add, ← hold, ← hasleep]
    abel
  · change tally (Deed.answers n) (d ++ st.deeds) = _
    rw [tally_append, hanswers, zero_add]
    exact hx.answers
  · intro y hy hcall
    change y ∈ tally Deed.queues (d ++ st.deeds) at hy
    rw [tally_append] at hy
    rcases Multiset.mem_add.mp hy with hy | hy
    · exact absurd hcall (not_call_of_none hqueues hy)
    · exact hx.who y hy hcall
  · obtain ⟨y, hy, hle⟩ := hx.once
    exact ⟨y, List.mem_cons_of_mem _ hy, hle⟩

theorem Traced.Blank.handled (hblank : st.Blank n) (hst : st.Kept) (hgrows : e.Grows)
    (hprepare : e.prepare H st.s st.log.length = .ok r) (hfinish : r.finish = .ok (s, d))
    (hn : st.log.length ≠ n) : Traced.Blank ⟨s, (e, d) :: st.log⟩ n := by
  obtain ⟨hperforms, hqueues, hanswers⟩ := handled_elsewhere hst hgrows hprepare hfinish hn
  have hasleep := asleep_handled hst hgrows hprepare hfinish n
  rw [hqueues, hblank.asleep, add_zero] at hasleep
  obtain ⟨hleft, hfails⟩ := parts_zero hasleep
  obtain ⟨hwaiting, hwakes⟩ := parts_zero hleft
  refine ⟨?_, hwaiting, ?_, ?_, ?_⟩
  · change ofCall n (tally Deed.performs (d ++ st.deeds)) = 0
    rw [tally_append, map_add, hperforms, hwakes, zero_add]
    exact hblank.performed
  · change opsOf n (tally Deed.wakes (d ++ st.deeds)) = 0
    rw [tally_append, map_add, hwakes, zero_add]
    exact hblank.woken
  · change opsOf n (tally Deed.fails (d ++ st.deeds)) = 0
    rw [tally_append, map_add, hfails, zero_add]
    exact hblank.failed
  · change tally (Deed.answers n) (d ++ st.deeds) = 0
    rw [tally_append, hanswers, zero_add]
    exact hblank.answers

def Entered.Of (x : Entered) (H : SemHeaders) (s : SemServer) (c : Caller) (call : ℕ)
    (m : SemopCall) : Prop :=
  x.slept = 0 ∧ x.result ≠ .OK ∨ ∃ i sem V d, semFindId s m.id = some (i, sem) ∧
    refuseSemop H sem c m = none ∧ Carried (checkPerm sem.perm c 0o222) c.who call sem.id m.sops 0
      (viewsOf sem.sems) x.result x.slept.card V d

theorem ofCall_own {call : ℕ} {m : Multiset (OpId × ℤ)} (h : ∀ x ∈ m, x.1.call = call) :
    ofCall call m = m := Multiset.filter_eq_self.mpr h

theorem answer_notes (c : Caller) (call : ℕ) (e : Errno) (k : ℕ) :
    tally Deed.performs (answer c call e k) = 0 ∧ tally Deed.queues (answer c call e k) = 0 ∧
      tally Deed.wakes (answer c call e k) = 0 ∧ tally Deed.fails (answer c call e k) = 0 ∧
      tally (Deed.answers call) (answer c call e k) =
        if e ≠ .OK ∨ k = 0 then {(c.who, e)} else 0 := by
  rw [answer]
  split <;> simp [Deed.performs, Deed.queues, Deed.wakes, Deed.fails, Deed.answers]

structure Entered.Notes (x : Entered) (call : ℕ) (c : Caller) (d : List Deed) : Prop where
  performs : ofCall call (tally Deed.performs d) = x.done
  queues : opsOf call (tally Deed.queues d) = x.slept
  wakes : tally Deed.wakes d = 0
  fails : tally Deed.fails d = 0
  answers : tally (Deed.answers call) d =
    if x.result ≠ .OK ∨ x.slept = 0 then {(c.who, x.result)} else 0
  who : ∀ y ∈ tally Deed.queues d, y.2.who = c.who

theorem prep_entered {c : Caller} {m : SemopCall} {call : ℕ} {s : SemServer} {W : ServerView}
    {b : Bool} (h : Prep H s call (.semop c m) W d b) :
    ∃ x : Entered, x.Begins call m ∧ x.Of H s c call m ∧ x.Notes call c d := by
  cases h with
  | unchanged hother => exact absurd rfl (hother c m)
  | @refused _ _ e he =>
    refine ⟨⟨0, 0, e⟩, ⟨fun hok => absurd hok he, fun _ y hy => absurd hy (by simp)⟩,
      .inl ⟨rfl, he⟩, rfl, rfl, rfl, rfl, ?_, by simp⟩
    simp [Deed.answers]
  | @carried _ _ i sem e k V d hfind hrefuse hcarried =>
    obtain ⟨hcard, hwakes, hfails, hanswers, hwho, hcall⟩ := hcarried.own
    obtain ⟨hp, hq, hw, hf, ha⟩ := answer_notes c call e k
    have hslept : (opsOf call (tally Deed.queues d)).card = k ∧
        opsOf call (tally Deed.queues d) = (tally Deed.queues d).map waitsFor := by
      have hsame : opsOf call (tally Deed.queues d) = (tally Deed.queues d).map waitsFor :=
        ofCall_own fun x hx => hcall x (Multiset.mem_add.mpr (.inr hx))
      exact ⟨by rw [hsame, Multiset.card_map, hcard], hsame⟩
    have hdone : ofCall call (tally Deed.performs d) = tally Deed.performs d :=
      ofCall_own fun x hx => hcall x (Multiset.mem_add.mpr (.inl hx))
    have hboth : ofCall call (tally Deed.performs d) + opsOf call (tally Deed.queues d) =
        triedOps d := by rw [hdone, hslept.2, triedOps]
    refine ⟨⟨ofCall call (tally Deed.performs d), opsOf call (tally Deed.queues d), e⟩, ⟨?_, ?_⟩,
      .inr ⟨i, sem, V, d, hfind, hrefuse, ?_⟩, ?_, ?_, ?_, ?_, ?_, ?_⟩
    · intro hok
      rcases hcarried.ops with ⟨-, hall⟩ | ⟨hno, -⟩
      · exact hboth.trans hall
      · exact absurd hok hno
    · intro hno
      rcases hcarried.ops with ⟨hok, -⟩ | ⟨-, -, hzero⟩
      · exact absurd hok hno
      · exact fun y hy => hzero y (hboth ▸ hy)
    · rw [hslept.1]
      exact hcarried
    · rw [tally_append, hp, add_zero]
    · rw [tally_append, hq, add_zero]
    · rw [tally_append, hw, hwakes, add_zero]
    · rw [tally_append, hf, hfails, add_zero]
    · rw [tally_append, ha, hanswers, zero_add, ← hslept.1]
      simp only [Multiset.card_eq_zero]
    · rw [tally_append, hq, add_zero]
      exact hwho

theorem finish_deeds (hl : AllSound r.s.semList) (h : r.finish = .ok (s, d)) :
    ∃ d' L L', d = r.deeds ++ d' ∧ (d' = [] ∨ Pass Woken L L' d') := by
  obtain ⟨-, -, ⟨-, -, rfl⟩ | ⟨-, d', rfl, hpass⟩⟩ := finish_refines hl h
  · exact ⟨[], [], [], by rw [List.append_nil], .inl rfl⟩
  · exact ⟨d', _, _, rfl, .inr hpass⟩

theorem NotedOnWake.finished {A : Type*} [AddCancelCommMonoid A] {f g : Deed → A}
    (h : NotedOnWake f g) {L L' : List SetView} (hd : d = [] ∨ Pass Woken L L' d) :
    tally f d = tally g d := by
  rcases hd with rfl | hpass
  · rfl
  · exact noted_tally (h.woken.pass hpass)

theorem queued_of (hst : st.Kept) (n : ℕ) : opsOf n (tally Deed.queues st.deeds) =
    st.asleep n + (st.wokenOf n + st.failedOf n) := by
  rw [← hst.balanced, leaves_eq, map_add, map_add]
  rfl

theorem Traced.Blank.queues (hblank : st.Blank n) (hst : st.Kept) :
    opsOf n (tally Deed.queues st.deeds) = 0 := by
  rw [queued_of hst, hblank.asleep, hblank.woken, hblank.failed]
  rfl

theorem Traced.Blank.entered {c : Caller} {m : SemopCall} (hblank : st.Blank st.log.length)
    (hst : st.Kept) (hgrows : ∀ i, m.grows i = true)
    (hprepare : (SemRequest.semop c m).prepare H st.s st.log.length = .ok r)
    (hfinish : r.finish = .ok (s, d)) :
    ∃ x : Entered, x.Begins st.log.length m ∧ x.Of H st.s c st.log.length m ∧
      x.Explains ⟨s, (.semop c m, d) :: st.log⟩ st.log.length c := by
  obtain ⟨hprep, hsound⟩ := prepare_refines (e := .semop c m) hst.sound hgrows hprepare
  obtain ⟨x, hbegins, hof, hnotes⟩ := prep_entered hprep
  have hasleep := asleep_handled (e := .semop c m) hst hgrows hprepare hfinish st.log.length
  obtain ⟨d', L, L', rfl, hd'⟩ := finish_deeds hsound hfinish
  have hperforms := (performs_on_wake st.log.length).finished hd'
  have hqueues := (queues_on_wake st.log.length).finished hd'
  have hanswers := (answers_on_wake st.log.length).finished hd'
  rw [tally_hom, tally_hom] at hperforms
  rw [tally_hom, tally_none] at hqueues
  rw [tally_none] at hanswers
  rw [hblank.asleep, zero_add, tally_append, tally_append, tally_append, hnotes.wakes, hnotes.fails,
    zero_add, zero_add, map_add, hnotes.queues, hqueues, add_zero] at hasleep
  refine ⟨x, hbegins, hof, ?_, ?_, ?_, ?_, ?_⟩
  · change ofCall _ (tally Deed.performs (r.deeds ++ d' ++ st.deeds)) =
      x.done + opsOf _ (tally Deed.wakes (r.deeds ++ d' ++ st.deeds))
    have hold := hblank.performed
    have hold' := hblank.woken
    rw [Traced.performedBy] at hold
    rw [Traced.wokenOf] at hold'
    rw [tally_append, tally_append, tally_append, tally_append, hnotes.wakes, zero_add]
    simp only [map_add, hold, hold', add_zero, hnotes.performs, hperforms]
  · change opsOf _ (tally Deed.wakes (r.deeds ++ d' ++ st.deeds)) + opsOf _ (waiters.total s.view.sets) +
      opsOf _ (tally Deed.fails (r.deeds ++ d' ++ st.deeds)) = x.slept
    have hold := hblank.woken
    have hold' := hblank.failed
    rw [Traced.wokenOf] at hold
    rw [Traced.failedOf] at hold'
    rw [tally_append, tally_append, tally_append, tally_append, hnotes.wakes, hnotes.fails, zero_add,
      zero_add, map_add, map_add, hold, hold', add_zero, add_zero, ← hasleep]
    abel
  · change tally (Deed.answers _) (r.deeds ++ d' ++ st.deeds) = _
    rw [tally_append, tally_append, hanswers, add_zero, hnotes.answers]
    have hold := hblank.answers
    rw [Traced.answers] at hold
    rw [hold, add_zero]
  · intro y hy hcall
    change y ∈ tally Deed.queues (r.deeds ++ d' ++ st.deeds) at hy
    rw [tally_append, tally_append] at hy
    rcases Multiset.mem_add.mp hy with hy | hy
    · rcases Multiset.mem_add.mp hy with hy | hy
      · exact hnotes.who y hy
      · exact absurd hcall (not_call_of_none hqueues hy)
    · exact absurd hcall (not_call_of_none (hblank.queues hst) hy)
  · refine ⟨_, List.mem_cons_self, ?_⟩
    dsimp only
    rw [tally_append, map_add, hnotes.performs]
    exact Multiset.le_add_right ..

end Steps

section Runs
variable {H : SemHeaders} {st : Traced} {n : ℕ}

def Traced.Called (st : Traced) (n : ℕ) (c : Caller) (m : SemopCall) : Prop :=
  ∃ d, st.log.reverse[n]? = some (.semop c m, d)

theorem blank_initially (h : (semSystem H).initial st) (n : ℕ) : st.Blank n := by
  obtain ⟨hnone, hlog⟩ := h
  have hdeeds : st.deeds = [] := by rw [Traced.deeds, hlog, List.flatMap_nil]
  have hview : st.s.view.sets = [] := by rw [SemServer.view, hnone, List.map_nil]
  refine ⟨?_, ?_, ?_, ?_, ?_⟩
  · rw [Traced.performedBy, hdeeds]
    rfl
  · rw [Traced.asleep, hview]
    rfl
  · rw [Traced.wokenOf, hdeeds]
    rfl
  · rw [Traced.failedOf, hdeeds]
    rfl
  · rw [Traced.answers, hdeeds]
    rfl

structure Traced.Explained (st : Traced) (Φ : SemopCall → Entered → Prop) : Prop where
  kept : st.Kept
  blank : ∀ n, st.log.length ≤ n → st.Blank n
  calls : ∀ n c m, st.Called n c m → ∃ x : Entered, x.Begins n m ∧ Φ m x ∧ x.Explains st n c

theorem Traced.Explained.handled {Φ : SemopCall → Entered → Prop} {e : SemRequest} {st' : Traced}
    (hst : st.Explained Φ) (hgrows : e.Grows)
    (hΦ : ∀ c m x, e = .semop c m → x.Of H st.s c st.log.length m → Φ m x)
    (h : st.handled H e = .ok st') : st'.Explained Φ := by
  have hkept := hst.kept.handled hgrows h
  obtain ⟨r, s, d, hprepare, hfinish, rfl⟩ := handled_cases h
  refine ⟨hkept, fun n hn => ?_, fun n c m hcall => ?_⟩
  · have hlt : st.log.length < n := hn
    exact (hst.blank n (Nat.le_of_lt hlt)).handled hst.kept hgrows hprepare hfinish (by omega)
  · obtain ⟨d', hd'⟩ := hcall
    rw [List.reverse_cons, List.getElem?_append, List.length_reverse] at hd'
    split at hd'
    · rename_i hlt
      obtain ⟨x, hbegins, hx, hexplains⟩ := hst.calls n c m ⟨d', hd'⟩
      exact ⟨x, hbegins, hx,
        hexplains.handled hst.kept hgrows hprepare hfinish (Nat.ne_of_gt hlt)⟩
    · rename_i hge
      have hlast : n - st.log.length = 0 := by
        by_contra hne
        rw [List.getElem?_eq_none (by rw [List.length_singleton]; omega)] at hd'
        cases hd'
      obtain rfl : n = st.log.length := by omega
      rw [hlast] at hd'
      cases hd'
      obtain ⟨x, hbegins, hof, hexplains⟩ :=
        (hst.blank _ le_rfl).entered hst.kept hgrows hprepare hfinish
      exact ⟨x, hbegins, hΦ c m x rfl hof, hexplains⟩

theorem calls_explained {Φ : SemopCall → Entered → Prop}
    {ok : List (Traced × SemRequest) → Traced → SemRequest → Prop}
    {past : List (Traced × SemRequest)} (h : Run (semSystem H) ok past st)
    (hgrows : ∀ past st e, ok past st e → e.Grows)
    (hΦ : ∀ past st c m x, ok past st (.semop c m) → x.Of H st.s c st.log.length m → Φ m x) :
    st.Explained Φ := by
  refine h.invariant (P := fun st => st.Explained Φ) ?_ ?_
  · intro st hinit
    refine ⟨kept_initially hinit, fun n _ => blank_initially hinit n, fun n c m hcall => ?_⟩
    obtain ⟨d, hd⟩ := hcall
    rw [hinit.2] at hd
    cases hd
  · intro past st e st' hst he hstep
    refine hst.handled (hgrows _ _ _ he) (fun c m x hcall hof => ?_) hstep
    subst hcall
    exact hΦ past st c m x he hof

def Deed.replies (n : ℕ) : Deed → Multiset (ℤ × Errno)
  | .answered call who e => if call = n then {(who, e)} else 0
  | .left _ w e => if w.op.call = n then {(w.who, e)} else 0
  | _ => 0

def Traced.replies (st : Traced) (n : ℕ) : Multiset (ℤ × Errno) := tally (Deed.replies n) st.deeds

theorem replies_card (n : ℕ) (d : List Deed) : (tally (Deed.replies n) d).card =
    (tally (Deed.answers n) d).card + (opsOf n (tally Deed.wakes d)).card +
      (opsOf n (tally Deed.fails d)).card := by
  induction d with
  | nil => rfl
  | cons x d ih =>
    have hone : (x.replies n).card = (x.answers n).card + (opsOf n x.wakes).card +
        (opsOf n x.fails).card := by
      cases x with
      | performed | queued => rfl
      | answered call who e =>
        simp [Deed.replies, Deed.answers, Deed.wakes, Deed.fails]
      | left p w e =>
        simp only [Deed.replies, Deed.answers, Deed.wakes, Deed.fails]
        split_ifs <;> simp [opsOf_single, *]
    simp only [tally_cons, map_add, Multiset.card_add, hone, ih]
    omega

theorem mem_replies {d : List Deed} {y : ℤ × Errno} (h : y ∈ tally (Deed.replies n) d) :
    y ∈ tally (Deed.answers n) d ∨ ∃ x ∈ tally Deed.leaves d, x.2.op.call = n ∧ y.1 = x.2.who ∧
      (y.2 = .OK → x ∈ tally Deed.wakes d) ∧ (y.2 ≠ .OK → x ∈ tally Deed.fails d) := by
  induction d with
  | nil => exact absurd h (by simp)
  | cons x d ih =>
    rw [tally_cons] at h
    rw [tally_cons, tally_cons, tally_cons, tally_cons]
    rcases Multiset.mem_add.mp h with h | h
    · cases x with
      | performed | queued => exact absurd h (by simp [Deed.replies])
      | answered call who e => exact .inl (Multiset.mem_add.mpr (.inl h))
      | left p w e =>
        simp only [Deed.replies] at h
        split at h
        · rename_i hcall
          rw [Multiset.mem_singleton.mp h]
          refine .inr ⟨(p, w), ?_, hcall, rfl, fun hok => ?_, fun hno => ?_⟩
          · exact Multiset.mem_add.mpr (.inl (Multiset.mem_singleton_self _))
          · dsimp only at hok
            simp [Deed.wakes, hok]
          · dsimp only at hno
            simp [Deed.fails, hno]
        · exact absurd h (Multiset.notMem_zero _)
    · rcases ih h with h | ⟨x', hx', hcall, hwho, hok, hno⟩
      · exact .inl (Multiset.mem_add.mpr (.inr h))
      · exact .inr ⟨x', Multiset.mem_add.mpr (.inr hx'), hcall, hwho,
          fun he => Multiset.mem_add.mpr (.inr (hok he)),
          fun he => Multiset.mem_add.mpr (.inr (hno he))⟩

end Runs

def Steady (alter : Bool) (V : List SemView) (os : List Sembuf) : Prop :=
  ∀ o ∈ os, (o.semOp = 0 ∨ alter = true) ∧
    ∀ u, V[o.semNum.toNat]? = some u → ¬ u.waits o.semOp

def SleepsOnce (alter : Bool) (V : List SemView) : List Sembuf → Prop
  | [] => True
  | o :: os => o.semOp = 0 ∨ alter = true → ∀ v, V[o.semNum.toNat]? = some v →
      (v.waits o.semOp → Steady alter V os) ∧ SleepsOnce alter V os

def SemRequest.SleepsOnce (H : SemHeaders) (s : SemServer) (e : SemRequest) : Prop :=
  e.Grows ∧ ∀ c m i sem, e = .semop c m → semFindId s m.id = some (i, sem) →
    refuseSemop H sem c m = none →
    Ipc.SleepsOnce (checkPerm sem.perm c 0o222) (viewsOf sem.sems) m.sops

section Once
variable {alter : Bool} {who : ℤ} {call : ℕ} {set : ℤ} {os : List Sembuf} {i k : ℕ}
  {V V' : List SemView} {r : Errno} {d : List Deed}

theorem Tried.ends {op : OpId} {num : ℕ} {semOp : ℤ} {v v' : SemView} {q : Round}
    (h : Tried alter who op set num semOp v q v' d) :
    (q = .refused → ¬ (semOp = 0 ∨ alter = true)) ∧
      (q ≠ .refused → (semOp = 0 ∨ alter = true) ∧ (v.waits semOp ↔ q = .slept)) := by
  cases h with
  | refused hne halter => simp [hne, halter]
  | raised hpos halter =>
    refine ⟨nofun, fun _ => ⟨.inr halter, fun hwaits => ?_, nofun⟩⟩
    rcases hwaits with ⟨h0, -⟩ | ⟨h0, -⟩ <;> omega
  | lowered hneg halter hle =>
    refine ⟨nofun, fun _ => ⟨.inr halter, fun hwaits => ?_, nofun⟩⟩
    rcases hwaits with ⟨h0, -⟩ | ⟨-, hlt⟩ <;> omega
  | found hzero hval =>
    refine ⟨nofun, fun _ => ⟨.inl hzero, fun hwaits => ?_, nofun⟩⟩
    rcases hwaits with ⟨-, hne⟩ | ⟨h0, -⟩
    · exact absurd hval hne
    · omega
  | zero hzero hval =>
    exact ⟨nofun, fun _ => ⟨.inl hzero, fun _ => rfl, fun _ => .inl ⟨hzero, hval⟩⟩⟩
  | increase hneg halter hlt =>
    exact ⟨nofun, fun _ => ⟨.inr halter, fun _ => rfl, fun _ => .inr ⟨hneg, hlt⟩⟩⟩

theorem steady_set (h : Steady alter V os) {num : ℕ} (hnum : ∀ o ∈ os, num ≠ o.semNum.toNat)
    (v : SemView) : Steady alter (V.set num v) os := by
  intro o ho
  obtain ⟨hmay, hwaits⟩ := h o ho
  refine ⟨hmay, fun u hu => hwaits u ?_⟩
  rwa [List.getElem?_set_ne (hnum o ho)] at hu

theorem sleepsOnce_set (h : SleepsOnce alter V os) {num : ℕ}
    (hnum : ∀ o ∈ os, num ≠ o.semNum.toNat) (v : SemView) :
    SleepsOnce alter (V.set num v) os := by
  induction os with
  | nil => trivial
  | cons o os ih =>
    obtain ⟨hfirst, hrest⟩ := List.forall_mem_cons.mp hnum
    intro hmay u hu
    rw [List.getElem?_set_ne hfirst] at hu
    obtain ⟨hwaits, hnext⟩ := h hmay u hu
    exact ⟨fun hw => steady_set (hwaits hw) hrest v, ih hnext hrest⟩

theorem Carried.steady (h : Carried alter who call set os i V r k V' d)
    (hnums : os.Pairwise fun o o' => o.semNum.toNat ≠ o'.semNum.toNat)
    (hsteady : Steady alter V os) : r = .OK ∧ k = 0 := by
  induction h with
  | nil => exact ⟨rfl, rfl⟩
  | refused _ htried => exact absurd (hsteady _ List.mem_cons_self).1 (htried.ends.1 rfl)
  | done _ _ _ ih =>
    obtain ⟨hfirst, hnums⟩ := List.pairwise_cons.mp hnums
    exact ih hnums (steady_set (fun o ho => hsteady o (List.mem_cons_of_mem _ ho)) hfirst _)
  | slept hv htried =>
    obtain ⟨-, hwaits⟩ := htried.ends.2 (by decide)
    exact absurd (hwaits.mpr rfl) ((hsteady _ List.mem_cons_self).2 _ hv)

theorem Carried.sleepsOnce (h : Carried alter who call set os i V r k V' d)
    (hnums : os.Pairwise fun o o' => o.semNum.toNat ≠ o'.semNum.toNat)
    (honce : SleepsOnce alter V os) : k ≤ 1 ∧ (k ≠ 0 → r = .OK) := by
  induction h with
  | nil => exact ⟨Nat.zero_le _, fun hne => absurd rfl hne⟩
  | refused => exact ⟨Nat.zero_le _, fun hne => absurd rfl hne⟩
  | done hv htried _ ih =>
    obtain ⟨hfirst, hnums⟩ := List.pairwise_cons.mp hnums
    obtain ⟨hmay, -⟩ := htried.ends.2 (by decide)
    exact ih hnums (sleepsOnce_set (honce hmay _ hv).2 hfirst _)
  | slept hv htried hrest ih =>
    obtain ⟨hfirst, hnums⟩ := List.pairwise_cons.mp hnums
    obtain ⟨hmay, hwaits⟩ := htried.ends.2 (by decide)
    obtain ⟨hr, hk⟩ := hrest.steady hnums
      (steady_set ((honce hmay _ hv).1 (hwaits.mpr rfl)) hfirst _)
    exact ⟨by omega, fun _ => hr⟩

end Once

section Answered
variable {H : SemHeaders} {st : Traced} {n : ℕ}

theorem Entered.Of.sleepsOnce {x : Entered} {c : Caller} {m : SemopCall} {s : SemServer}
    (h : x.Of H s c n m) (honce : (SemRequest.semop c m).SleepsOnce H s) :
    x.slept.card ≤ 1 ∧ (x.slept ≠ 0 → x.result = .OK) := by
  rcases h with ⟨hnone, -⟩ | ⟨i, sem, V, d, hfind, hrefuse, hcarried⟩
  · rw [hnone]
    exact ⟨Nat.zero_le _, fun hne => absurd rfl hne⟩
  · obtain ⟨hle, hok⟩ := hcarried.sleepsOnce (refuseSemop_none hrefuse).2
      (honce.2 c m i sem rfl hfind hrefuse)
    exact ⟨hle, fun hne => hok fun hzero => hne (Multiset.card_eq_zero.mp hzero)⟩

theorem semop_answered_once {past : List (Traced × SemRequest)}
    (h : Run (semSystem H) (fun _ st e => e.SleepsOnce H st.s) past st) {c : Caller}
    {m : SemopCall} (hcall : st.Called n c m) :
    (st.replies n).card + (st.asleep n).card = 1 ∧ ∀ y ∈ st.replies n, y.1 = c.who ∧
      (y.2 = .OK → st.performedBy n = opsFrom n 0 m.sops) := by
  have hst := calls_explained (Φ := fun _ x => x.slept.card ≤ 1 ∧ (x.slept ≠ 0 → x.result = .OK)) h
    (fun _ _ _ he => he.1) (fun _ _ _ _ _ he hof => hof.sleepsOnce he)
  obtain ⟨x, hbegins, ⟨hcard, hresult⟩, hx⟩ := hst.calls n c m hcall
  have hcount : (st.replies n).card =
      (st.answers n).card + (st.wokenOf n).card + (st.failedOf n).card := replies_card n st.deeds
  have hwaits : (st.wokenOf n).card + (st.asleep n).card + (st.failedOf n).card = x.slept.card := by
    rw [← hx.waits, Multiset.card_add, Multiset.card_add]
  refine ⟨?_, fun y hy => ?_⟩
  · by_cases hslept : x.slept = 0
    · rw [hx.answers, if_pos (.inr hslept), Multiset.card_singleton] at hcount
      rw [hslept, Multiset.card_zero] at hwaits
      omega
    · rw [hx.answers, if_neg (by simp [hresult hslept, hslept]), Multiset.card_zero] at hcount
      have hpos := Multiset.card_pos.mpr hslept
      omega
  · rcases mem_replies hy with hanswer | ⟨z, hz, hcalled, hwho, hwoken, -⟩
    · change y ∈ st.answers n at hanswer
      rw [hx.answers] at hanswer
      split at hanswer
      · rename_i hat
        rw [Multiset.mem_singleton.mp hanswer]
        refine ⟨rfl, fun hok => ?_⟩
        dsimp only at hok
        have hslept : x.slept = 0 := hat.resolve_left fun hno => hno hok
        have hnone := hx.waits
        rw [hslept] at hnone
        rw [hx.performed, (parts_zero (parts_zero hnone).1).1, ← hbegins.all hok, hslept]
      · exact absurd hanswer (Multiset.notMem_zero y)
    · have hqueued : z ∈ tally Deed.queues st.deeds := by
        rw [← hst.kept.balanced]
        exact Multiset.mem_add.mpr (.inr hz)
      refine ⟨hwho.trans (hx.who z hqueued hcalled), fun hok => ?_⟩
      have hmem : waitsFor z ∈ st.wokenOf n :=
        Multiset.mem_filter.mpr ⟨Multiset.mem_map_of_mem _ (hwoken hok), hcalled⟩
      have hpos := Multiset.card_pos_iff_exists_mem.mpr ⟨_, hmem⟩
      have hslept : x.slept ≠ 0 := by
        intro hzero
        rw [hzero, Multiset.card_zero] at hwaits
        omega
      have hasleep : st.asleep n = 0 := Multiset.card_eq_zero.mp (by omega)
      have hfailed : st.failedOf n = 0 := Multiset.card_eq_zero.mp (by omega)
      have hall := hx.waits
      rw [hasleep, hfailed, add_zero, add_zero] at hall
      rw [hx.performed, hall, hbegins.all (hresult hslept)]

end Answered

theorem semop_answered_once_sleeper : ∃ st c m, ipcStart.after usualSemHeaders
    [semgetOf 1, semopOf 2 [⟨0, -1, false⟩]] = .ok st ∧ st.Called 1 c m ∧
      (st.replies 1).card + (st.asleep 1).card = 1 := by
  obtain ⟨st, hget⟩ : ∃ st, ipcStart.handled usualSemHeaders (semgetOf 1) = .ok st := ⟨_, rfl⟩
  obtain ⟨st', hop⟩ : ∃ st',
      st.handled usualSemHeaders (semopOf 2 [⟨0, -1, false⟩]) = .ok st' := by
    cases hget
    exact ⟨_, rfl⟩
  have hnew : (semgetOf 1).SleepsOnce usualSemHeaders ipcStart.s :=
    ⟨trivial, fun c m i sem he => by cases he⟩
  have honce : (semopOf 2 [⟨0, -1, false⟩]).SleepsOnce usualSemHeaders st.s := by
    cases hget
    refine ⟨fun _ => rfl, fun c m i sem he _ _ => ?_⟩
    cases he
    exact fun _ v _ => ⟨fun _ o ho => absurd ho List.not_mem_nil, trivial⟩
  have hstart : Run (semSystem usualSemHeaders)
      (fun _ st e => e.SleepsOnce usualSemHeaders st.s) [] ipcStart := .start ⟨rfl, rfl⟩
  have hcalled : st'.Called 1 (superuser 2)
      ⟨0x1234, [⟨0, -1, false⟩], true, true, fun _ => true⟩ := by
    cases hget
    cases hop
    exact ⟨_, rfl⟩
  refine ⟨st', _, _, ?_, hcalled,
    (semop_answered_once ((hstart.next hnew hget).next honce hop) hcalled).1⟩
  simp only [Traced.after, hget, hop, bind, Except.bind]

theorem semop_answered_twice : ∃ past st c m,
    Run (semSystem usualSemHeaders) (fun _ _ e => e.Grows) past st ∧ st.Called 1 c m ∧
      (st.replies 1).card = 2 := by
  obtain ⟨st, hafter, hcalled, hreplies⟩ : ∃ st, ipcStart.after usualSemHeaders
      [semgetOf 2, semopOf 2 [⟨0, -1, false⟩, ⟨1, -1, false⟩], setvalOf 0 1, setvalOf 1 1] =
        .ok st ∧ st.Called 1 (superuser 2)
          ⟨0x1234, [⟨0, -1, false⟩, ⟨1, -1, false⟩], true, true, fun _ => true⟩ ∧
        (st.replies 1).card = 2 := ⟨_, rfl, ⟨_, rfl⟩, rfl⟩
  have hstart : Run (semSystem usualSemHeaders) (fun _ _ e => e.Grows) [] ipcStart :=
    .start ⟨rfl, rfl⟩
  obtain ⟨past, hrun⟩ := run_after hstart
    (by simp [SemRequest.Grows, semgetOf, setvalOf, semopOf]) hafter
  exact ⟨past, st, _, _, hrun, hcalled, hreplies⟩

end Ipc
