import Cs111.Ipc.Replies
import Mathlib.Data.ZMod.Basic

namespace Ipc
open TransitionSystem
open HeapList (Fault)

def Deed.change (id : ℤ) (num : ℕ) : Deed → ZMod (2 ^ 16)
  | .performed _ set k a => if set = id ∧ k = num then (a : ZMod (2 ^ 16)) else 0
  | _ => 0

def valueAccount (id : ℤ) (num : ℕ) : Account (ZMod (2 ^ 16)) where
  weight set k v := if set = id ∧ k = num then (v.val : ZMod (2 ^ 16)) else 0
  out := fun _ => 0
  into := Deed.change id num

section Values
variable {id : ℤ} {num : ℕ}

theorem value_balanced {set : ℤ} {k : ℕ} {v v' : SemView} {d : List Deed} {a : ℤ}
    (op : OpId) (hd : tally (Deed.change id num) d = (Deed.performed op set k a).change id num)
    (hval : (v'.val : ZMod (2 ^ 16)) = v.val + a) :
    (valueAccount id num).Balanced ((valueAccount id num).weight set k v)
      ((valueAccount id num).weight set k v') d := by
  change _ + tally (fun _ => 0) d = _ + tally (Deed.change id num) d
  rw [tally_none, add_zero, hd]
  simp only [valueAccount, Deed.change]
  split
  · exact hval
  · rw [add_zero]

theorem value_same {set : ℤ} {k : ℕ} {v v' : SemView} {d : List Deed}
    (hd : tally (Deed.change id num) d = 0) (hval : v'.val = v.val) :
    (valueAccount id num).Balanced ((valueAccount id num).weight set k v)
      ((valueAccount id num).weight set k v') d := by
  change _ + tally (fun _ => 0) d = _ + tally (Deed.change id num) d
  rw [tally_none, add_zero, hd, add_zero]
  simp only [valueAccount, hval]

theorem lowered_cast {val : ℕ} {b : ℤ} (h : b ≤ val) :
    ((((val : ℤ) - b).toNat : ℕ) : ZMod (2 ^ 16)) = val + (-b : ℤ) := by
  have hcast : ((((val : ℤ) - b).toNat : ℕ) : ℤ) = (val : ℤ) + -b := by omega
  have hz := congrArg (Int.cast : ℤ → ZMod (2 ^ 16)) hcast
  push_cast at hz ⊢
  exact hz

theorem raised_cast {val : ℕ} {b : ℤ} :
    (((((val : ℤ) + b) % 2 ^ 16).toNat : ℕ) : ZMod (2 ^ 16)) = val + (b : ℤ) := by
  have hcast : (((((val : ℤ) + b) % 2 ^ 16).toNat : ℕ) : ℤ) = ((val : ℤ) + b) % (2 ^ 16 : ℕ) :=
    Int.toNat_of_nonneg (Int.emod_nonneg _ (by decide))
  have hz := congrArg (Int.cast : ℤ → ZMod (2 ^ 16)) hcast
  rw [ZMod.intCast_mod] at hz
  push_cast at hz ⊢
  exact hz

theorem values_keep_woken : (valueAccount id num).Keeps Woken := by
  intro set k v v' d h
  obtain ⟨u, dz, dn, rfl, hz, hn⟩ := h
  refine Account.Balanced.append (y := (valueAccount id num).weight set k u) ?_ ?_
  · cases hz with
    | idle => exact value_same rfl rfl
    | @woke w =>
      refine value_balanced (a := 0) w.op ?_ (by simp)
      rw [tally_cons, tally_cons, tally_nil]
      simp [Deed.change]
  · cases hn with
    | idle => exact value_same rfl rfl
    | @woke val zs pre w post hpre hw =>
      refine value_balanced (a := -w.val) w.op ?_ (lowered_cast hw)
      rw [tally_cons, tally_cons, tally_nil]
      simp [Deed.change]

theorem values_keep_call (call : ℕ) : (valueAccount id num).KeepsCall call := by
  intro alter who i semOp r set k v v' d h
  cases h with
  | refused => exact value_same rfl rfl
  | found hzero =>
    refine value_balanced (a := semOp) ⟨call, i⟩ (by simp) ?_
    rw [hzero, Int.cast_zero, add_zero]
  | zero | increase => exact value_same (by simp [Deed.change]) rfl
  | raised => exact value_balanced (a := semOp) ⟨call, i⟩ (by simp) raised_cast
  | lowered hneg halter hle =>
    refine value_balanced (a := semOp) ⟨call, i⟩ (by simp) ?_
    have hcast := lowered_cast (b := -semOp) (by omega)
    rwa [sub_neg_eq_add, neg_neg] at hcast

theorem values_prep {H : SemHeaders} {s : SemServer} {call : ℕ} {c : Caller} {m : SemopCall}
    {W : ServerView} {d : List Deed} {b : Bool} (h : Prep H s call (.semop c m) W d b) :
    (valueAccount id num).Balanced ((valueAccount id num).total s.view.sets)
      ((valueAccount id num).total W.sets) d := by
  cases h with
  | unchanged hother => exact absurd rfl (hother c m)
  | refused => rfl
  | @carried _ _ i sem r n vs d hfind _ hcarried =>
    obtain ⟨hget, -⟩ := semFindId_found hfind
    have hview : s.view.sets[i]? = some sem.view := by simp [SemServer.view, hget]
    refine (Account.Balanced.replace hview ((values_keep_call call).carried hcarried)).append ?_
    rw [answer]
    split <;> rfl

theorem value_at {L : List SetView} {V : SetView} {v : SemView} (hids : (L.map SetView.id).Nodup)
    (hV : V ∈ L) (hv : V.sems[num]? = some v) :
    (valueAccount V.id num).total L = (v.val : ZMod (2 ^ 16)) := by
  rw [Account.total_at hids hV hv fun set k u hne => if_neg fun hboth => hne hboth.1 hboth.2]
  exact if_pos ⟨rfl, rfl⟩

theorem semop_changes {H : SemHeaders} {st st' : Traced} {c : Caller} {m : SemopCall}
    (hst : st.Kept) (hgrows : (SemRequest.semop c m).Grows)
    (h : st.handled H (.semop c m) = .ok st') :
    ∃ d, st'.log = (.semop c m, d) :: st.log ∧ ∀ sem ∈ st.s.semList, ∀ sem' ∈ st'.s.semList,
      sem'.id = sem.id → ∀ k x x', sem.sems[k]? = some x → sem'.sems[k]? = some x' →
        (x'.semval : ZMod (2 ^ 16)) = x.semval + tally (Deed.change sem.id k) d := by
  have hst' := hst.handled hgrows h
  obtain ⟨r, s, d, hprepare, hfinish, rfl⟩ := handled_cases h
  obtain ⟨hprep, hsound⟩ := prepare_refines hst.sound hgrows hprepare
  refine ⟨d, rfl, fun sem hsem sem' hsem' hid k x x' hx hx' => ?_⟩
  have hbalance : (valueAccount sem.id k).Balanced ((valueAccount sem.id k).total st.s.view.sets)
      ((valueAccount sem.id k).total s.view.sets) d := by
    obtain ⟨-, -, ⟨-, rfl, rfl⟩ | ⟨-, d', rfl, hpass⟩⟩ := finish_refines hsound hfinish
    · exact values_prep hprep
    · exact (values_prep hprep).append (values_keep_woken.pass hpass)
  have hview : sem.view.sems[k]? = some x.view := by simp [SemStruct.view, hx]
  have hview' : sem'.view.sems[k]? = some x'.view := by simp [SemStruct.view, hx']
  have hbefore := value_at hst.distinct.1 (List.mem_map_of_mem hsem) hview
  have hafter := value_at hst'.distinct.1 (List.mem_map_of_mem hsem') hview'
  change (valueAccount sem.id k).total st.s.view.sets = (x.semval : ZMod (2 ^ 16)) at hbefore
  change (valueAccount sem'.id k).total s.view.sets = (x'.semval : ZMod (2 ^ 16)) at hafter
  change (valueAccount sem.id k).total s.view.sets + tally (fun _ => 0) d =
    (valueAccount sem.id k).total st.s.view.sets + tally (Deed.change sem.id k) d at hbalance
  rw [tally_none, add_zero, hbefore] at hbalance
  rw [← hafter, hid, hbalance]

end Values

def SemRequest.WaitsAlone (H : SemHeaders) (s : SemServer) (e : SemRequest) : Prop :=
  e.Grows ∧ ∀ c m i sem, e = .semop c m → semFindId s m.id = some (i, sem) →
    refuseSemop H sem c m = none →
    (∀ o ∈ m.sops, o.semOp = 0 ∨ checkPerm sem.perm c 0o222 = true) →
    (∃ o ∈ m.sops, ∃ v, (viewsOf sem.sems)[o.semNum.toNat]? = some v ∧ v.waits o.semOp) →
    m.sops.length = 1

section Alone
variable {H : SemHeaders} {st : Traced} {n : ℕ} {alter : Bool} {who : ℤ} {call : ℕ} {set : ℤ}
  {os : List Sembuf} {i k : ℕ} {V V' : List SemView} {r : Errno} {d : List Deed}

theorem Carried.permitted (h : Carried alter who call set os i V r k V' d) (hr : r = .OK) :
    ∀ o ∈ os, o.semOp = 0 ∨ alter = true := by
  induction h with
  | nil => exact fun o ho => absurd ho List.not_mem_nil
  | refused => cases hr
  | done _ htried _ ih | slept _ htried _ ih =>
    exact List.forall_mem_cons.mpr ⟨(htried.ends.2 (by decide)).1, ih hr⟩

theorem Carried.waiting (h : Carried alter who call set os i V r k V' d)
    (hnums : os.Pairwise fun o o' => o.semNum.toNat ≠ o'.semNum.toNat) (hk : k ≠ 0) :
    ∃ o ∈ os, ∃ v, V[o.semNum.toNat]? = some v ∧ v.waits o.semOp := by
  induction h with
  | nil => exact absurd rfl hk
  | refused => exact absurd rfl hk
  | done _ _ _ ih =>
    obtain ⟨hfirst, hnums⟩ := List.pairwise_cons.mp hnums
    obtain ⟨o, ho, v, hv, hwaits⟩ := ih hnums hk
    rw [List.getElem?_set_ne (hfirst o ho)] at hv
    exact ⟨o, List.mem_cons_of_mem _ ho, v, hv, hwaits⟩
  | slept hv htried =>
    exact ⟨_, List.mem_cons_self, _, hv, (htried.ends.2 (by decide)).2.mpr rfl⟩

theorem Entered.Of.waitsAlone {x : Entered} {c : Caller} {m : SemopCall} {s : SemServer}
    (h : x.Of H s c n m) (halone : (SemRequest.semop c m).WaitsAlone H s) (hr : x.result = .OK)
    (hslept : x.slept ≠ 0) : m.sops.length = 1 := by
  rcases h with ⟨hnone, -⟩ | ⟨i, sem, V, d, hfind, hrefuse, hcarried⟩
  · exact absurd hnone hslept
  · exact halone.2 c m i sem rfl hfind hrefuse (hcarried.permitted hr)
      (hcarried.waiting (refuseSemop_none hrefuse).2 (Nat.ne_of_gt (Multiset.card_pos.mpr hslept)))

theorem opsFrom_card (call i : ℕ) (os : List Sembuf) : (opsFrom call i os).card = os.length := by
  induction os generalizing i with
  | nil => rfl
  | cons o os ih => rw [opsFrom, Multiset.card_add, ih, Multiset.card_singleton, List.length_cons,
      Nat.add_comm]

def Traced.Failed (st : Traced) (n : ℕ) : Prop := ∃ y ∈ st.replies n, y.2 ≠ .OK

theorem tally_log (n : ℕ) (log : List (SemRequest × List Deed)) :
    ofCall n (tally Deed.performs (log.flatMap Prod.snd)) =
      (log.map fun y => ofCall n (tally Deed.performs y.2)).sum := by
  induction log with
  | nil => rfl
  | cons y log ih =>
    rw [List.flatMap_cons, tally_append, map_add, ih, List.map_cons, List.sum_cons]

theorem performed_le {y : SemRequest × List Deed} (hy : y ∈ st.log) :
    ofCall n (tally Deed.performs y.2) ≤ st.performedBy n := by
  rw [Traced.performedBy, Traced.deeds, tally_log]
  exact List.single_le_sum (fun _ _ => Multiset.zero_le _) _ (List.mem_map_of_mem hy)

theorem reply_of_answer {d : List Deed} {y : ℤ × Errno} (h : y ∈ tally (Deed.answers n) d) :
    y ∈ tally (Deed.replies n) d := by
  induction d with
  | nil => exact h
  | cons x d ih =>
    rw [tally_cons] at h ⊢
    rcases Multiset.mem_add.mp h with h | h
    · refine Multiset.mem_add.mpr (.inl ?_)
      cases x with
      | answered => exact h
      | performed | queued | left => exact absurd h (Multiset.notMem_zero y)
    · exact Multiset.mem_add.mpr (.inr (ih h))

theorem reply_of_fail {d : List Deed} {z : Place × Waiting} (h : z ∈ tally Deed.fails d)
    (hcall : z.2.op.call = n) : ∃ y ∈ tally (Deed.replies n) d, y.2 ≠ .OK := by
  induction d with
  | nil => exact absurd h (Multiset.notMem_zero z)
  | cons x d ih =>
    rw [tally_cons] at h
    rw [tally_cons]
    rcases Multiset.mem_add.mp h with h | h
    · cases x with
      | performed | queued | answered => exact absurd h (Multiset.notMem_zero z)
      | left p w e =>
        simp only [Deed.fails] at h
        split at h
        · exact absurd h (Multiset.notMem_zero z)
        · rename_i hno
          rw [Multiset.mem_singleton.mp h] at hcall
          refine ⟨(w.who, e), Multiset.mem_add.mpr (.inl ?_), hno⟩
          simp only [Deed.replies]
          rw [if_pos hcall]
          exact Multiset.mem_singleton_self _
    · obtain ⟨y, hy, hno⟩ := ih h
      exact ⟨y, Multiset.mem_add.mpr (.inr hy), hno⟩

theorem mem_opsOf {m : Multiset (Place × Waiting)} {z : Place × Waiting} (hz : z ∈ m)
    (hcall : z.2.op.call = n) : waitsFor z ∈ opsOf n m :=
  Multiset.mem_filter.mpr ⟨Multiset.mem_map_of_mem _ hz, hcall⟩

theorem exists_of_ops {m : Multiset (Place × Waiting)} (h : opsOf n m ≠ 0) :
    ∃ z ∈ m, z.2.op.call = n := by
  obtain ⟨y, hy⟩ := Multiset.exists_mem_of_ne_zero h
  obtain ⟨hy, hcall⟩ := Multiset.mem_filter.mp hy
  obtain ⟨z, hz, rfl⟩ := Multiset.mem_map.mp hy
  exact ⟨z, hz, hcall⟩

theorem unchanged_of_explained {x : Entered} {c : Caller} {m : SemopCall} (hbegins : x.Begins n m)
    (hx : x.Explains st n c) (hone : x.result = .OK → x.slept ≠ 0 → m.sops.length = 1)
    (hnot : st.asleep n ≠ 0 ∨ st.Failed n) : ∀ y ∈ st.performedBy n, y.2 = 0 := by
  have hwoken : st.wokenOf n ≤ x.slept := by
    rw [← hx.waits, add_assoc]
    exact Multiset.le_add_right ..
  by_cases hr : x.result = .OK
  · have hnone : st.asleep n ≠ 0 ∨ st.failedOf n ≠ 0 := by
      rcases hnot with hasleep | ⟨y, hy, hno⟩
      · exact .inl hasleep
      · refine .inr ?_
        rcases mem_replies hy with hanswer | ⟨z, -, hcall, -, -, hfail⟩
        · change y ∈ st.answers n at hanswer
          rw [hx.answers] at hanswer
          split at hanswer
          · rw [Multiset.mem_singleton.mp hanswer] at hno
            exact absurd hr hno
          · exact absurd hanswer (Multiset.notMem_zero y)
        · have hmem := mem_opsOf (hfail hno) hcall
          intro hzero
          rw [Traced.failedOf] at hzero
          rw [hzero] at hmem
          exact Multiset.notMem_zero _ hmem
    have hcard : (st.wokenOf n).card + (st.asleep n).card + (st.failedOf n).card =
        x.slept.card := by rw [← hx.waits, Multiset.card_add, Multiset.card_add]
    have hpos : 0 < (st.asleep n).card + (st.failedOf n).card := by
      rcases hnone with h | h <;> have hp := Multiset.card_pos.mpr h <;> omega
    have hslept : x.slept ≠ 0 := Multiset.card_pos.mp (by omega)
    have hlength := congrArg Multiset.card (hbegins.all hr)
    rw [opsFrom_card, hone hr hslept, Multiset.card_add] at hlength
    have hzero : st.performedBy n = 0 := by
      rw [hx.performed, ← Multiset.card_eq_zero, Multiset.card_add]
      omega
    rw [hzero]
    exact fun y hy => absurd hy (Multiset.notMem_zero y)
  · intro y hy
    rw [hx.performed] at hy
    refine hbegins.none hr y ?_
    rcases Multiset.mem_add.mp hy with hy | hy
    · exact Multiset.mem_add.mpr (.inl hy)
    · exact Multiset.mem_add.mpr (.inr (Multiset.mem_of_le hwoken hy))

theorem complete_of_explained {x : Entered} {c : Caller} {m : SemopCall} (hbegins : x.Begins n m)
    (hx : x.Explains st n c) (hone : x.result = .OK → x.slept ≠ 0 → m.sops.length = 1)
    (hasleep : st.asleep n = 0) (hnot : ¬ st.Failed n) :
    st.performedBy n = opsFrom n 0 m.sops ∧
      ∃ y ∈ st.log, ofCall n (tally Deed.performs y.2) = opsFrom n 0 m.sops := by
  have hr : x.result = .OK := by
    by_contra hr
    have hanswer := hx.answers
    rw [if_pos (.inl hr)] at hanswer
    refine hnot ⟨(c.who, x.result), reply_of_answer ?_, hr⟩
    change _ ∈ st.answers n
    rw [hanswer]
    exact Multiset.mem_singleton_self _
  have hfailed : st.failedOf n = 0 := by
    by_contra hfailed
    obtain ⟨z, hz, hcall⟩ := exists_of_ops hfailed
    exact hnot (reply_of_fail hz hcall)
  have hwaits := hx.waits
  rw [hasleep, hfailed, add_zero, add_zero] at hwaits
  have hall : st.performedBy n = opsFrom n 0 m.sops := by
    rw [hx.performed, hwaits, hbegins.all hr]
  refine ⟨hall, ?_⟩
  by_cases hslept : x.slept = 0
  · obtain ⟨y, hy, hdone⟩ := hx.once
    refine ⟨y, hy, le_antisymm (hall ▸ performed_le hy) ?_⟩
    rwa [← hbegins.all hr, hslept, add_zero]
  · have hlength : (st.performedBy n).card = 1 := by
      rw [hall, opsFrom_card, hone hr hslept]
    have hsome : ∃ y ∈ st.log, ofCall n (tally Deed.performs y.2) ≠ 0 := by
      by_contra hno
      simp only [not_exists, not_and, ne_eq, not_not] at hno
      rw [Traced.performedBy, Traced.deeds, tally_log, List.sum_eq_zero] at hlength
      · cases hlength
      · intro z hz
        obtain ⟨y, hy, rfl⟩ := List.mem_map.mp hz
        exact hno y hy
    obtain ⟨y, hy, hne⟩ := hsome
    refine ⟨y, hy, ?_⟩
    rw [← hall]
    refine Multiset.eq_of_le_of_card_le (performed_le hy) ?_
    rw [hlength]
    exact Multiset.card_pos.mpr hne

theorem semop_atomic {past : List (Traced × SemRequest)}
    (h : Run (semSystem H) (fun _ st e => e.WaitsAlone H st.s) past st) :
    (∀ n c m, st.Called n c m →
      (st.asleep n ≠ 0 ∨ st.Failed n → ∀ y ∈ st.performedBy n, y.2 = 0) ∧
      (st.asleep n = 0 → ¬ st.Failed n → st.performedBy n = opsFrom n 0 m.sops ∧
        ∃ y ∈ st.log, ofCall n (tally Deed.performs y.2) = opsFrom n 0 m.sops)) ∧
    ∀ c m st', (SemRequest.semop c m).Grows → st.handled H (.semop c m) = .ok st' →
      ∃ d, st'.log = (.semop c m, d) :: st.log ∧ ∀ sem ∈ st.s.semList, ∀ sem' ∈ st'.s.semList,
        sem'.id = sem.id → ∀ k x x', sem.sems[k]? = some x → sem'.sems[k]? = some x' →
          (x'.semval : ZMod (2 ^ 16)) = x.semval + tally (Deed.change sem.id k) d := by
  have hst := calls_explained
    (Φ := fun m x => x.result = .OK → x.slept ≠ 0 → m.sops.length = 1) h
    (fun _ _ _ he => he.1) (fun _ _ _ _ _ he hof => hof.waitsAlone he)
  refine ⟨fun n c m hcall => ?_, fun c m st' hgrows hstep => semop_changes hst.kept hgrows hstep⟩
  obtain ⟨x, hbegins, hone, hx⟩ := hst.calls n c m hcall
  exact ⟨unchanged_of_explained hbegins hx hone, complete_of_explained hbegins hx hone⟩

end Alone

theorem semop_atomic_raised : ∃ st, ipcStart.after usualSemHeaders
    [semgetOf 2, semopOf 2 [⟨0, 5, false⟩, ⟨1, 3, false⟩]] = .ok st ∧
      st.performedBy 1 = opsFrom 1 0 [⟨0, 5, false⟩, ⟨1, 3, false⟩] := by
  obtain ⟨st, hget⟩ : ∃ st, ipcStart.handled usualSemHeaders (semgetOf 2) = .ok st := ⟨_, rfl⟩
  obtain ⟨st', hop⟩ : ∃ st',
      st.handled usualSemHeaders (semopOf 2 [⟨0, 5, false⟩, ⟨1, 3, false⟩]) = .ok st' := by
    cases hget
    exact ⟨_, rfl⟩
  have hnew : (semgetOf 2).WaitsAlone usualSemHeaders ipcStart.s :=
    ⟨trivial, fun c m i sem he => by cases he⟩
  have halone : (semopOf 2 [⟨0, 5, false⟩, ⟨1, 3, false⟩]).WaitsAlone usualSemHeaders st.s := by
    refine ⟨fun _ => rfl, fun c m i sem he _ _ _ hwaits => ?_⟩
    cases he
    obtain ⟨o, ho, v, -, hw⟩ := hwaits
    have hpos : 0 < o.semOp := by
      rcases List.mem_cons.mp ho with rfl | ho
      · decide
      · rw [List.mem_singleton.mp ho]
        decide
    rcases hw with ⟨h0, -⟩ | ⟨h0, -⟩ <;> omega
  have hstart : Run (semSystem usualSemHeaders)
      (fun _ st e => e.WaitsAlone usualSemHeaders st.s) [] ipcStart := .start ⟨rfl, rfl⟩
  obtain ⟨hcalled, hasleep, hreplies⟩ : st'.Called 1 (superuser 2)
      ⟨0x1234, [⟨0, 5, false⟩, ⟨1, 3, false⟩], true, true, fun _ => true⟩ ∧
      st'.asleep 1 = 0 ∧ st'.replies 1 = {(2, .OK)} := by
    cases hget
    cases hop
    exact ⟨⟨_, rfl⟩, rfl, rfl⟩
  have hnot : ¬ st'.Failed 1 := by
    rintro ⟨y, hy, hno⟩
    rw [hreplies] at hy
    rw [Multiset.mem_singleton.mp hy] at hno
    exact hno rfl
  refine ⟨st', ?_, (((semop_atomic ((hstart.next hnew hget).next halone hop)).1 1 _ _
    hcalled).2 hasleep hnot).1⟩
  simp only [Traced.after, hget, hop, bind, Except.bind]

theorem semop_half_done : ∃ past st c m,
    Run (semSystem usualSemHeaders) (fun _ _ e => e.Grows) past st ∧ st.Called 1 c m ∧
      st.asleep 1 ≠ 0 ∧ (⟨⟨1, 0⟩, 1⟩ : OpId × ℤ) ∈ st.performedBy 1 ∧
      ∃ sem ∈ st.s.semList, ∃ x ∈ sem.sems, x.semval = 1 := by
  obtain ⟨st, hafter, hcalled, hasleep, hdone, hvalue⟩ : ∃ st, ipcStart.after usualSemHeaders
      [semgetOf 2, semopOf 2 [⟨0, 1, false⟩, ⟨1, -1, false⟩]] = .ok st ∧
      st.Called 1 (superuser 2)
        ⟨0x1234, [⟨0, 1, false⟩, ⟨1, -1, false⟩], true, true, fun _ => true⟩ ∧
      st.asleep 1 = {(⟨1, 1⟩, -1)} ∧ st.performedBy 1 = {(⟨1, 0⟩, 1)} ∧
      ∃ sem ∈ st.s.semList, ∃ x ∈ sem.sems, x.semval = 1 :=
    ⟨_, rfl, ⟨_, rfl⟩, rfl, rfl, _, List.mem_singleton.mpr rfl, _, List.mem_cons_self, rfl⟩
  have hstart : Run (semSystem usualSemHeaders) (fun _ _ e => e.Grows) [] ipcStart :=
    .start ⟨rfl, rfl⟩
  obtain ⟨past, hrun⟩ := run_after hstart
    (by simp [SemRequest.Grows, semgetOf, semopOf]) hafter
  refine ⟨past, st, _, _, hrun, hcalled, ?_, ?_, hvalue⟩
  · rw [hasleep]
    exact Multiset.singleton_ne_zero _
  · rw [hdone]
    exact Multiset.mem_singleton_self _

end Ipc
