import Cs111.Ipc.Accounts
import Mathlib.Tactic.Abel
import Mathlib.Algebra.Order.Ring.Int

namespace Ipc
open TransitionSystem
open HeapList (Fault)

structure Traced where
  s : SemServer
  log : List (SemRequest × List Deed)

section System
variable (H : SemHeaders)

def Traced.handled (st : Traced) (e : SemRequest) : Except Fault Traced := do
  let (s, d) ← e.handle H st.s st.log.length
  pure ⟨s, (e, d) :: st.log⟩

def semSystem : TransitionSystem Traced SemRequest where
  initial st := st.s.semList = [] ∧ st.log = []
  step st e st' := st.handled H e = .ok st'

def Traced.after (st : Traced) : List SemRequest → Except Fault Traced
  | [] => .ok st
  | e :: es => do
    let st ← st.handled H e
    st.after es

variable {H}

theorem handled_cases {st st' : Traced} {e : SemRequest} (h : st.handled H e = .ok st') :
    ∃ r s d, e.prepare H st.s st.log.length = .ok r ∧ r.finish = .ok (s, d) ∧
      st' = ⟨s, (e, d) :: st.log⟩ := by
  rw [Traced.handled, SemRequest.handle_eq] at h
  obtain ⟨⟨s, d⟩, hhandle, h⟩ := bind_eq_ok.mp h
  obtain ⟨r, hr, hfinish⟩ := bind_eq_ok.mp hhandle
  cases h
  exact ⟨r, s, d, hr, hfinish, rfl⟩

theorem run_after {ok : SemRequest → Prop} {past : List (Traced × SemRequest)} {st st' : Traced}
    {es : List SemRequest} (h : Run (semSystem H) (fun _ _ e => ok e) past st)
    (hok : ∀ e ∈ es, ok e) (hafter : st.after H es = .ok st') :
    ∃ past', Run (semSystem H) (fun _ _ e => ok e) past' st' := by
  induction es generalizing past st with
  | nil =>
    cases hafter
    exact ⟨past, h⟩
  | cons e es ih =>
    obtain ⟨he, hes⟩ := List.forall_mem_cons.mp hok
    obtain ⟨st₁, hst₁, hrest⟩ := bind_eq_ok.mp hafter
    exact ih (.next h he hst₁) hes hrest

end System

def Traced.deeds (st : Traced) : List Deed := st.log.flatMap Prod.snd

def Deed.queues : Deed → Multiset (Place × Waiting)
  | .queued p w => {(p, w)}
  | _ => 0

def Deed.leaves : Deed → Multiset (Place × Waiting)
  | .left p w _ => {(p, w)}
  | _ => 0

def waitersAt (p : Place) : Multiset (Place × Waiting) →+ Multiset Waiting where
  toFun m := (m.filter fun x => x.1 = p).map Prod.snd
  map_zero' := rfl
  map_add' m n := by rw [Multiset.filter_add, Multiset.map_add]

def stillWaiting (d : List Deed) (p : Place) : Multiset Waiting :=
  waitersAt p (tally Deed.queues d - tally Deed.leaves d)

def listed (p : Place) (ws : List Waiting) : Multiset (Place × Waiting) := ws.map (Prod.mk p)

def SemView.waiting (set : ℤ) (num : ℕ) (v : SemView) : Multiset (Place × Waiting) :=
  listed ⟨set, num, true⟩ v.zs + listed ⟨set, num, false⟩ v.ns

def waiters : Account (Multiset (Place × Waiting)) := ⟨SemView.waiting, Deed.leaves, Deed.queues⟩

section Balance
variable {p : Place} {ws ws' : List Waiting} {w : Waiting} {d : List Deed} {set : ℤ} {num : ℕ}
  {v v' : SemView}

@[simp] theorem listed_nil : listed p [] = 0 := rfl

@[simp] theorem listed_append : listed p (ws ++ ws') = listed p ws + listed p ws' := by
  simp [listed]

@[simp] theorem listed_cons : listed p (w :: ws) = {(p, w)} + listed p ws := by
  rw [listed, List.map_cons, ← Multiset.cons_coe, ← Multiset.singleton_add]
  rfl

@[simp] theorem queues_performed {op : OpId} {a : ℤ} :
    (Deed.performed op set num a).queues = 0 := rfl
@[simp] theorem queues_queued : (Deed.queued p w).queues = {(p, w)} := rfl
@[simp] theorem queues_left {e : Errno} : (Deed.left p w e).queues = 0 := rfl
@[simp] theorem queues_answered {call : ℕ} {who : ℤ} {e : Errno} :
    (Deed.answered call who e).queues = 0 := rfl
@[simp] theorem leaves_performed {op : OpId} {a : ℤ} :
    (Deed.performed op set num a).leaves = 0 := rfl
@[simp] theorem leaves_queued : (Deed.queued p w).leaves = 0 := rfl
@[simp] theorem leaves_left {e : Errno} : (Deed.left p w e).leaves = {(p, w)} := rfl
@[simp] theorem leaves_answered {call : ℕ} {who : ℤ} {e : Errno} :
    (Deed.answered call who e).leaves = 0 := rfl

theorem removed_balanced {pt : ℤ} (h : Removed pt p ws ws' d) :
    waiters.Balanced (listed p ws) (listed p ws') d := by
  cases h with
  | none => rfl
  | one =>
    simp only [Account.Balanced, waiters, listed_append, listed_cons, tally_cons, tally_nil,
      leaves_left, queues_left]
    abel

theorem woken_balanced (h : Woken set num v v' d) :
    waiters.Balanced (v.waiting set num) (v'.waiting set num) d := by
  obtain ⟨u, dz, dn, rfl, hz, hn⟩ := h
  refine Account.Balanced.append (y := u.waiting set num) ?_ ?_
  · cases hz with
    | idle => rfl
    | woke =>
      simp only [Account.Balanced, waiters, SemView.waiting, listed_cons, tally_cons, tally_nil,
        leaves_left, queues_left, leaves_performed, queues_performed]
      abel
  · cases hn with
    | idle => rfl
    | woke =>
      simp only [Account.Balanced, waiters, SemView.waiting, listed_append, listed_cons, tally_cons,
        tally_nil, leaves_left, queues_left, leaves_performed, queues_performed]
      abel

theorem tried_balanced {alter : Bool} {who : ℤ} {op : OpId} {semOp : ℤ} {r : Round}
    (h : Tried alter who op set num semOp v r v' d) :
    waiters.Balanced (v.waiting set num) (v'.waiting set num) d := by
  cases h with
  | refused | raised | lowered | found => rfl
  | zero | increase =>
    simp only [Account.Balanced, waiters, SemView.waiting, listed_append, listed_cons, listed_nil,
      tally_cons, tally_nil, leaves_queued, queues_queued]
    abel

theorem tally_dropped (p : Place) (ws : List Waiting) :
    tally Deed.leaves (ws.map (.left p · .EIDRM)) = listed p ws ∧
      tally Deed.queues (ws.map (.left p · .EIDRM)) = 0 := by
  induction ws with
  | nil => exact ⟨rfl, rfl⟩
  | cons w ws ih =>
    constructor
    · rw [List.map_cons, tally_cons, ih.1, listed_cons, leaves_left]
    · rw [List.map_cons, tally_cons, ih.2, queues_left, add_zero]

theorem waiters_lawful (call : ℕ) : waiters.Lawful call where
  removal pt set num v v' d h := by
    obtain ⟨dz, dn, rfl, -, hz, hn⟩ := h
    exact (removed_balanced hz).add (removed_balanced hn)
  woken _ _ _ _ _ h := woken_balanced h
  tried _ _ _ _ _ _ _ _ _ _ h := tried_balanced h
  dropped set num v := by
    have hz := tally_dropped ⟨set, num, true⟩ v.zs
    have hn := tally_dropped ⟨set, num, false⟩ v.ns
    simp only [Account.Balanced, waiters, allDropped, tally_append, hz, hn, SemView.waiting]
    abel
  fresh _ _ := rfl
  queues set num v v' h := by
    obtain ⟨hz, hn⟩ := Prod.mk.inj h
    simp only [waiters, SemView.waiting, hz, hn]
  answered _ _ := ⟨rfl, rfl⟩

end Balance

section Counters
variable {H : SemHeaders} {p : Place} {L : List SetView} {V : SetView} {v : SemView} {k : ℕ}

theorem waitersAt_listed (q : Place) (ws : List Waiting) :
    waitersAt p (listed q ws) = if q = p then (ws : Multiset Waiting) else 0 := by
  change ((listed q ws).filter fun x => x.1 = p).map Prod.snd = _
  rw [listed, Multiset.filter_coe, Multiset.map_coe]
  split
  · rename_i h
    rw [List.filter_eq_self.mpr (by simp [h]), List.map_map]
    simp [Function.comp_def]
  · rename_i h
    rw [List.filter_eq_nil_iff.mpr (by simp [h])]
    rfl

def SemView.listAt (v : SemView) (zero : Bool) : List Waiting := if zero then v.zs else v.ns

theorem waitersAt_sem (set : ℤ) (num : ℕ) (v : SemView) (zero : Bool) :
    waitersAt ⟨set, num, zero⟩ (v.waiting set num) = (v.listAt zero : Multiset Waiting) := by
  rw [SemView.waiting, map_add, waitersAt_listed, waitersAt_listed]
  cases zero <;> simp [SemView.listAt]

theorem waitersAt_other (set : ℤ) (num : ℕ) (v : SemView) (h : p.set = set → p.num ≠ num) :
    waitersAt p (v.waiting set num) = 0 := by
  have hne : ∀ zero, (⟨set, num, zero⟩ : Place) ≠ p := by
    rintro zero rfl
    exact h rfl rfl
  rw [SemView.waiting, map_add, waitersAt_listed, waitersAt_listed, if_neg (hne true),
    if_neg (hne false), add_zero]

def waitersOnly (p : Place) : Account (Multiset Waiting) where
  weight set num v := waitersAt p (v.waiting set num)
  out := fun _ => 0
  into := fun _ => 0

theorem waitersOnly_total (p : Place) (L : List SetView) :
    waitersAt p (waiters.total L) = (waitersOnly p).total L := by
  rw [Account.total, weigh_hom]
  refine congrArg (fun μ => weigh μ 0 L) (funext fun _ => funext fun V => ?_)
  exact weigh_hom ..

theorem waiters_of_semaphore (hids : (L.map SetView.id).Nodup) (hV : V ∈ L)
    (hv : V.sems[k]? = some v) (zero : Bool) :
    waitersAt ⟨V.id, k, zero⟩ (waiters.total L) = (v.listAt zero : Multiset Waiting) := by
  rw [waitersOnly_total, Account.total_at hids hV hv fun set num u hne => ?_]
  · exact waitersAt_sem ..
  · exact waitersAt_other _ _ _ fun hset => (hne hset.symm).symm

def ServerView.Distinct (W : ServerView) : Prop :=
  (W.sets.map SetView.id).Nodup ∧ ∀ id ∈ W.sets.map SetView.id, id < W.next

theorem Pass.ids {R : ℤ → ℕ → SemView → SemView → List Deed → Prop} {L' : List SetView}
    {d : List Deed} (h : Pass R L L' d) : L'.map SetView.id = L.map SetView.id :=
  h.map_eq fun _ _ _ _ _ hV => hV.1

theorem Exited.ids {pts : List ℤ} {L' : List SetView} {d : List Deed} (h : Exited pts L L' d) :
    L'.map SetView.id = L.map SetView.id := by
  induction h with
  | nil => rfl
  | cons hpass _ ih => rw [ih, hpass.ids]

theorem ids_set {i : ℕ} (hV : L[i]? = some V) (vs : List SemView) :
    (L.set i ⟨V.id, vs⟩).map SetView.id = L.map SetView.id := by
  obtain ⟨hlt, rfl⟩ := List.getElem?_eq_some_iff.mp hV
  rw [List.map_set]
  change (L.map SetView.id).set i L[i].id = _
  rw [← List.getElem_map SetView.id (h := by simpa using hlt), List.set_getElem_self]

theorem Prep.distinct {s : SemServer} {call : ℕ} {e : SemRequest} {W : ServerView} {d : List Deed}
    {b : Bool} (h : Prep H s call e W d b) (hs : s.view.Distinct) : W.Distinct := by
  have hsame : ∀ L, L.map SetView.id = s.view.sets.map SetView.id →
      (⟨L, s.identifier⟩ : ServerView).Distinct := by
    intro L hL
    rw [ServerView.Distinct, hL]
    exact hs
  cases h with
  | unchanged | refused => exact hs
  | created =>
    have hnew : s.identifier ∉ s.view.sets.map SetView.id := fun hmem => lt_irrefl _ (hs.2 _ hmem)
    rw [ServerView.Distinct, List.map_append, List.map_singleton]
    refine ⟨List.concat_eq_append ▸ hs.1.concat hnew, fun id hid => ?_⟩
    rcases List.mem_append.mp hid with hid | hid
    · exact (hs.2 id hid).trans (lt_add_one _)
    · obtain rfl := List.mem_singleton.mp hid
      exact lt_add_one _
  | valued hV => exact hsame _ (ids_set hV _)
  | @dropped _ _ _ V L _ hperm =>
    have hids : (s.view.sets.map SetView.id).Perm (V.id :: L.map SetView.id) := hperm.map _
    obtain ⟨-, hnodup⟩ := List.nodup_cons.mp (hids.nodup_iff.mp hs.1)
    exact ⟨hnodup, fun id hid => hs.2 id (hids.mem_iff.mpr (List.mem_cons_of_mem _ hid))⟩
  | @carried c m i sem r n V d hfind =>
    obtain ⟨hget, -⟩ := semFindId_found hfind
    have hview : s.view.sets[i]? = some sem.view := by simp [SemServer.view, hget]
    exact hsame _ (ids_set hview V)
  | exited hexited => exact hsame _ hexited.ids

theorem finish_distinct {r : Prepared} {s : SemServer} {d : List Deed} (hl : AllSound r.s.semList)
    (h : r.finish = .ok (s, d)) (hr : r.s.view.Distinct) : s.view.Distinct := by
  obtain ⟨-, hnext, ⟨-, rfl, -⟩ | ⟨-, d', -, hpass⟩⟩ := finish_refines hl h
  · exact hr
  · rw [ServerView.Distinct, hpass.ids]
    change _ ∧ ∀ id ∈ _, id < s.identifier
    rw [hnext]
    exact hr

structure Traced.Kept (st : Traced) : Prop where
  sound : AllSound st.s.semList
  distinct : st.s.view.Distinct
  balanced : waiters.total st.s.view.sets + tally Deed.leaves st.deeds = tally Deed.queues st.deeds

theorem Traced.Kept.handled {st st' : Traced} {e : SemRequest} (hst : st.Kept) (hgrows : e.Grows)
    (h : st.handled H e = .ok st') : st'.Kept := by
  obtain ⟨r, s, d, hprepare, hfinish, rfl⟩ := handled_cases h
  obtain ⟨hprep, hsound⟩ := prepare_refines hst.sound hgrows hprepare
  have hbalance := (waiters_lawful _).handle hst.sound hgrows hprepare hfinish
  refine ⟨(finish_refines hsound hfinish).1,
    finish_distinct hsound hfinish (hprep.distinct hst.distinct), ?_⟩
  change waiters.total s.view.sets + tally Deed.leaves d =
    waiters.total st.s.view.sets + tally Deed.queues d at hbalance
  change waiters.total s.view.sets + tally Deed.leaves (d ++ st.deeds) =
    tally Deed.queues (d ++ st.deeds)
  rw [tally_append, tally_append Deed.queues, ← add_assoc, hbalance, ← hst.balanced,
    add_right_comm, add_comm]

theorem kept_initially {st : Traced} (h : (semSystem H).initial st) : st.Kept := by
  obtain ⟨hnone, hlog⟩ := h
  obtain ⟨s, log⟩ := st
  dsimp only at hnone hlog
  subst hlog
  have hview : s.view.sets = [] := by rw [SemServer.view, hnone, List.map_nil]
  refine ⟨?_, ?_, ?_⟩
  · dsimp only
    rw [hnone]
    exact fun sem hsem => absurd hsem List.not_mem_nil
  · rw [ServerView.Distinct, hview]
    exact ⟨.nil, fun id hid => absurd hid List.not_mem_nil⟩
  · rw [hview]
    rfl

def SemRequest.Safe (H : SemHeaders) (st : Traced) (e : SemRequest) : Prop :=
  e.Grows ∧ e.Fits st.s ∧ ∀ r, e.prepare H st.s st.log.length = .ok r → r.updates = true →
    NoneSpent r.s.semList

def Counts (x : HeapList Waiting) (ws : Multiset Waiting) : Prop :=
  x.cnt = ws.card ∧ ∀ k < x.cnt, ∃ w ∈ ws, x.get k = .ok w

def Traced.Tallied (st : Traced) : Prop := ∀ sem ∈ st.s.semList, ∀ num x, sem.sems[num]? = some x →
  Counts x.zlist (stillWaiting st.deeds ⟨sem.id, num, true⟩) ∧
    Counts x.nlist (stillWaiting st.deeds ⟨sem.id, num, false⟩)

theorem counts_entries {x : HeapList Waiting} (h : x.Sound) : Counts x (x.entries : Multiset Waiting) := by
  have hcnt := HeapList.Holds.cnt h
  refine ⟨hcnt, fun k hk => ?_⟩
  rw [hcnt] at hk
  have hsplit : x.Holds (x.entries.take k ++ x.entries[k] :: x.entries.drop (k + 1)) := by
    rw [List.cons_getElem_drop_succ, List.take_append_drop]
    exact h
  have hget := hsplit.get
  rw [List.length_take_of_le (Nat.le_of_lt hk)] at hget
  exact ⟨_, Multiset.mem_coe.mpr (List.getElem_mem hk), hget⟩

theorem Traced.Kept.tallied {st : Traced} (hst : st.Kept) : st.Tallied := by
  intro sem hsem num x hx
  have hstill : tally Deed.queues st.deeds - tally Deed.leaves st.deeds =
      waiters.total st.s.view.sets := by
    rw [← hst.balanced, add_tsub_cancel_right]
  have hV : sem.view ∈ st.s.view.sets := List.mem_map_of_mem hsem
  have hv : sem.view.sems[num]? = some x.view := by simp [SemStruct.view, hx]
  have hx' := hst.sound sem hsem x (List.mem_of_getElem? hx)
  have hat : ∀ zero, stillWaiting st.deeds ⟨sem.id, num, zero⟩ =
      (x.view.listAt zero : Multiset Waiting) := by
    intro zero
    rw [stillWaiting, hstill]
    exact waiters_of_semaphore hst.distinct.1 hV hv zero
  rw [hat, hat]
  exact ⟨counts_entries hx'.zlist, counts_entries hx'.nlist⟩

theorem Traced.Kept.handled_total {st : Traced} {e : SemRequest} (hst : st.Kept) (hsafe : e.Safe H st) :
    ∃ st', st.handled H e = .ok st' := by
  obtain ⟨hgrows, hfits, hspent⟩ := hsafe
  obtain ⟨r, hprepare⟩ : ∃ r, e.prepare H st.s st.log.length = .ok r :=
    prepare_total hst.sound hgrows hfits
  obtain ⟨-, hsound⟩ := prepare_refines hst.sound hgrows hprepare
  obtain ⟨s, d, hfinish⟩ := finish_total hsound (hspent r hprepare)
  refine ⟨⟨s, (e, d) :: st.log⟩, ?_⟩
  rw [Traced.handled, SemRequest.handle_eq, hprepare]
  change (r.finish >>= _) = _
  rw [hfinish]
  rfl

theorem kept_run {ok : List (Traced × SemRequest) → Traced → SemRequest → Prop}
    {past : List (Traced × SemRequest)} {st : Traced} (h : Run (semSystem H) ok past st)
    (hok : ∀ past st e, ok past st e → e.Grows) : st.Kept :=
  h.invariant (fun _ hinit => kept_initially hinit)
    fun past st e _ hst he hstep => hst.handled (hok past st e he) hstep

theorem wait_lists_counted {past : List (Traced × SemRequest)} {st : Traced}
    (h : Run (semSystem H) (fun _ st e => e.Safe H st) past st) :
    st.Tallied ∧ ∀ e : SemRequest, e.Safe H st → ∃ st', st.handled H e = .ok st' := by
  have hst := kept_run h fun _ _ _ he => he.1
  exact ⟨hst.tallied, fun e he => hst.handled_total he⟩

end Counters

section Examples

def usualSemHeaders : SemHeaders := ⟨0, 128, 250, 32, 32767, by decide⟩

def superuser (who : ℤ) : Caller := ⟨who, who, 0, 0⟩

def ipcStart : Traced := ⟨⟨[], 0x1234⟩, []⟩

def semgetOf (nsems : ℤ) : SemRequest := .semget (superuser 1) 7 nsems ⟨true, false, 0o600⟩

def setvalOf (num val : ℤ) : SemRequest := .semctl (superuser 1) 0x1234 num (.SETVAL val)

def semopOf (who : ℤ) (sops : List Sembuf) : SemRequest :=
  .semop (superuser who) ⟨0x1234, sops, true, true, fun _ => true⟩

theorem wait_lists_counted_sleeper : ∃ st, ipcStart.after usualSemHeaders
    [semgetOf 1, semopOf 2 [⟨0, -1, false⟩]] = .ok st ∧ st.Tallied := by
  obtain ⟨st, hget⟩ : ∃ st, ipcStart.handled usualSemHeaders (semgetOf 1) = .ok st := ⟨_, rfl⟩
  obtain ⟨st', hop⟩ : ∃ st',
      st.handled usualSemHeaders (semopOf 2 [⟨0, -1, false⟩]) = .ok st' := by
    cases hget
    exact ⟨_, rfl⟩
  have hsafe₀ : (semgetOf 1).Safe usualSemHeaders ipcStart := by
    refine ⟨trivial, trivial, fun r hr hupdates => ?_⟩
    cases hr
    cases hupdates
  have hsafe : (semopOf 2 [⟨0, -1, false⟩]).Safe usualSemHeaders st := by
    cases hget
    refine ⟨fun _ => rfl, fun i sem hfind o ho x hx _ => ?_, fun r hr _ => ?_⟩
    · cases hfind
      obtain rfl := List.mem_singleton.mp ho
      cases hx
      exact ⟨by decide, by decide⟩
    · cases hr
      intro sem hsem x hx hspent
      obtain rfl := List.mem_singleton.mp hsem
      obtain rfl := List.mem_singleton.mp hx
      exact Bool.false_ne_true hspent.1
  have hstart : Run (semSystem usualSemHeaders) (fun _ st e => e.Safe usualSemHeaders st) []
      ipcStart := .start ⟨rfl, rfl⟩
  refine ⟨st', ?_, (wait_lists_counted ((hstart.next hsafe₀ hget).next hsafe hop)).1⟩
  simp only [Traced.after, hget, hop, bind, Except.bind]

theorem emptied_list_read : ∃ past st e,
    Run (semSystem usualSemHeaders) (fun _ _ e => e.Grows) past st ∧ e.Grows ∧
      ∃ f, st.handled usualSemHeaders e = .error f := by
  obtain ⟨st, hafter, herror⟩ : ∃ st, ipcStart.after usualSemHeaders [semgetOf 1, setvalOf 0 1,
      semopOf 2 [⟨0, 0, false⟩], setvalOf 0 0] = .ok st ∧
      st.handled usualSemHeaders (semopOf 1 [⟨0, 0, false⟩]) = .error .outOfBounds := ⟨_, rfl, rfl⟩
  have hstart : Run (semSystem usualSemHeaders) (fun _ _ e => e.Grows) [] ipcStart :=
    .start ⟨rfl, rfl⟩
  obtain ⟨past, hrun⟩ := run_after hstart
    (by simp [SemRequest.Grows, semgetOf, setvalOf, semopOf]) hafter
  exact ⟨past, st, semopOf 1 [⟨0, 0, false⟩], hrun, fun _ => rfl, _, herror⟩

end Examples

def SemView.Quiet (v : SemView) : Prop := (v.val = 0 → v.zs = []) ∧ ∀ w ∈ v.ns, (v.val : ℤ) < w.val

def AllQuiet (L : List SetView) : Prop := ∀ V ∈ L, ∀ v ∈ V.sems, v.Quiet

def SemView.WakesAll (v : SemView) : Prop :=
  (v.val = 0 → v.zs.length ≤ 1) ∧ ∀ pre w post, v.ns = pre ++ w :: post →
    (∀ b ∈ pre, (v.val : ℤ) < b.val) → w.val ≤ (v.val : ℤ) →
      (∀ b ∈ pre ++ post, (v.val : ℤ) - w.val < b.val) ∧ (w.val = (v.val : ℤ) → v.val ≠ 0 → v.zs = [])

section Views
variable {set : ℤ} {num : ℕ} {v v' : SemView} {d : List Deed} {L L' : List SetView}

theorem Woken.quiet (hwakes : v.WakesAll) (h : Woken set num v v' d) : v'.Quiet := by
  obtain ⟨u, dz, dn, -, hz, hn⟩ := h
  have hu : u.val = v.val ∧ u.ns = v.ns ∧ (u.val = 0 → u.zs = []) ∧ (v.val ≠ 0 → u.zs = v.zs) := by
    cases hz with
    | idle hidle => exact ⟨rfl, rfl, hidle, fun _ => rfl⟩
    | woke =>
      refine ⟨rfl, rfl, fun _ => ?_, fun hne => absurd rfl hne⟩
      have hlen := hwakes.1 rfl
      exact List.eq_nil_of_length_eq_zero (Nat.le_zero.mp (Nat.le_of_succ_le_succ hlen))
  obtain ⟨hval, hns, hzero, hzs⟩ := hu
  cases hn with
  | idle hidle => exact ⟨hzero, hidle⟩
  | @woke val zs pre w post hpre hw =>
    dsimp only at hval hns hzero hzs
    obtain ⟨hrest, hlast⟩ := hwakes.2 pre w post hns.symm (hval ▸ hpre) (hval ▸ hw)
    refine ⟨fun hnone => ?_, fun b hb => ?_⟩
    · dsimp only at hnone ⊢
      by_cases hv : v.val = 0
      · exact hzero (hval.trans hv)
      · rw [hzs hv]
        exact hlast (by omega) hv
    · have hlt := hrest b hb
      dsimp only
      omega

theorem Pass.woken_quiet (hwakes : ∀ V ∈ L, ∀ v ∈ V.sems, v.WakesAll) (h : Pass Woken L L' d) :
    AllQuiet L' := by
  refine Each.forall_mem h fun _ V hV V' d hpass => ?_
  exact hpass.2.forall_mem fun num v hv v' d hwoken => hwoken.quiet (hwakes V hV v hv)

theorem Removed.subset {pt : ℤ} {p : Place} {ws ws' : List Waiting} (h : Removed pt p ws ws' d) :
    ws' ⊆ ws := by
  cases h with
  | none => exact List.Subset.refl _
  | one =>
    intro a ha
    rcases List.mem_append.mp ha with ha | ha
    · exact List.mem_append_left _ ha
    · exact List.mem_append_right _ (List.mem_cons_of_mem _ ha)

theorem Removal.quiet {pt : ℤ} (hv : v.Quiet) (h : Removal pt set num v v' d) : v'.Quiet := by
  obtain ⟨dz, dn, -, hval, hz, hn⟩ := h
  refine ⟨fun hzero => ?_, fun w hw => hval ▸ hv.2 w (hn.subset hw)⟩
  have hzs := hz.subset
  rw [hv.1 (hval ▸ hzero)] at hzs
  exact List.subset_nil.mp hzs

theorem Exited.quiet {pts : List ℤ} (hL : AllQuiet L) (h : Exited pts L L' d) : AllQuiet L' := by
  induction h with
  | nil => exact hL
  | cons hpass _ ih =>
    refine ih (Each.forall_mem hpass fun _ V hV V' d hone => ?_)
    exact hone.2.forall_mem fun num v hv v' d hremoval => hremoval.quiet (hL V hV v hv)

theorem Prep.quiet {H : SemHeaders} {s : SemServer} {call : ℕ} {e : SemRequest} {W : ServerView}
    (h : Prep H s call e W d false) (hs : AllQuiet s.view.sets) : AllQuiet W.sets := by
  cases h with
  | unchanged => exact hs
  | created =>
    intro V hV v hv
    rcases List.mem_append.mp hV with hV | hV
    · exact hs V hV v hv
    · obtain rfl := List.mem_singleton.mp hV
      obtain rfl := List.eq_of_mem_replicate hv
      exact ⟨fun _ => rfl, fun w hw => absurd hw List.not_mem_nil⟩
  | dropped hperm => exact fun V hV => hs V (hperm.mem_iff.mpr (List.mem_cons_of_mem _ hV))
  | exited hexited => exact hexited.quiet hs

end Views

section Runs
variable {H : SemHeaders} {st st' : Traced} {e : SemRequest}

def SemRequest.Wakes (H : SemHeaders) (st : Traced) (e : SemRequest) : Prop :=
  e.Grows ∧ ∀ r, e.prepare H st.s st.log.length = .ok r → r.updates = true →
    ∀ sem ∈ r.s.semList, ∀ x ∈ sem.sems, x.view.WakesAll

theorem handled_quiet (hst : st.Kept) (hquiet : AllQuiet st.s.view.sets) (he : e.Wakes H st)
    (h : st.handled H e = .ok st') : AllQuiet st'.s.view.sets := by
  obtain ⟨hgrows, hwakes⟩ := he
  obtain ⟨r, s, d, hprepare, hfinish, rfl⟩ := handled_cases h
  obtain ⟨hprep, hsound⟩ := prepare_refines hst.sound hgrows hprepare
  obtain ⟨-, -, ⟨hupdates, rfl, -⟩ | ⟨hupdates, d', -, hpass⟩⟩ := finish_refines hsound hfinish
  · rw [hupdates] at hprep
    exact hprep.quiet hquiet
  · refine hpass.woken_quiet fun V hV v hv => ?_
    obtain ⟨sem, hsem, rfl⟩ := List.mem_map.mp hV
    obtain ⟨x, hx, rfl⟩ := List.mem_map.mp hv
    exact hwakes r hprepare hupdates sem hsem x hx

def Semaphore.NoneLeft (x : Semaphore) : Prop :=
  (x.semval = 0 → x.semzcnt = 0) ∧
    ∀ k < x.semncnt, ∃ w, x.nlist.get k = .ok w ∧ (x.semval : ℤ) < w.val

theorem noneLeft_of_quiet {x : Semaphore} (h : x.Sound) (hquiet : x.view.Quiet) : x.NoneLeft := by
  obtain ⟨hz, -⟩ := counts_entries h.zlist
  obtain ⟨-, hn⟩ := counts_entries h.nlist
  refine ⟨fun hzero => ?_, fun k hk => ?_⟩
  · rw [Semaphore.semzcnt, hz, show x.zlist.entries = [] from hquiet.1 hzero]
    rfl
  · obtain ⟨w, hw, hget⟩ := hn k hk
    exact ⟨w, hget, hquiet.2 w (Multiset.mem_coe.mp hw)⟩

theorem no_lost_wakeup {past : List (Traced × SemRequest)}
    (h : Run (semSystem H) (fun _ st e => e.Wakes H st) past st) :
    ∀ sem ∈ st.s.semList, ∀ x ∈ sem.sems, x.NoneLeft := by
  have hst := kept_run h fun _ _ _ he => he.1
  have hquiet : AllQuiet st.s.view.sets := by
    have hboth : st.Kept ∧ AllQuiet st.s.view.sets := by
      refine h.invariant (P := fun st => st.Kept ∧ AllQuiet st.s.view.sets) ?_ ?_
      · intro st hinit
        refine ⟨kept_initially hinit, ?_⟩
        rw [SemServer.view, hinit.1]
        exact fun V hV => absurd hV List.not_mem_nil
      · intro past st e st' hst he hstep
        exact ⟨hst.1.handled he.1 hstep, handled_quiet hst.1 hst.2 he hstep⟩
    exact hboth.2
  intro sem hsem x hx
  exact noneLeft_of_quiet (hst.sound sem hsem x hx)
    (hquiet sem.view (List.mem_map_of_mem hsem) x.view (List.mem_map_of_mem hx))

end Runs

theorem no_lost_wakeup_sleeper : ∃ st, ipcStart.after usualSemHeaders
    [semgetOf 1, semopOf 2 [⟨0, -1, false⟩]] = .ok st ∧
      ∀ sem ∈ st.s.semList, ∀ x ∈ sem.sems, x.NoneLeft := by
  obtain ⟨st, hget⟩ : ∃ st, ipcStart.handled usualSemHeaders (semgetOf 1) = .ok st := ⟨_, rfl⟩
  obtain ⟨st', hop⟩ : ∃ st',
      st.handled usualSemHeaders (semopOf 2 [⟨0, -1, false⟩]) = .ok st' := by
    cases hget
    exact ⟨_, rfl⟩
  have hnew : (semgetOf 1).Wakes usualSemHeaders ipcStart := by
    refine ⟨trivial, fun r hr hupdates => ?_⟩
    cases hr
    cases hupdates
  have hwakes : (semopOf 2 [⟨0, -1, false⟩]).Wakes usualSemHeaders st := by
    cases hget
    refine ⟨fun _ => rfl, fun r hr _ => ?_⟩
    cases hr
    intro sem hsem x hx
    obtain rfl := List.mem_singleton.mp hsem
    obtain rfl := List.mem_singleton.mp hx
    refine ⟨fun _ => Nat.zero_le _, fun pre w post hns _ hw => ?_⟩
    have hmem : w ∈ [(⟨2, 1, ⟨1, 0⟩⟩ : Waiting)] := by
      change [(⟨2, 1, ⟨1, 0⟩⟩ : Waiting)] = _ at hns
      rw [hns]
      simp
    obtain rfl := List.mem_singleton.mp hmem
    exact absurd hw (by decide)
  have hstart : Run (semSystem usualSemHeaders) (fun _ st e => e.Wakes usualSemHeaders st) []
      ipcStart := .start ⟨rfl, rfl⟩
  refine ⟨st', ?_, no_lost_wakeup ((hstart.next hnew hget).next hwakes hop)⟩
  simp only [Traced.after, hget, hop, bind, Except.bind]

theorem second_waiter_sleeps : ∃ past st,
    Run (semSystem usualSemHeaders) (fun _ _ e => e.Grows) past st ∧
      ∃ sem ∈ st.s.semList, ∃ x ∈ sem.sems, x.semval = 0 ∧ x.semzcnt = 1 ∧
        ∃ w, x.zlist.get 0 = .ok w ∧ w.who = 3 := by
  obtain ⟨st, hafter, hleft⟩ : ∃ st, ipcStart.after usualSemHeaders [semgetOf 1, setvalOf 0 1,
      semopOf 2 [⟨0, 0, false⟩], semopOf 3 [⟨0, 0, false⟩], setvalOf 0 0] = .ok st ∧
      ∃ sem ∈ st.s.semList, ∃ x ∈ sem.sems, x.semval = 0 ∧ x.semzcnt = 1 ∧
        ∃ w, x.zlist.get 0 = .ok w ∧ w.who = 3 :=
    ⟨_, rfl, _, List.mem_singleton.mpr rfl, _, List.mem_singleton.mpr rfl, rfl, rfl, _, rfl, rfl⟩
  have hstart : Run (semSystem usualSemHeaders) (fun _ _ e => e.Grows) [] ipcStart :=
    .start ⟨rfl, rfl⟩
  obtain ⟨past, hrun⟩ := run_after hstart
    (by simp [SemRequest.Grows, semgetOf, setvalOf, semopOf]) hafter
  exact ⟨past, st, hrun, hleft⟩

end Ipc
