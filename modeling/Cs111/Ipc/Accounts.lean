import Cs111.Ipc.Requests

namespace Ipc
open HeapList (Fault)

structure Account (A : Type*) where
  weight : ℤ → ℕ → SemView → A
  out : Deed → A
  into : Deed → A

namespace Account
variable {A : Type*} [AddCancelCommMonoid A] {a : Account A} {L L' : List SetView} {V V' : SetView}
  {v v' : SemView} {set : ℤ} {num call : ℕ} {d d' : List Deed} {x y z : A}

def Balanced (a : Account A) (before after : A) (d : List Deed) : Prop :=
  after + tally a.out d = before + tally a.into d

def ofSems (a : Account A) (set : ℤ) (vs : List SemView) : A := weigh (a.weight set) 0 vs

def ofSet (a : Account A) (V : SetView) : A := a.ofSems V.id V.sems

def total (a : Account A) (L : List SetView) : A := weigh (fun _ => a.ofSet) 0 L

theorem Balanced.append (h : a.Balanced x y d) (h' : a.Balanced y z d') :
    a.Balanced x z (d ++ d') := by
  rw [Balanced] at h h' ⊢
  rw [tally_append, tally_append, add_comm (tally a.out d), ← add_assoc, h', add_right_comm, h,
    add_assoc]

theorem Balanced.add {x' y' : A} (h : a.Balanced x y d) (h' : a.Balanced x' y' d') :
    a.Balanced (x + x') (y + y') (d ++ d') := by
  rw [Balanced] at h h' ⊢
  rw [tally_append, tally_append, add_add_add_comm, h, h', add_add_add_comm]

theorem balanced_at {B : Type*} {μ : ℕ → B → A} {l : List B} {b c : B} {k : ℕ}
    (h : a.Balanced (μ k b) (μ k c) d) (hb : l[k]? = some b) :
    a.Balanced (weigh μ 0 l) (weigh μ 0 (l.set k c)) d := by
  have hset := weigh_set (μ := μ) (i := 0) (y := c) hb
  rw [Nat.zero_add] at hset
  rw [Balanced] at h ⊢
  refine add_right_cancel (b := μ k b) ?_
  rw [add_right_comm, hset, add_assoc, h, ← add_assoc, add_right_comm]

def Keeps (a : Account A) (R : ℤ → ℕ → SemView → SemView → List Deed → Prop) : Prop :=
  ∀ set num v v' d, R set num v v' d → a.Balanced (a.weight set num v) (a.weight set num v') d

theorem Keeps.pass {R : ℤ → ℕ → SemView → SemView → List Deed → Prop} (hR : a.Keeps R)
    (h : Pass R L L' d) : a.Balanced (a.total L) (a.total L') d := by
  refine Each.balance h fun _ V _ V' d hV => ?_
  obtain ⟨hid, heach⟩ := hV
  rw [ofSet, ofSet, hid]
  exact heach.balance fun num v _ v' d hv => hR _ _ _ _ _ hv

theorem Keeps.exited {pts : List ℤ} (hR : ∀ pt, a.Keeps (Removal pt)) (h : Exited pts L L' d) :
    a.Balanced (a.total L) (a.total L') d := by
  induction h with
  | nil => rfl
  | cons hpass _ ih => exact ((hR _).pass hpass).append ih

def KeepsCall (a : Account A) (call : ℕ) : Prop :=
  ∀ alter who i semOp r, a.Keeps fun set num v v' d =>
    Tried alter who ⟨call, i⟩ set num semOp v r v' d

theorem KeepsCall.carried {alter : Bool} {who : ℤ} {os : List Sembuf} {i : ℕ} {vs vs' : List SemView}
    {r : Errno} {n : ℕ} (ha : a.KeepsCall call) (h : Carried alter who call set os i vs r n vs' d) :
    a.Balanced (a.ofSems set vs) (a.ofSems set vs') d := by
  induction h with
  | nil => rfl
  | refused => rfl
  | done hv htried _ ih => exact (balanced_at (ha _ _ _ _ _ _ _ _ _ _ htried) hv).append ih
  | slept hv htried _ ih => exact (balanced_at (ha _ _ _ _ _ _ _ _ _ _ htried) hv).append ih

theorem Balanced.replace {i : ℕ} {vs : List SemView} (hV : L[i]? = some V)
    (h : a.Balanced (a.ofSems V.id V.sems) (a.ofSems V.id vs) d) :
    a.Balanced (a.total L) (a.total (L.set i ⟨V.id, vs⟩)) d :=
  balanced_at (μ := fun _ => a.ofSet) (c := ⟨V.id, vs⟩) h hV

theorem total_perm (h : L.Perm L') : a.total L = a.total L' := by
  rw [total, total, weigh_const, weigh_const]
  exact (h.map a.ofSet).sum_eq

theorem total_cons : a.total (V :: L) = a.ofSet V + a.total L := by
  rw [total, total, weigh_const, weigh_const, List.map_cons, List.sum_cons]

theorem total_append : a.total (L ++ L') = a.total L + a.total L' := by
  rw [total, total, total, weigh_const, weigh_const, weigh_const, List.map_append, List.sum_append]

structure Lawful (a : Account A) (call : ℕ) : Prop where
  removal : ∀ pt, a.Keeps (Removal pt)
  woken : a.Keeps Woken
  tried : a.KeepsCall call
  dropped : ∀ set num v, a.Balanced (a.weight set num v) 0 (allDropped set num v)
  fresh : ∀ set num, a.weight set num ⟨0, [], []⟩ = 0
  queues : ∀ set num v v', v.queues = v'.queues → a.weight set num v = a.weight set num v'
  answered : ∀ who e, a.out (.answered call who e) = 0 ∧ a.into (.answered call who e) = 0

theorem Lawful.revalued (ha : a.Lawful call) {vs us : List SemView} {set : ℤ}
    (h : vs.map SemView.queues = us.map SemView.queues) : a.ofSems set vs = a.ofSems set us := by
  rw [ofSems, ofSems]
  generalize (0 : ℕ) = k
  induction vs generalizing k us with
  | nil =>
    cases us with
    | nil => rfl
    | cons u us => cases h
  | cons v vs ih =>
    cases us with
    | nil => cases h
    | cons u us =>
      obtain ⟨hone, hrest⟩ := List.cons.inj h
      rw [weigh, weigh, ih hrest, ha.queues _ _ _ _ hone]

theorem Lawful.prep {H : SemHeaders} {s : SemServer} {e : SemRequest} {W : ServerView} {b : Bool}
    (ha : a.Lawful call) (h : Prep H s call e W d b) :
    a.Balanced (a.total s.view.sets) (a.total W.sets) d := by
  have hanswer : ∀ c r n x, a.Balanced x x (answer c call r n) := by
    intro c r n x
    rw [answer]
    split
    · obtain ⟨hout, hinto⟩ := ha.answered c.who r
      rw [Balanced, tally_cons, tally_cons, hout, hinto]
      rfl
    · rfl
  cases h with
  | unchanged => rfl
  | @created c key nsems flag n =>
    have hnew : a.total [⟨s.identifier, List.replicate n ⟨0, [], []⟩⟩] = 0 := by
      rw [total_cons, ofSet, ofSems, weigh_zero 0 _ fun k v hv => ?_]
      · exact zero_add 0
      · obtain rfl := List.eq_of_mem_replicate (List.mem_of_getElem? hv)
        exact ha.fresh _ _
    rw [Balanced, total_append, hnew, add_zero]
    rfl
  | valued hV hqueues =>
    refine Balanced.replace hV ?_
    rw [ha.revalued hqueues]
    rfl
  | @dropped _ _ _ V L _ hperm heach =>
    have hdropped : a.Balanced (a.ofSet V) 0 d := by
      have hbalance := heach.balance (μ := a.weight V.id) (ν := fun _ _ => 0) (φ := a.out)
        (ψ := a.into) fun num v _ v' d hv => by
          rw [hv.2]
          exact ha.dropped V.id num v
      rwa [weigh_zero 0 V.sems fun _ _ _ => rfl] at hbalance
    rw [Balanced] at hdropped ⊢
    rw [total_perm hperm, total_cons, add_right_comm, ← hdropped, zero_add, add_comm]
  | @refused c m e =>
    obtain ⟨hout, hinto⟩ := ha.answered c.who e
    rw [Balanced, tally_cons, tally_cons, hout, hinto]
    rfl
  | @carried c m i sem r n vs d hfind _ hcarried =>
    obtain ⟨hget, -⟩ := semFindId_found hfind
    have hview : s.view.sets[i]? = some sem.view := by simp [SemServer.view, hget]
    exact (Balanced.replace hview (ha.tried.carried hcarried)).append (hanswer ..)
  | exited hexited => exact Keeps.exited ha.removal hexited

theorem Lawful.finish {r : Prepared} {s : SemServer} (ha : a.Lawful call)
    (hl : AllSound r.s.semList) (h : r.finish = .ok (s, d)) :
    ∃ d', d = r.deeds ++ d' ∧ a.Balanced (a.total r.s.view.sets) (a.total s.view.sets) d' := by
  obtain ⟨-, -, ⟨-, rfl, rfl⟩ | ⟨-, d', rfl, hpass⟩⟩ := finish_refines hl h
  · exact ⟨[], by rw [List.append_nil], rfl⟩
  · exact ⟨d', rfl, ha.woken.pass hpass⟩

theorem Lawful.handle {H : SemHeaders} {r : Prepared} {s s' : SemServer} {e : SemRequest}
    (ha : a.Lawful call) (hs : AllSound s.semList) (hgrows : e.Grows)
    (hprepare : e.prepare H s call = .ok r) (hfinish : r.finish = .ok (s', d)) :
    a.Balanced (a.total s.view.sets) (a.total s'.view.sets) d := by
  obtain ⟨hprep, hsound⟩ := prepare_refines hs hgrows hprepare
  obtain ⟨d', rfl, hwoken⟩ := ha.finish hsound hfinish
  exact (ha.prep hprep).append hwoken

theorem total_at {k : ℕ} (hids : (L.map SetView.id).Nodup) (hV : V ∈ L) (hv : V.sems[k]? = some v)
    (hother : ∀ set num u, (set = V.id → num ≠ k) → a.weight set num u = 0) :
    a.total L = a.weight V.id k v := by
  obtain ⟨i, hi⟩ := List.mem_iff_getElem?.mp hV
  have hset : a.ofSet V = a.weight V.id k v := by
    rw [ofSet, ofSems, weigh_single hv, Nat.zero_add]
    intro j u _ hj
    exact hother _ _ _ fun _ => by omega
  rw [total, weigh_single hi, hset]
  intro j U hU hj
  refine weigh_zero 0 _ fun num u _ => hother _ _ _ fun hid => absurd ?_ hj
  have hmap : (L.map SetView.id)[j]? = (L.map SetView.id)[i]? := by
    rw [List.getElem?_map, List.getElem?_map, hU, hi]
    exact congrArg some hid
  obtain ⟨hlt, -⟩ := List.getElem?_eq_some_iff.mp hU
  exact (List.getElem?_inj (by simpa using hlt) hids).mp hmap

end Account

end Ipc
