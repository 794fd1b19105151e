import Cs111.Ipc.Requests

namespace Ipc
open TransitionSystem

structure QueryExitStruct where
  avail : Bool
  ep : ℤ

def QueryExitStruct.free : QueryExitStruct := ⟨true, 0⟩

def takeFirst : List QueryExitStruct → Option ℤ × List QueryExitStruct
  | [] => (none, [])
  | x :: xs =>
    if x.avail = false then (some x.ep, .free :: xs)
    else ((takeFirst xs).1, x :: (takeFirst xs).2)

-- The endpoint and whether there are more; ep is not initialised.
def doQueryExit (ep : ℤ) (array : List QueryExitStruct) :
    (ℤ × Bool) × List QueryExitStruct :=
  let r := takeFirst array
  ((r.1.getD ep, decide (0 < r.2.countP fun x => !x.avail)), r.2)

def putFirst (ep : ℤ) : List QueryExitStruct → List QueryExitStruct
  | [] => []
  | x :: xs => if x.avail then ⟨false, ep⟩ :: xs else x :: putFirst ep xs

structure NotifySig where
  result : Errno
  array : List QueryExitStruct
  takes : Bool
  notifies : Bool

def doNotifySig (ep ipcEp : ℤ) (array : List QueryExitStruct) : NotifySig :=
  let notifies := decide (ipcEp ≠ 0 ∧ ep ≠ ipcEp)
  if array.any fun x => !x.avail && x.ep == ep then ⟨.OK, array, false, notifies⟩
  else if array.countP (·.avail) = 0 then ⟨.ENOMEM, array, false, false⟩
  else ⟨.OK, putFirst ep array, true, notifies⟩

structure QueryExitLib where
  ret : Bool → ℤ
  ret_false : ret false = 0
  ret_true : 0 < ret true

-- The table, VM's pending notification to the IPC server, and whether the server is in the loop of
-- sem_process_vm_notify(); with what was queued and handed out, newest first, and whether a
-- notification was sent since the loop last ended.
structure QueryState where
  array : List QueryExitStruct
  pending : Bool
  looping : Bool
  queued : List ℤ
  handed : List ℤ
  owed : Bool

inductive QueryEvent where
  | notifySig (ep ipcEp : ℤ)
  | receive
  | query (ep : ℤ)

section Steps
variable (L : QueryExitLib) (server : ℤ) (st : QueryState)

def QueryState.notifySig (ep ipcEp : ℤ) : QueryState :=
  let r := doNotifySig ep ipcEp st.array
  let sent := r.notifies && ipcEp == server
  { st with
    array := r.array
    pending := st.pending || sent
    queued := if r.takes then ep :: st.queued else st.queued
    owed := st.owed || sent }

def QueryState.receive : QueryState := { st with pending := false, looping := true }

def QueryState.query (ep : ℤ) : QueryState :=
  let r := doQueryExit ep st.array
  let ret := L.ret r.1.2
  { st with
    array := r.2
    looping := decide (0 < ret)
    handed := if 0 ≤ ret then r.1.1 :: st.handed else st.handed
    owed := st.owed && decide (0 < ret) }

def QueryEvent.Steps : QueryEvent → QueryState → Prop
  | .notifySig ep ipcEp, st' => st' = st.notifySig server ep ipcEp
  | .receive, st' => st.pending = true ∧ st.looping = false ∧ st' = st.receive
  | .query ep, st' => st.looping = true ∧ st' = st.query L ep

def querySystem (nrProcs : ℕ) : TransitionSystem QueryState QueryEvent where
  initial st := st = ⟨List.replicate nrProcs .free, false, false, [], [], false⟩
  step st e st' := e.Steps L server st st'

def QueryState.serve (ep : ℤ) : QueryState :=
  if st.looping then st.query L ep else if st.pending then st.receive else st

end Steps

def signalled (array : List QueryExitStruct) : List ℤ :=
  (array.filter fun x => !x.avail).map (·.ep)

section Table
variable {array : List QueryExitStruct} {x : QueryExitStruct} {ep : ℤ}

@[simp] theorem signalled_free : signalled (.free :: array) = signalled array := rfl

theorem signalled_cons : signalled (x :: array) =
    if x.avail then signalled array else x.ep :: signalled array := by
  rw [signalled, List.filter_cons]
  cases x.avail <;> rfl

theorem takeFirst_signalled (array : List QueryExitStruct) :
    (takeFirst array).1 = (signalled array).head? ∧
      signalled (takeFirst array).2 = (signalled array).tail := by
  induction array with
  | nil => exact ⟨rfl, rfl⟩
  | cons x array ih =>
    rw [takeFirst, signalled_cons]
    cases hx : x.avail with
    | false => exact ⟨rfl, rfl⟩
    | true =>
      refine ⟨ih.1, ?_⟩
      simp only [Bool.true_eq_false, if_false, if_true]
      rw [signalled_cons, hx, if_pos rfl]
      exact ih.2

theorem count_signalled (array : List QueryExitStruct) :
    array.countP (fun x => !x.avail) = (signalled array).length := by
  rw [List.countP_eq_length_filter, signalled, List.length_map]

theorem mem_signalled : ep ∈ signalled array ↔
    (array.any fun x => !x.avail && x.ep == ep) = true := by
  simp only [signalled, List.mem_map, List.mem_filter, List.any_eq_true, Bool.and_eq_true, beq_iff_eq]
  constructor
  · rintro ⟨x, ⟨hx, havail⟩, rfl⟩
    exact ⟨x, hx, havail, rfl⟩
  · rintro ⟨x, hx, havail, rfl⟩
    exact ⟨x, ⟨hx, havail⟩, rfl⟩

theorem putFirst_signalled (h : array.countP (·.avail) ≠ 0) :
    (signalled (putFirst ep array)).Perm (ep :: signalled array) := by
  induction array with
  | nil => exact absurd rfl h
  | cons x array ih =>
    rw [putFirst, signalled_cons]
    cases hx : x.avail with
    | true =>
      simp only [if_true]
      rw [signalled_cons]
      exact List.Perm.refl _
    | false =>
      rw [List.countP_cons_of_neg (by simp [hx])] at h
      simp only [Bool.false_eq_true, if_false]
      rw [signalled_cons, hx, if_neg Bool.false_ne_true]
      exact ((ih h).cons x.ep).trans (List.Perm.swap ..)

theorem doNotifySig_cases (ep ipcEp : ℤ) (array : List QueryExitStruct) :
    (doNotifySig ep ipcEp array).takes = false ∧ (doNotifySig ep ipcEp array).array = array ∨
      (doNotifySig ep ipcEp array).takes = true ∧ ep ∉ signalled array ∧
        (signalled (doNotifySig ep ipcEp array).array).Perm (ep :: signalled array) := by
  rw [doNotifySig]
  split
  · exact .inl ⟨rfl, rfl⟩
  · rename_i hnew
    split
    · exact .inl ⟨rfl, rfl⟩
    · rename_i hroom
      exact .inr ⟨rfl, fun hmem => hnew (mem_signalled.mp hmem), putFirst_signalled hroom⟩

theorem doQueryExit_cons {rest : List ℤ} {first : ℤ} (h : signalled array = first :: rest)
    (ep : ℤ) : (doQueryExit ep array).1 = (first, decide (rest ≠ [])) ∧
      signalled (doQueryExit ep array).2 = rest := by
  obtain ⟨hfirst, hrest⟩ := takeFirst_signalled array
  rw [h] at hfirst hrest
  refine ⟨?_, hrest⟩
  rw [doQueryExit, hfirst, count_signalled, hrest]
  simp [List.length_pos_iff]

end Table

structure QueryState.Exact (st : QueryState) : Prop where
  balance : (st.queued : Multiset ℤ) = st.handed + signalled st.array
  once : (signalled st.array).Nodup
  owed : st.owed = true → st.pending = true ∨ st.looping = true
  busy : st.looping = true → signalled st.array ≠ []

section Runs
variable {L : QueryExitLib} {server : ℤ} {nrProcs : ℕ} {st st' : QueryState}

theorem exact_initially (h : (querySystem L server nrProcs).initial st) : st.Exact := by
  cases h
  have hnone : signalled (List.replicate nrProcs .free) = [] := by
    induction nrProcs with
    | zero => rfl
    | succ n ih => rw [List.replicate_succ, signalled_free, ih]
  refine ⟨?_, ?_, fun howed => ?_, fun hloop => ?_⟩
  · rw [hnone]
    rfl
  · rw [hnone]
    exact .nil
  · cases howed
  · cases hloop

theorem QueryState.Exact.notifySig (h : st.Exact) (ep ipcEp : ℤ) :
    (st.notifySig server ep ipcEp).Exact := by
  have howed : (st.notifySig server ep ipcEp).owed = true →
      (st.notifySig server ep ipcEp).pending = true ∨
        (st.notifySig server ep ipcEp).looping = true := by
    intro howed
    rcases (Bool.or_eq_true ..).mp howed with hold | hsent
    · rcases h.owed hold with hpending | hloop
      · exact .inl (by simp [QueryState.notifySig, hpending])
      · exact .inr hloop
    · exact .inl ((Bool.or_eq_true ..).mpr (.inr hsent))
  rcases doNotifySig_cases ep ipcEp st.array with ⟨htakes, harray⟩ | ⟨htakes, hnew, hperm⟩
  · refine ⟨?_, ?_, howed, ?_⟩
    · simp only [QueryState.notifySig, htakes, harray]
      exact h.balance
    · simp only [QueryState.notifySig, harray]
      exact h.once
    · simp only [QueryState.notifySig, harray]
      exact h.busy
  · refine ⟨?_, ?_, howed, fun _ hnone => ?_⟩
    · simp only [QueryState.notifySig, htakes, if_true]
      rw [Multiset.coe_eq_coe.mpr hperm, ← Multiset.cons_coe, ← Multiset.cons_coe, h.balance,
        Multiset.add_cons]
    · exact hperm.nodup_iff.mpr (List.nodup_cons.mpr ⟨hnew, h.once⟩)
    · have hlen := hperm.length_eq
      simp only [QueryState.notifySig] at hnone
      rw [hnone] at hlen
      cases hlen

theorem query_cons {first : ℤ} {rest : List ℤ} (h : signalled st.array = first :: rest) (ep : ℤ) :
    signalled (st.query L ep).array = rest ∧ (st.query L ep).handed = first :: st.handed ∧
      ((st.query L ep).looping = true ↔ rest ≠ []) ∧
      ((st.query L ep).owed = true → (st.query L ep).looping = true) ∧
      (st.query L ep).queued = st.queued := by
  obtain ⟨hreply, hrest⟩ := doQueryExit_cons h ep
  have hmore : 0 < L.ret (decide (rest ≠ [])) ↔ rest ≠ [] := by
    by_cases hnil : rest = []
    · simp [hnil, L.ret_false]
    · simp [hnil, L.ret_true]
  have hret : 0 ≤ L.ret (decide (rest ≠ [])) := by
    by_cases hnil : rest = []
    · simp [hnil, L.ret_false]
    · simpa [hnil] using L.ret_true.le
  refine ⟨hrest, ?_, ?_, fun howed => ((Bool.and_eq_true ..).mp howed).2, rfl⟩
  · simp only [QueryState.query, hreply]
    rw [if_pos hret]
  · simp only [QueryState.query, hreply, decide_eq_true_eq]
    exact hmore

theorem QueryState.Exact.query (h : st.Exact) (hloop : st.looping = true) (ep : ℤ) :
    (st.query L ep).Exact := by
  cases hsig : signalled st.array with
  | nil => exact absurd hsig (h.busy hloop)
  | cons first rest =>
    obtain ⟨hrest, hhanded, hlooping, howed, hqueued⟩ := query_cons (L := L) hsig ep
    refine ⟨?_, ?_, fun ho => .inr (howed ho), fun hl => ?_⟩
    · rw [hqueued, hhanded, hrest, h.balance, hsig, ← Multiset.cons_coe, ← Multiset.cons_coe,
        Multiset.add_cons, Multiset.cons_add]
    · have honce := h.once
      rw [hsig] at honce
      rw [hrest]
      exact (List.nodup_cons.mp honce).2
    · rw [hrest]
      exact hlooping.mp hl

def QueryEvent.Meets (st : QueryState) : QueryEvent → Prop
  | .receive => signalled st.array ≠ []
  | _ => True

theorem QueryState.Exact.step {e : QueryEvent} (h : st.Exact) (hmeets : e.Meets st)
    (hstep : e.Steps L server st st') : st'.Exact := by
  cases e with
  | notifySig ep ipcEp =>
    cases hstep
    exact h.notifySig ep ipcEp
  | receive =>
    obtain ⟨-, -, rfl⟩ := hstep
    exact ⟨h.balance, h.once, fun _ => .inr rfl, fun _ => hmeets⟩
  | query ep =>
    obtain ⟨hloop, rfl⟩ := hstep
    exact h.query hloop ep

theorem serve_all (h : st.Exact) (hcomes : st.pending = true ∨ st.looping = true)
    (hsome : signalled st.array ≠ []) (ep : ℤ) :
    ∃ k, (((fun s => QueryState.serve L s ep)^[k] st).handed : Multiset ℤ) = st.queued := by
  have hrun : ∀ n, ∀ s : QueryState, s.Exact → s.looping = true →
      (signalled s.array).length = n →
      ∃ k, (((fun s => QueryState.serve L s ep)^[k] s).handed : Multiset ℤ) = s.queued := by
    intro n
    induction n with
    | zero => exact fun s hs hloop hlen => absurd (List.length_eq_zero_iff.mp hlen) (hs.busy hloop)
    | succ n ih =>
      intro s hs hloop hlen
      cases hsig : signalled s.array with
      | nil => exact absurd hsig (hs.busy hloop)
      | cons first rest =>
        obtain ⟨hrest, -, hlooping, -, hqueued⟩ := query_cons (L := L) hsig ep
        have hserve : s.serve L ep = s.query L ep := if_pos hloop
        by_cases hnil : rest = []
        · refine ⟨1, ?_⟩
          have hbalance := (hs.query (L := L) hloop ep).balance
          rw [hrest, hnil, hqueued] at hbalance
          rw [Function.iterate_one, hserve, hbalance]
          exact (add_zero _).symm
        · have hlen' : (signalled (s.query L ep).array).length = n := by
            rw [hrest]
            rw [hsig] at hlen
            exact Nat.succ.inj hlen
          obtain ⟨k, hk⟩ := ih _ (hs.query hloop ep) (hlooping.mpr hnil) hlen'
          refine ⟨k + 1, ?_⟩
          rw [Function.iterate_succ_apply, hserve, hk, hqueued]
  by_cases hloop : st.looping = true
  · exact hrun _ st h hloop rfl
  · have hpending := hcomes.resolve_right hloop
    have hserve : st.serve L ep = st.receive := by rw [QueryState.serve, if_neg hloop, if_pos hpending]
    have hreceive : st.receive.Exact := ⟨h.balance, h.once, fun _ => .inr rfl, fun _ => hsome⟩
    obtain ⟨k, hk⟩ := hrun _ st.receive hreceive rfl rfl
    exact ⟨k + 1, by rw [Function.iterate_succ_apply, hserve, hk]; rfl⟩

theorem removal_interrupts {pt : ℤ} {Ls Ls' : List SetView} {d : List Deed}
    (h : Pass (Removal pt) Ls Ls' d) :
    ∀ x ∈ d, ∀ p w e, x = Deed.left p w e → e = .EINTR ∧ w.who = pt := by
  have hone : ∀ p ws ws' d, Removed pt p ws ws' d →
      ∀ x ∈ d, ∀ p w e, x = Deed.left p w e → e = .EINTR ∧ w.who = pt := by
    intro p ws ws' d hr x hx p' w e he
    cases hr with
    | none => exact absurd hx List.not_mem_nil
    | one hwho =>
      obtain rfl := List.mem_singleton.mp hx
      cases he
      exact ⟨rfl, hwho⟩
  refine Each.forall_notes h fun _ V _ V' dV hV => ?_
  refine hV.2.forall_notes fun num v _ v' dv hv => ?_
  obtain ⟨dz, dn, rfl, -, hz, hn⟩ := hv
  intro x hx
  rcases List.mem_append.mp hx with hx | hx
  · exact hone _ _ _ _ hz x hx
  · exact hone _ _ _ _ hn x hx

theorem exited_interrupts {pts : List ℤ} {Ls Ls' : List SetView} {d : List Deed}
    (h : Exited pts Ls Ls' d) :
    ∀ x ∈ d, ∀ p w e, x = Deed.left p w e → e = .EINTR ∧ w.who ∈ pts := by
  induction h with
  | nil => exact fun x hx => absurd hx List.not_mem_nil
  | cons hpass _ ih =>
    intro x hx p w e he
    rcases List.mem_append.mp hx with hx | hx
    · obtain ⟨hintr, hwho⟩ := removal_interrupts hpass x hx p w e he
      exact ⟨hintr, hwho ▸ List.mem_cons_self⟩
    · obtain ⟨hintr, hwho⟩ := ih x hx p w e he
      exact ⟨hintr, List.mem_cons_of_mem _ hwho⟩

theorem signals_handed_once {past : List (QueryState × QueryEvent)}
    (h : Run (querySystem L server nrProcs) (fun _ st e => e.Meets st) past st) :
    (st.queued : Multiset ℤ) = st.handed + signalled st.array ∧ (signalled st.array).Nodup ∧
    (∀ ep st', (QueryEvent.query ep).Steps L server st st' →
      ∃ first ∈ signalled st.array, st'.handed = first :: st.handed ∧
        (st'.looping = false → (st'.handed : Multiset ℤ) = st'.queued)) ∧
    (st.owed = true → st.pending = true ∨ st.looping = true) ∧
    (st.pending = true ∨ st.looping = true → signalled st.array ≠ [] → ∀ ep, ∃ k,
      (((fun s => QueryState.serve L s ep)^[k] st).handed : Multiset ℤ) = st.queued) ∧
    ∀ l pts l' d, AllSound l → (∀ pt ∈ pts, pt ∈ st.handed) →
      semProcessVmNotify l pts = .ok (l', d) →
      ∀ p w e, Deed.left p w e ∈ d → e = .EINTR ∧ w.who ∈ st.queued := by
  have hst : st.Exact := h.invariant (fun _ hinit => exact_initially hinit)
    fun _ _ _ _ hst hmeets hstep => hst.step hmeets hstep
  refine ⟨hst.balance, hst.once, ?_, hst.owed, fun hcomes hsome => serve_all hst hcomes hsome, ?_⟩
  · rintro ep st' ⟨hloop, rfl⟩
    cases hsig : signalled st.array with
    | nil => exact absurd hsig (hst.busy hloop)
    | cons first rest =>
      obtain ⟨hrest, hhanded, hlooping, -⟩ := query_cons (L := L) hsig ep
      refine ⟨first, List.mem_cons_self, hhanded, fun hdone => ?_⟩
      have hnil : rest = [] := by
        by_contra hne
        rw [hlooping.mpr hne] at hdone
        cases hdone
      have hbalance := (hst.query (L := L) hloop ep).balance
      rw [hrest, hnil] at hbalance
      rw [hbalance]
      exact (add_zero _).symm
  · intro l pts l' d hl hpts hloop p w e hleft
    obtain ⟨l₁, d₁, hloop₁, hexited, -⟩ := exits_ok hl pts
    rw [hloop] at hloop₁
    cases hloop₁
    obtain ⟨hintr, hwho⟩ := exited_interrupts hexited _ hleft p w e rfl
    refine ⟨hintr, ?_⟩
    have hmem : w.who ∈ (st.queued : Multiset ℤ) := by
      rw [hst.balance]
      exact Multiset.mem_add.mpr (.inl (Multiset.mem_coe.mpr (hpts _ hwho)))
    exact Multiset.mem_coe.mp hmem

end Runs

def boolQueryLib : QueryExitLib := ⟨fun more => if more then 1 else 0, rfl, by decide⟩

def queryStart : QueryState := ⟨List.replicate 16 .free, false, false, [], [], false⟩

def drained : QueryState :=
  ((((queryStart.notifySig 9 7 9).receive).notifySig 9 8 9).query boolQueryLib 0).query
    boolQueryLib 0

theorem drained_run {ok : List (QueryState × QueryEvent) → QueryState → QueryEvent → Prop}
    (hok : ∀ past st e, QueryEvent.Meets st e → ok past st e) :
    ∃ past, Run (querySystem boolQueryLib 9 16) ok past drained := by
  have hstart : Run (querySystem boolQueryLib 9 16) ok [] queryStart := .start rfl
  have hnotify := hstart.next (hok _ _ (.notifySig 7 9) trivial) rfl
  have hreceive := hnotify.next (hok _ _ .receive (List.cons_ne_nil 7 [])) ⟨rfl, rfl, rfl⟩
  have hagain := hreceive.next (hok _ _ (.notifySig 8 9) trivial) rfl
  have hfirst := hagain.next (hok _ _ (.query 0) trivial) ⟨rfl, rfl⟩
  exact ⟨_, hfirst.next (hok _ _ (.query 0) trivial) ⟨rfl, rfl⟩⟩

theorem signals_handed_once_drained : ∃ past st,
    Run (querySystem boolQueryLib 9 16) always past st ∧ st.handed = [8, 7] ∧
      (st.queued : Multiset ℤ) = st.handed + signalled st.array := by
  obtain ⟨past, hrun⟩ := drained_run fun _ _ _ h => h
  exact ⟨past, drained, hrun.mono fun _ _ _ _ => trivial, rfl, (signals_handed_once hrun).1⟩

theorem stale_notification : ∃ past st,
    Run (querySystem boolQueryLib 9 16) always past st ∧ ∃ ep ∈ st.handed, ep ∉ st.queued := by
  have hany : ∀ past st e, QueryEvent.Meets st e → always past st e := fun _ _ _ _ => trivial
  obtain ⟨past, hrun⟩ := drained_run hany
  have hreceive := hrun.next (show always _ _ QueryEvent.receive from trivial) ⟨rfl, rfl, rfl⟩
  have hquery := hreceive.next (show always _ _ (QueryEvent.query 5) from trivial) ⟨rfl, rfl⟩
  exact ⟨_, _, hquery, 5, List.mem_cons_self, by decide⟩

end Ipc
