import Cs111.Ipc.Sem
import Cs111.Vm.Refcount

namespace Ipc
open Kernel (Fault)
open Vm (VirBytes VmReply Endpoints Memory Lists doGetRefcount sharedBlock)

structure ShmHeaders where
  shmDest : BitVec 32
  nattch : ℕ
  nattch_ge : 8 ≤ nattch

def I386_PAGE_SIZE : ℤ := 4096

structure ShmidDs (C : ShmHeaders) where
  shmPerm : IpcPerm
  shmSegsz : ℤ
  shmNattch : BitVec C.nattch

structure ShmStruct (C : ShmHeaders) where
  key : ℤ
  id : ℤ
  shmidDs : ShmidDs C
  page : VirBytes
  phys : BitVec 32

structure ShmServer (C : ShmHeaders) where
  shmList : ℕ → ShmStruct C
  shmListNr : ℕ
  unmapped : List (VirBytes × ℤ)

def ShmServer.table {C : ShmHeaders} (s : ShmServer C) : List (ShmStruct C) :=
  (List.range s.shmListNr).map s.shmList

-- VM as it is when the i-th segment is asked for, and vm_getrefcount(), which makes a u8_t of its
-- reply; junk is what stands in a count that VM does not write.
structure VmServer where
  endpoints : Endpoints
  memory : ℕ → Memory
  lists : ∀ i, Lists ∅ (memory i)
  junk : ℕ → BitVec 8
  vmGetrefcount : VmReply × BitVec 8 → BitVec 8

structure VmServer.Stub (vm : VmServer) : Prop where
  found : ∀ cnt, vm.vmGetrefcount (.OK, cnt) = cnt
  failed : ∀ reply cnt, reply ≠ .OK → vm.vmGetrefcount (reply, cnt) = 255#8

section Update
variable {C : ShmHeaders} (vm : VmServer) (selfE : ℤ)

def refcountOf (i : ℕ) (page : VirBytes) : Except Fault (BitVec 8) := do
  let reply ← doGetRefcount vm.endpoints selfE page (vm.junk i) (vm.memory i)
  pure (vm.vmGetrefcount reply)

def pageRounded (size : ℤ) : ℤ :=
  if size.tmod I386_PAGE_SIZE ≠ 0 then size + (I386_PAGE_SIZE - size.tmod I386_PAGE_SIZE) else size

def ShmStruct.withNattch (shm : ShmStruct C) (nattch : BitVec C.nattch) : ShmStruct C :=
  { shm with shmidDs := { shm.shmidDs with shmNattch := nattch } }

def ShmStruct.wanted (shm : ShmStruct C) : Bool :=
  shm.shmidDs.shmNattch != 0 || shm.shmidDs.shmPerm.mode &&& C.shmDest == 0

def counted (shm : ShmStruct C) (rc : BitVec 8) : ShmStruct C :=
  shm.withNattch (BitVec.ofInt C.nattch ((rc.toNat : ℤ) - 1))

@[simp] theorem counted_page (shm : ShmStruct C) (rc : BitVec 8) :
    (counted shm rc).page = shm.page := rfl

@[simp] theorem counted_segsz (shm : ShmStruct C) (rc : BitVec 8) :
    (counted shm rc).shmidDs.shmSegsz = shm.shmidDs.shmSegsz := rfl

@[simp] theorem counted_mode (shm : ShmStruct C) (rc : BitVec 8) :
    (counted shm rc).shmidDs.shmPerm = shm.shmidDs.shmPerm := rfl

def updateOne (i j : ℕ) (s : ShmServer C) : Except Fault (ℕ × ShmServer C) := do
  let rc ← refcountOf vm selfE i (s.shmList i).page
  if rc = 255#8 then pure (j, s)
  else
    let shm := counted (s.shmList i) rc
    let s := { s with shmList := Function.update s.shmList i shm }
    if shm.wanted then
      pure (j + 1, if i ≠ j then { s with shmList := Function.update s.shmList j shm } else s)
    else
      pure (j, { s with unmapped := s.unmapped ++ [(shm.page, pageRounded shm.shmidDs.shmSegsz)] })

def updateFrom : ℕ → ℕ → ℕ → ShmServer C → Except Fault (ShmServer C)
  | 0, _, j, s => pure { s with shmListNr := j }
  | n + 1, i, j, s => do
    let (j, s) ← updateOne vm selfE i j s
    updateFrom n (i + 1) j s

def updateRefcountAndDestroy (s : ShmServer C) : Except Fault (ShmServer C) :=
  updateFrom vm selfE s.shmListNr 0 0 s

end Update

section Select
variable {ι β : Type*}

theorem length_filterMap_mono {f g : ι → Option β} {l : List ι}
    (hsub : ∀ a ∈ l, (f a).isSome → (g a).isSome) :
    (l.filterMap f).length ≤ (l.filterMap g).length := by
  induction l with
  | nil => simp
  | cons a l ih =>
    have hrest := ih fun b hb => hsub b (List.mem_cons_of_mem a hb)
    have ha := hsub a List.mem_cons_self
    cases hf : f a with
    | none =>
      cases hg : g a with
      | none => simpa [hf, hg] using hrest
      | some c =>
        simp only [List.filterMap_cons, hf, hg, List.length_cons]
        omega
    | some b =>
      obtain ⟨c, hg⟩ := Option.isSome_iff_exists.mp (ha (by simp [hf]))
      simpa [hf, hg] using hrest

theorem filterMap_agree {f g : ι → Option β} {l : List ι}
    (hsub : ∀ a ∈ l, (f a).isSome → (g a).isSome) (h : l.filterMap f = l.filterMap g) :
    ∀ a ∈ l, f a = g a := by
  induction l with
  | nil => simp
  | cons a l ih =>
    have hrest : ∀ b ∈ l, (f b).isSome → (g b).isSome :=
      fun b hb => hsub b (List.mem_cons_of_mem a hb)
    have hle := length_filterMap_mono hrest
    have ha := hsub a List.mem_cons_self
    cases hf : f a with
    | none =>
      cases hg : g a with
      | none =>
        simp only [List.filterMap_cons, hf, hg] at h
        exact List.forall_mem_cons.mpr ⟨hf.trans hg.symm, ih hrest h⟩
      | some c =>
        have hlen := congrArg List.length h
        simp only [List.filterMap_cons, hf, hg, List.length_cons] at hlen
        omega
    | some b =>
      obtain ⟨c, hg⟩ := Option.isSome_iff_exists.mp (ha (by simp [hf]))
      simp only [List.filterMap_cons, hf, hg, List.cons.injEq] at h
      exact List.forall_mem_cons.mpr ⟨by rw [hf, hg, h.1], ih hrest h.2⟩

end Select

section Rounds
variable {C : ShmHeaders} {vm : VmServer} {selfE : ℤ} {s s' : ShmServer C}

def kept (shm : ShmStruct C) (rc : BitVec 8) : Option (ShmStruct C) :=
  if rc ≠ 255#8 ∧ (counted shm rc).wanted = true then some (counted shm rc) else none

def destroyed (shm : ShmStruct C) (rc : BitVec 8) : Option (VirBytes × ℤ) :=
  if rc ≠ 255#8 ∧ (counted shm rc).wanted = false then
    some (shm.page, pageRounded shm.shmidDs.shmSegsz)
  else none

theorem updateOne_ok {i j : ℕ} {rc : BitVec 8} (hij : j ≤ i)
    (hrc : refcountOf vm selfE i (s.shmList i).page = .ok rc) :
    ∃ j' s', updateOne vm selfE i j s = .ok (j', s') ∧ j' ≤ i + 1 ∧
      (∀ k, i < k → s'.shmList k = s.shmList k) ∧
      (List.range j').map s'.shmList = (List.range j).map s.shmList ++
        (kept (s.shmList i) rc).toList ∧
      s'.unmapped = s.unmapped ++ (destroyed (s.shmList i) rc).toList := by
  have hrange : ∀ f : ℕ → ShmStruct C, (∀ k < j, f k = s.shmList k) →
      (List.range j).map f = (List.range j).map s.shmList :=
    fun f hf => List.map_congr_left fun k hk => hf k (List.mem_range.mp hk)
  by_cases hlost : rc = 255#8
  · refine ⟨j, s, ?_, by omega, fun _ _ => rfl, ?_, ?_⟩
    · simp [updateOne, hrc, hlost, bind, Except.bind, pure, Except.pure]
    · simp [kept, hlost]
    · simp [destroyed, hlost]
  · cases hwant : (counted (s.shmList i) rc).wanted with
    | true =>
      refine ⟨j + 1, { s with shmList := Function.update (Function.update s.shmList i
        (counted (s.shmList i) rc)) j (counted (s.shmList i) rc) }, ?_, by omega, ?_, ?_, ?_⟩
      · by_cases hne : i = j
        · subst hne
          simp [updateOne, hrc, hlost, hwant, bind, Except.bind, pure, Except.pure]
        · simp [updateOne, hrc, hlost, hwant, hne, bind, Except.bind, pure, Except.pure]
      · intro k hk
        exact (Function.update_of_ne (by omega) _ _).trans (Function.update_of_ne (by omega) _ _)
      · rw [List.range_succ, List.map_append]
        refine congrArg₂ (· ++ ·) (hrange _ fun k hk => ?_) (by simp [kept, hlost, hwant])
        exact (Function.update_of_ne (by omega) _ _).trans (Function.update_of_ne (by omega) _ _)
      · simp [destroyed, hwant]
    | false =>
      refine ⟨j, { s with
        shmList := Function.update s.shmList i (counted (s.shmList i) rc)
        unmapped := s.unmapped ++ [((s.shmList i).page, pageRounded (s.shmList i).shmidDs.shmSegsz)]
        }, ?_, by omega, ?_, ?_, ?_⟩
      · simp [updateOne, hrc, hlost, hwant, bind, Except.bind, pure, Except.pure]
      · intro k hk
        exact Function.update_of_ne (by omega) _ _
      · rw [hrange _ fun k hk => Function.update_of_ne (by omega) _ _]
        simp [kept, hwant]
      · simp [destroyed, hlost, hwant]

theorem updateFrom_ok {rc : ℕ → BitVec 8} {n i j : ℕ} (hij : j ≤ i)
    (hrc : ∀ k, i ≤ k → k < i + n → refcountOf vm selfE k (s.shmList k).page = .ok (rc k)) :
    ∃ s', updateFrom vm selfE n i j s = .ok s' ∧
      s'.table = (List.range j).map s.shmList ++
        (List.range' i n).filterMap (fun k => kept (s.shmList k) (rc k)) ∧
      s'.unmapped = s.unmapped ++
        (List.range' i n).filterMap (fun k => destroyed (s.shmList k) (rc k)) := by
  induction n generalizing i j s with
  | zero => exact ⟨_, rfl, by simp [ShmServer.table], by simp⟩
  | succ n ih =>
    obtain ⟨j₁, s₁, hround, hj₁, hsame, htable, hun⟩ :=
      updateOne_ok hij (hrc i le_rfl (by omega))
    obtain ⟨s', hrun, htable', hun'⟩ := ih hj₁ fun k hk hkn => by
      rw [hsame k hk]
      exact hrc k (by omega) (by omega)
    have hrest : ∀ {β : Type} (f : ShmStruct C → BitVec 8 → Option β),
        (List.range' (i + 1) n).filterMap (fun k => f (s₁.shmList k) (rc k)) =
          (List.range' (i + 1) n).filterMap fun k => f (s.shmList k) (rc k) := by
      intro β f
      refine List.filterMap_congr fun k hk => ?_
      rw [hsame k (by have := List.mem_range'_1.mp hk; omega)]
    have hcons : ∀ {β : Type} (f : ℕ → Option β),
        (List.range' i (n + 1)).filterMap f =
          (f i).toList ++ (List.range' (i + 1) n).filterMap f := by
      intro β f
      rw [List.range'_succ, List.filterMap_cons]
      cases f i <;> rfl
    refine ⟨s', by simp only [updateFrom, hround, bind, Except.bind, hrun], ?_, ?_⟩
    · rw [htable', htable, hrest, hcons, List.append_assoc]
    · rw [hun', hun, hrest, hcons, List.append_assoc]

theorem updateFrom_answered {n i j : ℕ} (hij : j ≤ i) (h : updateFrom vm selfE n i j s = .ok s') :
    ∀ k, i ≤ k → k < i + n → ∃ rc, refcountOf vm selfE k (s.shmList k).page = .ok rc := by
  induction n generalizing i j s with
  | zero =>
    intro k hk hkn
    omega
  | succ n ih =>
    obtain ⟨⟨j₁, s₁⟩, hround, hrun⟩ := Kernel.bind_ok.mp h
    obtain ⟨rc, hrc, _⟩ := Kernel.bind_ok.mp hround
    obtain ⟨j₂, s₂, hround', hj₁, hsame, _⟩ := updateOne_ok hij hrc
    obtain ⟨rfl, rfl⟩ : j₁ = j₂ ∧ s₁ = s₂ := by simpa [hround] using hround'
    intro k hk hkn
    rcases Nat.eq_or_lt_of_le hk with rfl | hlt
    · exact ⟨rc, hrc⟩
    · rw [← hsame k hlt]
      exact ih hj₁ hrun k hlt (by omega)

end Rounds

section Attached
variable {C : ShmHeaders} (vm : VmServer) (selfE : ℤ) (s s' : ShmServer C)

def VmServer.blockOf (k : ℕ) (page : VirBytes) : Option Vm.BlockId :=
  sharedBlock vm.endpoints selfE page (vm.memory k)

noncomputable def VmServer.attachments (k : ℕ) (page : VirBytes) : ℕ :=
  (vm.blockOf selfE k page).elim 0 fun b => (vm.memory k).sharers b - 1

def ShmStruct.view (shm : ShmStruct C) : ShmStruct C × ℕ :=
  (shm.withNattch 0, shm.shmidDs.shmNattch.toNat)

def keepIf (shm : ShmStruct C) (n : ℕ) : Option (ShmStruct C × ℕ) :=
  if 0 < n ∨ shm.shmidDs.shmPerm.mode &&& C.shmDest = 0 then some (shm.withNattch 0, n) else none

def destroyIf (shm : ShmStruct C) (n : ℕ) : Option (VirBytes × ℤ) :=
  if 0 < n ∨ shm.shmidDs.shmPerm.mode &&& C.shmDest = 0 then none
  else some (shm.page, pageRounded shm.shmidDs.shmSegsz)

structure Updated : Prop where
  table : s'.table.map ShmStruct.view = (List.range s.shmListNr).filterMap fun k =>
    keepIf (s.shmList k) (vm.attachments selfE k (s.shmList k).page)
  unmapped : s'.unmapped = s.unmapped ++ (List.range s.shmListNr).filterMap fun k =>
    destroyIf (s.shmList k) (vm.attachments selfE k (s.shmList k).page)

def Countable (C : ShmHeaders) (n : ℕ) : Prop := n < 254 ∨ n + 1 = 2 ^ C.nattch

end Attached

section Counts
variable {C : ShmHeaders} {shm : ShmStruct C} {n : ℕ}

theorem counted_nattch (rc : BitVec 8) :
    (counted shm rc).shmidDs.shmNattch.toNat =
      if rc.toNat = 0 then 2 ^ C.nattch - 1 else rc.toNat - 1 := by
  have hw : 2 ^ 8 ≤ 2 ^ C.nattch := Nat.pow_le_pow_right (by omega) C.nattch_ge
  have hlt := rc.isLt
  change (BitVec.ofInt C.nattch ((rc.toNat : ℤ) - 1)).toNat = _
  rw [BitVec.toNat_ofInt]
  generalize 2 ^ C.nattch = N at hw
  split
  · rename_i h
    rw [h, ← Int.add_emod_right, Int.emod_eq_of_lt] <;> simp <;> omega
  · rw [Int.emod_eq_of_lt] <;> omega

variable (shm) in
theorem wanted_counted (rc : BitVec 8) : (counted shm rc).wanted = true ↔
    (counted shm rc).shmidDs.shmNattch.toNat ≠ 0 ∨ shm.shmidDs.shmPerm.mode &&& C.shmDest = 0 := by
  rw [ShmStruct.wanted, Bool.or_eq_true, bne_iff_ne, beq_iff_eq, counted_mode, ne_eq, ne_eq,
    ← BitVec.toNat_inj]
  simp

-- What refcount n + 1 is read as.
variable (shm) in
theorem counted_of_countable (h : Countable C n) :
    BitVec.ofNat 8 (n + 1) ≠ 255#8 ∧
      (counted shm (BitVec.ofNat 8 (n + 1))).shmidDs.shmNattch.toNat = n := by
  have hw : 2 ^ 8 ∣ 2 ^ C.nattch := pow_dvd_pow 2 C.nattch_ge
  rw [counted_nattch, ne_eq, ← BitVec.toNat_inj, BitVec.toNat_ofNat, BitVec.toNat_ofNat]
  rcases h with h | h <;> split <;> omega

variable (shm) in
theorem countable_of_counted (hrc : BitVec.ofNat 8 (n + 1) ≠ 255#8)
    (h : (counted shm (BitVec.ofNat 8 (n + 1))).shmidDs.shmNattch.toNat = n) :
    Countable C n := by
  rw [counted_nattch] at h
  rw [ne_eq, ← BitVec.toNat_inj] at hrc
  have hw : 0 < 2 ^ C.nattch := Nat.two_pow_pos _
  unfold Countable
  simp only [BitVec.toNat_ofNat] at h hrc
  split at h <;> omega

variable (shm) in
theorem kept_of_countable (h : Countable C n) :
    (kept shm (BitVec.ofNat 8 (n + 1))).map ShmStruct.view = keepIf shm n ∧
      destroyed shm (BitVec.ofNat 8 (n + 1)) = destroyIf shm n := by
  obtain ⟨hrc, hn⟩ := counted_of_countable shm h
  have hwant := wanted_counted shm (BitVec.ofNat 8 (n + 1))
  rw [hn, ← Nat.pos_iff_ne_zero] at hwant
  by_cases hkeep : 0 < n ∨ shm.shmidDs.shmPerm.mode &&& C.shmDest = 0
  · rw [kept, if_pos ⟨hrc, hwant.mpr hkeep⟩, keepIf, if_pos hkeep, destroyed, if_neg, destroyIf,
      if_pos hkeep]
    · rw [Option.map_some, ShmStruct.view, hn]
      exact ⟨rfl, rfl⟩
    · rw [hwant.mpr hkeep]
      simp
  · have hnot : (counted shm (BitVec.ofNat 8 (n + 1))).wanted = false :=
      Bool.eq_false_iff.mpr fun he => hkeep (hwant.mp he)
    rw [kept, if_neg (by simp [hnot]), keepIf, if_neg hkeep, destroyed, if_pos ⟨hrc, hnot⟩,
      destroyIf, if_neg hkeep]
    exact ⟨rfl, rfl⟩

theorem keepIf_of_kept (h : (kept shm (BitVec.ofNat 8 (n + 1))).isSome) :
    (keepIf shm n).isSome := by
  unfold kept at h
  split at h
  · rename_i hkept
    rcases (wanted_counted _ _).mp hkept.2 with hpos | hmode
    · rcases Nat.eq_zero_or_pos n with rfl | hn
      · rw [counted_nattch] at hpos
        exact absurd rfl hpos
      · simp [keepIf, hn]
    · simp [keepIf, hmode]
  · cases h

variable (shm) in
theorem countable_of_kept
    (h : (kept shm (BitVec.ofNat 8 (n + 1))).map ShmStruct.view = keepIf shm n) :
    Countable C n := by
  rcases Nat.lt_or_ge n 254 with hlt | hge
  · exact .inl hlt
  · rw [keepIf, if_pos (.inl (by omega))] at h
    obtain ⟨shm', hkept, hview⟩ := Option.map_eq_some_iff.mp h
    unfold kept at hkept
    split at hkept
    · rename_i hrc
      cases hkept
      exact countable_of_counted shm hrc.1 (congrArg Prod.snd hview)
    · cases hkept

end Counts

section Refcounts
variable {C : ShmHeaders} {vm : VmServer} {selfE : ℤ} {s s' : ShmServer C}

theorem refcountOf_found (hstub : vm.Stub) {k : ℕ} {page : VirBytes}
    (h : (vm.blockOf selfE k page).isSome) :
    refcountOf vm selfE k page = .ok (BitVec.ofNat 8 (vm.attachments selfE k page + 1)) := by
  obtain ⟨b, hb⟩ := Option.isSome_iff_exists.mp h
  obtain ⟨hget, hpos⟩ := Vm.doGetRefcount_found (vm.junk k) (vm.lists k) hb
  have hcount : vm.attachments selfE k page + 1 = (vm.memory k).sharers b := by
    rw [VmServer.attachments, hb, Option.elim_some]
    omega
  rw [refcountOf, hget, hcount]
  exact congrArg Except.ok (hstub.found _)

theorem refcountOf_lost (hstub : vm.Stub) {k : ℕ} {page : VirBytes} {rc : BitVec 8}
    (h : vm.blockOf selfE k page = none) (hrc : refcountOf vm selfE k page = .ok rc) :
    rc = 255#8 := by
  obtain ⟨⟨reply, c⟩, hget, hrc⟩ := Kernel.bind_ok.mp hrc
  cases hrc
  exact hstub.failed _ _ (Vm.doGetRefcount_lost h hget)

theorem updated_of_countable (hstub : vm.Stub)
    (h : ∀ k < s.shmListNr, (vm.blockOf selfE k (s.shmList k).page).isSome ∧
      Countable C (vm.attachments selfE k (s.shmList k).page)) :
    ∃ s', updateRefcountAndDestroy vm selfE s = .ok s' ∧ Updated vm selfE s s' := by
  obtain ⟨s', hrun, htable, hun⟩ := updateFrom_ok (s := s) (n := s.shmListNr) (i := 0) le_rfl
    fun k _ hk => refcountOf_found hstub (h k (by simpa using hk)).1
  have hkept := fun k hk => kept_of_countable (s.shmList k) (h k hk).2
  refine ⟨s', hrun, ?_, ?_⟩
  · rw [htable, List.range_zero, List.map_nil, List.nil_append, List.map_filterMap,
      ← List.range_eq_range']
    exact List.filterMap_congr fun k hk => (hkept k (List.mem_range.mp hk)).1
  · rw [hun, ← List.range_eq_range']
    exact congrArg _ (List.filterMap_congr fun k hk => (hkept k (List.mem_range.mp hk)).2)

theorem countable_of_updated (hstub : vm.Stub)
    (hrun : updateRefcountAndDestroy vm selfE s = .ok s') (h : Updated vm selfE s s') :
    ∀ k < s.shmListNr, (vm.blockOf selfE k (s.shmList k).page).isSome ∧
      Countable C (vm.attachments selfE k (s.shmList k).page) := by
  have hrc := updateFrom_answered le_rfl hrun
  choose! rc hrc using hrc
  obtain ⟨s₁, hrun₁, htable, hun⟩ := updateFrom_ok (s := s) (n := s.shmListNr) le_rfl hrc
  obtain rfl : s' = s₁ := Except.ok.inj (hrun.symm.trans hrun₁)
  rw [List.range_zero, List.map_nil, List.nil_append, ← List.range_eq_range'] at htable
  -- what VM does not find is not kept
  have hrc_found : ∀ k < s.shmListNr, (vm.blockOf selfE k (s.shmList k).page).isSome →
      rc k = BitVec.ofNat 8 (vm.attachments selfE k (s.shmList k).page + 1) :=
    fun k hk hfound => Except.ok.inj
      ((hrc k (Nat.zero_le k) (by omega)).symm.trans (refcountOf_found hstub hfound))
  have hrc_lost : ∀ k < s.shmListNr, vm.blockOf selfE k (s.shmList k).page = none →
      kept (s.shmList k) (rc k) = none ∧ destroyed (s.shmList k) (rc k) = none := by
    intro k hk hlost
    rw [refcountOf_lost hstub hlost (hrc k (Nat.zero_le k) (by omega))]
    simp [kept, destroyed]
  have hkept := h.table
  rw [htable, List.map_filterMap] at hkept
  have hpoint := filterMap_agree ?_ hkept
  · have hdestroyed := h.unmapped
    rw [hun, ← List.range_eq_range'] at hdestroyed
    have hgone := filterMap_agree ?_ (List.append_cancel_left hdestroyed)
    · intro k hk
      have hk' := List.mem_range.mpr hk
      cases hblock : vm.blockOf selfE k (s.shmList k).page with
      | none =>
        obtain ⟨hk₁, hk₂⟩ := hrc_lost k hk hblock
        have hkeep := (hpoint k hk').symm.trans (congrArg (Option.map ShmStruct.view) hk₁)
        have hdest := (hgone k hk').symm.trans hk₂
        unfold keepIf at hkeep
        unfold destroyIf at hdest
        split at hkeep <;> simp_all
      | some b =>
        refine ⟨rfl, countable_of_kept (s.shmList k) ?_⟩
        rw [← hrc_found k hk (by simp [hblock])]
        exact hpoint k hk'
    · intro k hk hsome
      have hnone : kept (s.shmList k) (rc k) = none := by
        unfold destroyed at hsome
        split at hsome
        · rename_i hd
          simp [kept, hd.2]
        · cases hsome
      have hkeep := (hpoint k hk).symm.trans (congrArg (Option.map ShmStruct.view) hnone)
      unfold keepIf at hkeep
      unfold destroyIf
      split at hkeep <;> simp_all
  · intro k hk hsome
    rw [Option.isSome_map] at hsome
    cases hblock : vm.blockOf selfE k (s.shmList k).page with
    | none =>
      rw [(hrc_lost k (List.mem_range.mp hk) hblock).1] at hsome
      cases hsome
    | some b =>
      rw [hrc_found k (List.mem_range.mp hk) (by simp [hblock])] at hsome
      exact keepIf_of_kept hsome

theorem update_refcount_iff (hstub : vm.Stub) :
    (∃ s', updateRefcountAndDestroy vm selfE s = .ok s' ∧ Updated vm selfE s s') ↔
      ∀ k < s.shmListNr, (vm.blockOf selfE k (s.shmList k).page).isSome ∧
        Countable C (vm.attachments selfE k (s.shmList k).page) :=
  ⟨fun ⟨_, hrun, h⟩ => countable_of_updated hstub hrun h, updated_of_countable hstub⟩

end Refcounts

section Crowded

def sharedMemory (n : ℕ) : Memory where
  block b := if b = 0 then some ⟨4096, 0, BitVec.ofNat 8 (n + 1), 0, some 0⟩ else none
  physr p := if p < n + 1 then some ⟨0, p, 0, if p < n then some (p + 1) else none⟩ else none
  region r := if r = 0 then
    some ⟨⟨0x1000, 0x1000, Vm.VR_ANON ||| Vm.VR_SHARED, Vm.VRT_NONE, [0]⟩, 0⟩ else none
  vmRegions v := if v = 0 then [0] else []
  tick := 0
  made := []
  freed := []
  left := []
  pt _ _ := none
  bytes _ := 0

theorem shared_path (n : ℕ) (k i : ℕ) (h : i + k = n) :
    Chain.Path (sharedMemory n).nextPh (some i) (List.range' i (k + 1)) := by
  induction k generalizing i with
  | zero =>
    refine ⟨rfl, ?_⟩
    have hi : i = n := by omega
    simp [Chain.Path, Memory.nextPh, sharedMemory, hi]
  | succ k ih =>
    refine ⟨rfl, ?_⟩
    have hnext : (sharedMemory n).nextPh i = some (i + 1) := by
      simp only [Memory.nextPh, sharedMemory, if_pos (show i < n + 1 by omega),
        if_pos (show i < n by omega)]
      rfl
    rw [hnext]
    exact ih (i + 1) (by omega)

theorem shared_pointsTo (n p b : ℕ) : (sharedMemory n).PointsTo p b ↔ p < n + 1 ∧ b = 0 := by
  by_cases hp : p < n + 1
  · simp only [Memory.PointsTo, sharedMemory, if_pos hp, Option.some.injEq, exists_eq_left']
    exact ⟨fun h => ⟨hp, h.symm⟩, fun h => h.2.symm⟩
  · simp only [Memory.PointsTo, sharedMemory, if_neg hp]
    simp [hp]

theorem shared_listed (n : ℕ) : Vm.Listed (sharedMemory n) ∅ 0
    ⟨4096, 0, BitVec.ofNat 8 (n + 1), 0, some 0⟩ (List.range' 0 (n + 1)) where
  path := shared_path n n 0 (by omega)
  members p := by
    rw [shared_pointsTo, List.mem_range'_1]
    simp
  count := by simp

theorem shared_lists (n : ℕ) : Lists ∅ (sharedMemory n) where
  listed b pb hb := by
    obtain ⟨rfl, rfl⟩ : b = 0 ∧ _ = pb := by simpa [sharedMemory] using hb
    exact ⟨_, by simp, shared_listed n⟩
  live p b _ h := by
    obtain ⟨_, rfl⟩ := (shared_pointsTo n p b).mp h
    rfl
  limbo p hp := absurd hp (Set.notMem_empty p)

def sharedServer (n : ℕ) : VmServer where
  endpoints := ⟨fun _ => some 0, fun _ => 0⟩
  memory _ := sharedMemory n
  lists _ := shared_lists n
  junk _ := 0
  vmGetrefcount reply := if reply.1 = .OK then reply.2 else 255#8

theorem shared_stub (n : ℕ) : (sharedServer n).Stub where
  found _ := rfl
  failed _ _ h := if_neg h

theorem shared_blockOf (n k : ℕ) : (sharedServer n).blockOf 0 k 0x1000 = some 0 := by
  simp [VmServer.blockOf, sharedServer, sharedBlock, Vm.lookupRegion, Vm.findRegion,
    Vm.arch_vir2map, sharedMemory, Vm.deref, Vm.hasAny, Vm.VR_ANON, Vm.VR_SHARED, bind,
    Except.bind, pure, Except.pure]

theorem shared_attachments (n k : ℕ) : (sharedServer n).attachments 0 k 0x1000 = n := by
  rw [VmServer.attachments, shared_blockOf, Option.elim_some]
  change (sharedMemory n).sharers 0 - 1 = n
  rw [(shared_listed n).sharers]
  simp

def shmHeaders : ShmHeaders := ⟨0x200, 32, by decide⟩

def sharedTable : ShmServer shmHeaders where
  shmList _ := ⟨1, 0x1234, ⟨⟨0, 0, 0, 0, 0x1B6⟩, 4096, 0⟩, 0x1000, 0⟩
  shmListNr := 1
  unmapped := []

theorem update_refcount_loses :
    (sharedServer 254).attachments 0 0 (sharedTable.shmList 0).page = 254 ∧
      (∃ s', updateRefcountAndDestroy (sharedServer 254) 0 sharedTable = .ok s' ∧
        s'.table = [] ∧ s'.unmapped = []) ∧
      ¬ ∃ s', updateRefcountAndDestroy (sharedServer 254) 0 sharedTable = .ok s' ∧
        Updated (sharedServer 254) 0 sharedTable s' := by
  refine ⟨shared_attachments 254 0, ⟨_, rfl, rfl, rfl⟩, fun ⟨s', hrun, h⟩ => ?_⟩
  have hcount := (countable_of_updated (shared_stub 254) hrun h 0 Nat.one_pos).2
  change Countable _ ((sharedServer 254).attachments 0 0 0x1000) at hcount
  rw [shared_attachments] at hcount
  exact absurd hcount (by simp [Countable, shmHeaders])

def markedTable : ShmServer shmHeaders where
  shmList k := ⟨k, 0x1234, ⟨⟨0, 0, 0, 0, if k = 0 then 0x3B6 else 0x1B6⟩, 4096, 0⟩, 0x1000, 0⟩
  shmListNr := 2
  unmapped := []

theorem update_refcount_marked :
    ∃ s', updateRefcountAndDestroy (sharedServer 0) 0 markedTable = .ok s' ∧
      Updated (sharedServer 0) 0 markedTable s' ∧ s'.table.map ShmStruct.key = [1] ∧
      s'.unmapped = [(0x1000, 4096)] := by
  have hcounts : ∀ k < markedTable.shmListNr,
      ((sharedServer 0).blockOf 0 k (markedTable.shmList k).page).isSome ∧
        Countable shmHeaders ((sharedServer 0).attachments 0 k (markedTable.shmList k).page) := by
    intro k _
    change ((sharedServer 0).blockOf 0 k 0x1000).isSome ∧
      Countable shmHeaders ((sharedServer 0).attachments 0 k 0x1000)
    rw [shared_blockOf, shared_attachments]
    exact ⟨rfl, .inl (by decide)⟩
  obtain ⟨s', hrun, hupdated⟩ := (update_refcount_iff (shared_stub 0)).mpr hcounts
  refine ⟨s', hrun, hupdated, ?_⟩
  obtain rfl := Except.ok.inj hrun
  exact ⟨rfl, rfl⟩

end Crowded

end Ipc
