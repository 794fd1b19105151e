import Cs111.Kernel.Privctl

namespace Kernel
open Minix FlagWord
variable {H : Headers} {M : Type} {s t : KState H M} {rp : Slot H} {id j : PrivId H}
  {mask : BitVec 32} {C : PrivctlHeaders H}

-- A struct priv in user memory; memcpy(&ipc_to_m, &priv->s_ipc_to, sizeof(ipc_to_m)) takes
-- the first two chunks of its map.
structure SuppliedPriv extends PrivArg where
  map : SysMap
  first_chunks : ∀ i < 32, sIpcTo.getLsbD i = getSysBit map i

section Fill

theorem set_sendto_row : (setSendtoBit s rp id).mayIpc (s.proc rp).priv id = true ↔
    (s.priv id).assigned H ∧ id ≠ (s.proc rp).priv := by
  rw [setSendtoBit]
  split
  · rename_i hrefused
    rw [mayIpc_unset]
    simp only [Bool.false_eq_true, false_iff]
    rintro ⟨hassigned, hid⟩
    exact hrefused.elim hassigned fun he => hid he.symm
  · rename_i hallowed
    rw [not_or] at hallowed
    have hset : (setSendtoBit s rp id).mayIpc (s.proc rp).priv id = true := by
      rw [setSendtoBit, if_neg (not_or.mpr hallowed)]
      dsimp only
      split
      · rw [edits_set.bits _ _ fun hrow => hallowed.2 hrow.1]
        exact mayIpc_set
      · exact mayIpc_set
    rw [setSendtoBit, if_neg (not_or.mpr hallowed)] at hset
    exact ⟨fun _ => ⟨hallowed.1, fun he => hallowed.2 he.symm⟩, fun _ => hset⟩

theorem unset_sendto_row : (unsetSendtoBit s rp id).mayIpc (s.proc rp).priv id = false := by
  by_cases hid : id = (s.proc rp).priv
  · rw [unsetSendtoBit, hid]
    exact mayIpc_unset
  · rw [unsetSendtoBit, edits_unset.bits _ _ fun hrow => hid hrow.1.symm]
    exact mayIpc_unset

theorem fill_bit_row : (fillSendtoBit rp mask s id).mayIpc (s.proc rp).priv id = true ↔
    mask.getLsbD (id % 32) = true ∧ (s.priv id).assigned H ∧ id ≠ (s.proc rp).priv := by
  rw [fillSendtoBit]
  split
  · rename_i hset
    rw [set_sendto_row]
    simp [hset]
  · rename_i hclear
    rw [unset_sendto_row]
    simp [hclear]

theorem fill_bit_other (hj : j ≠ id) :
    (fillSendtoBit rp mask s id).mayIpc (s.proc rp).priv j = s.mayIpc (s.proc rp).priv j := by
  refine fill_bit_edits.bits _ _ ?_
  rintro (⟨-, he⟩ | ⟨he, he'⟩)
  · exact hj he
  · exact hj (he'.trans he)

theorem fill_row (l : List (PrivId H)) (s : KState H M) (hl : l.Nodup) (j : PrivId H) :
    (l.foldl (fillSendtoBit rp mask) s).mayIpc (s.proc rp).priv j = true ↔
      if j ∈ l then mask.getLsbD (j % 32) = true ∧ (s.priv j).assigned H ∧ j ≠ (s.proc rp).priv
      else s.mayIpc (s.proc rp).priv j = true := by
  induction l generalizing s with
  | nil => simp
  | cons id l ih =>
    obtain ⟨hid, hl⟩ := List.nodup_cons.mp hl
    have hstep : Edits (onPair (s.proc rp).priv id) s (fillSendtoBit rp mask s id) := fill_bit_edits
    have hrest := ih (fillSendtoBit rp mask s id) hl
    rw [hstep.proc, hstep.assigned] at hrest
    rw [List.foldl_cons, hrest]
    by_cases hj : j = id
    · subst hj
      rw [if_neg hid, if_pos (List.mem_cons_self ..)]
      exact fill_bit_row
    · rw [fill_bit_other hj]
      simp [hj]

theorem fill_sendto_row : (fillSendtoMask s rp mask).mayIpc (s.proc rp).priv j = true ↔
    mask.getLsbD (j % 32) = true ∧ (s.priv j).assigned H ∧ j ≠ (s.proc rp).priv := by
  rw [fillSendtoMask, fill_row _ _ (List.nodup_finRange _) j, if_pos (List.mem_finRange j)]

end Fill

section Update

def Oversized (C : PrivctlHeaders H) (priv : PrivArg) : Prop :=
  badCount priv.sFlags C.checkIrq priv.sNrIrq C.nrIrq = true ∨
    badCount priv.sFlags C.checkIoPort priv.sNrIoRange C.nrIoRange = true ∨
    badCount priv.sFlags C.checkMem priv.sNrMemRange C.nrMemRange = true

def SendsAsSupplied (s t : KState H M) (rp : Slot H) (map : SysMap) : Prop :=
  ∀ i : PrivId H, t.mayIpc (t.proc rp).priv i = true ↔
    getSysBit map i = true ∧ (s.priv i).assigned H ∧ i ≠ (s.proc rp).priv

theorem updPriv_bits {k : PrivId H} {g : Priv → Priv} (hipc : ∀ x, (g x).sIpcTo = x.sIpcTo)
    (i j : PrivId H) : (s.updPriv k g).mayIpc i j = s.mayIpc i j := by
  by_cases hi : i = k
  · simp [KState.mayIpc, KState.updPriv, hi, hipc]
  · simp [KState.mayIpc, KState.updPriv, hi]

theorem updPriv_assigned {k : PrivId H} {g : Priv → Priv} (hnr : ∀ x, (g x).sProcNr = x.sProcNr)
    (i : PrivId H) : ((s.updPriv k g).priv i).assigned H ↔ (s.priv i).assigned H := by
  by_cases hi : i = k
  · simp [Priv.assigned, KState.updPriv, hi, hnr]
  · simp [KState.updPriv, hi]

variable (s rp) in
theorem updatePriv_refused {priv : PrivArg} (h : Oversized C priv) :
    (updatePriv C s rp priv).2.proc = s.proc ∧
      ∀ i j, (updatePriv C s rp priv).2.mayIpc i j = s.mayIpc i j := by
  have hflags : ∀ i j, (s.updPriv (s.proc rp).priv fun x => { x with
      sFlags := priv.sFlags
      sSigMgr := priv.sSigMgr
      sBakSigMgr := priv.sBakSigMgr }).mayIpc i j = s.mayIpc i j :=
    updPriv_bits fun _ => rfl
  rw [updatePriv]
  dsimp only
  split
  · exact ⟨rfl, hflags⟩
  · rename_i hirq
    split
    · exact ⟨rfl, hflags⟩
    · rename_i hio
      rw [if_pos ((h.resolve_left hirq).resolve_left hio)]
      exact ⟨rfl, hflags⟩

variable (s rp j) in
theorem updatePriv_row {priv : PrivArg} (h : ¬ Oversized C priv) :
    (updatePriv C s rp priv).2.proc = s.proc ∧
      ((updatePriv C s rp priv).2.mayIpc (s.proc rp).priv j = true ↔
        priv.sIpcTo.getLsbD (j % 32) = true ∧ (s.priv j).assigned H ∧
          j ≠ (s.proc rp).priv) := by
  simp only [Oversized, not_or] at h
  rw [updatePriv, if_neg h.1, if_neg h.2.1, if_neg h.2.2]
  dsimp only
  refine ⟨(fill_bits rp _ _ _).1.proc, ?_⟩
  refine fill_sendto_row.trans ?_
  rw [updPriv_assigned (by exact fun _ => rfl), updPriv_assigned (by exact fun _ => rfl)]
  rfl

theorem sendsAsSupplied_iff (C : PrivctlHeaders H) (s : KState H M) (rp : Slot H)
    (priv : SuppliedPriv) :
    SendsAsSupplied s (updatePriv C s rp priv.toPrivArg).2 rp priv.map ↔
      (Oversized C priv.toPrivArg → SendsAsSupplied s s rp priv.map) ∧
      (¬ Oversized C priv.toPrivArg → ∀ i : PrivId H, (s.priv i).assigned H →
        i ≠ (s.proc rp).priv → getSysBit priv.map i = getSysBit priv.map (i % 32)) := by
  by_cases hover : Oversized C priv.toPrivArg
  · obtain ⟨hproc, hbits⟩ := updatePriv_refused s rp hover
    have hsame : SendsAsSupplied s (updatePriv C s rp priv.toPrivArg).2 rp priv.map ↔
        SendsAsSupplied s s rp priv.map := by
      simp only [SendsAsSupplied, hproc, hbits]
    rw [hsame]
    exact ⟨fun h => ⟨fun _ => h, fun hno => absurd hover hno⟩, fun h => h.1 hover⟩
  · have hrow (i : PrivId H) := (updatePriv_row s rp i hover).2
    have hproc := (updatePriv_row s rp (s.proc rp).priv hover).1
    have hfirst (i : PrivId H) :
        priv.sIpcTo.getLsbD (i % 32) = getSysBit priv.map (i % 32) :=
      priv.first_chunks _ (Nat.mod_lt _ (by decide))
    simp only [SendsAsSupplied, hproc, hrow, hfirst]
    constructor
    · intro h
      refine ⟨fun hyes => absurd hyes hover, fun _ i hassigned hid => ?_⟩
      have hi := h i
      rw [Bool.eq_iff_iff]
      exact ⟨fun hset => ((hi.mpr ⟨hset, hassigned, hid⟩)).1,
        fun hset => (hi.mp ⟨hset, hassigned, hid⟩).1⟩
    · intro h i
      constructor
      · rintro ⟨hset, hassigned, hid⟩
        exact ⟨(h.2 hover i hassigned hid).trans hset, hassigned, hid⟩
      · rintro ⟨hset, hassigned, hid⟩
        exact ⟨(h.2 hover i hassigned hid).symm.trans hset, hassigned, hid⟩

def wideHeaders : Headers := { Headers.sample with nrSysProcs := 64, userPrivId := (5 : Fin 64) }

def widePrivctl : PrivctlHeaders wideHeaders where
  dsrvF := SYS_PROC ||| PREEMPTIBLE
  dsrvT := BitVec.allOnes 16
  dsrvM := 0
  dsrvSm := 2
  nullPrivId := -1
  dynPrivId := 0x08
  checkIrq := 0x40
  checkIoPort := 0x20
  checkMem := 0x100
  nrIrq := 4
  nrIoRange := 32
  nrMemRange := 10
  nrStaticPrivIds := 5
  nrStaticPrivIds_le := by decide

def wideState : KState wideHeaders ℕ where
  proc i := {
    priv := (⟨i.val, i.isLt.trans (by decide)⟩ : Fin 64)
    rtsFlags := 0
    miscFlags := 0
    priority := 7
    cpuTimeLeft := 0
    quantumSizeMs := 200
    scheduler := none
    callerQ := none
    qLink := none
    getfromE := 0
    sendtoE := 0
    pending := 0
    endpoint := wideHeaders.endpoint 1 (procNr i)
    sendmsg := ⟨0, .user 0⟩
    delivermsg := ⟨0, .user 0⟩
    delivermsgVir := 0
    retreg := .OK
    ipcStatus := [] }
  nextready _ := none
  rdyHead _ := none
  rdyTail _ := none
  procPtr := (4 : Fin 12)
  billPtr := (4 : Fin 12)
  ptproc := (4 : Fin 12)
  priv i := {
    sProcNr := i.val - 4
    sFlags := SYS_PROC
    sAsynsize := 0
    sTrapMask := BitVec.allOnes 16
    sIpcTo := fun _ => 0
    sSigMgr := 2
    sBakSigMgr := 31743
    sNotifyPending := fun _ => 0
    sIntPending := 0
    sSigPending := 0 }
  uptime := 0
  asyntab _ := []

def highBit : SuppliedPriv where
  sFlags := SYS_PROC
  sId := 5
  sSigMgr := 2
  sBakSigMgr := 31743
  sNrIrq := 0
  sNrIoRange := 0
  sNrMemRange := 0
  sTrapMask := 0xff
  sIpcTo := 0
  map := fun chunk => if chunk = 2 then 2 else 0
  first_chunks := by decide

theorem high_bit_lost :
    ¬ ∀ (H : Headers) (C : PrivctlHeaders H) (s : KState H ℕ) (rp : Slot H)
      (priv : SuppliedPriv), SendsAsSupplied s (updatePriv C s rp priv.toPrivArg).2 rp priv.map := by
  intro hall
  have hsends := hall wideHeaders widePrivctl wideState (4 : Fin 12) highBit (33 : Fin 64)
  have hover : ¬ Oversized widePrivctl highBit.toPrivArg := by
    rintro (h | h | h) <;> exact absurd h (by decide)
  obtain ⟨hproc, hrow⟩ := updatePriv_row wideState (4 : Fin 12)
    (33 : Fin 64) hover
  rw [hproc, hrow] at hsends
  have hassigned : (wideState.priv (33 : Fin 64)).assigned wideHeaders :=
    (by decide : (33 - 4 : ℤ) ≠ 31743)
  have hother : (33 : Fin 64) ≠ (4 : Fin 64) := by decide
  exact absurd (hsends.mpr ⟨by decide, hassigned, hother⟩).1 (by decide)

end Update

end Kernel
