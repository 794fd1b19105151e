import Cs111.Kernel.System

namespace Kernel
open Minix FlagWord TransitionSystem
variable {H : Headers} {M : Type}

structure PrivctlHeaders (H : Headers) where
  dsrvF : Flags
  dsrvT : Flags
  dsrvM : BitVec 32
  dsrvSm : ℤ
  nullPrivId : ℤ
  dynPrivId : Flags
  checkIrq : Flags
  checkIoPort : Flags
  checkMem : Flags
  nrIrq : ℤ
  nrIoRange : ℤ
  nrMemRange : ℤ
  nrStaticPrivIds : ℕ
  nrStaticPrivIds_le : nrStaticPrivIds ≤ H.nrSysProcs

-- The fields of a struct priv in user memory that do_privctl looks at; s_ipc_to is copied as
-- one int.
structure PrivArg where
  sFlags : Flags
  sId : ℤ
  sSigMgr : ℤ
  sBakSigMgr : ℤ
  sNrIrq : ℤ
  sNrIoRange : ℤ
  sNrMemRange : ℤ
  sTrapMask : Flags
  sIpcTo : BitVec 32

inductive PrivRequest where
  | SYS_PRIV_ALLOW
  | SYS_PRIV_YIELD
  | SYS_PRIV_DISALLOW
  | SYS_PRIV_SET_SYS (arg : Option (Except Errno PrivArg))
  | SYS_PRIV_SET_USER
  | SYS_PRIV_UPDATE_SYS (arg : Option (Except Errno PrivArg))

structure PrivctlCall where
  ctlEndpt : ℤ
  request : PrivRequest

section SendMasks
variable (s : KState H M) (rp : Slot H)

def unsetSendtoBit (id : PrivId H) : KState H M :=
  let s := s.updPriv (s.proc rp).priv fun x => { x with sIpcTo := unsetSysBit x.sIpcTo id }
  s.updPriv id fun x => { x with sIpcTo := unsetSysBit x.sIpcTo (s.proc rp).priv }

-- mask & (1 << i); the processor takes the shift count modulo 32.
def fillSendtoBit (rp : Slot H) (mask : BitVec 32) (s : KState H M) (i : PrivId H) : KState H M :=
  if mask.getLsbD (i % 32) then setSendtoBit s rp i else unsetSendtoBit s rp i

def fillSendtoMask (mask : BitVec 32) : KState H M :=
  (List.finRange H.nrSysProcs).foldl (fillSendtoBit rp mask) s

end SendMasks

section Privctl
variable (C : PrivctlHeaders H) (s : KState H M) (caller rp : Slot H)

-- none when every dynamic slot is in use.
def findDynPriv : Option (PrivId H) :=
  (List.finRange H.nrSysProcs).find? fun i =>
    decide (C.nrStaticPrivIds ≤ i.val) && (s.priv i).sProcNr == H.none

def assignPriv (sp : PrivId H) : KState H M :=
  (s.upd rp fun x => { x with priv := sp }).updPriv sp fun x => { x with sProcNr := procNr rp }

-- privId is none for NULL_PRIV_ID.
def getPriv (privId : Option ℤ) : Except Errno (KState H M) :=
  match privId with
  | none =>
    match findDynPriv C s with
    | none => .error .ENOSPC
    | some sp => .ok (assignPriv s rp sp)
  | some id =>
    if h : 0 ≤ id ∧ id < C.nrStaticPrivIds then
      let sp : PrivId H := ⟨id.toNat, by have := C.nrStaticPrivIds_le; omega⟩
      if (s.priv sp).sProcNr ≠ H.none then .error .EBUSY else .ok (assignPriv s rp sp)
    else .error .EINVAL

def badCount (flags flag : Flags) (n limit : ℤ) : Bool :=
  flags &&& flag != 0 && decide (n < 0 ∨ n > limit)

def updatePriv (priv : PrivArg) : Errno × KState H M :=
  let s := s.updPriv (s.proc rp).priv fun x => { x with
    sFlags := priv.sFlags
    sSigMgr := priv.sSigMgr
    sBakSigMgr := priv.sBakSigMgr }
  if badCount priv.sFlags C.checkIrq priv.sNrIrq C.nrIrq then (.EINVAL, s)
  else if badCount priv.sFlags C.checkIoPort priv.sNrIoRange C.nrIoRange then (.EINVAL, s)
  else if badCount priv.sFlags C.checkMem priv.sNrMemRange C.nrMemRange then (.EINVAL, s)
  else
    let s := s.updPriv (s.proc rp).priv fun x => { x with sTrapMask := priv.sTrapMask }
    (.OK, fillSendtoMask s rp priv.sIpcTo)

def Priv.service (x : Priv) (nr : ℤ) : Priv :=
  { x with
    sProcNr := nr
    sNotifyPending := fun _ => 0
    sIntPending := 0
    sSigPending := 0
    sAsynsize := 0
    sFlags := C.dsrvF
    sTrapMask := C.dsrvT }

def privIdOf (arg : Option PrivArg) : Option ℤ :=
  arg.bind fun priv =>
    if priv.sFlags &&& C.dynPrivId = 0 ∧ priv.sId ≠ C.nullPrivId then some priv.sId else none

def setSys (arg : Option PrivArg) : Errno × KState H M :=
  match getPriv C s rp (privIdOf C arg) with
  | .error e => (e, s)
  | .ok s =>
    let s := s.updPriv (s.proc rp).priv fun _ => (s.privOf caller).service C (procNr rp)
    let s := fillSendtoMask s rp C.dsrvM
    let s := s.updPriv (s.proc rp).priv fun x =>
      { x with sSigMgr := C.dsrvSm, sBakSigMgr := H.none }
    match arg with
    | none => (.OK, s)
    | some priv => updatePriv C s rp priv

def privctlTarget (ctlEndpt : ℤ) : Except Fault (Option (Slot H)) :=
  if ctlEndpt = H.self then some <$> procAddr H (H.endpointP (s.proc caller).endpoint)
  else pure (isokendpt s ctlEndpt)

def doPrivctl (m : PrivctlCall) : Except Fault (Errno × KState H M) :=
  if (s.privOf caller).has SYS_PROC = false then pure (.EPERM, s)
  else do
    match ← privctlTarget s caller m.ctlEndpt with
    | none => pure (.EINVAL, s)
    | some rp =>
      let noPriv := (s.proc rp).rtsIsset RTS_NO_PRIV
      let unset := (s.privOf rp).sProcNr = H.none
      match m.request with
      | .SYS_PRIV_ALLOW =>
        if noPriv = false ∨ unset then pure (.EPERM, s)
        else do
          let s ← rtsUnset s rp RTS_NO_PRIV
          pure (.OK, s)
      | .SYS_PRIV_YIELD =>
        if noPriv = false ∨ unset then pure (.EPERM, s)
        else do
          let s ← rtsSet s caller RTS_NO_PRIV
          let s ← rtsUnset s rp RTS_NO_PRIV
          pure (.OK, s)
      | .SYS_PRIV_DISALLOW =>
        if noPriv then pure (.EPERM, s)
        else do
          let s ← rtsSet s rp RTS_NO_PRIV
          pure (.OK, s)
      | .SYS_PRIV_SET_SYS arg =>
        if noPriv = false then pure (.EPERM, s)
        else
          match arg with
          | none => pure (setSys C s caller rp none)
          | some (.error r) => pure (r, s)
          | some (.ok priv) => pure (setSys C s caller rp (some priv))
      | .SYS_PRIV_SET_USER =>
        if noPriv = false then pure (.EPERM, s)
        else pure (.OK, s.upd rp fun x => { x with priv := H.userPrivId })
      | .SYS_PRIV_UPDATE_SYS arg =>
        match arg with
        | none => pure (.EINVAL, s)
        | some (.error r) => pure (r, s)
        | some (.ok priv) => pure (updatePriv C s rp priv)

def doExec (prEndpt : ℤ) : Except Fault (Errno × KState H M) :=
  match isokendpt s prEndpt with
  | none => pure (.EINVAL, s)
  | some rp => do
    let s ← rtsUnset (s.upd rp (·.clearMisc MF_DELIVERMSG)) rp RTS_RECEIVING
    pure (.OK, s.upd rp (·.clearMisc MF_FPU_INITIALIZED))

end Privctl

section Bits
variable {map : SysMap} {a b : ℕ}

theorem sysBit_index (h : a / bitchunkBits = b / bitchunkBits)
    (h' : a % bitchunkBits = b % bitchunkBits) : a = b := by
  rw [← Nat.div_add_mod a bitchunkBits, ← Nat.div_add_mod b bitchunkBits, h, h']

theorem getSysBit_set : getSysBit (setSysBit map a) b = (getSysBit map b || decide (a = b)) := by
  have hlt : ∀ n : ℕ, n % bitchunkBits < 16 := fun n => Nat.mod_lt n (by decide)
  by_cases hchunk : b / bitchunkBits = a / bitchunkBits
  · rw [getSysBit, setSysBit, getSysBit, hchunk, Function.update_self, BitVec.getLsbD_or,
      BitVec.getLsbD_twoPow]
    congr 1
    have hiff : a % bitchunkBits = b % bitchunkBits ↔ a = b :=
      ⟨fun hmod => sysBit_index hchunk.symm hmod, fun he => by rw [he]⟩
    simp [hlt a, hiff]
  · have hne : a ≠ b := fun he => hchunk (by rw [he])
    rw [getSysBit, setSysBit, getSysBit, Function.update_of_ne hchunk]
    simp [hne]

theorem getSysBit_unset :
    getSysBit (unsetSysBit map a) b = (getSysBit map b && decide (a ≠ b)) := by
  have hlt : ∀ n : ℕ, n % bitchunkBits < 16 := fun n => Nat.mod_lt n (by decide)
  by_cases hchunk : b / bitchunkBits = a / bitchunkBits
  · rw [getSysBit, unsetSysBit, getSysBit, hchunk, Function.update_self, BitVec.getLsbD_and,
      BitVec.getLsbD_not, BitVec.getLsbD_twoPow]
    congr 1
    have hiff : a % bitchunkBits = b % bitchunkBits ↔ a = b :=
      ⟨fun hmod => sysBit_index hchunk.symm hmod, fun he => by rw [he]⟩
    have hb := hlt b
    simp [hlt a, hiff, hb]
  · have hne : a ≠ b := fun he => hchunk (by rw [he])
    rw [getSysBit, unsetSysBit, getSysBit, Function.update_of_ne hchunk]
    simp [hne]

end Bits

def KState.mayIpc (s : KState H M) (i j : PrivId H) : Bool := getSysBit (s.priv i).sIpcTo j

def Priv.answers (x : Priv) : Prop := x.sTrapMask &&& ~~~ BitVec.twoPow 16 CallNr.RECEIVE.code ≠ 0

variable (H) in
def Priv.assigned (x : Priv) : Prop := x.sProcNr ≠ H.none

def Answered (s : KState H M) (i j : PrivId H) : Prop :=
  s.mayIpc i j = true → (s.priv j).answers → s.mayIpc j i = true

def MaskSymmetric (s : KState H M) : Prop :=
  ∀ i j, i ≠ j → (s.priv i).assigned H → (s.priv j).assigned H → Answered s i j

section Masks
variable {s s' t : KState H M} {rp : Slot H} {id i j k : PrivId H}
  {S S' : PrivId H → PrivId H → Prop}

structure Edits (S : PrivId H → PrivId H → Prop) (s s' : KState H M) : Prop where
  proc : s'.proc = s.proc
  rest : ∀ i, (s'.priv i).sProcNr = (s.priv i).sProcNr ∧
    (s'.priv i).sTrapMask = (s.priv i).sTrapMask
  bits : ∀ i j, ¬ S i j → s'.mayIpc i j = s.mayIpc i j

theorem Edits.refl : Edits S s s := ⟨rfl, fun _ => ⟨rfl, rfl⟩, fun _ _ _ => rfl⟩

theorem Edits.trans (h : Edits S s t) (h' : Edits S t s') : Edits S s s' where
  proc := h'.proc.trans h.proc
  rest i := ⟨(h'.rest i).1.trans (h.rest i).1, (h'.rest i).2.trans (h.rest i).2⟩
  bits i j hS := (h'.bits i j hS).trans (h.bits i j hS)

theorem Edits.mono (h : Edits S s s') (hS : ∀ i j, S i j → S' i j) : Edits S' s s' :=
  ⟨h.proc, h.rest, fun i j hnot => h.bits i j fun hin => hnot (hS i j hin)⟩

theorem Edits.assigned (h : Edits S s s') : (s'.priv i).assigned H ↔ (s.priv i).assigned H := by
  rw [Priv.assigned, Priv.assigned, (h.rest i).1]

theorem Edits.answered (h : Edits S s s') (hij : ¬ S i j) (hji : ¬ S j i) :
    Answered s' i j ↔ Answered s i j := by
  rw [Answered, Answered, h.bits i j hij, h.bits j i hji, Priv.answers, Priv.answers, (h.rest j).2]

def onPair (k id : PrivId H) (i j : PrivId H) : Prop := i = k ∧ j = id ∨ i = id ∧ j = k

theorem edits_row {f : SysMap → SysMap}
    (hf : ∀ map, ∀ j : PrivId H, j ≠ id → getSysBit (f map) j = getSysBit map j) :
    Edits (fun i j => i = k ∧ j = id) s (s.updPriv k fun x => { x with sIpcTo := f x.sIpcTo }) := by
  refine ⟨rfl, fun i => ?_, fun i j hnot => ?_⟩
  · by_cases hi : i = k
    · subst hi
      simp [KState.updPriv]
    · simp [KState.updPriv, hi]
  · by_cases hi : i = k
    · subst hi
      simpa [KState.mayIpc, KState.updPriv] using hf _ j fun hj => hnot ⟨rfl, hj⟩
    · simp [KState.mayIpc, KState.updPriv, hi]

theorem edits_set : Edits (fun i j => i = k ∧ j = id) s
    (s.updPriv k fun x => { x with sIpcTo := setSysBit x.sIpcTo id }) :=
  edits_row (f := fun map => setSysBit map id) fun map j hj => by
    have hne : id.val ≠ j.val := fun he => hj (Fin.ext he.symm)
    simp [getSysBit_set, hne]

theorem edits_unset : Edits (fun i j => i = k ∧ j = id) s
    (s.updPriv k fun x => { x with sIpcTo := unsetSysBit x.sIpcTo id }) :=
  edits_row (f := fun map => unsetSysBit map id) fun map j hj => by
    have hne : id.val ≠ j.val := fun he => hj (Fin.ext he.symm)
    simp [getSysBit_unset, hne]

theorem mayIpc_set : (s.updPriv k fun x => { x with sIpcTo := setSysBit x.sIpcTo id }).mayIpc k id =
    true := by
  simp [KState.mayIpc, KState.updPriv, getSysBit_set]

theorem mayIpc_unset :
    (s.updPriv k fun x => { x with sIpcTo := unsetSysBit x.sIpcTo id }).mayIpc k id = false := by
  simp [KState.mayIpc, KState.updPriv, getSysBit_unset]

theorem set_sendto_edits : Edits (onPair (s.proc rp).priv id) s (setSendtoBit s rp id) := by
  rw [setSendtoBit]
  split_ifs
  · exact edits_unset.mono fun i j hij => .inl hij
  · dsimp only
    split_ifs
    · exact (edits_set.mono fun i j hij => .inl hij).trans
        (edits_set.mono fun i j hij => .inr hij)
    · exact edits_set.mono fun i j hij => .inl hij

theorem unset_sendto_edits : Edits (onPair (s.proc rp).priv id) s (unsetSendtoBit s rp id) :=
  (edits_unset.mono fun _ _ hij => .inl hij).trans (edits_unset.mono fun _ _ hij => .inr hij)

def Settled (s : KState H M) (k j : PrivId H) : Prop := Answered s k j ∧ Answered s j k

theorem set_sendto_settled (hid : id ≠ (s.proc rp).priv) (hassigned : (s.priv id).assigned H) :
    Settled (setSendtoBit s rp id) (s.proc rp).priv id := by
  rw [setSendtoBit, if_neg (by rintro (hnone | he); exacts [hassigned hnone, hid he.symm])]
  dsimp only
  split_ifs with htraps
  · refine ⟨fun _ _ => mayIpc_set, fun _ _ => ?_⟩
    rw [edits_set.bits _ _ fun hrow => hid hrow.1.symm]
    exact mayIpc_set
  · exact ⟨fun _ hanswers => absurd hanswers htraps, fun _ _ => mayIpc_set⟩

theorem unset_sendto_settled (hid : id ≠ (s.proc rp).priv) :
    Settled (unsetSendtoBit s rp id) (s.proc rp).priv id := by
  have hback : (unsetSendtoBit s rp id).mayIpc id (s.proc rp).priv = false := mayIpc_unset
  have hforth : (unsetSendtoBit s rp id).mayIpc (s.proc rp).priv id = false := by
    rw [unsetSendtoBit, edits_unset.bits _ _ fun hrow => hid hrow.1.symm]
    exact mayIpc_unset
  exact ⟨fun hset => absurd (hforth.symm.trans hset) (by decide),
    fun hset => absurd (hback.symm.trans hset) (by decide)⟩

section Fill
variable {mask : BitVec 32}

theorem fill_bit_edits : Edits (onPair (s.proc rp).priv id) s (fillSendtoBit rp mask s id) := by
  rw [fillSendtoBit]
  split
  · exact set_sendto_edits
  · exact unset_sendto_edits

theorem fill_bit_settled (hid : id ≠ (s.proc rp).priv) (hassigned : (s.priv id).assigned H) :
    Settled (fillSendtoBit rp mask s id) (s.proc rp).priv id := by
  rw [fillSendtoBit]
  split
  · exact set_sendto_settled hid hassigned
  · exact unset_sendto_settled hid

theorem fill_bits (rp : Slot H) (mask : BitVec 32) (l : List (PrivId H)) (s : KState H M) :
    Edits (fun i j => i = (s.proc rp).priv ∨ j = (s.proc rp).priv) s
      (l.foldl (fillSendtoBit rp mask) s) ∧
    ∀ j, j ≠ (s.proc rp).priv → (s.priv j).assigned H →
      j ∈ l ∨ Settled s (s.proc rp).priv j →
      Settled (l.foldl (fillSendtoBit rp mask) s) (s.proc rp).priv j := by
  induction l generalizing s with
  | nil => exact ⟨.refl, fun j _ _ hj => hj.resolve_left List.not_mem_nil⟩
  | cons id l ih =>
    have hstep : Edits (onPair (s.proc rp).priv id) s (fillSendtoBit rp mask s id) := fill_bit_edits
    obtain ⟨hedits, hsettled⟩ := ih (fillSendtoBit rp mask s id)
    rw [hstep.proc] at hedits hsettled
    refine ⟨(hstep.mono ?_).trans hedits, fun j hj hassigned hin => ?_⟩
    · rintro i j (⟨rfl, -⟩ | ⟨-, rfl⟩)
      · exact .inl rfl
      · exact .inr rfl
    · refine hsettled j hj (hstep.assigned.mpr hassigned) ?_
      by_cases hid : j = id
      · subst hid
        exact .inr (fill_bit_settled hj hassigned)
      · rcases hin with hmem | hset
        · exact .inl ((List.mem_cons.mp hmem).resolve_left hid)
        · have hoff : ¬ onPair (s.proc rp).priv id (s.proc rp).priv j := by
            rintro (⟨-, he⟩ | ⟨-, he⟩)
            · exact hid he
            · exact hj he
          have hoff' : ¬ onPair (s.proc rp).priv id j (s.proc rp).priv := by
            rintro (⟨he, -⟩ | ⟨he, -⟩)
            · exact hj he
            · exact hid he
          exact .inr ⟨(hstep.answered hoff hoff').mpr hset.1,
            (hstep.answered hoff' hoff).mpr hset.2⟩

end Fill

def SymmetricBeyond (s : KState H M) (k : PrivId H) : Prop :=
  ∀ i j, i ≠ j → i ≠ k → j ≠ k → (s.priv i).assigned H → (s.priv j).assigned H → Answered s i j

theorem fill_symmetric {rp : Slot H} (mask : BitVec 32) (h : SymmetricBeyond s (s.proc rp).priv) :
    MaskSymmetric (fillSendtoMask s rp mask) := by
  obtain ⟨hedits, hsettled⟩ := fill_bits rp mask (List.finRange H.nrSysProcs) s
  intro i j hij hi hj
  have hi' := hedits.assigned.mp hi
  have hj' := hedits.assigned.mp hj
  by_cases hik : i = (s.proc rp).priv
  · have hjk : j ≠ (s.proc rp).priv := fun he => hij (hik.trans he.symm)
    rw [hik]
    exact (hsettled j hjk hj' (.inl (List.mem_finRange j))).1
  · by_cases hjk : j = (s.proc rp).priv
    · rw [hjk]
      exact (hsettled i hik hi' (.inl (List.mem_finRange i))).2
    · refine (hedits.answered ?_ ?_).mpr (h i j hij hik hjk hi' hj')
      · rintro (he | he)
        · exact hik he
        · exact hjk he
      · rintro (he | he)
        · exact hjk he
        · exact hik he

end Masks

section Narrowing
variable {s s' t : KState H M} {rp rc : Slot H} {k : PrivId H} {f : Flags}

def Narrowed (s s' : KState H M) : Prop :=
  ∀ i, (s'.priv i).sIpcTo = (s.priv i).sIpcTo ∧ (s'.priv i).sTrapMask = (s.priv i).sTrapMask ∧
    ((s'.priv i).assigned H → (s.priv i).assigned H)

theorem Narrowed.of_eq (h : s'.priv = s.priv) : Narrowed s s' := fun i => by simp [h]

theorem Narrowed.trans (h : Narrowed s t) (h' : Narrowed t s') : Narrowed s s' := fun i =>
  ⟨(h' i).1.trans (h i).1, (h' i).2.1.trans (h i).2.1, fun hi => (h i).2.2 ((h' i).2.2 hi)⟩

theorem Narrowed.row {g : Priv → Priv} (hipc : ∀ x, (g x).sIpcTo = x.sIpcTo)
    (htrap : ∀ x, (g x).sTrapMask = x.sTrapMask)
    (hnr : ∀ x, (g x).assigned H → x.assigned H) : Narrowed s (s.updPriv k g) := by
  intro i
  by_cases hi : i = k
  · subst hi
    simpa [KState.updPriv] using ⟨hipc _, htrap _, hnr _⟩
  · simp [KState.updPriv, hi]

theorem MaskSymmetric.narrow (h : MaskSymmetric s) (hn : Narrowed s s') : MaskSymmetric s' := by
  intro i j hij hi hj
  have hold := h i j hij ((hn i).2.2 hi) ((hn j).2.2 hj)
  simpa [Answered, KState.mayIpc, Priv.answers, (hn i).1, (hn j).1, (hn j).2.1] using hold

theorem MaskSymmetric.beyond (h : MaskSymmetric s) (hrows : ∀ i, i ≠ k → s'.priv i = s.priv i) :
    SymmetricBeyond s' k := by
  intro i j hij hik hjk hi hj
  rw [hrows i hik] at hi
  rw [hrows j hjk] at hj
  simpa [Answered, KState.mayIpc, hrows i hik, hrows j hjk] using h i j hij hi hj

theorem rtsSet_priv (h : rtsSet s rp f = .ok s') : s'.priv = s.priv := by
  rw [(Rescheduled.rtsSet h).2]

theorem rtsUnset_priv (h : rtsUnset s rp f = .ok s') : s'.priv = s.priv :=
  (Rescheduled.rtsUnset h).priv_eq

theorem rtsSetflags_priv (h : rtsSetflags s rp f = .ok s') : s'.priv = s.priv := by
  rw [rtsSetflags] at h
  split at h
  · obtain ⟨t, ht, h⟩ := bind_ok.mp h
    obtain rfl := pure_ok.mp h
    change t.priv = s.priv
    rw [(Rescheduled.dequeue ht).2]
  · obtain ⟨t, ht, h⟩ := bind_ok.mp h
    obtain rfl := pure_ok.mp h
    rw [← pure_ok.mp ht]
    rfl

theorem clearIpc_priv (h : clearIpc s rc = .ok s') : s'.priv = s.priv := by
  rw [clearIpc] at h
  obtain ⟨t, ht, h⟩ := bind_ok.mp h
  obtain rfl := pure_ok.mp h
  change t.priv = s.priv
  rw [unlinkSender] at ht
  split at ht
  · obtain ⟨target, -, ht⟩ := bind_ok.mp ht
    split at ht
    · cases ht
    · rename_i xpp _
      obtain rfl := pure_ok.mp ht
      split
      · rfl
      · cases xpp <;> rfl
  · cases ht
    rfl

theorem clearRef_narrowed {r : Errno} (h : clearRef rc r s rp = .ok s') : Narrowed s s' := by
  rw [clearRef] at h
  split at h
  · cases h
    exact .of_eq rfl
  · have hrow : Narrowed s (s.updPriv (s.proc rp).priv fun x =>
        { x with sNotifyPending := unsetSysBit x.sNotifyPending (s.proc rc).priv }) :=
      .row (fun _ => rfl) (fun _ => rfl) fun _ => id
    dsimp only at h
    split at h
    · have hunset := rtsUnset_priv h
      exact hrow.trans (.of_eq hunset)
    · cases h
      exact hrow

theorem clear_refs_narrowed {r : Errno} (l : List (Slot H)) (s : KState H M)
    (h : l.foldlM (clearRef rc r) s = .ok s') : Narrowed s s' := by
  induction l generalizing s with
  | nil =>
    cases h
    exact .of_eq rfl
  | cons rp l ih =>
    rw [List.foldlM_cons] at h
    obtain ⟨t, ht, h⟩ := bind_ok.mp h
    exact (clearRef_narrowed ht).trans (ih t h)

theorem clearEndpoint_narrowed (h : clearEndpoint s rc = .ok s') : Narrowed s s' := by
  rw [clearEndpoint] at h
  split at h
  · cases h
  · obtain ⟨t, ht, h⟩ := bind_ok.mp h
    obtain ⟨u, hu, h⟩ := bind_ok.mp h
    have hasyn : Narrowed t (clearAsynsize t rc) := by
      rw [clearAsynsize]
      split
      · exact .row (fun _ => rfl) (fun _ => rfl) fun _ => id
      · exact .of_eq rfl
    exact (((Narrowed.of_eq (rtsSet_priv ht)).trans hasyn).trans
      (.of_eq (clearIpc_priv hu))).trans (clear_refs_narrowed _ _ h)

theorem doClear_narrowed {e : ℤ} {r : Errno} (h : doClear s e = .ok (r, s')) : Narrowed s s' := by
  rw [doClear] at h
  split at h
  · cases h
    exact .of_eq rfl
  · rename_i rc _
    split at h
    · cases h
      exact .of_eq rfl
    · obtain ⟨t, ht, h⟩ := bind_ok.mp h
      obtain ⟨u, hu, h⟩ := bind_ok.mp h
      obtain ⟨-, rfl⟩ := Prod.mk.inj (pure_ok.mp h)
      have hrelease : Narrowed u (releasePriv (u.upd rc (·.clearMisc MF_FPU_INITIALIZED)) rc) := by
        rw [releasePriv]
        split
        · exact (Narrowed.of_eq rfl).trans (.row (fun _ => rfl) (fun _ => rfl)
            fun _ hnone => absurd rfl hnone)
        · exact .of_eq rfl
      exact ((clearEndpoint_narrowed ht).trans (.of_eq (rtsSetflags_priv hu))).trans hrelease

theorem doFork_narrowed {m : ForkCall} {r : Errno} (h : doFork s m = .ok (r, s')) :
    Narrowed s s' := by
  refine .of_eq ?_
  rw [doFork] at h
  split at h
  · cases h
    rfl
  · obtain ⟨rpc, -, h⟩ := bind_ok.mp h
    split at h
    · cases h
      rfl
    · obtain ⟨-, h⟩ := kassert_bind_ok.mp h
      split at h
      · cases h
        rfl
      · obtain ⟨t, ht, h⟩ := bind_ok.mp h
        obtain ⟨u, hu, h⟩ := bind_ok.mp h
        obtain ⟨v, hv, h⟩ := bind_ok.mp h
        obtain ⟨-, rfl⟩ := Prod.mk.inj (pure_ok.mp h)
        change v.priv = s.priv
        rw [rtsUnset_priv hv]
        have hinhibit : u.priv = t.priv := by
          rw [inhibit] at hu
          split at hu
          · rw [rtsSet_priv hu, dropPrivileges]
            split <;> rfl
          · cases hu
            rw [dropPrivileges]
            split <;> rfl
        rw [hinhibit, rtsSet_priv ht]
        rfl

theorem doExec_narrowed {e : ℤ} {r : Errno} (h : doExec s e = .ok (r, s')) : Narrowed s s' := by
  refine .of_eq ?_
  rw [doExec] at h
  split at h
  · cases h
    rfl
  · obtain ⟨t, ht, h⟩ := bind_ok.mp h
    obtain ⟨-, rfl⟩ := Prod.mk.inj (pure_ok.mp h)
    change t.priv = s.priv
    rw [rtsUnset_priv ht]
    rfl

end Narrowing

section Requests
variable {C : PrivctlHeaders H} {s s' : KState H M} {caller rp : Slot H} {k : PrivId H}

theorem updPriv_other {g : Priv → Priv} {i : PrivId H} (hi : i ≠ k) :
    (s.updPriv k g).priv i = s.priv i := Function.update_of_ne hi ..

theorem updatePriv_symmetric (h : MaskSymmetric s) (priv : PrivArg) :
    MaskSymmetric (updatePriv C s rp priv).2 := by
  have hflags : MaskSymmetric (s.updPriv (s.proc rp).priv fun x => { x with
      sFlags := priv.sFlags, sSigMgr := priv.sSigMgr, sBakSigMgr := priv.sBakSigMgr }) :=
    h.narrow (.row (fun _ => rfl) (fun _ => rfl) fun _ => id)
  rw [updatePriv]
  dsimp only
  split_ifs
  · exact hflags
  · exact hflags
  · exact hflags
  · exact fill_symmetric _ (hflags.beyond fun i hi => updPriv_other hi)

theorem getPriv_rows {privId : Option ℤ} (h : getPriv C s rp privId = .ok s') :
    ∀ i, i ≠ (s'.proc rp).priv → s'.priv i = s.priv i := by
  have hassign : ∀ sp, ∀ i, i ≠ ((assignPriv s rp sp).proc rp).priv →
      (assignPriv s rp sp).priv i = s.priv i := by
    intro sp i hi
    refine updPriv_other fun he => hi ?_
    rw [he]
    simp [assignPriv]
  cases privId with
  | none =>
    rw [getPriv] at h
    split at h
    · cases h
    · obtain rfl := Except.ok.inj h
      exact hassign _
  | some id =>
    rw [getPriv] at h
    split at h
    · dsimp only at h
      split_ifs at h
      obtain rfl := Except.ok.inj h
      exact hassign _
    · cases h

theorem setSys_symmetric (h : MaskSymmetric s) (arg : Option PrivArg) :
    MaskSymmetric (setSys C s caller rp arg).2 := by
  rw [setSys]
  split
  · exact h
  · rename_i t ht
    have hbeyond : SymmetricBeyond (t.updPriv (t.proc rp).priv fun _ =>
        (t.privOf caller).service C (procNr rp)) (t.proc rp).priv :=
      h.beyond fun i hi => (updPriv_other hi).trans (getPriv_rows ht i hi)
    have hfilled := fill_symmetric C.dsrvM hbeyond
    have hdefaults : ∀ u : KState H M, MaskSymmetric u →
        MaskSymmetric (u.updPriv (u.proc rp).priv fun x =>
          { x with sSigMgr := C.dsrvSm, sBakSigMgr := H.none }) := fun u hu =>
      hu.narrow (.row (fun _ => rfl) (fun _ => rfl) fun _ => id)
    cases arg with
    | none => exact hdefaults _ hfilled
    | some priv => exact updatePriv_symmetric (hdefaults _ hfilled) priv

theorem doPrivctl_symmetric {m : PrivctlCall} {r : Errno} (h : MaskSymmetric s)
    (hs : doPrivctl C s caller m = .ok (r, s')) : MaskSymmetric s' := by
  rw [doPrivctl] at hs
  split at hs
  · cases hs
    exact h
  · obtain ⟨target, -, hs⟩ := bind_ok.mp hs
    cases target with
    | none =>
      cases hs
      exact h
    | some rp =>
      dsimp only at hs
      cases hreq : m.request with
      | SYS_PRIV_ALLOW =>
        rw [hreq] at hs
        dsimp only at hs
        split at hs
        · cases hs
          exact h
        · obtain ⟨t, ht, hs⟩ := bind_ok.mp hs
          cases hs
          exact h.narrow (.of_eq (rtsUnset_priv ht))
      | SYS_PRIV_YIELD =>
        rw [hreq] at hs
        dsimp only at hs
        split at hs
        · cases hs
          exact h
        · obtain ⟨t, ht, hs⟩ := bind_ok.mp hs
          obtain ⟨u, hu, hs⟩ := bind_ok.mp hs
          cases hs
          exact h.narrow (.of_eq ((rtsUnset_priv hu).trans (rtsSet_priv ht)))
      | SYS_PRIV_DISALLOW =>
        rw [hreq] at hs
        dsimp only at hs
        split at hs
        · cases hs
          exact h
        · obtain ⟨t, ht, hs⟩ := bind_ok.mp hs
          cases hs
          exact h.narrow (.of_eq (rtsSet_priv ht))
      | SYS_PRIV_SET_SYS arg =>
        rw [hreq] at hs
        dsimp only at hs
        split at hs
        · cases hs
          exact h
        · split at hs
          · rw [show s' = (setSys C s caller rp none).2 by rw [pure_ok.mp hs]]
            exact setSys_symmetric h none
          · cases hs
            exact h
          · rename_i priv
            rw [show s' = (setSys C s caller rp (some priv)).2 by rw [pure_ok.mp hs]]
            exact setSys_symmetric h (some priv)
      | SYS_PRIV_SET_USER =>
        rw [hreq] at hs
        dsimp only at hs
        split at hs
        · cases hs
          exact h
        · cases hs
          exact h.narrow (.of_eq rfl)
      | SYS_PRIV_UPDATE_SYS arg =>
        rw [hreq] at hs
        dsimp only at hs
        split at hs
        · cases hs
          exact h
        · cases hs
          exact h
        · rename_i priv
          rw [show s' = (updatePriv C s rp priv).2 by rw [pure_ok.mp hs]]
          exact updatePriv_symmetric h priv

end Requests

inductive PrivEvent where
  | doPrivctl (m : PrivctlCall) (result : Errno)
  | doFork (m : ForkCall) (result : Errno)
  | doExec (prEndpt : ℤ) (result : Errno)
  | doClear (prEndpt : ℤ) (result : Errno)

def PrivEvent.Happens (C : PrivctlHeaders H) (s : KState H M) (caller : Slot H) (s' : KState H M) :
    PrivEvent → Prop
  | .doPrivctl m r => Kernel.doPrivctl C s caller m = .ok (r, s')
  | .doFork m r => Kernel.doFork s m = .ok (r, s')
  | .doExec e r => Kernel.doExec s e = .ok (r, s')
  | .doClear e r => Kernel.doClear s e = .ok (r, s')

def privSystem (C : PrivctlHeaders H) (M : Type) :
    TransitionSystem (KState H M) (Slot H × PrivEvent) where
  initial := MaskSymmetric
  step s e s' := e.2.Happens C s e.1 s'

theorem privEvent_symmetric {C : PrivctlHeaders H} {s s' : KState H M} {caller : Slot H}
    {e : PrivEvent} (h : MaskSymmetric s) (hs : e.Happens C s caller s') : MaskSymmetric s' := by
  cases e with
  | doPrivctl m r => exact doPrivctl_symmetric h hs
  | doFork m r => exact h.narrow (doFork_narrowed hs)
  | doExec e r => exact h.narrow (doExec_narrowed hs)
  | doClear e r => exact h.narrow (doClear_narrowed hs)

theorem masks_symmetric {C : PrivctlHeaders H} {past : List (KState H M × (Slot H × PrivEvent))}
    {s : KState H M} (hrun : (privSystem C M).Run always past s) : MaskSymmetric s :=
  hrun.invariant (fun _ h => h) fun _ _ _ _ h _ hs => privEvent_symmetric h hs

def PrivctlHeaders.sample : PrivctlHeaders Headers.sample where
  dsrvF := SYS_PROC ||| PREEMPTIBLE
  dsrvT := BitVec.allOnes 16
  dsrvM := 0
  dsrvSm := 2
  nullPrivId := -1
  dynPrivId := 0x08
  checkIrq := 0x40
  checkIoPort := 0x20
  checkMem := 0x100
  nrIrq := 4
  nrIoRange := 32
  nrMemRange := 10
  nrStaticPrivIds := 5
  nrStaticPrivIds_le := by decide

def narrowed : PrivctlCall where
  ctlEndpt := Headers.sample.endpoint 1 5
  request := .SYS_PRIV_UPDATE_SYS (some (.ok ⟨SYS_PROC, 5, 2, 31743, 0, 0, 0, 0xff, 1⟩))

theorem masks_symmetric_narrowed : ∃ s : KState Headers.sample ℕ,
    doPrivctl .sample (.sample fun _ => 0) 4 narrowed = .ok (.OK, s) ∧
      s.mayIpc ⟨5, by decide⟩ ⟨3, by decide⟩ = false ∧
      MaskSymmetric s := by
  have hsymmetric : MaskSymmetric (KState.sample fun _ => 0) := fun i j _ _ _ _ _ => by
    have hlt := Nat.mod_lt i.val (show 0 < 16 by decide)
    change (BitVec.allOnes 16).getLsbD (i.val % 16) = true
    rw [BitVec.getLsbD_allOnes, decide_eq_true hlt]
  have hrun : (privSystem .sample ℕ).Run always
      [(.sample fun _ => 0, 4, .doPrivctl narrowed .OK)] _ :=
    .next (.start hsymmetric) trivial rfl
  exact ⟨_, rfl, rfl, masks_symmetric hrun⟩

end Kernel
