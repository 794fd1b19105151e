import Cs111.Kernel.PrivSlots
import Cs111.Kernel.SendMask

namespace Kernel
open Minix FlagWord
variable {H : Headers} {M : Type}

structure PrivTableHeaders (H : Headers) extends PrivctlHeaders H where
  dsrvKc : ℤ
  noC : ℤ
  sysCallMaskSize : ℕ
  ENOMEM : ℤ

structure IoRange where
  iorBase : BitVec 32
  iorLimit : BitVec 32

structure MemRange where
  mrBase : BitVec 32
  mrLimit : BitVec 32

structure Resources (α : Type) (limit : ℤ) where
  nr : ℤ
  tab : Fin limit.toNat → α

structure PrivTables (T : PrivTableHeaders H) where
  sKCallMask : Fin T.sysCallMaskSize → BitVec 16
  io : Resources IoRange T.nrIoRange
  mem : Resources MemRange T.nrMemRange
  irq : Resources ℤ T.nrIrq

structure PrivStruct (T : PrivTableHeaders H) extends PrivArg where
  sKCallMask : Fin T.sysCallMaskSize → BitVec 16
  sIoTab : Fin T.nrIoRange.toNat → IoRange
  sMemTab : Fin T.nrMemRange.toNat → MemRange
  sIrqTab : Fin T.nrIrq.toNat → ℤ

-- Where the result of data_copy is not looked at, the range or line is whatever it has left.
inductive CtlRequest (T : PrivTableHeaders H) where
  | SYS_PRIV_ALLOW
  | SYS_PRIV_YIELD
  | SYS_PRIV_DISALLOW
  | SYS_PRIV_SET_SYS (arg : Option (Except Errno (PrivStruct T)))
  | SYS_PRIV_SET_USER
  | SYS_PRIV_ADD_IO (ioRange : IoRange)
  | SYS_PRIV_ADD_MEM (memRange : Except Errno MemRange)
  | SYS_PRIV_ADD_IRQ (irq : ℤ)
  | SYS_PRIV_QUERY_MEM (ctlPhysstart ctlPhyslen : BitVec 32)
  | SYS_PRIV_UPDATE_SYS (arg : Option (Except Errno (PrivStruct T)))
  | bad (request : ℤ)

structure PrivSystem (T : PrivTableHeaders H) (M : Type) where
  kernel : KState H M
  tables : PrivId H → PrivTables T

def copyTab {α : Type} {limit : ℤ} (flags flag : Flags) (nr : ℤ) (tab : Fin limit.toNat → α)
    (old : Resources α limit) : Resources α limit :=
  if flags &&& flag = 0 then old
  else ⟨nr, fun i => if (i.val : ℤ) < nr then tab i else old.tab i⟩

namespace PrivSystem

section Updates
variable {T : PrivTableHeaders H} (s : PrivSystem T M) (id : PrivId H)

def updPriv (f : Priv → Priv) : PrivSystem T M := { s with kernel := s.kernel.updPriv id f }

def updTables (f : PrivTables T → PrivTables T) : PrivSystem T M :=
  { s with tables := Function.update s.tables id (f (s.tables id)) }

variable (f : Priv → Priv) (g g' : PrivTables T → PrivTables T)

@[simp] theorem updPriv_proc : (s.updPriv id f).kernel.proc = s.kernel.proc := rfl

@[simp] theorem updPriv_tables : (s.updPriv id f).tables = s.tables := rfl

@[simp] theorem updPriv_priv : (s.updPriv id f).kernel.priv id = f (s.kernel.priv id) :=
  Function.update_self ..

@[simp] theorem updTables_kernel : (s.updTables id g).kernel = s.kernel := rfl

@[simp] theorem updTables_tables : (s.updTables id g).tables id = g (s.tables id) :=
  Function.update_self ..

theorem updTables_id : s.updTables id (fun x => x) = s := by
  simp [updTables]

theorem updTables_updTables : (s.updTables id g).updTables id g' = s.updTables id (g' ∘ g) := by
  simp [updTables]

variable {id f} in
theorem updPriv_sends (hipc : ∀ x, (f x).sIpcTo = x.sIpcTo) (i j : PrivId H) :
    (s.updPriv id f).kernel.mayIpc i j = s.kernel.mayIpc i j := updPriv_bits hipc i j

end Updates

section Code
variable (T : PrivTableHeaders H) (s : PrivSystem T M) (caller rp : Slot H)

def updatePriv (priv : PrivStruct T) : Errno × PrivSystem T M :=
  let id := (s.kernel.proc rp).priv
  let s := s.updPriv id fun x => { x with
    sFlags := priv.sFlags
    sSigMgr := priv.sSigMgr
    sBakSigMgr := priv.sBakSigMgr }
  if badCount priv.sFlags T.checkIrq priv.sNrIrq T.nrIrq then (.EINVAL, s)
  else
    let s := s.updTables id fun x =>
      { x with irq := copyTab priv.sFlags T.checkIrq priv.sNrIrq priv.sIrqTab x.irq }
    if badCount priv.sFlags T.checkIoPort priv.sNrIoRange T.nrIoRange then (.EINVAL, s)
    else
      let s := s.updTables id fun x =>
        { x with io := copyTab priv.sFlags T.checkIoPort priv.sNrIoRange priv.sIoTab x.io }
      if badCount priv.sFlags T.checkMem priv.sNrMemRange T.nrMemRange then (.EINVAL, s)
      else
        let s := s.updTables id fun x =>
          { x with mem := copyTab priv.sFlags T.checkMem priv.sNrMemRange priv.sMemTab x.mem }
        let s := s.updPriv id fun x => { x with sTrapMask := priv.sTrapMask }
        let s := { s with kernel := fillSendtoMask s.kernel rp priv.sIpcTo }
        (.OK, s.updTables id fun x => { x with sKCallMask := priv.sKCallMask })

def serviceTables (x : PrivTables T) : PrivTables T where
  sKCallMask := fun _ => if T.dsrvKc = T.noC then 0 else BitVec.allOnes 16
  io := { x.io with nr := 0 }
  mem := { x.mem with nr := 0 }
  irq := { x.irq with nr := 0 }

def setDefaults : PrivSystem T M :=
  let id := (s.kernel.proc rp).priv
  let s := s.updTables id fun _ => serviceTables T (s.tables (s.kernel.proc caller).priv)
  let s := s.updPriv id fun _ =>
    (s.kernel.privOf caller).service T.toPrivctlHeaders (procNr rp)
  let s := { s with kernel := fillSendtoMask s.kernel rp T.dsrvM }
  s.updPriv id fun x => { x with sSigMgr := T.dsrvSm, sBakSigMgr := H.none }

def setSys (arg : Option (PrivStruct T)) : Errno × PrivSystem T M :=
  match getPriv T.toPrivctlHeaders s.kernel rp
    (privIdOf T.toPrivctlHeaders (arg.map PrivStruct.toPrivArg)) with
  | .error e => (e, s)
  | .ok kernel =>
    let s := setDefaults T { s with kernel } caller rp
    match arg with
    | none => (.OK, s)
    | some priv => updatePriv T s rp priv

def addResource {α : Type} (flag : Flags) (limit : ℤ) (old : PrivTables T → Resources α limit)
    (write : Resources α limit → PrivTables T → PrivTables T) (entry : α) :
    Except Fault (Errno × PrivSystem T M) :=
  let id := (s.kernel.proc rp).priv
  let s := s.updPriv id fun x => { x with sFlags := x.sFlags ||| flag }
  let i := (old (s.tables id)).nr
  if hfull : i ≥ limit then pure (.other T.ENOMEM, s)
  else if hneg : i < 0 then .error .outOfBounds
  else pure (.OK, s.updTables id fun x =>
    write ⟨i + 1, Function.update (old x).tab ⟨i.toNat, by omega⟩ entry⟩ x)

def queryMem (sp : PrivId H) (addr len : BitVec 32) : Errno :=
  let limit := addr + len - 1
  if limit < addr then .EPERM
  else if (s.kernel.priv sp).has SYS_PROC = false then .EPERM
  else
    let mem := (s.tables sp).mem
    if (List.finRange T.nrMemRange.toNat).any fun i => decide ((i.val : ℤ) < mem.nr) &&
        decide ((mem.tab i).mrBase ≤ addr) && decide (limit ≤ (mem.tab i).mrLimit) then .OK
    else .EPERM

open CtlRequest in
def serve : CtlRequest T → Except Fault (Errno × PrivSystem T M)
  | SYS_PRIV_ALLOW =>
    if (s.kernel.proc rp).rtsIsset RTS_NO_PRIV = false ∨ (s.kernel.privOf rp).sProcNr = H.none then
      pure (.EPERM, s)
    else do
      let kernel ← rtsUnset s.kernel rp RTS_NO_PRIV
      pure (.OK, { s with kernel })
  | SYS_PRIV_YIELD =>
    if (s.kernel.proc rp).rtsIsset RTS_NO_PRIV = false ∨ (s.kernel.privOf rp).sProcNr = H.none then
      pure (.EPERM, s)
    else do
      let kernel ← rtsSet s.kernel caller RTS_NO_PRIV
      let kernel ← rtsUnset kernel rp RTS_NO_PRIV
      pure (.OK, { s with kernel })
  | SYS_PRIV_DISALLOW =>
    if (s.kernel.proc rp).rtsIsset RTS_NO_PRIV then pure (.EPERM, s)
    else do
      let kernel ← rtsSet s.kernel rp RTS_NO_PRIV
      pure (.OK, { s with kernel })
  | SYS_PRIV_SET_SYS arg =>
    if (s.kernel.proc rp).rtsIsset RTS_NO_PRIV = false then pure (.EPERM, s)
    else
      match arg with
      | none => pure (setSys T s caller rp none)
      | some (.error r) => pure (r, s)
      | some (.ok priv) => pure (setSys T s caller rp (some priv))
  | SYS_PRIV_SET_USER =>
    if (s.kernel.proc rp).rtsIsset RTS_NO_PRIV = false then pure (.EPERM, s)
    else pure (.OK, { s with kernel := s.kernel.upd rp fun x => { x with priv := H.userPrivId } })
  | SYS_PRIV_ADD_IO ioRange =>
    if (s.kernel.proc rp).rtsIsset RTS_NO_PRIV then pure (.EPERM, s)
    else if (s.kernel.privOf rp).has SYS_PROC = false then pure (.EPERM, s)
    else addResource T s rp T.checkIoPort T.nrIoRange PrivTables.io
      (fun r x => { x with io := r }) ioRange
  | SYS_PRIV_ADD_MEM memRange =>
    if (s.kernel.proc rp).rtsIsset RTS_NO_PRIV then pure (.EPERM, s)
    else if (s.kernel.privOf rp).has SYS_PROC = false then pure (.EPERM, s)
    else
      match memRange with
      | .error r => pure (r, s)
      | .ok memRange => addResource T s rp T.checkMem T.nrMemRange PrivTables.mem
          (fun r x => { x with mem := r }) memRange
  | SYS_PRIV_ADD_IRQ irq =>
    if (s.kernel.proc rp).rtsIsset RTS_NO_PRIV then pure (.EPERM, s)
    else if (s.kernel.privOf rp).has SYS_PROC = false then pure (.EPERM, s)
    else addResource T s rp T.checkIrq T.nrIrq PrivTables.irq (fun r x => { x with irq := r }) irq
  | SYS_PRIV_QUERY_MEM addr len => pure (queryMem T s (s.kernel.proc rp).priv addr len, s)
  | SYS_PRIV_UPDATE_SYS arg =>
    match arg with
    | none => pure (.EINVAL, s)
    | some (.error r) => pure (r, s)
    | some (.ok priv) => pure (updatePriv T s rp priv)
  | bad _ => pure (.EINVAL, s)

def doPrivctl (ctlEndpt : ℤ) (request : CtlRequest T) : Except Fault (Errno × PrivSystem T M) :=
  if (s.kernel.privOf caller).has SYS_PROC = false then pure (.EPERM, s)
  else do
    match ← privctlTarget s.kernel caller ctlEndpt with
    | none => pure (.EINVAL, s)
    | some rp => serve T s caller rp request

end Code

structure Unchanged {T : PrivTableHeaders H} (s s' : PrivSystem T M) (rp : Slot H) : Prop where
  ptr : (s'.kernel.proc rp).priv = (s.kernel.proc rp).priv
  flags : (s'.kernel.priv (s.kernel.proc rp).priv).sFlags = (s.kernel.privOf rp).sFlags
  traps : (s'.kernel.priv (s.kernel.proc rp).priv).sTrapMask = (s.kernel.privOf rp).sTrapMask
  sends : ∀ j, s'.kernel.mayIpc (s.kernel.proc rp).priv j = s.kernel.mayIpc (s.kernel.proc rp).priv j
  tables : s'.tables (s.kernel.proc rp).priv = s.tables (s.kernel.proc rp).priv

def overlay (T : PrivTableHeaders H) (priv : PrivStruct T) (x : PrivTables T) :
    PrivTables T :=
  if badCount priv.sFlags T.checkIrq priv.sNrIrq T.nrIrq then x
  else
    let irq := copyTab priv.sFlags T.checkIrq priv.sNrIrq priv.sIrqTab x.irq
    if badCount priv.sFlags T.checkIoPort priv.sNrIoRange T.nrIoRange then { x with irq }
    else { x with irq, io := copyTab priv.sFlags T.checkIoPort priv.sNrIoRange priv.sIoTab x.io }

section Conditions
variable (T : PrivTableHeaders H) (s : PrivSystem T M) (caller rp : Slot H)

def UpdateHarmless (priv : PrivStruct T) : Prop :=
  Oversized T.toPrivctlHeaders priv.toPrivArg → priv.sFlags = (s.kernel.privOf rp).sFlags ∧
    overlay T priv (s.tables (s.kernel.proc rp).priv) = s.tables (s.kernel.proc rp).priv

structure ServiceAlready (priv : PrivStruct T) : Prop where
  flags : priv.sFlags = (s.kernel.privOf rp).sFlags
  traps : T.dsrvT = (s.kernel.privOf rp).sTrapMask
  sends : ∀ j, s.kernel.mayIpc (s.kernel.proc rp).priv j = true ↔
    T.dsrvM.getLsbD (j % 32) = true ∧ (s.kernel.priv j).assigned H ∧ j ≠ (s.kernel.proc rp).priv
  tables : overlay T priv (serviceTables T (s.tables (s.kernel.proc caller).priv)) =
    s.tables (s.kernel.proc rp).priv

def SetHarmless (priv : PrivStruct T) : Prop :=
  ∀ sp, getPriv T.toPrivctlHeaders s.kernel rp (privIdOf T.toPrivctlHeaders (some priv.toPrivArg)) =
      .ok (assignPriv s.kernel rp sp) →
    Oversized T.toPrivctlHeaders priv.toPrivArg →
    sp = (s.kernel.proc rp).priv ∧ ServiceAlready T s caller rp priv

def AddHarmless (flag : Flags) (limit nr : ℤ) : Prop :=
  (s.kernel.proc rp).rtsIsset RTS_NO_PRIV = false → (s.kernel.privOf rp).has SYS_PROC = true →
    limit ≤ nr → (s.kernel.privOf rp).sFlags ||| flag = (s.kernel.privOf rp).sFlags

open CtlRequest in
def Harmless : CtlRequest T → Prop
  | SYS_PRIV_SET_SYS (some (.ok priv)) =>
    (s.kernel.proc rp).rtsIsset RTS_NO_PRIV = true → SetHarmless T s caller rp priv
  | SYS_PRIV_ADD_IO _ =>
    AddHarmless T s rp T.checkIoPort T.nrIoRange (s.tables (s.kernel.proc rp).priv).io.nr
  | SYS_PRIV_ADD_MEM (.ok _) =>
    AddHarmless T s rp T.checkMem T.nrMemRange (s.tables (s.kernel.proc rp).priv).mem.nr
  | SYS_PRIV_ADD_IRQ _ =>
    AddHarmless T s rp T.checkIrq T.nrIrq (s.tables (s.kernel.proc rp).priv).irq.nr
  | SYS_PRIV_UPDATE_SYS (some (.ok priv)) => UpdateHarmless T s rp priv
  | _ => True

end Conditions

section Requests
variable {T : PrivTableHeaders H} {s s' : PrivSystem T M} {caller rp : Slot H} {priv : PrivStruct T}
  {e : Errno}

theorem Unchanged.refl (s : PrivSystem T M) (rp : Slot H) : Unchanged s s rp :=
  ⟨rfl, rfl, rfl, fun _ => rfl, rfl⟩

theorem unchanged_flags (s : PrivSystem T M) (rp : Slot H) (f : Flags → Flags) :
    Unchanged s (s.updPriv (s.kernel.proc rp).priv fun x => { x with sFlags := f x.sFlags }) rp ↔
      f (s.kernel.privOf rp).sFlags = (s.kernel.privOf rp).sFlags := by
  constructor
  · intro h
    have hflags := h.flags
    rwa [updPriv_priv] at hflags
  · intro h
    refine ⟨rfl, ?_, ?_, fun j => ?_, rfl⟩
    · rw [updPriv_priv]
      exact h
    · rw [updPriv_priv]
      rfl
    · rw [updPriv_sends]
      exact fun _ => rfl

theorem addResource_unchanged {α : Type} {flag : Flags} {limit : ℤ}
    {old : PrivTables T → Resources α limit}
    {write : Resources α limit → PrivTables T → PrivTables T} {entry : α}
    (hs : addResource T s rp flag limit old write entry = .ok (e, s')) :
    (e ≠ .OK → Unchanged s s' rp) ↔ (limit ≤ (old (s.tables (s.kernel.proc rp).priv)).nr →
      (s.kernel.privOf rp).sFlags ||| flag = (s.kernel.privOf rp).sFlags) := by
  rw [addResource] at hs
  split at hs
  · rename_i hfull
    obtain ⟨rfl, rfl⟩ := Prod.mk.inj (pure_ok.mp hs)
    have hflags := unchanged_flags s rp (· ||| flag)
    exact ⟨fun h _ => hflags.mp (h nofun), fun h _ => hflags.mpr (h hfull)⟩
  · rename_i hroom
    split at hs
    · cases hs
    · obtain ⟨rfl, rfl⟩ := Prod.mk.inj (pure_ok.mp hs)
      exact ⟨fun _ hfull => absurd hfull hroom, fun _ hne => absurd rfl hne⟩

theorem update_refused (s : PrivSystem T M) (rp : Slot H)
    (h : Oversized T.toPrivctlHeaders priv.toPrivArg) :
    updatePriv T s rp priv = (.EINVAL, (s.updPriv (s.kernel.proc rp).priv fun x => { x with
      sFlags := priv.sFlags
      sSigMgr := priv.sSigMgr
      sBakSigMgr := priv.sBakSigMgr }).updTables (s.kernel.proc rp).priv (overlay T priv)) := by
  rw [updatePriv]
  by_cases hirq : badCount priv.sFlags T.checkIrq priv.sNrIrq T.nrIrq = true
  · have hoverlay : overlay T priv = fun x => x := by
      funext x
      simp [overlay, hirq]
    rw [if_pos hirq, hoverlay, updTables_id]
  · rw [if_neg hirq]
    by_cases hio : badCount priv.sFlags T.checkIoPort priv.sNrIoRange T.nrIoRange = true
    · have hoverlay : overlay T priv = fun x =>
          { x with irq := copyTab priv.sFlags T.checkIrq priv.sNrIrq priv.sIrqTab x.irq } := by
        funext x
        simp [overlay, hirq, hio]
      rw [if_pos hio, hoverlay]
    · have hoverlay : overlay T priv = (fun x =>
          { x with io := copyTab priv.sFlags T.checkIoPort priv.sNrIoRange priv.sIoTab x.io }) ∘
          fun x => { x with irq := copyTab priv.sFlags T.checkIrq priv.sNrIrq priv.sIrqTab x.irq } := by
        funext x
        simp [overlay, hirq, hio]
      rw [if_neg hio, if_pos ((h.resolve_left hirq).resolve_left hio), hoverlay, updTables_updTables]

theorem update_accepted (s : PrivSystem T M) (rp : Slot H)
    (h : ¬ Oversized T.toPrivctlHeaders priv.toPrivArg) : (updatePriv T s rp priv).1 = .OK := by
  simp only [Oversized, not_or] at h
  simp [updatePriv, h]

theorem refused_unchanged_iff (s u : PrivSystem T M) (rp : Slot H)
    (hptr : (u.kernel.proc rp).priv = (s.kernel.proc rp).priv)
    (h : Oversized T.toPrivctlHeaders priv.toPrivArg) :
    Unchanged s (updatePriv T u rp priv).2 rp ↔
      priv.sFlags = (s.kernel.privOf rp).sFlags ∧
      (u.kernel.priv (s.kernel.proc rp).priv).sTrapMask = (s.kernel.privOf rp).sTrapMask ∧
      (∀ j, u.kernel.mayIpc (s.kernel.proc rp).priv j =
        s.kernel.mayIpc (s.kernel.proc rp).priv j) ∧
      overlay T priv (u.tables (s.kernel.proc rp).priv) = s.tables (s.kernel.proc rp).priv := by
  rw [update_refused u rp h, hptr]
  constructor
  · rintro ⟨-, hflags, htraps, hsends, htables⟩
    rw [updTables_kernel, updPriv_priv] at hflags htraps
    refine ⟨hflags, htraps, fun j => ?_, ?_⟩
    · rw [← hsends j, updTables_kernel, updPriv_sends]
      exact fun _ => rfl
    · rwa [updTables_tables] at htables
  · rintro ⟨hflags, htraps, hsends, htables⟩
    refine ⟨hptr, ?_, ?_, fun j => ?_, ?_⟩
    · rw [updTables_kernel, updPriv_priv]
      exact hflags
    · rw [updTables_kernel, updPriv_priv]
      exact htraps
    · rw [updTables_kernel, ← hsends j, updPriv_sends]
      exact fun _ => rfl
    · rw [updTables_tables]
      exact htables

theorem updatePriv_unchanged (s : PrivSystem T M) (rp : Slot H) (priv : PrivStruct T) :
    ((updatePriv T s rp priv).1 ≠ .OK → Unchanged s (updatePriv T s rp priv).2 rp) ↔
      UpdateHarmless T s rp priv := by
  by_cases hover : Oversized T.toPrivctlHeaders priv.toPrivArg
  · have herror : (updatePriv T s rp priv).1 ≠ .OK := by
      rw [update_refused s rp hover]
      exact nofun
    have hsame := refused_unchanged_iff s s rp rfl hover
    constructor
    · intro h _
      obtain ⟨hflags, -, -, htables⟩ := hsame.mp (h herror)
      exact ⟨hflags, htables⟩
    · intro h _
      obtain ⟨hflags, htables⟩ := h hover
      exact hsame.mpr ⟨hflags, rfl, fun _ => rfl, htables⟩
  · exact ⟨fun _ hyes => absurd hyes hover, fun _ hne => absurd (update_accepted s rp hover) hne⟩

end Requests

section Service
variable {T : PrivTableHeaders H} {s : PrivSystem T M} {caller rp : Slot H} {priv : PrivStruct T}
  {sp j : PrivId H}

theorem fill_proc (k : KState H M) (rp : Slot H) (mask : BitVec 32) :
    (fillSendtoMask k rp mask).proc = k.proc := (fill_bits rp mask _ k).1.proc

theorem fill_traps (k : KState H M) (rp : Slot H) (mask : BitVec 32) (i : PrivId H) :
    ((fillSendtoMask k rp mask).priv i).sTrapMask = (k.priv i).sTrapMask :=
  ((fill_bits rp mask _ k).1.rest i).2

theorem assign_ptr (k : KState H M) (rp : Slot H) (sp : PrivId H) :
    ((assignPriv k rp sp).proc rp).priv = sp := by
  simp [assignPriv, KState.upd, KState.updPriv]

theorem assign_other (k : KState H M) (rp : Slot H) (hj : j ≠ sp) :
    ((assignPriv k rp sp).priv j).assigned H ↔ (k.priv j).assigned H := by
  simp [assignPriv, KState.upd, KState.updPriv, hj]

theorem assign_same (k : KState H M) (rp i : Slot H) :
    ((assignPriv k rp (k.proc rp).priv).proc i).priv = (k.proc i).priv := by
  by_cases hi : i = rp
  · subst hi
    exact assign_ptr k i _
  · change (Function.update k.proc rp _ i).priv = _
    rw [Function.update_of_ne hi]

theorem setDefaults_target (s : PrivSystem T M) (caller rp : Slot H) :
    (setDefaults T s caller rp).kernel.proc = s.kernel.proc ∧
    ((setDefaults T s caller rp).kernel.priv (s.kernel.proc rp).priv).sTrapMask = T.dsrvT ∧
    (∀ j, (setDefaults T s caller rp).kernel.mayIpc (s.kernel.proc rp).priv j = true ↔
      T.dsrvM.getLsbD (j % 32) = true ∧ j ≠ (s.kernel.proc rp).priv ∧
        (s.kernel.priv j).assigned H) ∧
    (setDefaults T s caller rp).tables (s.kernel.proc rp).priv =
      serviceTables T (s.tables (s.kernel.proc caller).priv) := by
  rw [setDefaults]
  refine ⟨?_, ?_, fun j => ?_, ?_⟩
  · rw [updPriv_proc, fill_proc]
    rfl
  · rw [updPriv_priv]
    dsimp only
    rw [fill_traps, updPriv_priv]
    rfl
  · rw [updPriv_sends _ (by exact fun _ => rfl)]
    refine fill_sendto_row.trans ?_
    rw [updPriv_proc, updTables_kernel]
    refine and_congr_right fun _ => ⟨fun ⟨hassigned, hj⟩ => ⟨hj, ?_⟩, fun ⟨hj, hassigned⟩ => ⟨?_, hj⟩⟩
    · simpa [updPriv, KState.updPriv, hj] using hassigned
    · simpa [updPriv, KState.updPriv, hj] using hassigned
  · rw [updPriv_tables]
    exact Function.update_self ..

theorem set_refused_unchanged (s : PrivSystem T M) (caller rp : Slot H) (sp : PrivId H)
    (hover : Oversized T.toPrivctlHeaders priv.toPrivArg) :
    Unchanged s (updatePriv T
        (setDefaults T { s with kernel := assignPriv s.kernel rp sp } caller rp) rp priv).2 rp ↔
      sp = (s.kernel.proc rp).priv ∧ ServiceAlready T s caller rp priv := by
  obtain ⟨hproc, htraps, hsends, htables⟩ := setDefaults_target (T := T)
    { s with kernel := assignPriv s.kernel rp sp } caller rp
  have hptr : ((setDefaults T { s with kernel := assignPriv s.kernel rp sp } caller rp).kernel.proc
      rp).priv = sp := by
    rw [hproc]
    exact assign_ptr s.kernel rp sp
  rw [assign_ptr] at htraps hsends htables
  generalize setDefaults T { s with kernel := assignPriv s.kernel rp sp } caller rp = u at *
  by_cases hsp : sp = (s.kernel.proc rp).priv
  · subst hsp
    rw [assign_same] at htables
    rw [refused_unchanged_iff s u rp hptr hover, htraps, htables]
    have hrow : ∀ j, u.kernel.mayIpc (s.kernel.proc rp).priv j = true ↔
        T.dsrvM.getLsbD (j % 32) = true ∧ (s.kernel.priv j).assigned H ∧
          j ≠ (s.kernel.proc rp).priv := fun j => by
      rw [hsends, and_congr_right fun hj => assign_other s.kernel rp hj]
      exact and_congr_right fun _ => and_comm
    constructor
    · rintro ⟨hflags, htraps', hsame, htables'⟩
      exact ⟨rfl, hflags, htraps', fun j => by rw [← hsame j, hrow], htables'⟩
    · rintro ⟨-, hservice⟩
      refine ⟨hservice.flags, hservice.traps, fun j => ?_, hservice.tables⟩
      rw [Bool.eq_iff_iff, hrow, hservice.sends]
  · refine iff_of_false (fun h => hsp ?_) fun h => hsp h.1
    have hsame := h.ptr
    rw [update_refused u rp hover] at hsame
    exact hptr.symm.trans hsame

theorem setSys_unchanged (s : PrivSystem T M) (caller rp : Slot H) (priv : PrivStruct T) :
    ((setSys T s caller rp (some priv)).1 ≠ .OK →
        Unchanged s (setSys T s caller rp (some priv)).2 rp) ↔ SetHarmless T s caller rp priv := by
  rw [setSys, Option.map_some]
  cases hget : getPriv T.toPrivctlHeaders s.kernel rp (privIdOf T.toPrivctlHeaders (some priv.toPrivArg)) with
  | error e =>
    refine iff_of_true (fun _ => .refl s rp) fun sp hsp => ?_
    rw [hget] at hsp
    cases hsp
  | ok kernel =>
    obtain ⟨sp, -, rfl⟩ := getPriv_assigns hget
    have hunique : ∀ sp', getPriv T.toPrivctlHeaders s.kernel rp (privIdOf T.toPrivctlHeaders (some priv.toPrivArg)) =
        .ok (assignPriv s.kernel rp sp') → sp' = sp := by
      intro sp' hsp'
      have hsame := Except.ok.inj (hget.symm.trans hsp')
      rw [← assign_ptr s.kernel rp sp', ← hsame, assign_ptr]
    dsimp only
    by_cases hover : Oversized T.toPrivctlHeaders priv.toPrivArg
    · have herror : (updatePriv T
          (setDefaults T { s with kernel := assignPriv s.kernel rp sp } caller rp) rp priv).1 ≠ .OK := by
        rw [update_refused _ rp hover]
        exact nofun
      constructor
      · intro h sp' hsp' _
        rw [hunique sp' hsp']
        exact (set_refused_unchanged s caller rp sp hover).mp (h herror)
      · intro h _
        exact (set_refused_unchanged s caller rp sp hover).mpr (h sp hget hover)
    · exact iff_of_true (fun hne => absurd (update_accepted _ rp hover) hne)
        fun _ _ hyes => absurd hyes hover

theorem setSys_plain (s : PrivSystem T M) (caller rp : Slot H)
    (h : (setSys T s caller rp none).1 ≠ .OK) : Unchanged s (setSys T s caller rp none).2 rp := by
  rw [setSys, Option.map_none] at h ⊢
  cases hget : getPriv T.toPrivctlHeaders s.kernel rp (privIdOf T.toPrivctlHeaders none) with
  | error e => exact .refl s rp
  | ok kernel =>
    rw [hget] at h
    exact absurd rfl h

end Service

section Serve
variable {T : PrivTableHeaders H} {s s' : PrivSystem T M} {caller rp : Slot H} {e : Errno}
  {request : CtlRequest T}

theorem refused_same (r : Errno) (hs : (pure (r, s) : Except Fault _) = .ok (e, s')) :
    e ≠ .OK → Unchanged s s' rp := by
  obtain ⟨rfl, rfl⟩ := Prod.mk.inj (pure_ok.mp hs)
  exact fun _ => .refl s rp

theorem served_ok {x : PrivSystem T M} (hs : (pure (.OK, x) : Except Fault _) = .ok (e, s')) :
    e ≠ .OK → Unchanged s s' rp := by
  obtain ⟨rfl, rfl⟩ := Prod.mk.inj (pure_ok.mp hs)
  exact fun hne => absurd rfl hne

theorem guarded_unchanged {c : Prop} [Decidable c] {r : Errno}
    {served : Except Fault (Errno × PrivSystem T M)}
    (hs : (if c then pure (r, s) else served) = .ok (e, s'))
    (hserved : served = .ok (e, s') → e ≠ .OK → Unchanged s s' rp) :
    e ≠ .OK → Unchanged s s' rp := by
  split at hs
  · exact refused_same r hs
  · exact hserved hs

theorem bound_unchanged {α : Type} {x : Except Fault α} {f : α → PrivSystem T M}
    (hs : (x >>= fun a => pure (.OK, f a)) = .ok (e, s')) : e ≠ .OK → Unchanged s s' rp := by
  obtain ⟨a, -, hs⟩ := bind_ok.mp hs
  exact served_ok hs

theorem add_request_unchanged {α : Type} {flag : Flags} {limit : ℤ}
    {old : PrivTables T → Resources α limit}
    {write : Resources α limit → PrivTables T → PrivTables T} {entry : α}
    (hs : (if (s.kernel.proc rp).rtsIsset RTS_NO_PRIV then pure (.EPERM, s)
      else if (s.kernel.privOf rp).has SYS_PROC = false then pure (.EPERM, s)
      else addResource T s rp flag limit old write entry) = .ok (e, s')) :
    (e ≠ .OK → Unchanged s s' rp) ↔
      AddHarmless T s rp flag limit (old (s.tables (s.kernel.proc rp).priv)).nr := by
  split at hs
  · rename_i hno
    exact iff_of_true (refused_same _ hs) fun hyes => absurd hyes (by simp [hno])
  · rename_i hno
    split at hs
    · rename_i huser
      exact iff_of_true (refused_same _ hs) fun _ hsys => absurd hsys (by simp [huser])
    · rename_i hsys
      rw [addResource_unchanged hs]
      exact ⟨fun h _ _ => h, fun h => h (by simpa using hno) (by simpa using hsys)⟩

theorem set_request_unchanged {arg : Option (Except Errno (PrivStruct T))}
    (hs : serve T s caller rp (.SYS_PRIV_SET_SYS arg) = .ok (e, s')) :
    (e ≠ .OK → Unchanged s s' rp) ↔ Harmless T s caller rp (.SYS_PRIV_SET_SYS arg) := by
  rw [serve.eq_def] at hs
  dsimp only at hs
  match arg with
  | none =>
    refine iff_of_true (guarded_unchanged hs fun hs => ?_) trivial
    obtain rfl := congrArg Prod.fst (pure_ok.mp hs)
    obtain rfl := congrArg Prod.snd (pure_ok.mp hs)
    exact setSys_plain s caller rp
  | some (.error r) => exact iff_of_true (guarded_unchanged hs (refused_same r)) trivial
  | some (.ok priv) =>
    split at hs
    · rename_i hno
      exact iff_of_true (refused_same _ hs) fun hyes => absurd hyes (by simp [hno])
    · rename_i hyes
      obtain rfl := congrArg Prod.fst (pure_ok.mp hs)
      obtain rfl := congrArg Prod.snd (pure_ok.mp hs)
      refine (setSys_unchanged s caller rp priv).trans ?_
      exact ⟨fun h _ => h, fun h => h (by simpa using hyes)⟩

theorem serve_unchanged (hs : serve T s caller rp request = .ok (e, s')) :
    (e ≠ .OK → Unchanged s s' rp) ↔ Harmless T s caller rp request := by
  cases request with
  | SYS_PRIV_ALLOW => exact iff_of_true (guarded_unchanged hs bound_unchanged) trivial
  | SYS_PRIV_YIELD =>
    refine iff_of_true (guarded_unchanged hs fun hs => ?_) trivial
    obtain ⟨kernel, -, hs⟩ := bind_ok.mp hs
    exact bound_unchanged hs
  | SYS_PRIV_DISALLOW => exact iff_of_true (guarded_unchanged hs bound_unchanged) trivial
  | SYS_PRIV_SET_SYS arg => exact set_request_unchanged hs
  | SYS_PRIV_SET_USER => exact iff_of_true (guarded_unchanged hs served_ok) trivial
  | SYS_PRIV_ADD_IO ioRange => exact add_request_unchanged hs
  | SYS_PRIV_ADD_MEM memRange =>
    cases memRange with
    | error r =>
      refine iff_of_true (guarded_unchanged hs fun hs => ?_) trivial
      exact guarded_unchanged hs (refused_same r)
    | ok memRange => exact add_request_unchanged hs
  | SYS_PRIV_ADD_IRQ irq => exact add_request_unchanged hs
  | SYS_PRIV_QUERY_MEM addr len => exact iff_of_true (refused_same _ hs) trivial
  | SYS_PRIV_UPDATE_SYS arg =>
    match arg with
    | none => exact iff_of_true (refused_same _ hs) trivial
    | some (.error r) => exact iff_of_true (refused_same _ hs) trivial
    | some (.ok priv) =>
      obtain rfl := congrArg Prod.fst (pure_ok.mp hs)
      obtain rfl := congrArg Prod.snd (pure_ok.mp hs)
      exact updatePriv_unchanged s rp priv
  | bad request => exact iff_of_true (refused_same _ hs) trivial

end Serve

theorem privctl_error_unchanged_iff {T : PrivTableHeaders H} {s s' : PrivSystem T M}
    {caller rp : Slot H} {ctlEndpt : ℤ} {request : CtlRequest T} {e : Errno}
    (htarget : privctlTarget s.kernel caller ctlEndpt = .ok (some rp))
    (hs : doPrivctl T s caller ctlEndpt request = .ok (e, s')) :
    (e ≠ .OK → Unchanged s s' rp) ↔
      ((s.kernel.privOf caller).has SYS_PROC = true → Harmless T s caller rp request) := by
  rw [doPrivctl] at hs
  split at hs
  · rename_i huser
    exact iff_of_true (refused_same _ hs) fun hsys => absurd hsys (by simp [huser])
  · rename_i hsys
    rw [htarget] at hs
    have hserve : serve T s caller rp request = .ok (e, s') := hs
    rw [serve_unchanged hserve]
    exact ⟨fun h _ => h, fun h => h (by simpa using hsys)⟩

def plain {T : PrivTableHeaders H} : CtlRequest T → Option PrivRequest
  | .SYS_PRIV_ALLOW => some .SYS_PRIV_ALLOW
  | .SYS_PRIV_YIELD => some .SYS_PRIV_YIELD
  | .SYS_PRIV_DISALLOW => some .SYS_PRIV_DISALLOW
  | .SYS_PRIV_SET_SYS arg =>
    some (.SYS_PRIV_SET_SYS (arg.map fun copied => copied.map PrivStruct.toPrivArg))
  | .SYS_PRIV_SET_USER => some .SYS_PRIV_SET_USER
  | .SYS_PRIV_UPDATE_SYS arg =>
    some (.SYS_PRIV_UPDATE_SYS (arg.map fun copied => copied.map PrivStruct.toPrivArg))
  | _ => none

def onKernel {T : PrivTableHeaders H} (result : Errno × PrivSystem T M) :
    Errno × KState H M :=
  (result.1, result.2.kernel)

section Kernel
variable {T : PrivTableHeaders H} {s : PrivSystem T M} {caller rp : Slot H}

theorem updatePriv_kernel (s : PrivSystem T M) (rp : Slot H) (priv : PrivStruct T) :
    onKernel (updatePriv T s rp priv) =
      Kernel.updatePriv T.toPrivctlHeaders s.kernel rp priv.toPrivArg := by
  rw [updatePriv, Kernel.updatePriv]
  dsimp only
  split
  · rfl
  · split
    · rfl
    · split <;> rfl

theorem setSys_kernel (s : PrivSystem T M) (caller rp : Slot H) (arg : Option (PrivStruct T)) :
    onKernel (setSys T s caller rp arg) = Kernel.setSys T.toPrivctlHeaders s.kernel caller rp
      (arg.map PrivStruct.toPrivArg) := by
  rw [setSys, Kernel.setSys]
  generalize getPriv T.toPrivctlHeaders s.kernel rp _ = found
  cases found with
  | error e => rfl
  | ok kernel =>
    have hsame : ∀ mask, ((fillSendtoMask (kernel.updPriv (kernel.proc rp).priv fun _ =>
        (kernel.privOf caller).service T.toPrivctlHeaders (procNr rp)) rp mask).proc rp).priv =
          (kernel.proc rp).priv := fun mask => by
      rw [fill_proc]
      rfl
    dsimp only
    rw [hsame]
    cases arg with
    | none => rfl
    | some priv => exact updatePriv_kernel _ rp priv

theorem guarded_kernel {c : Prop} [Decidable c] {r : Errno}
    {served : Except Fault (Errno × PrivSystem T M)} {served' : Except Fault (Errno × KState H M)}
    (h : onKernel <$> served = served') : onKernel <$> (if c then pure (r, s) else served) =
      if c then pure (r, s.kernel) else served' := by
  split
  · rfl
  · exact h

theorem bound_kernel (x : Except Fault (KState H M)) :
    onKernel <$> (x >>= fun kernel => pure (.OK, { s with kernel })) =
      x >>= fun kernel => pure (.OK, kernel) := by
  cases x <;> rfl

theorem doPrivctl_kernel {request : CtlRequest T} {req : PrivRequest} {ctlEndpt : ℤ}
    (hplain : plain request = some req) :
    onKernel <$> doPrivctl T s caller ctlEndpt request =
      Kernel.doPrivctl T.toPrivctlHeaders s.kernel caller ⟨ctlEndpt, req⟩ := by
  rw [doPrivctl, Kernel.doPrivctl]
  dsimp only
  refine guarded_kernel ?_
  generalize privctlTarget s.kernel caller ctlEndpt = target
  cases target with
  | error fault => rfl
  | ok found =>
    cases found with
    | none => rfl
    | some rp =>
      change onKernel <$> serve T s caller rp request = _
      cases request with
      | SYS_PRIV_ALLOW =>
        obtain rfl := Option.some.inj hplain
        exact guarded_kernel (bound_kernel _)
      | SYS_PRIV_YIELD =>
        obtain rfl := Option.some.inj hplain
        refine guarded_kernel ?_
        cases rtsSet s.kernel caller RTS_NO_PRIV with
        | error fault => rfl
        | ok kernel => exact bound_kernel (rtsUnset kernel rp RTS_NO_PRIV)
      | SYS_PRIV_DISALLOW =>
        obtain rfl := Option.some.inj hplain
        exact guarded_kernel (bound_kernel _)
      | SYS_PRIV_SET_SYS arg =>
        obtain rfl := Option.some.inj hplain
        refine guarded_kernel ?_
        cases arg with
        | none => exact congrArg Except.ok (setSys_kernel s caller rp none)
        | some copied =>
          cases copied with
          | error r => rfl
          | ok priv => exact congrArg Except.ok (setSys_kernel s caller rp (some priv))
      | SYS_PRIV_SET_USER =>
        obtain rfl := Option.some.inj hplain
        exact guarded_kernel rfl
      | SYS_PRIV_UPDATE_SYS arg =>
        obtain rfl := Option.some.inj hplain
        cases arg with
        | none => rfl
        | some copied =>
          cases copied with
          | error r => rfl
          | ok priv => exact congrArg Except.ok (updatePriv_kernel s rp priv)
      | _ => cases hplain

end Kernel

def wideTables : PrivTableHeaders wideHeaders :=
  { widePrivctl with
    nrIrq := 8
    nrIoRange := 64
    nrMemRange := 20
    dsrvKc := 1
    noC := 0
    sysCallMaskSize := 2
    ENOMEM := -12 }

def wideSystem : PrivSystem wideTables ℕ where
  kernel := wideState
  tables := fun _ => ⟨fun _ => 0, ⟨0, fun _ => ⟨0, 0⟩⟩, ⟨0, fun _ => ⟨0, 0⟩⟩, ⟨0, fun _ => 0⟩⟩

def nineIrqs : PrivStruct wideTables where
  toPrivArg := { highBit.toPrivArg with sFlags := SYS_PROC ||| 0x40, sNrIrq := 9 }
  sKCallMask := fun _ => 0
  sIoTab := fun _ => ⟨0, 0⟩
  sMemTab := fun _ => ⟨0, 0⟩
  sIrqTab := fun i => i.val

theorem privctl_error_unchanged_refused : ∃ s' : PrivSystem wideTables ℕ,
    doPrivctl wideTables wideSystem (4 : Fin 12) (wideHeaders.endpoint 1 1)
        (.SYS_PRIV_UPDATE_SYS (some (.ok nineIrqs))) = .ok (.EINVAL, s') ∧
      ((.EINVAL ≠ Errno.OK → Unchanged wideSystem s' (5 : Fin 12)) ↔
        ((wideSystem.kernel.privOf (4 : Fin 12)).has SYS_PROC = true →
          Harmless wideTables wideSystem (4 : Fin 12) (5 : Fin 12)
            (.SYS_PRIV_UPDATE_SYS (some (.ok nineIrqs))))) := by
  have htarget : privctlTarget wideSystem.kernel (4 : Fin 12) (wideHeaders.endpoint 1 1) =
      .ok (some (5 : Fin 12)) := rfl
  exact ⟨_, rfl, privctl_error_unchanged_iff htarget rfl⟩

theorem refused_flags_stay : ∃ s' : PrivSystem wideTables ℕ,
    privctlTarget wideSystem.kernel (4 : Fin 12) (wideHeaders.endpoint 1 1) =
      .ok (some (5 : Fin 12)) ∧
    doPrivctl wideTables wideSystem (4 : Fin 12) (wideHeaders.endpoint 1 1)
        (.SYS_PRIV_UPDATE_SYS (some (.ok nineIrqs))) = .ok (.EINVAL, s') ∧
      ¬ Unchanged wideSystem s' (5 : Fin 12) := by
  refine ⟨_, rfl, rfl, fun h => ?_⟩
  exact absurd h.flags (by decide)

end PrivSystem

end Kernel
