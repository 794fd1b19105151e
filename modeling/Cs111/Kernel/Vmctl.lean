import Cs111.Kernel.SafemapRuns

namespace Kernel
open Minix FlagWord Chain TransitionSystem
variable {H : Headers} {M : Type}

inductive VmSusp where
  | KERNELCALL | DELIVERMSG | MAP
  deriving DecidableEq

structure VmMapParams where
  virD : BitVec 32
  epS : ℤ
  virS : BitVec 32
  length : BitVec 32
  writeflag : ℤ

-- req_type with its member of the union params.
inductive VmPayload where
  | CHECK (start length : BitVec 32) (writeflag : ℤ)
  | SMAP (params : VmMapParams)
  | SUNMAP (params : VmMapParams)
  | COWMAP (params : VmMapParams)

structure PVmrequest (H : Headers) where
  nextrequestor : Option (Slot H)
  type : VmSusp
  target : ℤ
  params : VmPayload
  vmresult : Errno

structure VmState (H : Headers) (M : Type) where
  kernel : KState H M
  pVmrequest : Slot H → PVmrequest H
  vmrequest : Option (Slot H)

structure MrgReply where
  target : ℤ
  addr : BitVec 32
  addr2 : Option (ℤ × BitVec 32)
  length : BitVec 32
  flag : ℤ
  requestor : ℤ

-- linSrc and linDst are what umap_local() makes of the two ranges.
structure MapInvocation where
  reqType : VmMapParams → VmPayload
  endD : ℤ
  endS : ℤ
  linSrc : BitVec 32
  linDst : BitVec 32
  size : BitVec 32
  flag : ℤ

inductive VmctlParam where
  | VMCTL_MEMREQ_GET
  | VMCTL_MEMREQ_REPLY (value : Errno)

inductive VmctlResult (H : Headers) where
  | error (r : Errno)
  | memreq (rp : Slot H) (reply : MrgReply)
  | replied (p : Slot H)

def VmctlResult.ofGet : Option (Slot H × MrgReply) → VmctlResult H
  | none => .error .ESRCH
  | some (rp, reply) => .memreq rp reply

namespace VmState

section Calls
variable (vmProcNr : ℤ) (sigkmem : ℕ) (s : VmState H M)

def wakeVm (k : KState H M) : Except Fault (KState H M) :=
  if s.vmrequest.isNone then sendSig k vmProcNr sigkmem else pure k

def enqueue (k : KState H M) (caller : Slot H) (request : PVmrequest H) :
    Except Fault (VmState H M) := do
  let k ← s.wakeVm vmProcNr sigkmem k
  pure {
    kernel := k
    pVmrequest := Function.update s.pVmrequest caller { request with nextrequestor := s.vmrequest }
    vmrequest := some caller }

def vmSuspend (caller target : Slot H) (linaddr len : BitVec 32) (type : VmSusp) :
    Except Fault (VmState H M) := do
  kassert (!(s.kernel.proc caller).rtsIsset RTS_VMREQUEST)
  kassert (!(s.kernel.proc target).rtsIsset RTS_VMREQUEST)
  let k ← rtsSet s.kernel caller RTS_VMREQUEST
  s.enqueue vmProcNr sigkmem k caller { s.pVmrequest caller with
    params := .CHECK linaddr len 1
    target := (k.proc target).endpoint
    type := type }

def mapInvokeVm (clickSize : BitVec 32) (caller : Slot H) (m : MapInvocation) :
    Except Fault (Errno × VmState H M) :=
  if m.linSrc = 0 ∨ m.linDst = 0 then pure (.EINVAL, s)
  else if m.linSrc % clickSize ≠ 0 ∨ m.linDst % clickSize ≠ 0 then pure (.EINVAL, s)
  else
    match isokendpt s.kernel m.endD with
    | none => .error .nullPointer
    | some dst => do
      kassert (!(s.kernel.proc caller).rtsIsset RTS_VMREQUEST)
      kassert (!(s.kernel.proc caller).rtsIsset RTS_VMREQTARGET)
      kassert (!(s.kernel.proc dst).rtsIsset RTS_VMREQUEST)
      kassert (!(s.kernel.proc dst).rtsIsset RTS_VMREQTARGET)
      let k ← rtsSet s.kernel caller RTS_VMREQUEST
      let k ← rtsSet k dst RTS_VMREQTARGET
      let s ← s.enqueue vmProcNr sigkmem k caller { s.pVmrequest caller with
        params := m.reqType ⟨m.linDst, m.endS, m.linSrc, m.size, m.flag⟩
        target := m.endD
        type := .MAP }
      pure (.OK, s)

def mapReply (rp : Slot H) (request : PVmrequest H) (params : VmMapParams) : MrgReply where
  target := request.target
  addr := params.virD
  addr2 := some (params.epS, params.virS)
  length := params.length
  flag := params.writeflag
  requestor := (s.kernel.proc rp).endpoint

def mrgReply (rp target : Slot H) : Except Fault (MrgReply × KState H M) :=
  let request := s.pVmrequest rp
  let mapped (params : VmMapParams) := do
    kassert ((s.kernel.proc target).rtsIsset RTS_VMREQTARGET)
    let k ← rtsUnset s.kernel target RTS_VMREQTARGET
    pure (mapReply s rp request params, k)
  match request.params with
  | .CHECK start length writeflag => pure ({
      target := request.target
      addr := start
      addr2 := none
      length := length
      flag := writeflag
      requestor := (s.kernel.proc rp).endpoint }, s.kernel)
  | .SMAP params => mapped params
  | .SUNMAP params => mapped params
  | .COWMAP params => mapped params

def vmctlGet : Except Fault (Option (Slot H × MrgReply) × VmState H M) :=
  match s.vmrequest with
  | none => pure (none, s)
  | some rp => do
    kassert ((s.kernel.proc rp).rtsIsset RTS_VMREQUEST)
    let target ← okendpt s.kernel (s.pVmrequest rp).target
    let (reply, k) ← mrgReply s rp target
    pure (some (rp, reply), {
      kernel := k
      pVmrequest := Function.update s.pVmrequest rp
        { s.pVmrequest rp with vmresult := vmsuspend }
      vmrequest := (s.pVmrequest rp).nextrequestor })

def resumeRequest (p target : Slot H) : Except Fault (KState H M) :=
  match (s.pVmrequest p).type with
  | .KERNELCALL => pure (s.kernel.upd p fun x =>
      { x with miscFlags := x.miscFlags ||| MF_KCALL_RESUME })
  | .DELIVERMSG => do
    kassert ((s.kernel.proc p).miscIsset MF_DELIVERMSG)
    kassert (p == target)
    pure s.kernel
  | .MAP => pure s.kernel

def vmctlReply (p : Slot H) (value : Errno) : Except Fault (VmState H M) := do
  kassert ((s.kernel.proc p).rtsIsset RTS_VMREQUEST)
  kassert ((s.pVmrequest p).vmresult == vmsuspend)
  let target ← okendpt s.kernel (s.pVmrequest p).target
  kassert (value != vmsuspend)
  let k ← s.resumeRequest p target
  let k ← rtsUnset k p RTS_VMREQUEST
  pure { s with
    kernel := k
    pVmrequest := Function.update s.pVmrequest p { s.pVmrequest p with vmresult := value } }

def doVmctl (caller : Slot H) (who : ℤ) (param : VmctlParam) :
    Except Fault (VmctlResult H × VmState H M) :=
  let ep := if who = H.self then (s.kernel.proc caller).endpoint else who
  match isokendpt s.kernel ep with
  | none => pure (.error .EINVAL, s)
  | some p =>
    match param with
    | .VMCTL_MEMREQ_GET => do
      let (m, s) ← vmctlGet s
      pure (.ofGet m, s)
    | .VMCTL_MEMREQ_REPLY value => do
      let s ← vmctlReply s p value
      pure (.replied p, s)

-- do_clear() knows nothing of the request chain.
def doClear (prEndpt : ℤ) : Except Fault (Errno × VmState H M) := do
  let (r, k) ← Kernel.doClear s.kernel prEndpt
  pure (r, { s with kernel := k })

end Calls

end VmState

section Views
variable {s s' t : KState H M} {rp rc : Slot H} {f : Flags}

def besideVm (f : Flags) : Prop :=
  f &&& RTS_SLOT_FREE = 0 ∧ f &&& RTS_VMREQUEST = 0 ∧ f &&& RTS_VMREQTARGET = 0

instance : Decidable (besideVm f) := inferInstanceAs (Decidable (_ ∧ _ ∧ _))

theorem rtsSet_vm (h : rtsSet s rp f = .ok s') : s'.vm =
    Function.update s.vm rp ((s.proc rp).setRts ((s.proc rp).rtsFlags ||| f)).vm := by
  rw [(Rescheduled.of_rtsSet h).vm]
  exact vm_upd

theorem rtsUnset_vm (h : rtsUnset s rp f = .ok s') : s'.vm =
    Function.update s.vm rp ((s.proc rp).setRts ((s.proc rp).rtsFlags &&& ~~~f)).vm := by
  rw [(Rescheduled.rtsUnset h).vm]
  exact vm_upd

theorem rtsSet_vm_same (hf : besideVm f) (h : rtsSet s rp f = .ok s') : s'.vm = s.vm := by
  rw [rtsSet_vm h, (setRts_vm hf.1 hf.2.1 hf.2.2).1]
  exact Function.update_eq_self ..

theorem rtsUnset_vm_same (hf : besideVm f) (h : rtsUnset s rp f = .ok s') : s'.vm = s.vm := by
  rw [rtsUnset_vm h, (setRts_vm hf.1 hf.2.1 hf.2.2).2]
  exact Function.update_eq_self ..

theorem vm_upd_same {g : Proc H M → Proc H M} (hg : (g (s.proc rp)).vm = (s.proc rp).vm) :
    (s.upd rp g).vm = s.vm := by
  rw [vm_upd, hg]
  exact Function.update_eq_self ..

theorem miniNotify_vm {e : ℤ} {r : Errno} (h : miniNotify s rp e = .ok (r, s')) :
    s'.vm = s.vm := by
  rw [miniNotify] at h
  split at h
  · obtain ⟨-, rfl⟩ := Prod.mk.inj (pure_ok.mp h)
    rfl
  · rename_i dst hdst
    split at h
    · obtain ⟨-, h⟩ := kassert_bind_ok.mp h
      obtain ⟨t, ht, h⟩ := bind_ok.mp h
      obtain ⟨-, rfl⟩ := Prod.mk.inj (pure_ok.mp h)
      rw [rtsUnset_vm_same (by decide) ht]
      funext i
      obtain ⟨-, hrts, hendpoint⟩ := (acceptNotify_proc s rp dst).2.1 i
      simp only [KState.vm, Proc.vm, Proc.rtsIsset, hrts, hendpoint]
    · obtain ⟨-, rfl⟩ := Prod.mk.inj (pure_ok.mp h)
      rfl

theorem sendSig_vm {ep : ℤ} {sigNr : ℕ} (h : sendSig s ep sigNr = .ok s') : s'.vm = s.vm := by
  simp only [sendSig, bind_ok] at h
  obtain ⟨p, -, ⟨r, t⟩, hnotify, h⟩ := h
  obtain rfl : t = s' := pure_ok.mp h
  have hframe := miniNotify_vm hnotify
  exact hframe

theorem setCallers_vm (d : Slot H) (xpp : Cell (Slot H)) (v : Option (Slot H)) :
    (s.setCallers d xpp v).vm = s.vm := by
  cases xpp with
  | head =>
    change (s.upd d fun x => { x with callerQ := v }).vm = s.vm
    exact vm_upd_same rfl
  | link j =>
    change (s.upd j fun x => { x with qLink := v }).vm = s.vm
    exact vm_upd_same rfl

theorem clear_rts_vm (hf : besideVm f) :
    (s.setRts rc ((s.proc rc).rtsFlags &&& ~~~f)).vm = s.vm :=
  vm_upd_same (setRts_vm hf.1 hf.2.1 hf.2.2).2

theorem clearIpc_vm (h : clearIpc s rc = .ok s') : s'.vm = s.vm := by
  rw [clearIpc] at h
  obtain ⟨t, ht, h⟩ := bind_ok.mp h
  obtain rfl := pure_ok.mp h
  rw [clear_rts_vm (by decide)]
  rw [unlinkSender] at ht
  split at ht
  · obtain ⟨target, -, ht⟩ := bind_ok.mp ht
    split at ht
    · cases ht
    · obtain rfl := pure_ok.mp ht
      rw [clear_rts_vm (by decide)]
      split
      · rfl
      · exact setCallers_vm ..
  · cases ht
    rfl

theorem clearRef_vm {r : Errno} (h : clearRef rc r s rp = .ok s') : s'.vm = s.vm := by
  rw [clearRef] at h
  split at h
  · cases h
    rfl
  · dsimp only at h
    split at h
    · rw [rtsUnset_vm_same (by decide) h, vm_upd_same rfl]
      rfl
    · cases h
      rfl

theorem clear_refs_vm {r : Errno} (l : List (Slot H)) (s : KState H M)
    (h : l.foldlM (clearRef rc r) s = .ok s') : s'.vm = s.vm := by
  induction l generalizing s with
  | nil =>
    cases h
    rfl
  | cons rp l ih =>
    rw [List.foldlM_cons] at h
    obtain ⟨t, ht, h⟩ := bind_ok.mp h
    rw [ih t h, clearRef_vm ht]

theorem clearEndpoint_vm (h : clearEndpoint s rc = .ok s') : s'.vm = s.vm := by
  rw [clearEndpoint] at h
  split at h
  · cases h
  · obtain ⟨t, ht, h⟩ := bind_ok.mp h
    obtain ⟨u, hu, h⟩ := bind_ok.mp h
    have hasyn : (clearAsynsize t rc).vm = t.vm := by
      rw [clearAsynsize]
      split <;> rfl
    rw [clear_refs_vm _ _ h, clearIpc_vm hu, hasyn, rtsSet_vm_same (by decide) ht]

theorem rtsSetflags_vm (h : rtsSetflags s rp f = .ok s') :
    s'.vm = Function.update s.vm rp ((s.proc rp).setRts f).vm := by
  rw [rtsSetflags] at h
  split at h
  · obtain ⟨t, ht, h⟩ := bind_ok.mp h
    obtain rfl := pure_ok.mp h
    have hproc : t.proc = s.proc := (Rescheduled.dequeue ht).1
    change (t.upd rp fun x => x.setRts f).vm = _
    rw [vm_upd, hproc]
    congr 1
    funext i
    exact congrArg Proc.vm (congrFun hproc i)
  · obtain ⟨t, ht, h⟩ := bind_ok.mp h
    obtain rfl := pure_ok.mp h
    obtain rfl := pure_ok.mp ht
    exact vm_upd

theorem doClear_vm {e : ℤ} {r : Errno} (h : doClear s e = .ok (r, s')) :
    isokendpt s e = none ∧ s' = s ∨ ∃ rc, isokendpt s e = some rc ∧ r = .OK ∧
      s'.vm = Function.update s.vm rc
        { s.vm rc with free := true, request := false, target := false } := by
  rw [doClear] at h
  split at h
  · rename_i hnone
    cases h
    exact .inl ⟨hnone, rfl⟩
  · rename_i rc hrc
    split at h
    · rename_i hempty
      have hused := (isokendpt_some hrc).2.1
      exact absurd (LawfulBEq.eq_of_beq hempty) hused
    · obtain ⟨t, ht, h⟩ := bind_ok.mp h
      obtain ⟨u, hu, h⟩ := bind_ok.mp h
      obtain ⟨rfl, rfl⟩ := Prod.mk.inj (pure_ok.mp h)
      refine .inr ⟨rc, hrc, rfl, ?_⟩
      have hrelease : (releasePriv (u.upd rc (·.clearMisc MF_FPU_INITIALIZED)) rc).vm = u.vm := by
        have hcleared : (u.upd rc (·.clearMisc MF_FPU_INITIALIZED)).vm = u.vm := vm_upd_same rfl
        rw [releasePriv]
        split <;> exact hcleared
      have hview : ((t.proc rc).setRts RTS_SLOT_FREE).vm =
          { s.vm rc with free := true, request := false, target := false } := by
        rw [← clearEndpoint_vm ht]
        have hflags : isset RTS_SLOT_FREE RTS_SLOT_FREE = true ∧
          isset RTS_SLOT_FREE RTS_VMREQUEST = false ∧
          isset RTS_SLOT_FREE RTS_VMREQTARGET = false := by decide
        simp only [KState.vm, Proc.vm, Proc.setRts, Proc.rtsIsset, hflags]
      rw [hrelease, rtsSetflags_vm hu, hview, clearEndpoint_vm ht]

end Views

inductive VmEvent (H : Headers) where
  | vmSuspend (caller target : Slot H) (linaddr len : BitVec 32) (type : VmSusp)
  | mapInvokeVm (caller : Slot H) (m : MapInvocation) (r : Errno)
  | doVmctl (caller : Slot H) (who : ℤ) (param : VmctlParam) (r : VmctlResult H)
  | doClear (prEndpt : ℤ) (r : Errno)
  | rest

structure Handouts (H : Headers) where
  handed : Slot H → ℕ
  ended : List ℕ

namespace Handouts
variable (L : Handouts H) (p : Slot H)

def suspend : Handouts H := { L with handed := Function.update L.handed p 0 }

def hand : Handouts H := { L with handed := Function.update L.handed p (L.handed p + 1) }

def finish : Handouts H := { L with ended := L.handed p :: L.ended }

def after (s : VmState H M) : VmEvent H → Handouts H
  | .vmSuspend caller _ _ _ _ => L.suspend caller
  | .mapInvokeVm caller _ .OK => L.suspend caller
  | .doVmctl _ _ _ (.memreq rp _) => L.hand rp
  | .doVmctl _ _ _ (.replied p) => L.finish p
  | .doClear e .OK =>
    match isokendpt s.kernel e with
    | none => L
    | some rc => if (s.kernel.proc rc).rtsIsset RTS_VMREQUEST then L.finish rc else L
  | _ => L

end Handouts

def handouts : List (VmState H M × VmEvent H) → Handouts H
  | [] => ⟨fun _ => 0, []⟩
  | (s, e) :: past => (handouts past).after s e

namespace VmState

def chain (s : VmState H M) : Links (Slot H) where
  head := s.vmrequest
  next p := (s.pVmrequest p).nextrequestor

def Queued (s : VmState H M) (p : Slot H) : Prop := ∃ l, s.chain.Holds l ∧ p ∈ l

structure Elsewhere (s s' : VmState H M) : Prop where
  vmrequest : s'.vmrequest = s.vmrequest
  procs : ∀ p, s'.pVmrequest p = s.pVmrequest p ∧
      (s'.kernel.vm p).free = (s.kernel.vm p).free ∧
      (s'.kernel.vm p).request = (s.kernel.vm p).request ∨
    (s.kernel.vm p).free = true ∧ (s'.kernel.vm p).free = false ∧
      (s'.kernel.vm p).request = false ∧ (s'.pVmrequest p).vmresult ≠ vmsuspend

structure NoRequests (s : VmState H M) : Prop where
  request : ∀ p, (s.kernel.proc p).rtsIsset RTS_VMREQUEST = false
  vmresult : ∀ p, (s.pVmrequest p).vmresult ≠ vmsuspend
  vmrequest : s.vmrequest = none

end VmState

def VmEvent.Happens (C : SafemapHeaders) (s s' : VmState H M) : VmEvent H → Prop
  | .vmSuspend caller target linaddr len type =>
    (s.kernel.proc caller).rtsIsset RTS_SLOT_FREE = false ∧
      s.vmSuspend C.vmProcNr C.sigkmem caller target linaddr len type = .ok s'
  | .mapInvokeVm caller m r => (s.kernel.proc caller).rtsIsset RTS_SLOT_FREE = false ∧
      s.mapInvokeVm C.vmProcNr C.sigkmem C.clickSize caller m = .ok (r, s')
  | .doVmctl caller who param r => s.doVmctl caller who param = .ok (r, s')
  | .doClear e r => s.doClear e = .ok (r, s')
  | .rest => s.Elsewhere s'

def vmSystem (C : SafemapHeaders) (H : Headers) (M : Type) :
    TransitionSystem (VmState H M) (VmEvent H) where
  initial := VmState.NoRequests
  step s e s' := e.Happens C s s'

def VmEvent.Keeps (s : VmState H M) : VmEvent H → Prop
  | .doClear e _ => ∀ rc, isokendpt s.kernel e = some rc → ¬ s.Queued rc
  | _ => True

structure Requested (L : Handouts H) (s : VmState H M) (l : List (Slot H)) : Prop where
  holds : s.chain.Holds l
  once : l.Nodup
  queued : ∀ p ∈ l, (s.kernel.proc p).rtsIsset RTS_VMREQUEST = true ∧
    (s.kernel.proc p).rtsIsset RTS_SLOT_FREE = false
  handed : ∀ p, (s.kernel.proc p).rtsIsset RTS_VMREQUEST = true →
    L.handed p = if p ∈ l then 0 else 1
  ended : ∀ n ∈ L.ended, n = 1

structure Waiting (L : Handouts H) (s : VmState H M) (l : List (Slot H)) : Prop where
  holds : s.chain.Holds l
  queued : ∀ p ∈ l, (s.kernel.vm p).request = true
  used : ∀ p, (s.kernel.vm p).request = true → (s.kernel.vm p).free = false
  handed : ∀ p, (s.kernel.vm p).request = true → L.handed p = if p ∈ l then 0 else 1
  taken : ∀ p, (s.kernel.vm p).request = true →
    ((s.pVmrequest p).vmresult = vmsuspend ↔ p ∉ l)
  idle : ∀ p, (s.kernel.vm p).free = false → (s.kernel.vm p).request = false →
    (s.pVmrequest p).vmresult ≠ vmsuspend
  ended : ∀ n ∈ L.ended, n = 1

section Steps
variable {C : SafemapHeaders} {L : Handouts H} {s s' : VmState H M} {l : List (Slot H)}
  {caller p rp : Slot H} {r : Errno}

theorem Waiting.requested (h : Waiting L s l) : Requested L s l :=
  ⟨h.holds, path_nodup h.holds, fun p hp => ⟨h.queued p hp, h.used p (h.queued p hp)⟩, h.handed,
    h.ended⟩

theorem Waiting.start (h : s.NoRequests) : Waiting ⟨fun _ => 0, []⟩ s [] where
  holds := h.vmrequest
  queued := by simp
  used p hp := absurd ((h.request p).symm.trans hp) Bool.false_ne_true
  handed p hp := absurd ((h.request p).symm.trans hp) Bool.false_ne_true
  taken p hp := absurd ((h.request p).symm.trans hp) Bool.false_ne_true
  idle p _ _ := h.vmresult p
  ended := by simp

structure VmState.Suspends (s s' : VmState H M) (caller : Slot H) : Prop where
  free : ∀ p, (s'.kernel.vm p).free = (s.kernel.vm p).free
  request : ∀ p, (s'.kernel.vm p).request = (decide (p = caller) || (s.kernel.vm p).request)
  head : s'.vmrequest = some caller
  next : (s'.pVmrequest caller).nextrequestor = s.vmrequest
  vmresult : (s'.pVmrequest caller).vmresult = (s.pVmrequest caller).vmresult
  others : ∀ p ≠ caller, s'.pVmrequest p = s.pVmrequest p

theorem Waiting.suspends (h : Waiting L s l) (hfree : (s.kernel.vm caller).free = false)
    (hidle : (s.kernel.vm caller).request = false) (hs : s.Suspends s' caller) :
    Waiting (L.suspend caller) s' (caller :: l) := by
  have hout : caller ∉ l := fun hmem =>
    absurd (hidle.symm.trans (h.queued caller hmem)) Bool.false_ne_true
  have hrequest : ∀ q, q ≠ caller → (s'.kernel.vm q).request = (s.kernel.vm q).request := by
    intro q hq
    rw [hs.request, decide_eq_false hq, Bool.false_or]
  refine ⟨⟨hs.head, ?_⟩, fun q hq => ?_, fun q hq => ?_, fun q hq => ?_, fun q hq => ?_,
    fun q hused hq => ?_, h.ended⟩
  · change Path (fun q => (s'.pVmrequest q).nextrequestor) (s'.pVmrequest caller).nextrequestor l
    rw [hs.next]
    refine path_congr (fun q hq => ?_) h.holds
    have hne : q ≠ caller := fun he => hout (he ▸ hq)
    change (s'.pVmrequest q).nextrequestor = _
    rw [hs.others q hne]
    rfl
  · rw [hs.request]
    rcases List.mem_cons.mp hq with rfl | hq
    · simp
    · rw [h.queued q hq, Bool.or_true]
  · rw [hs.free]
    by_cases hne : q = caller
    · rw [hne]
      exact hfree
    · rw [hrequest q hne] at hq
      exact h.used q hq
  · change Function.update L.handed caller 0 q = _
    by_cases hne : q = caller
    · subst hne
      rw [Function.update_self, if_pos List.mem_cons_self]
    · rw [hrequest q hne] at hq
      rw [Function.update_of_ne hne, h.handed q hq]
      simp only [List.mem_cons, hne, false_or]
  · by_cases hne : q = caller
    · subst hne
      rw [hs.vmresult]
      exact iff_of_false (h.idle q hfree hidle) fun hmem => hmem List.mem_cons_self
    · rw [hrequest q hne] at hq
      rw [hs.others q hne, h.taken q hq]
      simp only [List.mem_cons, hne, false_or]
  · have hne : q ≠ caller := by
      rintro rfl
      rw [hs.request, decide_eq_true rfl, Bool.true_or] at hq
      cases hq
    rw [hs.others q hne]
    rw [hs.free] at hused
    rw [hrequest q hne] at hq
    exact h.idle q hused hq

theorem Waiting.handed_out (h : Waiting L s (rp :: l))
    (hvm : ∀ p, (s'.kernel.vm p).free = (s.kernel.vm p).free ∧
      (s'.kernel.vm p).request = (s.kernel.vm p).request)
    (hrequests : s'.pVmrequest = Function.update s.pVmrequest rp
      { s.pVmrequest rp with vmresult := vmsuspend })
    (hhead : s'.vmrequest = (s.pVmrequest rp).nextrequestor) : Waiting (L.hand rp) s' l := by
  have hnext : ∀ q, (s'.pVmrequest q).nextrequestor = (s.pVmrequest q).nextrequestor := by
    intro q
    rw [hrequests]
    by_cases hq : q = rp
    · subst hq
      rw [Function.update_self]
    · rw [Function.update_of_ne hq]
  have hresult : ∀ q ≠ rp, (s'.pVmrequest q).vmresult = (s.pVmrequest q).vmresult := by
    intro q hq
    rw [hrequests, Function.update_of_ne hq]
  have hout : rp ∉ l := (List.nodup_cons.mp (path_nodup h.holds)).1
  refine ⟨?_, fun q hq => ?_, fun q hq => ?_, fun q hq => ?_, fun q hq => ?_,
    fun q hused hq => ?_, h.ended⟩
  · change Path (fun q => (s'.pVmrequest q).nextrequestor) s'.vmrequest l
    rw [hhead]
    exact path_congr (fun q _ => hnext q) h.holds.2
  · rw [(hvm q).2]
    exact h.queued q (List.mem_cons_of_mem rp hq)
  · rw [(hvm q).2] at hq
    rw [(hvm q).1]
    exact h.used q hq
  · rw [(hvm q).2] at hq
    have hhanded := h.handed q hq
    change Function.update L.handed rp (L.handed rp + 1) q = _
    by_cases hne : q = rp
    · subst hne
      rw [Function.update_self, hhanded, if_pos List.mem_cons_self, if_neg hout]
    · rw [Function.update_of_ne hne, hhanded]
      simp only [List.mem_cons, hne, false_or]
  · rw [(hvm q).2] at hq
    by_cases hne : q = rp
    · subst hne
      rw [hrequests, Function.update_self]
      exact iff_of_true rfl hout
    · rw [hresult q hne, h.taken q hq]
      simp only [List.mem_cons, hne, false_or]
  · rw [(hvm q).1] at hused
    rw [(hvm q).2] at hq
    have hne : q ≠ rp := by
      rintro rfl
      exact absurd (hq.symm.trans (h.queued q List.mem_cons_self)) Bool.false_ne_true
    rw [hresult q hne]
    exact h.idle q hused hq

theorem Waiting.ends {L' : Handouts H} (h : Waiting L s l) (hout : p ∉ l)
    (hvm : ∀ q ≠ p, s'.kernel.vm q = s.kernel.vm q)
    (hrequest : (s'.kernel.vm p).request = false)
    (hidle : (s'.kernel.vm p).free = false → (s'.pVmrequest p).vmresult ≠ vmsuspend)
    (hnext : ∀ q, (s'.pVmrequest q).nextrequestor = (s.pVmrequest q).nextrequestor)
    (hresult : ∀ q ≠ p, (s'.pVmrequest q).vmresult = (s.pVmrequest q).vmresult)
    (hhead : s'.vmrequest = s.vmrequest)
    (hL : L' = L ∨ (s.kernel.vm p).request = true ∧ L' = L.finish p) : Waiting L' s' l := by
  have hother : ∀ q, (s'.kernel.vm q).request = true → q ≠ p := by
    rintro q hq rfl
    exact absurd (hrequest.symm.trans hq) Bool.false_ne_true
  have hhanded : L'.handed = L.handed := by
    rcases hL with rfl | ⟨-, rfl⟩
    · rfl
    · rfl
  refine ⟨?_, fun q hq => ?_, fun q hq => ?_, fun q hq => ?_, fun q hq => ?_,
    fun q hused hq => ?_, ?_⟩
  · change Path (fun q => (s'.pVmrequest q).nextrequestor) s'.vmrequest l
    rw [hhead]
    exact path_congr (fun q _ => hnext q) h.holds
  · rw [hvm q fun he => hout (he ▸ hq)]
    exact h.queued q hq
  · have hq' := hq
    rw [hvm q (hother q hq)] at hq' ⊢
    exact h.used q hq'
  · have hq' := hq
    rw [hvm q (hother q hq)] at hq'
    rw [hhanded]
    exact h.handed q hq'
  · have hq' := hq
    rw [hvm q (hother q hq)] at hq'
    rw [hresult q (hother q hq)]
    exact h.taken q hq'
  · by_cases hne : q = p
    · subst hne
      exact hidle hused
    · rw [hvm q hne] at hused hq
      rw [hresult q hne]
      exact h.idle q hused hq
  · rcases hL with rfl | ⟨hp, rfl⟩
    · exact h.ended
    · intro n hn
      rcases List.mem_cons.mp hn with rfl | hn
      · rw [h.handed p hp, if_neg hout]
      · exact h.ended n hn

theorem Waiting.elsewhere (h : Waiting L s l) (hs : s.Elsewhere s') : Waiting L s' l := by
  have hbusy : ∀ q, (s.kernel.vm q).request = true ∨ (s'.kernel.vm q).request = true →
      s'.pVmrequest q = s.pVmrequest q ∧ (s'.kernel.vm q).free = (s.kernel.vm q).free ∧
        (s'.kernel.vm q).request = (s.kernel.vm q).request := by
    intro q hq
    rcases hs.procs q with hsame | ⟨hfree, -, hrequest, -⟩
    · exact hsame
    · rcases hq with hq | hq
      · exact absurd ((h.used q hq).symm.trans hfree) Bool.false_ne_true
      · exact absurd (hrequest.symm.trans hq) Bool.false_ne_true
  have hkept : ∀ q, (s'.kernel.vm q).request = true → (s.kernel.vm q).request = true :=
    fun q hq => (hbusy q (.inr hq)).2.2.symm.trans hq
  refine ⟨?_, fun q hq => ?_, fun q hq => ?_, fun q hq => h.handed q (hkept q hq), fun q hq => ?_,
    fun q hused hq => ?_, h.ended⟩
  · change Path (fun q => (s'.pVmrequest q).nextrequestor) s'.vmrequest l
    rw [hs.vmrequest]
    refine path_congr (fun q hq => ?_) h.holds
    rw [(hbusy q (.inl (h.queued q hq))).1]
    rfl
  · rw [(hbusy q (.inl (h.queued q hq))).2.2]
    exact h.queued q hq
  · rw [(hbusy q (.inr hq)).2.1]
    exact h.used q (hkept q hq)
  · rw [(hbusy q (.inr hq)).1]
    exact h.taken q (hkept q hq)
  · rcases hs.procs q with ⟨hsame, hfree, hrequest⟩ | ⟨-, -, -, hresult⟩
    · rw [hsame]
      exact h.idle q (hfree.symm.trans hused) (hrequest.symm.trans hq)
    · exact hresult

end Steps

section Operations
variable {C : SafemapHeaders} {L : Handouts H} {s s' : VmState H M} {k : KState H M}
  {l : List (Slot H)} {caller target p rp : Slot H} {r : Errno} {vmProcNr : ℤ} {sigkmem : ℕ}

theorem enqueue_suspends {request : PVmrequest H}
    (h : s.enqueue vmProcNr sigkmem k caller request = .ok s')
    (hfree : ∀ p, (k.vm p).free = (s.kernel.vm p).free)
    (hrequest : ∀ p, (k.vm p).request = (decide (p = caller) || (s.kernel.vm p).request))
    (hresult : request.vmresult = (s.pVmrequest caller).vmresult) : s.Suspends s' caller := by
  rw [VmState.enqueue] at h
  obtain ⟨k', hk', h⟩ := bind_ok.mp h
  obtain rfl := pure_ok.mp h
  have hvm : k'.vm = k.vm := by
    rw [VmState.wakeVm] at hk'
    split at hk'
    · exact sendSig_vm hk'
    · obtain rfl := pure_ok.mp hk'
      rfl
  refine ⟨fun p => ?_, fun p => ?_, rfl, ?_, ?_, fun p hp => Function.update_of_ne hp ..⟩
  · change (k'.vm p).free = _
    rw [hvm]
    exact hfree p
  · change (k'.vm p).request = _
    rw [hvm]
    exact hrequest p
  · change (Function.update s.pVmrequest caller _ caller).nextrequestor = _
    rw [Function.update_self]
  · change (Function.update s.pVmrequest caller _ caller).vmresult = _
    rw [Function.update_self]
    exact hresult

theorem not_rts {x : Proc H M} {f : Flags} (h : (!x.rtsIsset f) = true) : x.rtsIsset f = false := by
  rw [Bool.not_eq_true'] at h
  exact h

theorem rtsSet_request (h : rtsSet s.kernel caller RTS_VMREQUEST = .ok k) :
    k.vm = Function.update s.kernel.vm caller { s.kernel.vm caller with request := true } := by
  rw [rtsSet_vm h, (setRts_request _).1]
  rfl

theorem update_request_fields (V : Slot H → VmView) (p q : Slot H) :
    (Function.update V p { V p with request := true } q).free = (V q).free ∧
    (Function.update V p { V p with request := true } q).request =
      (decide (q = p) || (V q).request) := by
  by_cases hq : q = p
  · subst hq
    rw [Function.update_self]
    exact ⟨rfl, by simp⟩
  · rw [Function.update_of_ne hq, decide_eq_false hq, Bool.false_or]
    exact ⟨rfl, rfl⟩

theorem update_target_fields (V : Slot H → VmView) (p q : Slot H) (b : Bool) :
    (Function.update V p { V p with target := b } q).free = (V q).free ∧
    (Function.update V p { V p with target := b } q).request = (V q).request := by
  by_cases hq : q = p
  · subst hq
    rw [Function.update_self]
    exact ⟨rfl, rfl⟩
  · rw [Function.update_of_ne hq]
    exact ⟨rfl, rfl⟩

theorem vmSuspend_suspends {linaddr len : BitVec 32} {type : VmSusp}
    (h : s.vmSuspend vmProcNr sigkmem caller target linaddr len type = .ok s') :
    (s.kernel.vm caller).request = false ∧ s.Suspends s' caller := by
  rw [VmState.vmSuspend] at h
  obtain ⟨hidle, h⟩ := kassert_bind_ok.mp h
  obtain ⟨-, h⟩ := kassert_bind_ok.mp h
  obtain ⟨k, hk, h⟩ := bind_ok.mp h
  have hfields := update_request_fields s.kernel.vm caller
  rw [← rtsSet_request hk] at hfields
  exact ⟨not_rts hidle, enqueue_suspends h (fun p => (hfields p).1) (fun p => (hfields p).2) rfl⟩

theorem mapInvokeVm_suspends {clickSize : BitVec 32} {m : MapInvocation}
    (h : s.mapInvokeVm vmProcNr sigkmem clickSize caller m = .ok (r, s')) :
    r = .EINVAL ∧ s' = s ∨
      r = .OK ∧ (s.kernel.vm caller).request = false ∧ s.Suspends s' caller := by
  rw [VmState.mapInvokeVm] at h
  split at h
  · cases h
    exact .inl ⟨rfl, rfl⟩
  · split at h
    · cases h
      exact .inl ⟨rfl, rfl⟩
    · split at h
      · cases h
      · rename_i dst _
        obtain ⟨hidle, h⟩ := kassert_bind_ok.mp h
        obtain ⟨-, h⟩ := kassert_bind_ok.mp h
        obtain ⟨-, h⟩ := kassert_bind_ok.mp h
        obtain ⟨-, h⟩ := kassert_bind_ok.mp h
        obtain ⟨k, hk, h⟩ := bind_ok.mp h
        obtain ⟨k', hk', h⟩ := bind_ok.mp h
        obtain ⟨t, ht, h⟩ := bind_ok.mp h
        obtain ⟨rfl, rfl⟩ := Prod.mk.inj (pure_ok.mp h)
        have hfields := update_request_fields s.kernel.vm caller
        rw [← rtsSet_request hk] at hfields
        have htarget := update_target_fields k.vm dst
        have hk'vm : k'.vm = Function.update k.vm dst { k.vm dst with target := true } := by
          rw [rtsSet_vm hk', (setRts_target _).1]
          rfl
        refine .inr ⟨rfl, not_rts hidle, enqueue_suspends ht (fun p => ?_) (fun p => ?_) rfl⟩
        · rw [hk'vm, (htarget p true).1, (hfields p).1]
        · rw [hk'vm, (htarget p true).2, (hfields p).2]

theorem mrgReply_vm {reply : MrgReply} (h : s.mrgReply rp target = .ok (reply, k)) (p : Slot H) :
    (k.vm p).free = (s.kernel.vm p).free ∧ (k.vm p).request = (s.kernel.vm p).request := by
  have hmapped : ∀ params : VmMapParams, (do
      kassert ((s.kernel.proc target).rtsIsset RTS_VMREQTARGET)
      let k ← rtsUnset s.kernel target RTS_VMREQTARGET
      pure (s.mapReply rp (s.pVmrequest rp) params, k) : Except Fault (MrgReply × KState H M)) =
        .ok (reply, k) → (k.vm p).free = (s.kernel.vm p).free ∧
          (k.vm p).request = (s.kernel.vm p).request := by
    intro params h
    obtain ⟨-, h⟩ := kassert_bind_ok.mp h
    obtain ⟨t, ht, h⟩ := bind_ok.mp h
    obtain ⟨-, rfl⟩ := Prod.mk.inj (pure_ok.mp h)
    rw [rtsUnset_vm ht, (setRts_target _).2]
    exact update_target_fields s.kernel.vm target p false
  rw [VmState.mrgReply] at h
  dsimp only at h
  split at h
  · obtain ⟨-, rfl⟩ := Prod.mk.inj (pure_ok.mp h)
    exact ⟨rfl, rfl⟩
  · exact hmapped _ h
  · exact hmapped _ h
  · exact hmapped _ h

theorem vmctlGet_hands {reply : Option (Slot H × MrgReply)} (hwait : Waiting L s l)
    (h : s.vmctlGet = .ok (reply, s')) : reply = none ∧ s' = s ∨
      ∃ rp m l', reply = some (rp, m) ∧ l = rp :: l' ∧ Waiting (L.hand rp) s' l' := by
  rw [VmState.vmctlGet] at h
  cases hhead : s.vmrequest with
  | none =>
    rw [hhead] at h
    cases h
    exact .inl ⟨rfl, rfl⟩
  | some rp =>
    rw [hhead] at h
    obtain ⟨-, h⟩ := kassert_bind_ok.mp h
    obtain ⟨target, -, h⟩ := bind_ok.mp h
    obtain ⟨⟨m, k⟩, hk, h⟩ := bind_ok.mp h
    obtain ⟨rfl, rfl⟩ := Prod.mk.inj (pure_ok.mp h)
    cases l with
    | nil => exact absurd (hhead.symm.trans hwait.holds) (Option.some_ne_none rp)
    | cons q l' =>
      obtain rfl : rp = q := Option.some.inj (hhead.symm.trans hwait.holds.1)
      exact .inr ⟨rp, m, l', rfl, rfl,
        hwait.handed_out (fun p => mrgReply_vm hk p) rfl rfl⟩

theorem vmctlReply_finishes {value : Errno} (hwait : Waiting L s l)
    (h : s.vmctlReply p value = .ok s') : Waiting (L.finish p) s' l := by
  rw [VmState.vmctlReply] at h
  obtain ⟨hrequest, h⟩ := kassert_bind_ok.mp h
  obtain ⟨htaken, h⟩ := kassert_bind_ok.mp h
  obtain ⟨target, -, h⟩ := bind_ok.mp h
  obtain ⟨hvalue, h⟩ := kassert_bind_ok.mp h
  obtain ⟨k, hk, h⟩ := bind_ok.mp h
  obtain ⟨k', hk', h⟩ := bind_ok.mp h
  obtain rfl := pure_ok.mp h
  have hkvm : k.vm = s.kernel.vm := by
    rw [VmState.resumeRequest] at hk
    split at hk
    · obtain rfl := pure_ok.mp hk
      exact vm_upd_same rfl
    · obtain ⟨-, hk⟩ := kassert_bind_ok.mp hk
      obtain ⟨-, hk⟩ := kassert_bind_ok.mp hk
      obtain rfl := pure_ok.mp hk
      rfl
    · obtain rfl := pure_ok.mp hk
      rfl
  have hk'vm : k'.vm = Function.update s.kernel.vm p
      { s.kernel.vm p with request := false } := by
    rw [rtsUnset_vm hk', (setRts_request _).2, ← hkvm]
    rfl
  have hout : p ∉ l := (hwait.taken p hrequest).mp (LawfulBEq.eq_of_beq htaken)
  refine hwait.ends hout (fun q hq => ?_) ?_ (fun _ => ?_) (fun q => ?_) (fun q hq => ?_) rfl
    (.inr ⟨hrequest, rfl⟩)
  · change k'.vm q = _
    rw [hk'vm, Function.update_of_ne hq]
  · change (k'.vm p).request = _
    rw [hk'vm, Function.update_self]
  · change (Function.update s.pVmrequest p _ p).vmresult ≠ _
    rw [Function.update_self]
    exact bne_iff_ne.mp hvalue
  · change (Function.update s.pVmrequest p _ q).nextrequestor = _
    by_cases hq : q = p
    · subst hq
      rw [Function.update_self]
    · rw [Function.update_of_ne hq]
  · change (Function.update s.pVmrequest p _ q).vmresult = _
    rw [Function.update_of_ne hq]

theorem doVmctl_waiting {who : ℤ} {param : VmctlParam} {res : VmctlResult H}
    (hwait : Waiting L s l) (h : s.doVmctl caller who param = .ok (res, s')) :
    ∃ l', Waiting (L.after s (.doVmctl caller who param res)) s' l' := by
  rw [VmState.doVmctl] at h
  split at h
  · cases h
    exact ⟨l, hwait⟩
  · cases param with
    | VMCTL_MEMREQ_GET =>
      obtain ⟨⟨reply, t⟩, ht, h⟩ := bind_ok.mp h
      obtain ⟨rfl, rfl⟩ := Prod.mk.inj (pure_ok.mp h)
      rcases vmctlGet_hands hwait ht with ⟨rfl, rfl⟩ | ⟨rp, m, l', rfl, rfl, hhanded⟩
      · exact ⟨l, hwait⟩
      · exact ⟨l', hhanded⟩
    | VMCTL_MEMREQ_REPLY value =>
      obtain ⟨t, ht, h⟩ := bind_ok.mp h
      obtain ⟨rfl, rfl⟩ := Prod.mk.inj (pure_ok.mp h)
      exact ⟨l, vmctlReply_finishes hwait ht⟩

theorem doClear_waiting {e : ℤ} (hwait : Waiting L s l)
    (hkeeps : (VmEvent.doClear e r).Keeps s) (h : s.doClear e = .ok (r, s')) :
    Waiting (L.after s (.doClear e r)) s' l := by
  rw [VmState.doClear] at h
  obtain ⟨⟨r', k⟩, hk, h⟩ := bind_ok.mp h
  obtain ⟨rfl, rfl⟩ := Prod.mk.inj (pure_ok.mp h)
  rcases doClear_vm hk with ⟨hnone, rfl⟩ | ⟨rc, hrc, rfl, hvm⟩
  · have hsame : L.after s (.doClear e r') = L := by
      cases r' with
      | OK => rw [Handouts.after, hnone]
      | _ => rfl
    rw [hsame]
    exact hwait
  · have hout : rc ∉ l := fun hmem => hkeeps rc hrc ⟨l, hwait.holds, hmem⟩
    have hL : L.after s (.doClear e .OK) = L ∨ (s.kernel.vm rc).request = true ∧
        L.after s (.doClear e .OK) = L.finish rc := by
      rw [Handouts.after, hrc]
      dsimp only
      split
      · rename_i hrequest
        exact .inr ⟨hrequest, rfl⟩
      · exact .inl rfl
    refine hwait.ends hout (fun q hq => ?_) ?_ (fun hfree => ?_) (fun _ => rfl) (fun _ _ => rfl)
      rfl hL
    · change k.vm q = _
      rw [hvm, Function.update_of_ne hq]
    · change (k.vm rc).request = _
      rw [hvm, Function.update_self]
    · change (k.vm rc).free = _ at hfree
      rw [hvm, Function.update_self] at hfree
      cases hfree

end Operations

theorem vmEvent_waiting {C : SafemapHeaders} {L : Handouts H} {s s' : VmState H M}
    {l : List (Slot H)} {e : VmEvent H} (hwait : Waiting L s l) (hkeeps : e.Keeps s)
    (h : e.Happens C s s') : ∃ l', Waiting (L.after s e) s' l' := by
  cases e with
  | vmSuspend caller target linaddr len type =>
    obtain ⟨hused, h⟩ := h
    obtain ⟨hidle, hs⟩ := vmSuspend_suspends h
    exact ⟨_, hwait.suspends hused hidle hs⟩
  | mapInvokeVm caller m r =>
    obtain ⟨hused, h⟩ := h
    rcases mapInvokeVm_suspends h with ⟨rfl, rfl⟩ | ⟨rfl, hidle, hs⟩
    · exact ⟨l, hwait⟩
    · exact ⟨_, hwait.suspends hused hidle hs⟩
  | doVmctl caller who param r => exact doVmctl_waiting hwait h
  | doClear e r => exact ⟨l, doClear_waiting hwait hkeeps h⟩
  | rest => exact ⟨l, hwait.elsewhere h⟩

def VmState.sample : VmState Headers.sample ℕ where
  kernel := pageGranted.kernel
  pVmrequest _ := ⟨none, .MAP, 0, .CHECK 0 0 0, .OK⟩
  vmrequest := none

theorem sample_noRequests : VmState.sample.NoRequests where
  request := by decide
  vmresult := by decide
  vmrequest := rfl

end Kernel
