import Cs111.Kernel.Safemap
import Cs111.Kernel.Ledger

namespace Kernel
open Minix FlagWord TransitionSystem SlotTable
variable {H : Headers} {M : Type}

structure Mapping extends MapInfo where
  chain : List (ℤ × ℤ)
  deriving DecidableEq

section Chains
variable (C : SafecopyHeaders) (T : GrantTables H) (s : KState H M)

def grantChain : ℕ → ℤ → ℤ → List (ℤ × ℤ)
  | 0, granter, grant => [(granter, grant)]
  | left + 1, granter, grant => (granter, grant) ::
    match grantEntry C T s granter grant with
    | .error _ => []
    | .ok g =>
      if g.has C.cpfIndirect then grantChain left g.cpIndirect.cpWhoFrom g.cpIndirect.cpGrant
      else []

end Chains

def Mapping.madeFrom (grantor flag arg : ℤ) (m : Mapping) : Prop :=
  if flag ≠ 0 then (grantor, arg) ∈ m.chain
  else m.grantor = grantor ∧ m.addressDseg = BitVec.ofInt 32 arg

instance (grantor flag arg : ℤ) : DecidablePred (Mapping.madeFrom grantor flag arg) :=
  fun _ => inferInstanceAs (Decidable (ite _ _ _))

inductive SafemapOp (H : Headers) where
  | safemap (caller : Slot H) (m : SafemapCall)
  | saferevmap (caller : Slot H) (flag arg : ℤ)
  | safeunmap (caller : Slot H) (seg : ℤ) (address : BitVec 32)
  | memreqGet
  | memreqReply (p : Slot H) (value : Errno)

inductive SafemapEvent (H : Headers) where
  | op (o : SafemapOp H) (r : Errno)
  | rest

def SafemapOp.perform (C : SafemapHeaders) (s : SafemapState H M) :
    SafemapOp H → Except Fault (Errno × SafemapState H M)
  | .safemap caller m => doSafemap C s caller m
  | .saferevmap caller flag arg => doSaferevmap C s caller flag arg
  | .safeunmap caller seg address => doSafeunmap C s caller seg address
  | .memreqGet => do
    let (request, s) ← Kernel.memreqGet s
    pure (if request.isSome then .OK else .ESRCH, s)
  | .memreqReply p value => Kernel.memreqReply s p value

def SafemapOp.Allowed (s : SafemapState H M) : SafemapOp H → Prop
  | .safemap caller _ => (s.kernel.proc caller).isRunnable = true
  | .saferevmap caller _ _ => (s.kernel.proc caller).isRunnable = true
  | .safeunmap caller _ _ => (s.kernel.proc caller).isRunnable = true
  | .memreqGet => True
  | .memreqReply p value => (s.kernel.vm p).request = true ∧ p ∉ s.vmrequest ∧ value ≠ vmsuspend

structure SafemapState.Elsewhere (C : SafemapHeaders) (s s' : SafemapState H M) : Prop where
  steady : Steady C.vmProcNr s'.kernel
  vm : s'.kernel.vm = s.kernel.vm
  mapInfo : s'.mapInfo = s.mapInfo
  pVmrequest : s'.pVmrequest = s.pVmrequest
  vmrequest : s'.vmrequest = s.vmrequest

structure NoMappings (C : SafemapHeaders) (s : SafemapState H M) : Prop where
  steady : Steady C.vmProcNr s.kernel
  vm : ∀ p, (s.kernel.vm p).request = false
  mapInfo : ∀ i, s.mapInfo i = none
  vmrequest : s.vmrequest = []

def safemapSystem (C : SafemapHeaders) (H : Headers) (M : Type) :
    TransitionSystem (SafemapState H M) (SafemapEvent H) where
  initial := NoMappings C
  step s e s' :=
    match e with
    | .op o r => o.Allowed s ∧ o.perform C s = .ok (r, s')
    | .rest => s.Elsewhere C s'

structure Ledger (H : Headers) where
  established : Multiset Mapping
  coming : Slot H → Multiset Mapping
  leaving : Slot H → Multiset Mapping

namespace Ledger

def standing (L : Ledger H) : Multiset Mapping :=
  L.established + total L.coming - total L.leaving

def come (L : Ledger H) (caller : Slot H) (m : Mapping) : Ledger H :=
  { L with coming := Function.update L.coming caller (L.coming caller + {m}) }

def leave (L : Ledger H) (caller : Slot H) (p : Mapping → Prop) [DecidablePred p] : Ledger H :=
  { L with leaving := Function.update L.leaving caller (L.leaving caller + L.standing.filter p) }

def answer (L : Ledger H) (p : Slot H) (value : Errno) : Ledger H where
  established :=
    if value = .OK then L.established + L.coming p - L.leaving p else L.established
  coming := Function.update L.coming p 0
  leaving := Function.update L.leaving p 0

def after (C : SafemapHeaders) (s : SafemapState H M) (L : Ledger H) :
    SafemapEvent H → Ledger H
  | .op (.safemap caller m) .OK =>
    match verifySafemap C s caller m with
    | .error _ => L
    | .ok (offset, newGrantor) => L.come caller {
        toMapInfo := mapInfoOf s caller m offset newGrantor
        chain := grantChain C.toSafecopyHeaders s.grants s.kernel maxIndirectDepth m.grantor m.gid }
  | .op (.saferevmap caller flag arg) .OK =>
    L.leave caller (Mapping.madeFrom (s.endpoint caller) flag arg)
  | .op (.safeunmap caller seg address) .OK =>
    L.leave caller fun m => m.unmappedBy (s.endpoint caller) seg address
  | .op (.memreqReply p value) .OK => L.answer p value
  | _ => L

section Lemmas
variable {L : Ledger H} {caller p : Slot H} {m : Mapping} {value : Errno}

@[simp] theorem come_self : (L.come caller m).coming caller = L.coming caller + {m} :=
  Function.update_self ..

theorem come_of_ne (h : p ≠ caller) : (L.come caller m).coming p = L.coming p :=
  Function.update_of_ne h ..

@[simp] theorem answer_self : (L.answer p value).coming p = 0 := Function.update_self ..

theorem answer_of_ne {q : Slot H} (h : q ≠ p) : (L.answer p value).coming q = L.coming q :=
  Function.update_of_ne h ..

end Lemmas

end Ledger

abbrev SafemapPast (H : Headers) (M : Type) := List (SafemapState H M × SafemapEvent H)

def ledger (C : SafemapHeaders) : SafemapPast H M → Ledger H
  | [] => ⟨0, fun _ => 0, fun _ => 0⟩
  | (s, e) :: past => (ledger C past).after C s e

section Conditions
variable (C : SafemapHeaders) (s : SafemapState H M)

def Mappable (d src : MapRange) (size : BitVec 32) : Prop :=
  ∃ linSrc linDst, umapRange C s size src = .ok linSrc ∧ umapRange C s size d = .ok linDst ∧
    linSrc ≠ 0 ∧ linDst ≠ 0 ∧ linSrc % C.clickSize = 0 ∧ linDst % C.clickSize = 0

def UnmapsOne (fits : MapInfo → Bool) : Prop :=
  ∀ i e, getInfo fits s = some i → s.mapInfo i = some e →
    ∀ offset newGrantor, verifyUnmap C s e = .ok (offset, newGrantor) →
      (∀ j e', s.mapInfo j = some e' → fits e' = true → j = i) ∧
      Mappable C s ⟨e.grantee, e.seg, e.address⟩ ⟨newGrantor, C.d, offset⟩ e.bytes ∧
      ∀ t, isokendpt s.kernel e.grantee = some t →
        (s.kernel.vm t).request = false ∧ (s.kernel.vm t).target = false

def Proper (past : SafemapPast H M) (s : SafemapState H M) : SafemapOp H → Prop
  | .safemap caller m => ∀ offset newGrantor,
      verifySafemap C s caller m = .ok (offset, newGrantor) → (∃ i, s.mapInfo i = none) →
      Mappable C s ⟨s.endpoint caller, m.seg, m.address⟩ ⟨newGrantor, C.d, offset⟩ m.bytes
  | .saferevmap caller flag arg =>
      UnmapsOne C s (MapInfo.revokedBy (s.endpoint caller) flag arg) ∧
      ∀ m ∈ (ledger C past).standing,
        m.revokedBy (s.endpoint caller) flag arg = true ↔ m.madeFrom (s.endpoint caller) flag arg
  | .safeunmap caller seg address =>
      UnmapsOne C s (MapInfo.unmappedBy (s.endpoint caller) seg address)
  | .memreqGet => True
  | .memreqReply _ value => value = .OK

def properSteps (past : SafemapPast H M) (s : SafemapState H M) : SafemapEvent H → Prop
  | .op o _ => Proper C past s o
  | .rest => True

end Conditions

section Requests
variable {C : SafemapHeaders} {s s' : SafemapState H M} {caller : Slot H}

def Idle (x : VmView) : Prop := x.free = false ∧ x.request = false ∧ x.target = false

theorem runnable_idle (h : (s.kernel.proc caller).isRunnable = true) :
    Idle (s.kernel.vm caller) := by
  have hzero : (s.kernel.proc caller).rtsFlags = 0#16 := isRunnable_iff.mp h
  simp only [Idle, KState.vm, Proc.vm, Proc.rtsIsset, hzero]
  decide

theorem umapLocal_some {rp : Option (Slot H)} {seg : ℤ} {virAddr bytes lin : BitVec 32}
    (h : umapLocal C s rp seg virAddr bytes = .ok lin) (hlin : lin ≠ 0) : ∃ i, rp = some i := by
  cases rp with
  | some i => exact ⟨i, rfl⟩
  | none =>
    rw [umapLocal] at h
    split_ifs at h
    · exact absurd (Except.ok.inj h).symm hlin
    · exact absurd (Except.ok.inj h).symm hlin

theorem Mappable.dst {d src : MapRange} {size : BitVec 32} (h : Mappable C s d src size) :
    ∃ dst, isokendpt s.kernel d.endpoint = some dst := by
  obtain ⟨_, linDst, -, hdst, -, hne, -⟩ := h
  exact umapLocal_some hdst hne

structure Invoked (C : SafemapHeaders) (s s' : SafemapState H M) (caller dst : Slot H)
    (target : ℤ) : Prop where
  steady : Steady C.vmProcNr s'.kernel
  vm : ∀ p, s'.kernel.vm p = { s.kernel.vm p with
    request := decide (p = caller) || (s.kernel.vm p).request
    target := decide (p = dst) || (s.kernel.vm p).target }
  vmrequest : s'.vmrequest = caller :: s.vmrequest
  others : ∀ p ≠ caller, s'.pVmrequest p = s.pVmrequest p
  target : (s'.pVmrequest caller).target = target

theorem Idle.asserts {k : KState H M} {i : Slot H} (h : Idle (k.vm i)) :
    (!(k.proc i).rtsIsset RTS_VMREQUEST) = true ∧ (!(k.proc i).rtsIsset RTS_VMREQTARGET) = true := by
  obtain ⟨-, hrequest, htarget⟩ := h
  simpa [KState.vm, Proc.vm] using And.intro hrequest htarget

theorem mapInvokeVm_ok (reqType : VmReqType) {d src : MapRange} {size : BitVec 32} (flag : ℤ)
    {dst : Slot H} (hsteady : Steady C.vmProcNr s.kernel) (hmap : Mappable C s d src size)
    (hcaller : Idle (s.kernel.vm caller)) (hdst : isokendpt s.kernel d.endpoint = some dst)
    (hidle : Idle (s.kernel.vm dst)) :
    ∃ s', mapInvokeVm C s caller reqType d src size flag = .ok (.OK, s') ∧
      s'.mapInfo = s.mapInfo ∧ Invoked C s s' caller dst d.endpoint := by
  obtain ⟨linSrc, linDst, hsrc, hlin, hsrcne, hdstne, hsrcal, hdstal⟩ := hmap
  obtain ⟨k, hk, hksteady, hkmoved⟩ := hsteady.rtsSet (f := RTS_VMREQUEST) hcaller.1 (by decide)
    (by decide)
  have hkvm : k.vm = Function.update s.kernel.vm caller
      { s.kernel.vm caller with request := true } := by
    rw [hkmoved.vm, KState.setRts, vm_upd, (setRts_request _).1]
    rfl
  have hkused : (k.vm dst).free = false := by
    rw [hkvm, Function.update_apply]
    split
    · exact hcaller.1
    · exact hidle.1
  obtain ⟨k', hk', hksteady', hkmoved'⟩ := hksteady.rtsSet (f := RTS_VMREQTARGET) hkused
    (by decide) (by decide)
  have hkvm' : k'.vm = Function.update k.vm dst { k.vm dst with target := true } := by
    rw [hkmoved'.vm, KState.setRts, vm_upd, (setRts_target _).1]
    rfl
  obtain ⟨k'', hk'', hsteady'', hvm''⟩ : ∃ k'', wakeVm C s k' = .ok k'' ∧
      Steady C.vmProcNr k'' ∧ k''.vm = k'.vm := by
    rw [wakeVm]
    split
    · exact hksteady'.sendSig _
    · exact ⟨k', rfl, hksteady', rfl⟩
  have hconnect : ∀ request : VmRequest, request.target = d.endpoint →
      Invoked C s (s.connect k'' caller request) caller dst d.endpoint := by
    intro request htarget
    refine ⟨hsteady'', fun p => ?_, rfl, fun p hp => Function.update_of_ne hp .., ?_⟩
    · change k''.vm p = _
      rw [hvm'', hkvm', hkvm]
      by_cases hp : p = caller
      · subst hp
        by_cases hd : p = dst
        · subst hd
          simp
        · simp [hd]
      · by_cases hd : p = dst
        · subst hd
          simp [hp]
        · simp [hp, hd]
    · change (Function.update s.pVmrequest caller request caller).target = _
      rw [Function.update_self]
      exact htarget
  refine ⟨s.connect k'' caller ⟨reqType, d.endpoint, linDst, src.endpoint, linSrc, size, flag,
    (s.pVmrequest caller).vmresult⟩, ?_, rfl, hconnect _ rfl⟩
  rw [mapInvokeVm]
  refine bind_ok.mpr ⟨linSrc, hsrc, bind_ok.mpr ⟨linDst, hlin, ?_⟩⟩
  rw [if_neg (not_or.mpr ⟨hsrcne, hdstne⟩), if_neg (by simp [hsrcal, hdstal]), hdst]
  refine kassert_bind_ok.mpr ⟨hcaller.asserts.1, kassert_bind_ok.mpr ⟨hcaller.asserts.2, ?_⟩⟩
  refine kassert_bind_ok.mpr ⟨hidle.asserts.1, kassert_bind_ok.mpr ⟨hidle.asserts.2, ?_⟩⟩
  exact bind_ok.mpr ⟨k, hk, bind_ok.mpr ⟨k', hk', bind_ok.mpr ⟨k'', hk'', rfl⟩⟩⟩

inductive Undone (C : SafemapHeaders) (s : SafemapState H M) (caller : Slot H)
    (fits : MapInfo → Bool) : Errno → SafemapState H M → Prop
  | refused {r} : r ≠ .OK → Undone C s caller fits r s
  | nothing : (∀ i e, s.mapInfo i = some e → fits e = false) → Undone C s caller fits .OK s
  | one {i e t u} : s.mapInfo i = some e → fits e = true →
      (∀ j e', s.mapInfo j = some e' → fits e' = true → j = i) →
      isokendpt s.kernel e.grantee = some t → Idle (s.kernel.vm t) → u.mapInfo = s.mapInfo →
      Invoked C s u caller t e.grantee → Undone C s caller fits .OK (clearInfo u i)

theorem getInfo_some {fits : MapInfo → Bool} {i : Fin maxMapInfo} (h : getInfo fits s = some i) :
    ∃ e, s.mapInfo i = some e ∧ fits e = true := by
  have hfits := List.find?_some h
  simpa [Option.any_eq_true] using hfits

theorem getInfo_none {fits : MapInfo → Bool} : getInfo fits s = none ↔
    ∀ i e, s.mapInfo i = some e → fits e = false := by
  simp only [getInfo, List.find?_eq_none, List.mem_finRange, true_implies, Option.any_eq_true]
  constructor
  · intro h i e he
    rw [Bool.eq_false_iff]
    exact fun hfits => h i ⟨e, he, hfits⟩
  · rintro h i ⟨e, he, hfits⟩
    rw [h i e he] at hfits
    cases hfits

theorem unmapLoop_undone {fits : MapInfo → Bool} (fuel : ℕ) (hsteady : Steady C.vmProcNr s.kernel)
    (hcaller : Idle (s.kernel.vm caller)) (hone : UnmapsOne C s fits) :
    ∃ r s', unmapLoop C caller (getInfo fits) (fuel + 2) s = .ok (r, s') ∧
      Undone C s caller fits r s' := by
  cases hget : getInfo fits s with
  | none =>
    refine ⟨.OK, s, ?_, .nothing (getInfo_none.mp hget)⟩
    rw [unmapLoop, hget]
    rfl
  | some i =>
    obtain ⟨e, he, hfits⟩ := getInfo_some hget
    cases hverify : verifyUnmap C s e with
    | error r =>
      have hr : r ≠ .OK := verify_error C.eloop_ne hverify
      refine ⟨r, s, ?_, .refused hr⟩
      simp only [unmapLoop, hget, he, safeunmap, hverify]
      exact bind_ok.mpr ⟨(r, s), rfl, if_pos hr⟩
    | ok granted =>
      obtain ⟨offset, newGrantor⟩ := granted
      obtain ⟨honly, hmap, hflags⟩ := hone i e hget he offset newGrantor hverify
      obtain ⟨t, ht⟩ := hmap.dst
      have hidle : Idle (s.kernel.vm t) := ⟨(hsteady.isokendpt.mp ht).2.1, hflags t ht⟩
      obtain ⟨u, hu, hinfo, hinvoked⟩ := mapInvokeVm_ok .SUNMAP 0
        hsteady hmap hcaller ht hidle
      have hempty : getInfo fits (clearInfo u i) = none := by
        rw [getInfo_none]
        intro j e' hj
        have hji : j ≠ i := by
          rintro rfl
          simp [clearInfo] at hj
        change Function.update u.mapInfo i none j = some e' at hj
        rw [Function.update_of_ne hji, hinfo] at hj
        rw [Bool.eq_false_iff]
        exact fun hfits' => hji (honly j e' hj hfits')
      refine ⟨.OK, clearInfo u i, ?_, .one he hfits honly ht hidle hinfo hinvoked⟩
      rw [unmapLoop, hget]
      simp only [he, safeunmap, hverify]
      refine bind_ok.mpr ⟨(.OK, clearInfo u i), bind_ok.mpr ⟨(.OK, u), hu, rfl⟩, ?_⟩
      simp only [ne_eq, not_true_eq_false, if_false]
      rw [unmapLoop, hempty]
      rfl

end Requests

structure Books (C : SafemapHeaders) (L : Ledger H) (s : SafemapState H M) : Prop where
  steady : Steady C.vmProcNr s.kernel
  table : ∃ held, contents s.mapInfo = (held + total L.coming).map Mapping.toMapInfo ∧
    L.established = held + total L.leaving
  coming : ∀ p, ∀ m ∈ L.coming p, (s.kernel.vm p).request = true ∧
    m.grantee = (s.kernel.vm p).endpoint
  queued : ∀ p ∈ s.vmrequest, (s.kernel.vm p).request = true ∧
    ∃ t, isokendpt s.kernel (s.pVmrequest p).target = some t ∧ (s.kernel.vm t).target = true
  apart : (s.vmrequest.map fun p => (s.pVmrequest p).target).Nodup
  taken : ∀ p, (s.kernel.vm p).request = true → p ∉ s.vmrequest →
    (s.pVmrequest p).vmresult = vmsuspend ∧
      ∃ t, isokendpt s.kernel (s.pVmrequest p).target = some t

section Steps
variable {C : SafemapHeaders} {s s' u : SafemapState H M} {caller dst : Slot H} {L : Ledger H}
  {m : Mapping} {r : Errno}

theorem request_used {k : KState H M} {i : Slot H} (h : Orderly C.vmProcNr k)
    (hrequest : (k.vm i).request = true) : (k.vm i).free = false := by
  rw [Bool.eq_false_iff]
  intro hfree
  have hset : isset (k.proc i).rtsFlags RTS_VMREQUEST = true := hrequest
  rw [h.whole i hfree] at hset
  exact absurd hset (by decide)

theorem isokendpt_same {k k' : KState H M} (h : Orderly C.vmProcNr k) (h' : Orderly C.vmProcNr k')
    (hvm : ∀ i, (k'.vm i).free = (k.vm i).free ∧ (k'.vm i).endpoint = (k.vm i).endpoint) (e : ℤ) :
    isokendpt k' e = isokendpt k e := by
  refine Option.ext fun i => ?_
  rw [h.isokendpt, h'.isokendpt, (hvm i).1, (hvm i).2]

theorem Books.standing (h : Books C L s) : ∃ held,
    L.standing = held + total L.coming ∧ L.established = held + total L.leaving ∧
    contents s.mapInfo = L.standing.map Mapping.toMapInfo := by
  obtain ⟨held, htable, hestablished⟩ := h.table
  have hstanding : L.standing = held + total L.coming := by
    rw [Ledger.standing, hestablished, add_right_comm, add_tsub_cancel_right]
  exact ⟨held, hstanding, hestablished, by rw [hstanding, htable]⟩

theorem Books.invoked {target : ℤ} (h : Books C L s) (hcaller : Idle (s.kernel.vm caller))
    (hdst : isokendpt s.kernel target = some dst) (hidle : Idle (s.kernel.vm dst))
    (hinfo : u.mapInfo = s.mapInfo) (hs : Invoked C s u caller dst target) : Books C L u := by
  have hsame : ∀ e, isokendpt u.kernel e = isokendpt s.kernel e := by
    refine isokendpt_same h.steady.toOrderly hs.steady.toOrderly fun i => ?_
    rw [hs.vm i]
    exact ⟨rfl, rfl⟩
  have hout : caller ∉ s.vmrequest := fun hmem =>
    absurd (hcaller.2.1.symm.trans (h.queued caller hmem).1) (by decide)
  have hothers : ∀ p ∈ s.vmrequest, u.pVmrequest p = s.pVmrequest p := fun p hp =>
    hs.others p fun heq => hout (heq ▸ hp)
  refine ⟨hs.steady, hinfo ▸ h.table, fun p m hm => ?_, fun p hp => ?_, ?_, fun p hp hpq => ?_⟩
  · obtain ⟨hrequest, hgrantee⟩ := h.coming p m hm
    rw [hs.vm p]
    exact ⟨by simp [hrequest], hgrantee⟩
  · rw [hs.vmrequest] at hp
    rcases List.mem_cons.mp hp with rfl | hp
    · refine ⟨by simp [hs.vm], dst, ?_, by simp [hs.vm]⟩
      rw [hs.target, hsame]
      exact hdst
    · obtain ⟨hrequest, t, ht, htarget⟩ := h.queued p hp
      refine ⟨by simp [hs.vm, hrequest], t, ?_, by simp [hs.vm, htarget]⟩
      rw [hothers p hp, hsame]
      exact ht
  · rw [hs.vmrequest, List.map_cons, List.nodup_cons, hs.target,
      List.map_congr_left fun p hp => congrArg VmRequest.target (hothers p hp)]
    refine ⟨fun hmem => ?_, h.apart⟩
    obtain ⟨p, hp, htarget⟩ := List.mem_map.mp hmem
    obtain ⟨-, t, ht, hset⟩ := h.queued p hp
    rw [htarget, hdst] at ht
    obtain rfl := Option.some.inj ht
    exact absurd (hidle.2.2.symm.trans hset) (by decide)
  · rw [hs.vmrequest, List.mem_cons, not_or] at hpq
    rw [hs.vm p] at hp
    simp only [hpq.1, decide_false, Bool.false_or] at hp
    rw [hs.others p hpq.1, hsame]
    exact h.taken p hp hpq.2

theorem Books.come {t : Fin maxMapInfo → Option MapInfo} {i : Fin maxMapInfo}
    (h : Books C L { u with mapInfo := t }) (hi : t i = none)
    (hu : u.mapInfo = Function.update t i (some m.toMapInfo))
    (hrequest : (u.kernel.vm caller).request = true)
    (hgrantee : m.grantee = (u.kernel.vm caller).endpoint) : Books C (L.come caller m) u := by
  obtain ⟨held, htable, hestablished⟩ := h.table
  refine ⟨h.steady, ⟨held, ?_, hestablished⟩, fun p x hx => ?_, h.queued, h.apart, h.taken⟩
  · rw [hu, contents_fill hi, htable, Ledger.come, total_add, ← add_assoc, Multiset.map_add _ _ {m},
      Multiset.map_singleton]
  · by_cases hp : p = caller
    · subst hp
      rw [Ledger.come_self, Multiset.mem_add, Multiset.mem_singleton] at hx
      rcases hx with hx | rfl
      · exact h.coming p x hx
      · exact ⟨hrequest, hgrantee⟩
    · rw [Ledger.come_of_ne hp] at hx
      exact h.coming p x hx

theorem Books.leave_nothing (h : Books C L s) {fits : Mapping → Prop} [DecidablePred fits]
    (hnone : ∀ m ∈ L.standing, ¬ fits m) : Books C (L.leave caller fits) s := by
  have hsame : L.leave caller fits = L := by
    rw [Ledger.leave, Multiset.filter_eq_nil.mpr hnone, add_zero, Function.update_eq_self]
  rwa [hsame]

theorem Books.leave_one (h : Books C L s) {fits : Mapping → Prop} [DecidablePred fits]
    {i : Fin maxMapInfo} {e : MapInfo} (hi : s.mapInfo i = some e)
    (hone : (contents s.mapInfo).filter (fun x => x = e) = {e})
    (hfits : ∀ m ∈ L.standing, fits m ↔ m.toMapInfo = e)
    (hidle : ∀ p, (s.kernel.vm p).request = true → (s.kernel.vm p).endpoint ≠ e.grantee) :
    Books C (L.leave caller fits) (clearInfo s i) := by
  obtain ⟨held, hstanding, hestablished, hcontents⟩ := h.standing
  have hfilter : L.standing.filter fits = L.standing.filter fun m => m.toMapInfo = e :=
    Multiset.filter_congr hfits
  rw [hcontents, Multiset.filter_map] at hone
  obtain ⟨m, hm, hinfo⟩ := Multiset.map_eq_singleton.mp hone
  have hmem : m ∈ L.standing := by
    refine Multiset.mem_of_mem_filter (p := (fun x => x = e) ∘ Mapping.toMapInfo) ?_
    rw [hm]
    exact Multiset.mem_singleton_self m
  have hheld : m ∈ held := by
    rw [hstanding, Multiset.mem_add] at hmem
    refine hmem.resolve_right fun hcoming => ?_
    obtain ⟨p, hp⟩ := mem_total.mp hcoming
    obtain ⟨hrequest, hgrantee⟩ := h.coming p m hp
    refine hidle p hrequest ?_
    rw [← hgrantee, ← hinfo]
  obtain ⟨held', rfl⟩ := Multiset.exists_cons_of_mem hheld
  have hleave : L.leave caller fits =
      { L with leaving := Function.update L.leaving caller (L.leaving caller + {m}) } := by
    rw [Ledger.leave, hfilter]
    exact congrArg (fun x => { L with
      leaving := Function.update L.leaving caller (L.leaving caller + x) }) hm
  rw [hleave]
  refine ⟨h.steady, ⟨held', ?_, ?_⟩, h.coming, h.queued, h.apart, h.taken⟩
  · have hclear := contents_clear hi
    rw [hcontents, hstanding, ← Multiset.singleton_add, add_assoc,
      add_comm ({m} : Multiset Mapping), Multiset.map_add _ _ {m}, Multiset.map_singleton,
      hinfo] at hclear
    exact add_right_cancel hclear
  · rw [hestablished, total_add, ← Multiset.singleton_add]
    ac_rfl

theorem Books.answer (h : Books C L s) {p : Slot H} {k : KState H M} {request : VmRequest}
    (hk : Steady C.vmProcNr k)
    (hvm : k.vm = Function.update s.kernel.vm p { s.kernel.vm p with request := false })
    (hp : p ∉ s.vmrequest) : Books C (L.answer p .OK)
      { s with kernel := k, pVmrequest := Function.update s.pVmrequest p request } := by
  obtain ⟨held, htable, hestablished⟩ := h.table
  have hviews : ∀ i ≠ p, k.vm i = s.kernel.vm i := fun i hi => by
    rw [hvm, Function.update_of_ne hi]
  have hsame : ∀ e, isokendpt k e = isokendpt s.kernel e := by
    refine isokendpt_same h.steady.toOrderly hk.toOrderly fun i => ?_
    by_cases hi : i = p
    · subst hi
      rw [hvm, Function.update_self]
      exact ⟨rfl, rfl⟩
    · rw [hviews i hi]
      exact ⟨rfl, rfl⟩
  have htarget : ∀ i, (k.vm i).target = (s.kernel.vm i).target := fun i => by
    by_cases hi : i = p
    · subst hi
      rw [hvm, Function.update_self]
    · rw [hviews i hi]
  have hne : ∀ q ∈ s.vmrequest, q ≠ p := fun q hq heq => hp (heq ▸ hq)
  have hothers : ∀ q ≠ p, Function.update s.pVmrequest p request q = s.pVmrequest q := fun q hq =>
    Function.update_of_ne hq ..
  refine ⟨hk, ⟨held + L.coming p, ?_, ?_⟩, fun q m hm => ?_, fun q hq => ?_, ?_, fun q hq hqn => ?_⟩
  · have hcoming := total_update (f := L.coming) p 0
    rw [add_zero] at hcoming
    rw [htable, ← hcoming, Ledger.answer]
    exact congrArg _ (by ac_rfl)
  · have hleaving := total_update (f := L.leaving) p 0
    rw [add_zero] at hleaving
    simp only [Ledger.answer, if_true]
    rw [hestablished, ← hleaving]
    have hperm : held + (total (Function.update L.leaving p 0) + L.leaving p) + L.coming p =
        held + L.coming p + total (Function.update L.leaving p 0) + L.leaving p := by ac_rfl
    rw [hperm, add_tsub_cancel_right]
  · by_cases hqp : q = p
    · subst hqp
      simp at hm
    · rw [Ledger.answer_of_ne hqp] at hm
      change (k.vm q).request = true ∧ _
      rw [hviews q hqp]
      exact h.coming q m hm
  · obtain ⟨hrequest, t, ht, hset⟩ := h.queued q hq
    change (k.vm q).request = true ∧ ∃ t, isokendpt k (Function.update s.pVmrequest p request q).target
      = some t ∧ (k.vm t).target = true
    rw [hviews q (hne q hq), hothers q (hne q hq), hsame]
    refine ⟨hrequest, t, ht, ?_⟩
    rw [htarget]
    exact hset
  · change (s.vmrequest.map fun q => (Function.update s.pVmrequest p request q).target).Nodup
    rw [List.map_congr_left fun q hq => congrArg VmRequest.target (hothers q (hne q hq))]
    exact h.apart
  · change (k.vm q).request = true at hq
    have hqp : q ≠ p := by
      rintro rfl
      rw [hvm, Function.update_self] at hq
      cases hq
    rw [hviews q hqp] at hq
    change (Function.update s.pVmrequest p request q).vmresult = vmsuspend ∧ ∃ t,
      isokendpt k (Function.update s.pVmrequest p request q).target = some t
    rw [hothers q hqp, hsame]
    exact h.taken q hq hqn

theorem Books.undone {fits : MapInfo → Bool} {wanted : Mapping → Prop} [DecidablePred wanted]
    (h : Books C L s) (hcaller : Idle (s.kernel.vm caller)) (hs : Undone C s caller fits r s')
    (hsame : ∀ m ∈ L.standing, fits m.toMapInfo = true ↔ wanted m) :
    Books C (if r = .OK then L.leave caller wanted else L) s' := by
  obtain ⟨held, -, -, hcontents⟩ := h.standing
  have hslot : ∀ m ∈ L.standing, ∃ i, s.mapInfo i = some m.toMapInfo := fun m hm => by
    rw [← mem_contents, hcontents]
    exact Multiset.mem_map_of_mem _ hm
  cases hs with
  | refused hr =>
    rw [if_neg hr]
    exact h
  | nothing hnone =>
    rw [if_pos rfl]
    refine h.leave_nothing fun m hm hwanted => ?_
    obtain ⟨i, hi⟩ := hslot m hm
    exact absurd ((hnone i _ hi).symm.trans ((hsame m hm).mpr hwanted)) (by decide)
  | @one i e t u hi hfits honly ht hidle hinfo hinvoked =>
    rw [if_pos rfl]
    have hcleared : Books C (L.leave caller wanted) (clearInfo s i) := by
      refine h.leave_one hi ?_ (fun m hm => ?_) fun p hp heq => ?_
      · refine filter_contents hi rfl fun j x hj hx => honly j x hj ?_
        rwa [hx]
      · rw [← hsame m hm]
        constructor
        · intro hm'
          obtain ⟨j, hj⟩ := hslot m hm
          obtain rfl := honly j _ hj hm'
          exact Option.some.inj (hj.symm.trans hi)
        · rintro rfl
          exact hfits
      · have hused := request_used h.steady.toOrderly hp
        have hlookup := h.steady.lookup hused
        rw [heq, ht] at hlookup
        obtain rfl := Option.some.inj hlookup
        exact absurd (hidle.2.1.symm.trans hp) (by decide)
    refine hcleared.invoked hcaller ht hidle ?_ ⟨hinvoked.steady, hinvoked.vm, hinvoked.vmrequest,
      hinvoked.others, hinvoked.target⟩
    exact congrArg (fun x => Function.update x i none) hinfo

theorem addInfo_cases (s : SafemapState H M) (e : MapInfo) :
    ((∀ i, s.mapInfo i ≠ none) ∧ addInfo s e = .error .EBUSY) ∨
    ∃ i, s.mapInfo i = none ∧
      addInfo s e = .ok { s with mapInfo := Function.update s.mapInfo i (some e) } := by
  rw [addInfo]
  cases hfind : (List.finRange maxMapInfo).find? fun i => (s.mapInfo i).isNone with
  | none =>
    refine .inl ⟨fun i hi => ?_, rfl⟩
    have hnot := List.find?_eq_none.mp hfind i (List.mem_finRange i)
    simp [hi] at hnot
  | some i =>
    have hfound := List.find?_some hfind
    exact .inr ⟨i, by simpa using hfound, rfl⟩

theorem doSafemap_kept {m : SafemapCall} (h : Books C L s) (hcaller : Idle (s.kernel.vm caller))
    (hmap : ∀ offset newGrantor, verifySafemap C s caller m = .ok (offset, newGrantor) →
      (∃ i, s.mapInfo i = none) →
      Mappable C s ⟨s.endpoint caller, m.seg, m.address⟩ ⟨newGrantor, C.d, offset⟩ m.bytes) :
    ∃ r s', doSafemap C s caller m = .ok (r, s') ∧
      Books C (L.after C s (.op (.safemap caller m) r)) s' := by
  cases hverify : verifySafemap C s caller m with
  | error r =>
    have hr : r ≠ .OK := verify_error C.eloop_ne hverify
    refine ⟨r, s, by rw [doSafemap, hverify]; rfl, ?_⟩
    cases r with
    | OK => exact absurd rfl hr
    | _ => exact h
  | ok granted =>
    obtain ⟨offset, newGrantor⟩ := granted
    rcases addInfo_cases s (mapInfoOf s caller m offset newGrantor) with ⟨-, hfull⟩ | ⟨i, hi, hadd⟩
    · exact ⟨.EBUSY, s, by rw [doSafemap, hverify]; simp only [hfull]; rfl, h⟩
    · obtain ⟨u, hu, hinfo, hinvoked⟩ := mapInvokeVm_ok .SMAP m.flag (s := { s with
          mapInfo := Function.update s.mapInfo i (some (mapInfoOf s caller m offset newGrantor)) })
        h.steady (hmap offset newGrantor hverify ⟨i, hi⟩) hcaller (h.steady.lookup hcaller.1) hcaller
      refine ⟨.OK, u, by rw [doSafemap, hverify]; simp only [hadd]; exact hu, ?_⟩
      have hasked : Books C L { u with mapInfo := s.mapInfo } :=
        h.invoked hcaller (h.steady.lookup hcaller.1) hcaller rfl ⟨hinvoked.steady, hinvoked.vm,
          hinvoked.vmrequest, hinvoked.others, hinvoked.target⟩
      have hview := hinvoked.vm caller
      rw [Ledger.after, hverify]
      exact hasked.come hi hinfo (by simp [hview]) (by simp only [hview]; rfl)

theorem memreqGet_kept (h : Books C L s) :
    ∃ request s', memreqGet s = .ok (request, s') ∧ Books C L s' := by
  rw [memreqGet]
  cases hqueue : s.vmrequest with
  | nil => exact ⟨none, s, rfl, h⟩
  | cons rp rest =>
    obtain ⟨hrequest, t, ht, htarget⟩ := h.queued rp (by simp [hqueue])
    obtain ⟨k, hk, hksteady, hkmoved⟩ := h.steady.rtsUnset t RTS_VMREQTARGET (by decide)
    have hkvm : k.vm = Function.update s.kernel.vm t { s.kernel.vm t with target := false } := by
      rw [hkmoved.vm, KState.setRts, vm_upd, (setRts_target _).2]
      rfl
    have hviews : ∀ i, (k.vm i).request = (s.kernel.vm i).request ∧
        (k.vm i).free = (s.kernel.vm i).free ∧ (k.vm i).endpoint = (s.kernel.vm i).endpoint := by
      intro i
      rw [hkvm, Function.update_apply]
      split
      · rename_i hi
        rw [hi]
        exact ⟨rfl, rfl, rfl⟩
      · exact ⟨rfl, rfl, rfl⟩
    have hsame : ∀ e, isokendpt k e = isokendpt s.kernel e :=
      isokendpt_same h.steady.toOrderly hksteady.toOrderly fun i => (hviews i).2
    have htargets : ∀ q, (Function.update s.pVmrequest rp
        { s.pVmrequest rp with vmresult := vmsuspend } q).target = (s.pVmrequest q).target := by
      intro q
      rw [Function.update_apply]
      split
      · rename_i hq
        rw [hq]
      · rfl
    have hapart := h.apart
    rw [hqueue, List.map_cons, List.nodup_cons] at hapart
    refine ⟨_, _, kassert_bind_ok.mpr ⟨hrequest, bind_ok.mpr ⟨t, okendpt_ok.mpr ht,
      kassert_bind_ok.mpr ⟨htarget, bind_ok.mpr ⟨k, hk, rfl⟩⟩⟩⟩, hksteady, h.table,
      fun p m hm => ?_, fun p hp => ?_, ?_, fun p hp hpq => ?_⟩
    · rw [(hviews p).1, (hviews p).2.2]
      exact h.coming p m hm
    · obtain ⟨hprequest, t', ht', htarget'⟩ := h.queued p (by simp [hqueue, hp])
      have hne : t' ≠ t := by
        rintro rfl
        refine hapart.1 (List.mem_map.mpr ⟨p, hp, ?_⟩)
        rw [← (h.steady.isokendpt.mp ht).2.2, ← (h.steady.isokendpt.mp ht').2.2]
      rw [(hviews p).1, htargets, hsame]
      refine ⟨hprequest, t', ht', ?_⟩
      rw [hkvm, Function.update_of_ne hne]
      exact htarget'
    · simp only [htargets]
      exact hapart.2
    · rw [(hviews p).1] at hp
      rw [htargets, hsame]
      by_cases hprp : p = rp
      · subst hprp
        exact ⟨by simp only [Function.update_self], t, ht⟩
      · simp only [Function.update_of_ne hprp]
        exact h.taken p hp (by simp [hqueue, hprp, hpq])

theorem memreqReply_kept {p : Slot H} (h : Books C L s) (hp : (s.kernel.vm p).request = true)
    (hout : p ∉ s.vmrequest) :
    ∃ s', memreqReply s p .OK = .ok (.OK, s') ∧ Books C (L.answer p .OK) s' := by
  obtain ⟨hresult, t, ht⟩ := h.taken p hp hout
  obtain ⟨k, hk, hksteady, hkmoved⟩ := h.steady.rtsUnset p RTS_VMREQUEST (by decide)
  have hkvm : k.vm = Function.update s.kernel.vm p { s.kernel.vm p with request := false } := by
    rw [hkmoved.vm, KState.setRts, vm_upd, (setRts_request _).2]
    rfl
  refine ⟨_, kassert_bind_ok.mpr ⟨hp, kassert_bind_ok.mpr ⟨by simp [hresult], bind_ok.mpr ⟨t,
    okendpt_ok.mpr ht, kassert_bind_ok.mpr ⟨by decide, bind_ok.mpr ⟨k, hk, rfl⟩⟩⟩⟩⟩, ?_⟩
  exact h.answer hksteady hkvm hout

theorem perform_kept {past : SafemapPast H M} {o : SafemapOp H}
    (h : Books C (ledger C past) s) (hallowed : o.Allowed s)
    (hproper : Proper C past s o) : ∃ r s', o.perform C s = .ok (r, s') ∧
      Books C ((ledger C past).after C s (.op o r)) s' := by
  cases o with
  | safemap caller m => exact doSafemap_kept h (runnable_idle hallowed) hproper
  | saferevmap caller flag arg =>
    obtain ⟨r, s', hs', hundone⟩ := unmapLoop_undone 19 h.steady
      (runnable_idle hallowed) hproper.1
    refine ⟨r, s', hs', ?_⟩
    have hbooks := h.undone (runnable_idle hallowed) hundone hproper.2
    cases r with
    | OK => exact hbooks
    | _ => exact hbooks
  | safeunmap caller seg address =>
    obtain ⟨r, s', hs', hundone⟩ := unmapLoop_undone 19 h.steady
      (runnable_idle hallowed) hproper
    refine ⟨r, s', hs', ?_⟩
    have hbooks := h.undone (runnable_idle hallowed) hundone fun _ _ => Iff.rfl
    cases r with
    | OK => exact hbooks
    | _ => exact hbooks
  | memreqGet =>
    obtain ⟨request, s', hs', hbooks⟩ := memreqGet_kept h
    exact ⟨_, s', bind_ok.mpr ⟨(request, s'), hs', rfl⟩, hbooks⟩
  | memreqReply p value =>
    obtain ⟨hp, hout, -⟩ := hallowed
    obtain rfl : value = .OK := hproper
    obtain ⟨s', hs', hbooks⟩ := memreqReply_kept h hp hout
    exact ⟨.OK, s', hs', hbooks⟩

theorem Books.elsewhere (h : Books C L s) (hs : s.Elsewhere C s') : Books C L s' := by
  have hsame : ∀ e, isokendpt s'.kernel e = isokendpt s.kernel e :=
    isokendpt_same h.steady.toOrderly hs.steady.toOrderly fun i => by
      rw [hs.vm]
      exact ⟨rfl, rfl⟩
  refine ⟨hs.steady, ?_, ?_, ?_, ?_, ?_⟩
  · rw [hs.mapInfo]
    exact h.table
  · rw [hs.vm]
    exact h.coming
  · simp only [hs.vmrequest, hs.vm, hs.pVmrequest, hsame]
    exact h.queued
  · rw [hs.vmrequest, hs.pVmrequest]
    exact h.apart
  · simp only [hs.vmrequest, hs.vm, hs.pVmrequest, hsame]
    exact h.taken

theorem NoMappings.books (h : NoMappings C s) : Books C (ledger C ([] : SafemapPast H M)) s where
  steady := h.steady
  table := by
    refine ⟨0, ?_, ?_⟩
    · rw [contents_empty h.mapInfo]
      simp [ledger, total]
    · simp [ledger, total]
  coming p m hm := by simp [ledger] at hm
  queued p hp := by simp [h.vmrequest] at hp
  apart := by simp [h.vmrequest]
  taken p hp := by simp [h.vm p] at hp

end Steps

section Kept
variable {C : SafemapHeaders} {past : SafemapPast H M} {s s' : SafemapState H M}

theorem run_books (hrun : (safemapSystem C H M).Run (properSteps C) past s) :
    Books C (ledger C past) s := by
  refine hrun.trace_invariant (P := fun past s => Books C (ledger C past) s)
    (fun s hinit => hinit.books) ?_
  intro past s e s' hbooks hproper hstep
  cases e with
  | rest => exact hbooks.elsewhere hstep
  | op o r =>
    obtain ⟨hallowed, hs'⟩ := hstep
    obtain ⟨r', u, hu, hkept⟩ := perform_kept hbooks hallowed hproper
    obtain ⟨rfl, rfl⟩ := Prod.mk.inj (Except.ok.inj (hs'.symm.trans hu))
    exact hkept

theorem leave_standing (L : Ledger H) (caller : Slot H) (p : Mapping → Prop) [DecidablePred p] :
    (L.leave caller p).standing = L.standing.filter fun m => ¬ p m := by
  have hleaving : total (L.leave caller p).leaving = total L.leaving + L.standing.filter p :=
    total_add ..
  rw [Ledger.standing, hleaving, tsub_add_eq_tsub_tsub]
  exact Multiset.sub_filter_eq_filter_not ..

theorem safe_mappings_kept (hrun : (safemapSystem C H M).Run (properSteps C) past s) :
    contents s.mapInfo = (ledger C past).standing.map Mapping.toMapInfo ∧
    (∀ o : SafemapOp H, o.Allowed s → Proper C past s o → ∃ r s', o.perform C s = .ok (r, s')) ∧
    (∀ caller flag arg s', SafemapOp.Allowed s (.saferevmap caller flag arg) →
      Proper C past s (.saferevmap caller flag arg) →
      doSaferevmap C s caller flag arg = .ok (.OK, s') →
      contents s'.mapInfo = ((ledger C past).standing.filter fun m =>
        ¬ m.madeFrom (s.endpoint caller) flag arg).map Mapping.toMapInfo) ∧
    ∀ caller seg address s', SafemapOp.Allowed s (.safeunmap caller seg address) →
      Proper C past s (.safeunmap caller seg address) →
      doSafeunmap C s caller seg address = .ok (.OK, s') →
      contents s'.mapInfo = ((ledger C past).standing.filter fun m =>
        ¬ m.unmappedBy (s.endpoint caller) seg address).map Mapping.toMapInfo := by
  have hcontents : ∀ {past s}, (safemapSystem C H M).Run (properSteps C) past s →
      contents s.mapInfo = (ledger C past).standing.map Mapping.toMapInfo := fun hrun => by
    obtain ⟨-, -, -, hcontents⟩ := (run_books hrun).standing
    exact hcontents
  refine ⟨hcontents hrun, fun o hallowed hproper => ?_, ?_, ?_⟩
  · obtain ⟨r, s', hs', -⟩ := perform_kept (run_books hrun) hallowed hproper
    exact ⟨r, s', hs'⟩
  · intro caller flag arg s' hallowed hproper hs'
    have hnext : (safemapSystem C H M).Run (properSteps C)
      ((s, .op (.saferevmap caller flag arg) .OK) :: past) s' :=
      .next hrun hproper ⟨hallowed, hs'⟩
    rw [← leave_standing _ caller]
    exact hcontents hnext
  · intro caller seg address s' hallowed hproper hs'
    have hnext : (safemapSystem C H M).Run (properSteps C)
      ((s, .op (.safeunmap caller seg address) .OK) :: past) s' :=
      .next hrun hproper ⟨hallowed, hs'⟩
    rw [← leave_standing _ caller]
    exact hcontents hnext

end Kept

def SafemapHeaders.sample : SafemapHeaders where
  toSafecopyHeaders := .sample
  cpfRead := 1
  cpfWrite := 2
  cpfMap := 4
  t := 0
  d := 1
  s := 2
  clickShift := 12
  clickSize := 4096
  vmProcNr := 3
  sigkmem := 27
  eloop_ne := by decide

def pageGranted : SafemapState Headers.sample ℕ where
  kernel :=
    let s := (KState.sample fun i =>
      if i = 5 ∨ i = 6 then 0 else if i = 7 then RTS_RECEIVING else RTS_SLOT_FREE).upd 7
        fun x => { x with endpoint := 3, getfromE := Headers.sample.any }
    { s with
      procPtr := 5
      nextready := fun i => if i = 5 then some 6 else none
      rdyHead := fun q => if q = 7 then some 5 else none
      rdyTail := fun q => if q = 7 then some 6 else none }
  grants := {
    sGrantTable _ := true
    sGrantEntries _ := 1
    entry _ _ := {
      cpFlags := 0x1305
      cpDirect := ⟨Headers.sample.endpoint 1 2, 8192, 4096⟩
      cpIndirect := ⟨0, 0, 0⟩
      cpMagic := ⟨0, 0, 0, 0⟩ } }
  memmap _ _ := ⟨0, 256, 256⟩
  mapInfo _ := none
  pVmrequest _ := ⟨.SMAP, 0, 0, 0, 0, 0, 0, .OK⟩
  vmrequest := []

def pageCall : SafemapCall where
  grantor := Headers.sample.endpoint 1 1
  gid := 0
  offset := 0
  seg := 1
  address := 16384
  bytes := 4096
  flag := 0

theorem pageGranted_queues : RunQueues pageGranted.kernel := by
  refine ⟨by decide, fun q => if q = 7 then [5, 6] else [], fun q _ => ?_, fun q _ => ?_,
    fun q _ p => ?_⟩
  · by_cases hq : q = 7
    · subst hq
      exact ⟨rfl, rfl, rfl⟩
    · rw [if_neg hq]
      exact if_neg hq
  · by_cases hq : q = 7
    · subst hq
      rfl
    · rw [if_neg hq]
      exact if_neg hq
  · have hprio : ∀ p, (pageGranted.kernel.proc p).priority = 7 := by decide
    by_cases hq : q = 7
    · subst hq
      revert p
      decide
    · rw [if_neg hq, hprio]
      simp [Ne.symm hq]

theorem pageGranted_steady : NoMappings SafemapHeaders.sample pageGranted where
  steady := {
    priority := by decide
    whole := by decide
    named := by decide
    current := by decide
    manager := ⟨7, by decide, by decide, by decide⟩
    mail := by decide
    queues := pageGranted_queues }
  vm := by decide
  mapInfo := by decide
  vmrequest := rfl

theorem page_mappable : Proper SafemapHeaders.sample [] pageGranted (.safemap 6 pageCall) := by
  intro offset newGrantor hverify _
  have hgranted : verifySafemap SafemapHeaders.sample pageGranted 6 pageCall =
      .ok (8192, pageCall.grantor) := rfl
  obtain ⟨rfl, rfl⟩ := Prod.mk.inj (Except.ok.inj (hgranted.symm.trans hverify))
  exact ⟨0x102000, 0x104000, rfl, rfl, by decide, by decide, by decide, by decide⟩

theorem safe_mappings_kept_page : ∃ past s,
    (safemapSystem SafemapHeaders.sample Headers.sample ℕ).Run
      (properSteps SafemapHeaders.sample) past s ∧
    contents s.mapInfo = {mapInfoOf pageGranted 6 pageCall 8192 pageCall.grantor} ∧
    (ledger SafemapHeaders.sample past).standing.map Mapping.toMapInfo = contents s.mapInfo := by
  have hrun : (safemapSystem SafemapHeaders.sample Headers.sample ℕ).Run
      (properSteps SafemapHeaders.sample) [(pageGranted, .op (.safemap 6 pageCall) .OK)] _ :=
    .next (.start pageGranted_steady) page_mappable ⟨rfl, rfl⟩
  refine ⟨_, _, hrun, ?_, (safe_mappings_kept hrun).1.symm⟩
  have hempty : contents pageGranted.mapInfo = 0 := contents_empty fun _ => rfl
  exact (contents_fill (t := pageGranted.mapInfo) (i := ⟨0, by decide⟩) rfl).trans
    (by rw [hempty, zero_add]; rfl)

theorem revoke_asserts : ∃ past s,
    (safemapSystem SafemapHeaders.sample Headers.sample ℕ).Run TransitionSystem.always past s ∧
    SafemapOp.Allowed s (.saferevmap 5 1 0) ∧
    doSaferevmap SafemapHeaders.sample s 5 1 0 = .error .assertion := by
  have hrun : (safemapSystem SafemapHeaders.sample Headers.sample ℕ).Run TransitionSystem.always
      [(pageGranted, .op (.safemap 6 pageCall) .OK)] _ :=
    .next (.start pageGranted_steady) trivial ⟨rfl, rfl⟩
  exact ⟨_, _, hrun, rfl, rfl⟩

end Kernel
