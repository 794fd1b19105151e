import Cs111.Kernel.IpcSystem
import Cs111.Kernel.Privctl

namespace Kernel
open Minix FlagWord TransitionSystem
variable {H : Headers} {M : Type}

structure ServiceHeaders (H : Headers) extends PrivctlHeaders H where
  none_beyond : ∀ p : Slot H, procNr p ≠ H.none

@[ext] structure Owners (H : Headers) where
  used : Slot H → Prop
  ptr : Slot H → PrivId H
  nr : PrivId H → ℤ
  sys : PrivId H → Bool

def KState.owners (s : KState H M) : Owners H where
  used i := (s.peers i).state ≠ .free
  ptr i := (s.proc i).priv
  nr id := (s.priv id).sProcNr
  sys id := (s.priv id).has SYS_PROC

namespace Owners
variable {V : Owners H} {rp rpp rpc : Slot H} {id sp : PrivId H} {b : Bool}

structure Owned (V : Owners H) : Prop where
  own : ∀ p, V.used p → V.ptr p ≠ H.userPrivId → V.nr (V.ptr p) = procNr p
  user : V.sys H.userPrivId = false
  named : V.nr H.userPrivId ≠ H.none
  referenced : ∀ id, V.nr id ≠ H.none → ∃ p, V.used p ∧ procNr p = V.nr id ∧ V.ptr p = id

variable (V rp rpp rpc id sp b)

def assign : Owners H :=
  { V with ptr := Function.update V.ptr rp sp, nr := Function.update V.nr sp (procNr rp) }

def mark : Owners H := { V with sys := Function.update V.sys id b }

def fork : Owners H :=
  { V with
    used := Function.update V.used rpc True
    ptr := Function.update V.ptr rpc (if V.sys (V.ptr rpp) then H.userPrivId else V.ptr rpp) }

def exit : Owners H :=
  { V with
    used := Function.update V.used rpc False
    nr := if V.sys (V.ptr rpc) then Function.update V.nr (V.ptr rpc) H.none else V.nr }

variable {V rp rpp rpc id sp b}

theorem Owned.mark (h : V.Owned) (huser : id = H.userPrivId → b = false) :
    (V.mark id b).Owned where
  own := h.own
  user := by
    change Function.update V.sys id b H.userPrivId = false
    by_cases hid : H.userPrivId = id
    · rw [hid, Function.update_self]
      exact huser hid.symm
    · rw [Function.update_of_ne hid]
      exact h.user
  named := h.named
  referenced := h.referenced

theorem Owned.assign (h : V.Owned) (hnone : ∀ p : Slot H, procNr p ≠ H.none) (hused : V.used rp)
    (hptr : V.ptr rp = H.userPrivId) (huser : procNr rp ≠ V.nr H.userPrivId)
    (hfree : V.nr sp = H.none) : (V.assign rp sp).Owned where
  own p hp hne := by
    change Function.update V.nr sp (procNr rp) (Function.update V.ptr rp sp p) = procNr p
    change Function.update V.ptr rp sp p ≠ _ at hne
    by_cases hpr : p = rp
    · subst hpr
      rw [Function.update_self, Function.update_self]
    · rw [Function.update_of_ne hpr] at hne ⊢
      have hnr := h.own p hp hne
      by_cases hsp : V.ptr p = sp
      · rw [hsp, hfree] at hnr
        exact absurd hnr.symm (hnone p)
      · rw [Function.update_of_ne hsp]
        exact hnr
  user := h.user
  named := by
    have hsp : H.userPrivId ≠ sp := by
      rintro rfl
      exact h.named hfree
    change Function.update V.nr sp (procNr rp) H.userPrivId ≠ H.none
    rw [Function.update_of_ne hsp]
    exact h.named
  referenced id hid := by
    change Function.update V.nr sp (procNr rp) id ≠ H.none at hid
    change ∃ p, V.used p ∧ procNr p = Function.update V.nr sp (procNr rp) id ∧
      Function.update V.ptr rp sp p = id
    by_cases hsp : id = sp
    · subst hsp
      rw [Function.update_self]
      exact ⟨rp, hused, rfl, Function.update_self ..⟩
    · rw [Function.update_of_ne hsp] at hid ⊢
      obtain ⟨p, hp, hnr, hpid⟩ := h.referenced id hid
      have hpr : p ≠ rp := by
        rintro rfl
        rw [hptr] at hpid
        subst hpid
        exact huser hnr
      exact ⟨p, hp, hnr, (Function.update_of_ne hpr ..).trans hpid⟩

theorem Owned.fork (h : V.Owned) (hfree : ¬ V.used rpc)
    (hservice : V.ptr rpp = H.userPrivId ∨ V.sys (V.ptr rpp) = true) :
    (V.fork rpp rpc).Owned where
  own p hp hne := by
    have hpr : p ≠ rpc := by
      rintro rfl
      refine hne ?_
      change Function.update V.ptr p (if V.sys (V.ptr rpp) then _ else V.ptr rpp) p = _
      rw [Function.update_self]
      rcases hservice with hptr | hsys
      · rw [hptr, ite_self]
      · rw [if_pos hsys]
    have hptr : (V.fork rpp rpc).ptr p = V.ptr p := Function.update_of_ne hpr ..
    have hused : (V.fork rpp rpc).used p = V.used p := Function.update_of_ne hpr ..
    rw [hptr] at hne ⊢
    rw [hused] at hp
    exact h.own p hp hne
  user := h.user
  named := h.named
  referenced id hid := by
    obtain ⟨p, hp, hnr, hptr⟩ := h.referenced id hid
    have hpr : p ≠ rpc := by
      rintro rfl
      exact hfree hp
    refine ⟨p, ?_, hnr, (Function.update_of_ne hpr ..).trans hptr⟩
    change Function.update V.used rpc True p
    rw [Function.update_of_ne hpr]
    exact hp

theorem procNr_eq {p q : Slot H} (h : procNr p = procNr q) : p = q := Peers.procNr_inj h

theorem Owned.exit (h : V.Owned) (hused : V.used rpc)
    (huser : V.ptr rpc = H.userPrivId → procNr rpc ≠ V.nr H.userPrivId)
    (hservice : V.ptr rpc = H.userPrivId ∨ V.sys (V.ptr rpc) = true) : (V.exit rpc).Owned := by
  -- A structure is released exactly when it belongs to rpc alone.
  have hother : ∀ id, (∀ p, V.used p → V.ptr p = id → p ≠ rpc) → (V.exit rpc).nr id = V.nr id := by
    intro id hid
    change (if V.sys (V.ptr rpc) then Function.update V.nr (V.ptr rpc) H.none else V.nr) id = _
    split
    · exact Function.update_of_ne (fun he => hid rpc hused he.symm rfl) ..
    · rfl
  have hptr : V.sys (V.ptr rpc) = true → V.ptr rpc ≠ H.userPrivId := by
    intro hsys he
    rw [he, h.user] at hsys
    cases hsys
  have hstays : ∀ p, (V.exit rpc).used p ↔ V.used p ∧ p ≠ rpc := by
    intro p
    change Function.update V.used rpc False p ↔ _
    by_cases hpr : p = rpc
    · subst hpr
      rw [Function.update_self]
      exact ⟨False.elim, fun hp => hp.2 rfl⟩
    · rw [Function.update_of_ne hpr]
      exact ⟨fun hp => ⟨hp, hpr⟩, And.left⟩
  refine ⟨fun p hp hne => ?_, h.user, ?_, fun id hid => ?_⟩
  · obtain ⟨hp, hpr⟩ := (hstays p).mp hp
    have hnr := h.own p hp hne
    rw [← hnr]
    refine hother _ fun q hq hsame => ?_
    rintro rfl
    exact hpr (procNr_eq (hnr.symm.trans (hsame ▸ h.own q hq (hsame ▸ hne))))
  · change (if V.sys (V.ptr rpc) then Function.update V.nr (V.ptr rpc) H.none else V.nr)
      H.userPrivId ≠ H.none
    split
    · rename_i hsys
      rw [Function.update_of_ne (hptr hsys).symm]
      exact h.named
    · exact h.named
  · have hne : V.sys (V.ptr rpc) = true → V.ptr rpc ≠ id := by
      rintro hsys rfl
      refine hid ?_
      change (if V.sys (V.ptr rpc) then Function.update V.nr (V.ptr rpc) H.none else V.nr) _ = _
      rw [if_pos hsys, Function.update_self]
    have hkept : (V.exit rpc).nr id = V.nr id := by
      change (if V.sys (V.ptr rpc) then Function.update V.nr (V.ptr rpc) H.none else V.nr) id = _
      split
      · rename_i hsys
        exact Function.update_of_ne (hne hsys).symm ..
      · rfl
    rw [hkept] at hid ⊢
    obtain ⟨p, hp, hnr, hpid⟩ := h.referenced id hid
    have hpr : p ≠ rpc := by
      rintro rfl
      rcases hservice with huptr | hsys
      · rw [← hpid, huptr] at hnr
        exact huser huptr hnr
      · exact hne hsys hpid
    exact ⟨p, (hstays p).mpr ⟨hp, hpr⟩, hnr, hpid⟩

end Owners

section Frames
variable {s s' t : KState H M} {rp rc : Slot H} {k : PrivId H} {f : Flags}

structure SamePrivs (s s' : KState H M) : Prop where
  ptr : ∀ i, (s'.proc i).priv = (s.proc i).priv
  nr : ∀ id, (s'.priv id).sProcNr = (s.priv id).sProcNr
  flags : ∀ id, (s'.priv id).sFlags = (s.priv id).sFlags

namespace SamePrivs

theorem refl (s : KState H M) : SamePrivs s s := ⟨fun _ => rfl, fun _ => rfl, fun _ => rfl⟩

theorem trans (h : SamePrivs s t) (h' : SamePrivs t s') : SamePrivs s s' :=
  ⟨fun i => (h'.ptr i).trans (h.ptr i), fun id => (h'.nr id).trans (h.nr id),
    fun id => (h'.flags id).trans (h.flags id)⟩

theorem of_proc (hptr : ∀ i, (s'.proc i).priv = (s.proc i).priv) (hpriv : s'.priv = s.priv) :
    SamePrivs s s' :=
  ⟨hptr, fun id => by rw [hpriv], fun id => by rw [hpriv]⟩

theorem updPriv {g : Priv → Priv} (hnr : ∀ x, (g x).sProcNr = x.sProcNr)
    (hflags : ∀ x, (g x).sFlags = x.sFlags) : SamePrivs s (s.updPriv k g) where
  ptr _ := rfl
  nr id := by
    change (Function.update s.priv k (g (s.priv k)) id).sProcNr = _
    by_cases hid : id = k
    · subst hid
      rw [Function.update_self, hnr]
    · rw [Function.update_of_ne hid]
  flags id := by
    change (Function.update s.priv k (g (s.priv k)) id).sFlags = _
    by_cases hid : id = k
    · subst hid
      rw [Function.update_self, hflags]
    · rw [Function.update_of_ne hid]

theorem rtsSet (h : rtsSet s rp f = .ok s') : SamePrivs s s' :=
  .of_proc (fun _ => rtsSet_ptr h) (rtsSet_priv h)

theorem rtsUnset (h : rtsUnset s rp f = .ok s') : SamePrivs s s' :=
  .of_proc (fun _ => rtsUnset_ptr h) (rtsUnset_priv h)

theorem setRts : SamePrivs s (s.setRts rp f) := .of_proc (fun _ => upd_ptr fun _ => rfl) rfl

theorem rtsSetflags (h : rtsSetflags s rp f = .ok s') : SamePrivs s s' := by
  refine .of_proc (fun i => ?_) (rtsSetflags_priv h)
  rw [Kernel.rtsSetflags] at h
  split at h
  · obtain ⟨t, ht, h⟩ := bind_ok.mp h
    obtain rfl := pure_ok.mp h
    rw [setRts.ptr, (Rescheduled.dequeue ht).1]
  · obtain ⟨t, ht, h⟩ := bind_ok.mp h
    obtain rfl := pure_ok.mp h
    obtain rfl := pure_ok.mp ht
    exact setRts.ptr i

theorem setCallers (d : Slot H) (xpp : Chain.Cell (Slot H)) (v : Option (Slot H)) :
    SamePrivs s (s.setCallers d xpp v) := by
  cases xpp with
  | head =>
    refine .of_proc (fun i => ?_) rfl
    change ((s.upd d fun x => { x with callerQ := v }).proc i).priv = _
    exact upd_ptr fun _ => rfl
  | link j =>
    refine .of_proc (fun i => ?_) rfl
    change ((s.upd j fun x => { x with qLink := v }).proc i).priv = _
    exact upd_ptr fun _ => rfl

theorem unlinkSender (h : unlinkSender s rc = .ok s') : SamePrivs s s' := by
  rw [Kernel.unlinkSender] at h
  split at h
  · obtain ⟨target, -, h⟩ := bind_ok.mp h
    split at h
    · cases h
    · rename_i xpp _
      obtain rfl := pure_ok.mp h
      refine SamePrivs.trans ?_ setRts
      split
      · exact .refl s
      · exact setCallers ..
  · cases h
    exact .refl s

theorem clearIpc (h : clearIpc s rc = .ok s') : SamePrivs s s' := by
  rw [Kernel.clearIpc] at h
  obtain ⟨t, ht, h⟩ := bind_ok.mp h
  obtain rfl := pure_ok.mp h
  exact (unlinkSender ht).trans setRts

theorem clearRef {r : Errno} (h : clearRef rc r s rp = .ok s') : SamePrivs s s' := by
  rw [Kernel.clearRef] at h
  split at h
  · cases h
    exact .refl s
  · have hrow : SamePrivs s (s.updPriv (s.proc rp).priv fun x =>
        { x with sNotifyPending := unsetSysBit x.sNotifyPending (s.proc rc).priv }) :=
      .updPriv (fun _ => rfl) fun _ => rfl
    dsimp only at h
    split at h
    · refine hrow.trans (SamePrivs.trans ?_ (.rtsUnset h))
      exact .of_proc (fun _ => upd_ptr (by exact fun _ => rfl)) rfl
    · cases h
      exact hrow

theorem clearRefs {r : Errno} (l : List (Slot H)) (s : KState H M)
    (h : l.foldlM (Kernel.clearRef rc r) s = .ok s') : SamePrivs s s' := by
  induction l generalizing s with
  | nil =>
    cases h
    exact .refl _
  | cons rp l ih =>
    rw [List.foldlM_cons] at h
    obtain ⟨t, ht, h⟩ := bind_ok.mp h
    exact (clearRef ht).trans (ih t h)

theorem clearEndpoint (h : clearEndpoint s rc = .ok s') : SamePrivs s s' := by
  rw [Kernel.clearEndpoint] at h
  split at h
  · cases h
  · obtain ⟨t, ht, h⟩ := bind_ok.mp h
    obtain ⟨u, hu, h⟩ := bind_ok.mp h
    have hasyn : SamePrivs t (clearAsynsize t rc) := by
      rw [clearAsynsize]
      split
      · exact .updPriv (fun _ => rfl) fun _ => rfl
      · exact .refl t
    exact (((SamePrivs.rtsSet ht).trans hasyn).trans (clearIpc hu)).trans (clearRefs _ _ h)

theorem owners (h : SamePrivs s s') (hused : ∀ i, (s'.peers i).state = (s.peers i).state) :
    s'.owners = s.owners := by
  have hptr : s'.owners.ptr = s.owners.ptr := funext h.ptr
  have hnr : s'.owners.nr = s.owners.nr := funext h.nr
  have hsys : s'.owners.sys = s.owners.sys := by
    funext id
    change (s'.priv id).has SYS_PROC = (s.priv id).has SYS_PROC
    rw [Priv.has, Priv.has, h.flags]
  have hstate : s'.owners.used = s.owners.used := by
    funext i
    change ((s'.peers i).state ≠ .free) = ((s.peers i).state ≠ .free)
    rw [hused]
  rw [Owners.ext_iff]
  exact ⟨hstate, hptr, hnr, hsys⟩

end SamePrivs

end Frames

structure Lodged (s : KState H M) : Prop where
  unbroken : s.peers.Unbroken
  endpoints : ∀ i, slotEndpoint i (s.peers i).endpoint

section Requests
variable {C : PrivctlHeaders H} {s s' t : KState H M} {caller rp rc : Slot H} {k : PrivId H}
  {r : Errno} {e : ℤ}

theorem Lodged.of_peers (h : Lodged s) (hpeers : s'.peers = s.peers) : Lodged s' := by
  constructor
  · rw [hpeers]
    exact h.unbroken
  · rw [hpeers]
    exact h.endpoints

theorem releasePriv_fields (s : KState H M) (rc : Slot H) :
    (∀ i, ((releasePriv s rc).proc i).priv = (s.proc i).priv) ∧
    (∀ id, ((releasePriv s rc).priv id).sFlags = (s.priv id).sFlags) ∧
    ∀ id, ((releasePriv s rc).priv id).sProcNr = (if (s.privOf rc).has SYS_PROC then
      Function.update (fun id => (s.priv id).sProcNr) (s.proc rc).priv H.none
      else fun id => (s.priv id).sProcNr) id := by
  rw [releasePriv]
  split
  · refine ⟨fun _ => rfl, fun id => ?_, fun id => ?_⟩
    · change (Function.update s.priv (s.proc rc).priv _ id).sFlags = _
      by_cases hid : id = (s.proc rc).priv
      · subst hid
        rw [Function.update_self]
      · rw [Function.update_of_ne hid]
    · change (Function.update s.priv (s.proc rc).priv _ id).sProcNr = _
      by_cases hid : id = (s.proc rc).priv
      · subst hid
        rw [Function.update_self, Function.update_self]
      · rw [Function.update_of_ne hid, Function.update_of_ne hid]
  · exact ⟨fun _ => rfl, fun _ => rfl, fun _ => rfl⟩

theorem doClear_owners (hlodged : Lodged s) (hsane : Sane s) (h : doClear s e = .ok (r, s')) :
    Lodged s' ∧ (s'.owners = s.owners ∨
      ∃ rc, s.peers.named e = some rc ∧ s'.owners = s.owners.exit rc) := by
  rcases doClear_peers hsane h with ⟨hpeers, hr⟩ | ⟨rc, W, rfl, hrc, hcleared, hpeers⟩
  · refine ⟨hlodged.of_peers hpeers, .inl ?_⟩
    rw [doClear] at h
    split at h
    · cases h
      rfl
    · split at h
      · cases h
        rfl
      · obtain ⟨t, -, h⟩ := bind_ok.mp h
        obtain ⟨u, -, h⟩ := bind_ok.mp h
        exact absurd (Prod.mk.inj (pure_ok.mp h)).1.symm hr
  · have hstate : ∀ i, (s'.peers i).state = if i = rc then .free else (s.peers i).state := by
      intro i
      rw [hpeers, Peers.vacate]
      by_cases hi : i = rc
      · subst hi
        rw [Function.update_self, if_pos rfl]
      · rw [Function.update_of_ne hi, (hcleared.fields i).1, if_neg hi, if_neg hi]
    have hend : ∀ i, (s'.peers i).endpoint = (s.peers i).endpoint := by
      intro i
      rw [hpeers, Peers.vacate]
      by_cases hi : i = rc
      · subst hi
        rw [Function.update_self]
        exact (hcleared.fields i).2.1
      · rw [Function.update_of_ne hi]
        exact (hcleared.fields i).2.1
    refine ⟨⟨fun i => ?_, fun i => ?_⟩, .inr ⟨rc, hrc, ?_⟩⟩
    · rw [hstate]
      split
      · exact fun hbroken => by cases hbroken
      · exact hlodged.unbroken i
    · rw [hend]
      exact hlodged.endpoints i
    · rw [doClear] at h
      have hnamed : isokendpt s e = some rc := by rw [isokendpt_named, hrc]
      rw [hnamed] at h
      dsimp only at h
      split at h
      · rename_i hempty
        exact absurd ((isEmpty_iff _).mp hempty) (named_some hrc).2.1
      · obtain ⟨t, ht, h⟩ := bind_ok.mp h
        obtain ⟨u, hu, h⟩ := bind_ok.mp h
        obtain ⟨-, rfl⟩ := Prod.mk.inj (pure_ok.mp h)
        have hcut : SamePrivs s (u.upd rc (·.clearMisc MF_FPU_INITIALIZED)) :=
          ((SamePrivs.clearEndpoint ht).trans (.rtsSetflags hu)).trans
            (.of_proc (fun _ => upd_ptr (by exact fun _ => rfl)) rfl)
        generalize u.upd rc (·.clearMisc MF_FPU_INITIALIZED) = v at hcut hstate ⊢
        obtain ⟨hptr, hflags, hnr⟩ := releasePriv_fields v rc
        have hsys : (v.privOf rc).has SYS_PROC = s.owners.sys (s.owners.ptr rc) := by
          rw [KState.privOf, hcut.ptr, Priv.has, hcut.flags]
          rfl
        refine Owners.ext ?_ ?_ ?_ ?_
        · funext i
          change (((releasePriv v rc).peers i).state ≠ .free) =
            Function.update s.owners.used rc False i
          rw [hstate]
          by_cases hi : i = rc
          · subst hi
            rw [if_pos rfl, Function.update_self]
            exact eq_false (fun hfree => hfree rfl)
          · rw [if_neg hi, Function.update_of_ne hi]
            rfl
        · funext i
          exact (hptr i).trans (hcut.ptr i)
        · funext id
          change ((releasePriv v rc).priv id).sProcNr = (if s.owners.sys (s.owners.ptr rc) then
            Function.update s.owners.nr (s.owners.ptr rc) H.none else s.owners.nr) id
          rw [hnr, hsys, hcut.ptr, show (fun id => (v.priv id).sProcNr) = s.owners.nr from
            funext hcut.nr]
          rfl
        · funext id
          change ((releasePriv v rc).priv id).has SYS_PROC = _
          rw [Priv.has, hflags, hcut.flags]
          rfl

theorem doFork_owners {m : ForkCall} (hlodged : Lodged s) (hsane : Sane s)
    (h : doFork s m = .ok (r, s')) : s' = s ∨ ∃ rpp rpc, s.peers.named m.prEndpt = some rpp ∧
      (s.peers rpc).state = .free ∧ Lodged s' ∧ s'.owners = s.owners.fork rpp rpc := by
  rcases doFork_cases hsane h with rfl | ⟨rpp, rpc, hf⟩
  · exact .inl rfl
  · have hchild : s'.peers rpc = { s.peers rpp with
        endpoint := H.endpoint (nextGeneration H (H.endpointG (s.proc rpc).endpoint)) m.prSlot } := by
      rw [hf.peers, Peers.fork, Function.update_self]
    have hstays : ∀ i, i ≠ rpc → s'.peers i = s.peers i := by
      intro i hi
      rw [hf.peers, Peers.fork, Function.update_of_ne hi]
    refine .inr ⟨rpp, rpc, hf.parent, hf.free, ⟨fun i => ?_, fun i => ?_⟩, ?_⟩
    · by_cases hi : i = rpc
      · subst hi
        rw [hchild]
        exact hlodged.unbroken rpp
      · rw [hstays i hi]
        exact hlodged.unbroken i
    · by_cases hi : i = rpc
      · subst hi
        rw [hchild, ← hf.slot]
        exact Peers.slotEndpoint_next (hlodged.endpoints i)
      · rw [hstays i hi]
        exact hlodged.endpoints i
    · refine Owners.ext ?_ ?_ ?_ ?_
      · funext i
        change ((s'.peers i).state ≠ .free) = Function.update s.owners.used rpc True i
        by_cases hi : i = rpc
        · subst hi
          rw [hchild, Function.update_self]
          exact eq_true (named_some hf.parent).2.1
        · rw [hstays i hi, Function.update_of_ne hi]
          rfl
      · funext i
        refine (hf.ptr i).trans ?_
        change _ = Function.update s.owners.ptr rpc _ i
        by_cases hi : i = rpc
        · subst hi
          rw [if_pos rfl, Function.update_self]
          rfl
        · rw [if_neg hi, Function.update_of_ne hi]
          rfl
      · funext id
        change (s'.priv id).sProcNr = _
        rw [hf.priv]
        rfl
      · funext id
        change (s'.priv id).has SYS_PROC = _
        rw [hf.priv]
        rfl

theorem updPriv_owners {g : Priv → Priv} (hnr : (g (s.priv k)).sProcNr = (s.priv k).sProcNr) :
    (s.updPriv k g).owners = s.owners.mark k ((g (s.priv k)).has SYS_PROC) := by
  refine Owners.ext rfl rfl ?_ ?_
  · funext id
    change (Function.update s.priv k (g (s.priv k)) id).sProcNr = (s.priv id).sProcNr
    by_cases hid : id = k
    · subst hid
      rw [Function.update_self, hnr]
    · rw [Function.update_of_ne hid]
  · funext id
    change (Function.update s.priv k (g (s.priv k)) id).has SYS_PROC =
      Function.update s.owners.sys k _ id
    by_cases hid : id = k
    · subst hid
      rw [Function.update_self, Function.update_self]
    · rw [Function.update_of_ne hid, Function.update_of_ne hid]
      rfl

structure Rewrites (s s' : KState H M) : Prop where
  proc : s'.proc = s.proc
  nr : ∀ id, (s'.priv id).sProcNr = (s.priv id).sProcNr
  flags : ∀ id, (s'.priv id).sFlags = (s.priv id).sFlags

theorem Rewrites.trans (h : Rewrites s t) (h' : Rewrites t s') : Rewrites s s' :=
  ⟨h'.proc.trans h.proc, fun id => (h'.nr id).trans (h.nr id),
    fun id => (h'.flags id).trans (h.flags id)⟩

theorem rewrites_row {g : Priv → Priv} (hnr : ∀ x, (g x).sProcNr = x.sProcNr)
    (hflags : ∀ x, (g x).sFlags = x.sFlags) : Rewrites s (s.updPriv k g) :=
  ⟨rfl, (SamePrivs.updPriv hnr hflags).nr, (SamePrivs.updPriv hnr hflags).flags⟩

theorem Rewrites.owners (h : Rewrites s s') : s'.owners = s.owners := by
  refine SamePrivs.owners ⟨fun i => ?_, h.nr, h.flags⟩ fun i => ?_
  · rw [h.proc]
  · change (s'.proc i).peer.state = (s.proc i).peer.state
    rw [h.proc]

theorem fill_sendto_rewrites (s : KState H M) (rp : Slot H) (mask : BitVec 32) :
    Rewrites s (fillSendtoMask s rp mask) := by
  rw [fillSendtoMask]
  generalize List.finRange H.nrSysProcs = l
  induction l generalizing s with
  | nil => exact ⟨rfl, fun _ => rfl, fun _ => rfl⟩
  | cons i l ih =>
    have hrow : ∀ (u : KState H M) (k : PrivId H) (f : SysMap → SysMap),
        Rewrites u (u.updPriv k fun x => { x with sIpcTo := f x.sIpcTo }) :=
      fun u k f => rewrites_row (fun _ => rfl) fun _ => rfl
    rw [List.foldl_cons]
    refine Rewrites.trans ?_ (ih _)
    rw [fillSendtoBit]
    split
    · rw [setSendtoBit]
      split
      · exact hrow s _ fun map => unsetSysBit map i
      · dsimp only
        split
        · exact (hrow s _ fun map => setSysBit map i).trans
            (hrow _ i fun map => setSysBit map (s.proc rp).priv)
        · exact hrow s _ fun map => setSysBit map i
    · exact (hrow s _ fun map => unsetSysBit map i).trans
        (hrow _ i fun map => unsetSysBit map (s.proc rp).priv)

theorem updatePriv_owners (C : PrivctlHeaders H) (s : KState H M) (rp : Slot H)
    (priv : PrivArg) : (updatePriv C s rp priv).2.proc = s.proc ∧
    (updatePriv C s rp priv).2.owners =
      s.owners.mark (s.owners.ptr rp) (priv.sFlags &&& SYS_PROC != 0) := by
  have hmark : (s.updPriv (s.proc rp).priv fun x => { x with
      sFlags := priv.sFlags
      sSigMgr := priv.sSigMgr
      sBakSigMgr := priv.sBakSigMgr }).owners =
      s.owners.mark (s.owners.ptr rp) (priv.sFlags &&& SYS_PROC != 0) := updPriv_owners rfl
  rw [updatePriv]
  dsimp only
  split
  · exact ⟨rfl, hmark⟩
  · split
    · exact ⟨rfl, hmark⟩
    · split
      · exact ⟨rfl, hmark⟩
      · have htail := Rewrites.trans (rewrites_row (s := s.updPriv (s.proc rp).priv fun x =>
          { x with
            sFlags := priv.sFlags
            sSigMgr := priv.sSigMgr
            sBakSigMgr := priv.sBakSigMgr }) (k := (s.proc rp).priv)
          (g := fun x => { x with sTrapMask := priv.sTrapMask }) (fun _ => rfl) fun _ => rfl)
          (fill_sendto_rewrites _ rp priv.sIpcTo)
        exact ⟨htail.proc, htail.owners.trans hmark⟩

theorem assignPriv_owners (s : KState H M) (rp : Slot H) (sp : PrivId H) :
    (assignPriv s rp sp).peers = s.peers ∧ (assignPriv s rp sp).owners = s.owners.assign rp sp := by
  have hpeers : (assignPriv s rp sp).peers = s.peers := by
    change (s.upd rp fun x => { x with priv := sp }).peers = _
    rw [peers_upd]
    exact Function.update_eq_self ..
  refine ⟨hpeers, Owners.ext ?_ ?_ ?_ ?_⟩
  · funext i
    change (((assignPriv s rp sp).peers i).state ≠ .free) = _
    rw [hpeers]
    rfl
  · funext i
    change (Function.update s.proc rp _ i).priv = Function.update s.owners.ptr rp sp i
    by_cases hi : i = rp
    · subst hi
      rw [Function.update_self, Function.update_self]
    · rw [Function.update_of_ne hi, Function.update_of_ne hi]
      rfl
  · funext id
    change (Function.update s.priv sp _ id).sProcNr = Function.update s.owners.nr sp _ id
    by_cases hid : id = sp
    · subst hid
      rw [Function.update_self, Function.update_self]
    · rw [Function.update_of_ne hid, Function.update_of_ne hid]
      rfl
  · funext id
    change (Function.update s.priv sp { s.priv sp with sProcNr := procNr rp } id).has SYS_PROC = _
    by_cases hid : id = sp
    · subst hid
      rw [Function.update_self]
      rfl
    · rw [Function.update_of_ne hid]
      rfl

theorem getPriv_assigns {privId : Option ℤ} (h : getPriv C s rp privId = .ok s') :
    ∃ sp, (s.priv sp).sProcNr = H.none ∧ s' = assignPriv s rp sp := by
  cases privId with
  | none =>
    rw [getPriv] at h
    split at h
    · cases h
    · rename_i sp hsp
      have hfound := List.find?_some hsp
      rw [Bool.and_eq_true] at hfound
      exact ⟨sp, LawfulBEq.eq_of_beq hfound.2, (Except.ok.inj h).symm⟩
  | some id =>
    rw [getPriv] at h
    split at h
    · dsimp only at h
      split at h
      · cases h
      · rename_i hfree
        exact ⟨_, not_not.mp hfree, (Except.ok.inj h).symm⟩
    · cases h

theorem Owners.mark_mark (V : Owners H) (id : PrivId H) (b b' : Bool) :
    (V.mark id b).mark id b' = V.mark id b' :=
  Owners.ext rfl rfl rfl (Function.update_idem ..)

theorem setSys_owners (C : PrivctlHeaders H) (s : KState H M) (caller rp : Slot H)
    (arg : Option PrivArg) :
    (setSys C s caller rp arg).2.peers = s.peers ∧
    ((setSys C s caller rp arg).2.owners = s.owners ∨ ∃ sp b, s.owners.nr sp = H.none ∧
      (setSys C s caller rp arg).2.owners = (s.owners.assign rp sp).mark sp b) := by
  rw [setSys]
  split
  · exact ⟨rfl, .inl rfl⟩
  · rename_i t ht
    obtain ⟨sp, hfree, rfl⟩ := getPriv_assigns ht
    obtain ⟨hpeers, howners⟩ := assignPriv_owners s rp sp
    have hptr : ((assignPriv s rp sp).proc rp).priv = sp := by
      change (Function.update s.proc rp _ rp).priv = sp
      rw [Function.update_self]
    dsimp only
    rw [hptr]
    have hcopy : ∀ g : Priv → Priv, (g ((assignPriv s rp sp).priv sp)).sProcNr = procNr rp →
        ((assignPriv s rp sp).updPriv sp g).owners = (s.owners.assign rp sp).mark sp
          ((g ((assignPriv s rp sp).priv sp)).has SYS_PROC) := by
      intro g hg
      rw [← howners]
      refine updPriv_owners (hg.trans ?_)
      change _ = (Function.update s.priv sp _ sp).sProcNr
      rw [Function.update_self]
    have hcopied := hcopy (fun _ => ((assignPriv s rp sp).privOf caller).service C (procNr rp)) rfl
    generalize hu : (assignPriv s rp sp).updPriv sp _ = u at hcopied ⊢
    have hproc : u.proc = (assignPriv s rp sp).proc := by rw [← hu]; rfl
    have hrest := Rewrites.trans (fill_sendto_rewrites u rp C.dsrvM)
      (rewrites_row (k := ((fillSendtoMask u rp C.dsrvM).proc rp).priv) (g := fun x =>
        { x with sSigMgr := C.dsrvSm, sBakSigMgr := H.none }) (fun _ => rfl) fun _ => rfl)
    generalize (fillSendtoMask u rp C.dsrvM).updPriv _ _ = v at hrest ⊢
    have hv : v.peers = s.peers := by
      rw [← hpeers]
      funext i
      change (v.proc i).peer = ((assignPriv s rp sp).proc i).peer
      rw [hrest.proc, hproc]
    have hvowners := hrest.owners.trans hcopied
    cases arg with
    | none => exact ⟨hv, .inr ⟨sp, _, hfree, hvowners⟩⟩
    | some priv =>
      obtain ⟨hkept, hmarked⟩ := updatePriv_owners C v rp priv
      refine ⟨?_, .inr ⟨sp, priv.sFlags &&& SYS_PROC != 0, hfree, ?_⟩⟩
      · rw [← hv]
        funext i
        exact congrArg Proc.peer (congrFun hkept i)
      · have hvptr : v.owners.ptr rp = sp := by
          change (v.proc rp).priv = sp
          rw [hrest.proc, hproc, hptr]
        exact hmarked.trans (by rw [hvptr, hvowners, Owners.mark_mark])

theorem privctlTarget_used {ctlEndpt : ℤ} (hlodged : Lodged s)
    (hcaller : (s.peers caller).state ≠ .free)
    (h : privctlTarget s caller ctlEndpt = .ok (some rp)) : (s.peers rp).state ≠ .free := by
  rw [privctlTarget] at h
  split at h
  · have hnr : H.endpointP (s.proc caller).endpoint = procNr caller :=
      Peers.slotEndpoint_procNr (hlodged.endpoints caller)
    rw [hnr, procAddr_procNr] at h
    obtain rfl := Option.some.inj (Except.ok.inj h)
    exact hcaller
  · rw [pure_ok, isokendpt_named] at h
    exact (named_some h).2.1

inductive PrivRequest.Moves (s : KState H M) (rp : Slot H) : PrivRequest → Owners H → Prop
  | setSys {arg sp b} : (s.proc rp).rtsIsset RTS_NO_PRIV = true → (∀ r, arg ≠ some (.error r)) →
      (s.priv sp).sProcNr = H.none →
      Moves s rp (.SYS_PRIV_SET_SYS arg) ((s.owners.assign rp sp).mark sp b)
  | setUser : (s.proc rp).rtsIsset RTS_NO_PRIV = true → Moves s rp .SYS_PRIV_SET_USER
      { s.owners with ptr := Function.update s.owners.ptr rp H.userPrivId }
  | updateSys {priv} : Moves s rp (.SYS_PRIV_UPDATE_SYS (some (.ok priv)))
      (s.owners.mark (s.owners.ptr rp) (priv.sFlags &&& SYS_PROC != 0))

theorem doPrivctl_owners {m : PrivctlCall} (hlodged : Lodged s) (hsane : Sane s)
    (hcaller : (s.peers caller).state ≠ .free) (h : doPrivctl C s caller m = .ok (r, s')) :
    s'.peers = s.peers ∧ (s'.owners = s.owners ∨ ∃ rp,
      privctlTarget s caller m.ctlEndpt = .ok (some rp) ∧
      m.request.Moves s rp s'.owners) := by
  rw [doPrivctl] at h
  split at h
  · cases h
    exact ⟨rfl, .inl rfl⟩
  · obtain ⟨target, htarget, h⟩ := bind_ok.mp h
    cases target with
    | none =>
      cases h
      exact ⟨rfl, .inl rfl⟩
    | some rp =>
      have hused := privctlTarget_used hlodged hcaller htarget
      have hframe : s'.peers = s.peers → SamePrivs s s' → s'.peers = s.peers ∧
          (s'.owners = s.owners ∨ ∃ rp, privctlTarget s caller m.ctlEndpt = .ok (some rp) ∧
            m.request.Moves s rp s'.owners) :=
        fun hpeers hsame => ⟨hpeers, .inl (hsame.owners fun i => by rw [hpeers])⟩
      dsimp only at h
      cases hreq : m.request with
      | SYS_PRIV_ALLOW =>
        rw [hreq] at h hframe
        dsimp only at h
        split at h
        · cases h
          exact hframe rfl (.refl s)
        · obtain ⟨t, ht, h⟩ := bind_ok.mp h
          obtain ⟨-, rfl⟩ := Prod.mk.inj (pure_ok.mp h)
          exact hframe (rtsUnset_same (by decide) hsane ht).2.2 (.rtsUnset ht)
      | SYS_PRIV_YIELD =>
        rw [hreq] at h hframe
        dsimp only at h
        split at h
        · cases h
          exact hframe rfl (.refl s)
        · obtain ⟨t, ht, h⟩ := bind_ok.mp h
          obtain ⟨u, hu, h⟩ := bind_ok.mp h
          obtain ⟨-, rfl⟩ := Prod.mk.inj (pure_ok.mp h)
          obtain ⟨hptr, hpeers⟩ :=
            rtsSet_same (by decide) (hsane.unbroken caller) hcaller ht
          have hsanet : Sane t := hsane.of_states hptr fun i => by rw [hpeers]
          obtain ⟨-, -, hpeers'⟩ := rtsUnset_same (by decide) hsanet hu
          exact hframe (hpeers'.trans hpeers) ((SamePrivs.rtsSet ht).trans (.rtsUnset hu))
      | SYS_PRIV_DISALLOW =>
        rw [hreq] at h hframe
        dsimp only at h
        split at h
        · cases h
          exact hframe rfl (.refl s)
        · obtain ⟨t, ht, h⟩ := bind_ok.mp h
          obtain ⟨-, rfl⟩ := Prod.mk.inj (pure_ok.mp h)
          exact hframe (rtsSet_same (by decide) (hsane.unbroken rp) hused ht).2 (.rtsSet ht)
      | SYS_PRIV_SET_SYS arg =>
        rw [hreq] at h hframe
        dsimp only at h
        split at h
        · cases h
          exact hframe rfl (.refl s)
        · rename_i hpriv
          have hset : ∀ arg' : Option PrivArg, (∀ r, arg ≠ some (.error r)) →
              s' = (setSys C s caller rp arg').2 → s'.peers = s.peers ∧ (s'.owners = s.owners ∨
                ∃ rp, privctlTarget s caller m.ctlEndpt = .ok (some rp) ∧
                  PrivRequest.Moves s rp (.SYS_PRIV_SET_SYS arg) s'.owners) := by
            rintro arg' harg rfl
            obtain ⟨hpeers, howners | ⟨sp, b, hfree, howners⟩⟩ := setSys_owners C s caller rp arg'
            · exact ⟨hpeers, .inl howners⟩
            · refine ⟨hpeers, .inr ⟨rp, htarget, ?_⟩⟩
              rw [howners]
              exact .setSys (Bool.not_eq_false _ ▸ hpriv) harg hfree
          split at h
          · exact hset none (fun r hr => by cases hr) (by rw [pure_ok.mp h])
          · cases h
            exact hframe rfl (.refl s)
          · rename_i priv
            exact hset (some priv) (fun r hr => by cases hr) (by rw [pure_ok.mp h])
      | SYS_PRIV_SET_USER =>
        rw [hreq] at h hframe
        dsimp only at h
        split at h
        · cases h
          exact hframe rfl (.refl s)
        · rename_i hpriv
          cases h
          have hpeers : (s.upd rp fun x => { x with priv := H.userPrivId }).peers = s.peers := by
            rw [peers_upd]
            exact Function.update_eq_self ..
          refine ⟨hpeers, .inr ⟨rp, htarget, ?_⟩⟩
          have howners : (s.upd rp fun x => { x with priv := H.userPrivId }).owners =
              { s.owners with ptr := Function.update s.owners.ptr rp H.userPrivId } := by
            refine Owners.ext ?_ ?_ rfl rfl
            · funext i
              change ((KState.peers _ i).state ≠ .free) = _
              rw [hpeers]
              rfl
            · funext i
              change (Function.update s.proc rp _ i).priv = Function.update s.owners.ptr rp _ i
              by_cases hi : i = rp
              · subst hi
                rw [Function.update_self, Function.update_self]
              · rw [Function.update_of_ne hi, Function.update_of_ne hi]
                rfl
          rw [howners]
          exact .setUser (Bool.not_eq_false _ ▸ hpriv)
      | SYS_PRIV_UPDATE_SYS arg =>
        rw [hreq] at h hframe
        dsimp only at h
        split at h
        · cases h
          exact hframe rfl (.refl s)
        · cases h
          exact hframe rfl (.refl s)
        · rename_i priv
          obtain rfl : s' = (updatePriv C s rp priv).2 := by rw [pure_ok.mp h]
          obtain ⟨hproc, howners⟩ := updatePriv_owners C s rp priv
          refine ⟨funext fun i => congrArg Proc.peer (congrFun hproc i), .inr ⟨rp, htarget, ?_⟩⟩
          rw [howners]
          exact .updateSys

def PrivRequest.Keeps (s : KState H M) (rp : Slot H) : PrivRequest → Prop
  | .SYS_PRIV_SET_SYS (some (.error _)) => True
  | .SYS_PRIV_SET_SYS _ => (s.proc rp).rtsIsset RTS_NO_PRIV = true →
      (s.proc rp).priv = H.userPrivId ∧ procNr rp ≠ (s.privOf rp).sProcNr
  | .SYS_PRIV_SET_USER => (s.proc rp).rtsIsset RTS_NO_PRIV = true →
      (s.proc rp).priv = H.userPrivId
  | .SYS_PRIV_UPDATE_SYS (some (.ok priv)) => (s.proc rp).priv = H.userPrivId →
      priv.sFlags &&& SYS_PROC = 0
  | _ => True

def KState.exclusive (s : KState H M) (rp : Slot H) : Prop :=
  (s.proc rp).priv = H.userPrivId ∨ (s.privOf rp).has SYS_PROC = true

end Requests

inductive SlotEvent where
  | doPrivctl (m : PrivctlCall) (result : Errno)
  | doFork (m : ForkCall) (result : Errno)
  | doClear (prEndpt : ℤ) (result : Errno)
  -- anything else that leaves the slots and the privileges where they are
  | other

def SlotEvent.Happens (C : PrivctlHeaders H) (s : KState H M) (caller : Slot H)
    (s' : KState H M) : SlotEvent → Prop
  | .doPrivctl m r => (s.proc caller).isRunnable = true ∧
      Kernel.doPrivctl C (s.switchTo caller) caller m = .ok (r, s')
  | .doFork m r => (s.proc caller).isRunnable = true ∧
      Kernel.doFork (s.switchTo caller) m = .ok (r, s')
  | .doClear e r => (s.proc caller).isRunnable = true ∧
      Kernel.doClear (s.switchTo caller) e = .ok (r, s')
  | .other => SamePrivs s s' ∧ ∀ i, (s'.peers i).state = (s.peers i).state ∧
      (s'.proc i).endpoint = (s.proc i).endpoint

def SlotEvent.Keeps (s : KState H M) (caller : Slot H) : SlotEvent → Prop
  | .doPrivctl m _ => ∀ rp, privctlTarget s caller m.ctlEndpt = .ok (some rp) →
      m.request.Keeps s rp
  | .doFork m _ => ∀ rpp, isokendpt s m.prEndpt = some rpp → s.exclusive rpp
  | .doClear e _ => ∀ rc, isokendpt s e = some rc → s.exclusive rc ∧
      ((s.proc rc).priv = H.userPrivId → procNr rc ≠ (s.privOf rc).sProcNr)
  | .other => True

structure SlotsOwned (s : KState H M) : Prop where
  system : ∀ p, (s.proc p).isEmpty = false → (s.privOf p).has SYS_PROC = true →
    (s.privOf p).sProcNr = procNr p
  unshared : ∀ p q, p ≠ q → (s.proc p).isEmpty = false → (s.proc q).isEmpty = false →
    (s.proc p).priv = (s.proc q).priv → (s.proc p).priv = H.userPrivId
  referenced : ∀ id, (s.priv id).sProcNr ≠ H.none → ∃ p, (s.proc p).isEmpty = false ∧
    procNr p = (s.priv id).sProcNr ∧ (s.proc p).priv = id

def slotSystem (C : PrivctlHeaders H) (M : Type) :
    TransitionSystem (KState H M) (Slot H × SlotEvent) where
  initial s := Lodged s ∧ s.owners.Owned
  step s e s' := e.2.Happens C s e.1 s'

section Runs
variable {C : ServiceHeaders H} {s s' : KState H M} {caller rp : Slot H}

theorem PrivRequest.Moves.owned {req : PrivRequest} {V' : Owners H} (C : ServiceHeaders H)
    (h : s.owners.Owned) (hused : (s.peers rp).state ≠ .free) (hkeeps : req.Keeps s rp)
    (hmoves : req.Moves s rp V') : V'.Owned := by
  cases hmoves with
  | @setSys arg sp b hpriv harg hfree =>
    have hown : (s.proc rp).priv = H.userPrivId ∧ procNr rp ≠ (s.privOf rp).sProcNr := by
      match arg, harg with
      | none, _ => exact hkeeps hpriv
      | some (.ok _), _ => exact hkeeps hpriv
      | some (.error r), harg => exact absurd rfl (harg r)
    have hnr : procNr rp ≠ s.owners.nr H.userPrivId := by
      change procNr rp ≠ (s.priv H.userPrivId).sProcNr
      rw [← hown.1]
      exact hown.2
    refine (h.assign C.none_beyond hused hown.1 hnr hfree).mark ?_
    rintro rfl
    exact absurd hfree h.named
  | setUser hpriv =>
    have hptr : Function.update s.owners.ptr rp H.userPrivId = s.owners.ptr := by
      rw [← show s.owners.ptr rp = H.userPrivId from hkeeps hpriv]
      exact Function.update_eq_self ..
    rw [hptr]
    exact h
  | updateSys =>
    refine h.mark fun hptr => ?_
    rw [bne_eq_false_iff_eq]
    exact hkeeps hptr

theorem happens_owned {e : SlotEvent} (h : Lodged s ∧ s.owners.Owned) (hkeeps : e.Keeps s caller)
    (hs : e.Happens C.toPrivctlHeaders s caller s') : Lodged s' ∧ s'.owners.Owned := by
  obtain ⟨hlodged, howned⟩ := h
  have hlodged' : Lodged (s.switchTo caller) := ⟨hlodged.unbroken, hlodged.endpoints⟩
  have hcaller : (s.proc caller).isRunnable = true → (s.peers caller).state ≠ .free := by
    intro hrun
    rw [(idle_of_runnable hrun).state]
    exact fun hfree => by cases hfree
  cases e with
  | doPrivctl m r =>
    obtain ⟨hrun, hs⟩ := hs
    obtain ⟨hpeers, hmoves⟩ := doPrivctl_owners hlodged'
      (sane_switchTo hlodged.unbroken (hcaller hrun)) (hcaller hrun) hs
    refine ⟨hlodged'.of_peers hpeers, ?_⟩
    rcases hmoves with hsame | ⟨rp, htarget, hmoves⟩
    · rw [hsame]
      exact howned
    · have hused : ((s.switchTo caller).peers rp).state ≠ .free :=
        privctlTarget_used hlodged' (hcaller hrun) htarget
      exact hmoves.owned (s := s.switchTo caller) C howned hused (hkeeps rp htarget)
  | doFork m r =>
    obtain ⟨hrun, hs⟩ := hs
    rcases doFork_owners hlodged' (sane_switchTo hlodged.unbroken (hcaller hrun)) hs with
      rfl | ⟨rpp, rpc, hparent, hfree, hlodged'', howners⟩
    · exact ⟨hlodged', howned⟩
    · refine ⟨hlodged'', ?_⟩
      rw [howners]
      refine Owners.Owned.fork howned (fun hused => hused hfree) (hkeeps rpp ?_)
      rw [isokendpt_named]
      exact hparent
  | doClear e r =>
    obtain ⟨hrun, hs⟩ := hs
    obtain ⟨hlodged'', howners | ⟨rc, hrc, howners⟩⟩ := doClear_owners hlodged'
      (sane_switchTo hlodged.unbroken (hcaller hrun)) hs
    · refine ⟨hlodged'', ?_⟩
      rw [howners]
      exact howned
    · have hkept := hkeeps rc (by rw [isokendpt_named]; exact hrc)
      refine ⟨hlodged'', ?_⟩
      rw [howners]
      refine Owners.Owned.exit howned (named_some hrc).2.1 (fun hptr => ?_) hkept.1
      have hnr := hkept.2 hptr
      rw [KState.privOf, show (s.proc rc).priv = _ from hptr] at hnr
      exact hnr
  | other =>
    obtain ⟨hsame, hslots⟩ := hs
    refine ⟨⟨fun i => ?_, fun i => ?_⟩, ?_⟩
    · rw [(hslots i).1]
      exact hlodged.unbroken i
    · rw [show (s'.peers i).endpoint = _ from (hslots i).2]
      exact hlodged.endpoints i
    · rw [hsame.owners fun i => (hslots i).1]
      exact howned

theorem used_iff (i : Slot H) : (s.proc i).isEmpty = false ↔ s.owners.used i := by
  rw [Bool.eq_false_iff]
  exact not_congr (isEmpty_iff _)

theorem Owners.Owned.slots (h : s.owners.Owned) : SlotsOwned s where
  system p hp hsys := by
    refine h.own p ((used_iff p).mp hp) fun hptr => ?_
    rw [KState.privOf, show (s.proc p).priv = _ from hptr] at hsys
    exact Bool.false_ne_true (h.user.symm.trans hsys)
  unshared p q hpq hp hq hsame := by
    by_contra hptr
    have hnr := h.own p ((used_iff p).mp hp) hptr
    have hnr' := h.own q ((used_iff q).mp hq) fun hptr' => hptr (hsame.trans hptr')
    rw [show s.owners.ptr p = s.owners.ptr q from hsame, hnr'] at hnr
    exact hpq (procNr_eq hnr.symm)
  referenced id hid := by
    obtain ⟨p, hp, hnr, hptr⟩ := h.referenced id hid
    exact ⟨p, (used_iff p).mpr hp, hnr, hptr⟩

theorem slotsOwned (C : ServiceHeaders H) {past : List (KState H M × (Slot H × SlotEvent))}
    (hrun : (slotSystem C.toPrivctlHeaders M).Run (fun _ s e => e.2.Keeps s e.1) past s) :
    SlotsOwned s := by
  refine Owners.Owned.slots (hrun.invariant (P := fun s => Lodged s ∧ s.owners.Owned)
    (fun _ h => h) ?_).2
  exact fun _ _ _ _ h hkeeps hs => happens_owned (C := C) h hkeeps hs

end Runs

def ServiceHeaders.sample : ServiceHeaders Headers.sample where
  toPrivctlHeaders := .sample
  none_beyond := by decide

def KState.services : KState Headers.sample ℕ :=
  { KState.sample fun i => if i = 7 ∨ i = 8 then RTS_NO_PRIV else 0 with
    proc := fun i =>
      { (KState.sample fun i => if i = 7 ∨ i = 8 then RTS_NO_PRIV else 0).proc i with
        priv := if i = 6 then ⟨0, by decide⟩ else if i = 7 then ⟨1, by decide⟩ else ⟨5, by decide⟩ }
    priv := fun id => { (KState.sample fun _ => 0).priv id with
      sProcNr := if id.val = 0 then 2 else if id.val = 1 then 3 else if id.val = 5 then 7 else 31743
      sFlags := if id.val = 5 then PREEMPTIBLE else SYS_PROC } }

theorem services_owned : Lodged KState.services ∧ KState.services.owners.Owned := by
  have hused : ∀ i, KState.services.owners.used i := by
    have hfull : ∀ i, (KState.services.proc i).isEmpty = false := by decide
    exact fun i => (used_iff i).mp (hfull i)
  refine ⟨⟨fun i => ?_, fun i => ⟨1, by decide, by decide, rfl⟩⟩, ?_, by decide, by decide,
    fun id hid => ?_⟩
  · revert i
    decide
  · have hown : ∀ p, (KState.services.proc p).priv ≠ Headers.sample.userPrivId →
        (KState.services.privOf p).sProcNr = procNr p := by decide
    exact fun p _ => hown p
  · have hnamed : ∀ id, (KState.services.priv id).sProcNr ≠ Headers.sample.none → ∃ p,
        procNr p = (KState.services.priv id).sProcNr ∧ (KState.services.proc p).priv = id := by decide
    obtain ⟨p, hnr, hptr⟩ := hnamed id hid
    exact ⟨p, hused p, hnr, hptr⟩

def setSysCall (nr : ℤ) : PrivctlCall where
  ctlEndpt := Headers.sample.endpoint 1 nr
  request := .SYS_PRIV_SET_SYS (some (.ok ⟨SYS_PROC, 3, 2, 31743, 0, 0, 0, 0xff, 1⟩))

theorem slotsOwned_service : ∃ s : KState Headers.sample ℕ,
    doPrivctl PrivctlHeaders.sample (KState.services.switchTo 6) 6 (setSysCall 4) = .ok (.OK, s) ∧
      (s.priv ⟨3, by decide⟩).sProcNr = 4 ∧ SlotsOwned s := by
  have hkeeps : (SlotEvent.doPrivctl (setSysCall 4) .OK).Keeps KState.services 6 := by
    have htarget : privctlTarget KState.services 6 (setSysCall 4).ctlEndpt = .ok (some 8) := rfl
    rintro rp hrp
    obtain rfl := Option.some.inj (Except.ok.inj (htarget.symm.trans hrp))
    exact fun _ => by decide
  have hrun : (slotSystem PrivctlHeaders.sample ℕ).Run (fun _ s e => e.2.Keeps s e.1)
      [(KState.services, 6, .doPrivctl (setSysCall 4) .OK)] _ :=
    .next (.start services_owned) hkeeps ⟨by decide, rfl⟩
  exact ⟨_, rfl, rfl, slotsOwned .sample hrun⟩

theorem second_structure_leaks : ∃ past s,
    (slotSystem PrivctlHeaders.sample ℕ).Run always past s ∧ ¬ SlotsOwned s := by
  refine ⟨[(KState.services, 6, .doPrivctl (setSysCall 3) .OK)], _,
    .next (.start services_owned) trivial ⟨by decide, rfl⟩, fun h => ?_⟩
  obtain ⟨p, -, hnr, hptr⟩ := h.referenced ⟨1, by decide⟩ (by decide)
  revert hnr hptr
  revert p
  decide

end Kernel
