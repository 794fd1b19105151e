import Cs111.Kernel.CallerRuns

-- Asynchronous messages wait in the sender's table until the receiver looks for them.
namespace Kernel
open Minix FlagWord Chain TransitionSystem
variable {H : Headers} {M : Type} {s s' t u : KState H M} {p q d src : Slot H} {e : ℤ} {r : Errno}

structure Calm (x y : Proc H M) : Prop where
  priv : y.priv = x.priv
  endpoint : y.endpoint = x.endpoint
  asyn : y.miscIsset MF_ASYNMSG = x.miscIsset MF_ASYNMSG

structure SamePost (x y : Priv) : Prop where
  procNr : y.sProcNr = x.sProcNr
  flags : y.sFlags = x.sFlags
  ipcTo : y.sIpcTo = x.sIpcTo
  size : y.sAsynsize = x.sAsynsize

structure Quiet (s t : KState H M) : Prop where
  proc : ∀ i, Calm (s.proc i) (t.proc i)
  priv : ∀ id, SamePost (s.priv id) (t.priv id)
  tables : t.asyntab = s.asyntab

namespace Calm
variable {x y z : Proc H M} {f : Flags}

theorem refl (x : Proc H M) : Calm x x := ⟨rfl, rfl, rfl⟩

theorem trans (h : Calm x y) (h' : Calm y z) : Calm x z :=
  ⟨h'.priv.trans h.priv, h'.endpoint.trans h.endpoint, h'.asyn.trans h.asyn⟩

theorem setMisc (hf : f &&& MF_ASYNMSG = 0) : Calm x (x.setMisc f) := ⟨rfl, rfl, isset_or hf⟩

theorem clearMisc (hf : f &&& MF_ASYNMSG = 0) : Calm x (x.clearMisc f) :=
  ⟨rfl, rfl, isset_clear hf⟩

theorem accept (m : Message M) (source : ℤ) : Calm x (x.accept m source) :=
  ⟨rfl, rfl, isset_or (by decide)⟩

theorem status (item : StatusItem) : Calm x (x.ipcStatusAdd item) := by
  rw [Proc.ipcStatusAdd]
  split
  · exact .refl x
  · exact ⟨rfl, rfl, rfl⟩

theorem receiveSent (flags : SendFlags) (call : CallNr) (m : Message M) (source : ℤ) :
    Calm x (x.receiveSent flags call m source) := by
  rw [Proc.receiveSent]
  refine trans (trans ?_ (.status _)) (.clearMisc (by decide))
  split
  · exact trans (.status _) (.accept ..)
  · exact .accept ..

theorem holdMessage (flags : SendFlags) (m : Message M) : Calm x (x.holdMessage flags m) := by
  rw [Proc.holdMessage]
  split
  · refine trans (y := { x with sendmsg := m }) ⟨rfl, rfl, rfl⟩ ?_
    exact .setMisc (by decide)
  · exact ⟨rfl, rfl, rfl⟩

end Calm

namespace Quiet

theorem refl (s : KState H M) : Quiet s s := ⟨fun _ => .refl _, fun _ => ⟨rfl, rfl, rfl, rfl⟩, rfl⟩

theorem trans (h : Quiet s t) (h' : Quiet t u) : Quiet s u where
  proc i := (h.proc i).trans (h'.proc i)
  priv id := ⟨(h'.priv id).procNr.trans (h.priv id).procNr,
    (h'.priv id).flags.trans (h.priv id).flags, (h'.priv id).ipcTo.trans (h.priv id).ipcTo,
    (h'.priv id).size.trans (h.priv id).size⟩
  tables := h'.tables.trans h.tables

theorem upd {g : Proc H M → Proc H M} (hg : ∀ x, Calm x (g x)) : Quiet s (s.upd p g) where
  proc i := by
    rw [proc_upd_apply]
    split
    · rename_i hi
      rw [hi]
      exact hg _
    · exact .refl _
  priv _ := ⟨rfl, rfl, rfl, rfl⟩
  tables := rfl

theorem updPriv {id : PrivId H} {g : Priv → Priv} (hg : ∀ x, SamePost x (g x)) :
    Quiet s (s.updPriv id g) where
  proc _ := .refl _
  priv j := by
    rw [KState.updPriv]
    change SamePost (s.priv j) (Function.update s.priv id (g (s.priv id)) j)
    by_cases hj : j = id
    · rw [hj, Function.update_self]
      exact hg _
    · rw [Function.update_of_ne hj]
      exact ⟨rfl, rfl, rfl, rfl⟩
  tables := rfl

theorem rescheduled (h : Rescheduled s t) : Quiet s t where
  proc i := by
    rcases h.proc i with hsame | ⟨-, hset⟩
    · rw [hsame]
      exact .refl _
    · rw [hset]
      exact ⟨rfl, rfl, rfl⟩
  priv id := by
    rw [h.priv_eq]
    exact ⟨rfl, rfl, rfl, rfl⟩
  tables := by rw [h.rest]

theorem setRts (f : Flags) : Quiet s (s.setRts p f) := upd fun _ => ⟨rfl, rfl, rfl⟩

theorem rtsSet {f : Flags} (h : rtsSet s p f = .ok t) : Quiet s t :=
  (setRts _).trans (rescheduled (Rescheduled.of_rtsSet h))

theorem rtsUnset {f : Flags} (h : rtsUnset s p f = .ok t) : Quiet s t :=
  (setRts _).trans (rescheduled (Rescheduled.rtsUnset h))

theorem setCallers (d : Slot H) (xpp : Cell (Slot H)) (v : Option (Slot H)) :
    Quiet s (s.setCallers d xpp v) := by
  cases xpp with
  | head =>
    rw [KState.setCallers]
    exact upd fun _ => ⟨rfl, rfl, rfl⟩
  | link i =>
    rw [KState.setCallers]
    exact upd fun _ => ⟨rfl, rfl, rfl⟩

theorem miniSend {m : Option (Message M)} {flags : SendFlags}
    (h : miniSend s p e m flags = .ok (r, t)) : Quiet s t := by
  cases miniSend_outcome h with
  | refused => exact refl s
  | delivered _ _ _ _ _ hunset => exact (upd fun _ => .receiveSent ..).trans (rtsUnset hunset)
  | blocked _ _ _ _ _ _ hset =>
    have hheld : Quiet s _ := (upd fun _ => .holdMessage ..).trans (rtsSet hset)
    refine (hheld.trans ?_).trans (setCallers ..)
    exact upd fun _ => ⟨rfl, rfl, rfl⟩

theorem acceptNotify_quiet (src dst : Slot H) : Quiet s (acceptNotify s src dst) := by
  have hcleared : Quiet s (clearNotifyArg s src dst) := by
    rw [clearNotifyArg]
    split_ifs
    · exact updPriv fun _ => ⟨rfl, rfl, rfl, rfl⟩
    · exact updPriv fun _ => ⟨rfl, rfl, rfl, rfl⟩
    · exact refl s
  exact hcleared.trans (upd fun _ => (Calm.accept ..).trans (.status _))

theorem miniNotify (h : miniNotify s p e = .ok (r, t)) : Quiet s t := by
  rw [Kernel.miniNotify] at h
  split at h
  · cases h
    exact refl s
  · split at h
    · obtain ⟨-, h⟩ := kassert_bind_ok.mp h
      obtain ⟨u, hu, h⟩ := bind_ok.mp h
      cases h
      exact (acceptNotify_quiet ..).trans (rtsUnset hu)
    · cases h
      exact updPriv fun _ => ⟨rfl, rfl, rfl, rfl⟩

theorem sendSig {sigNr : ℕ} (h : sendSig s e sigNr = .ok t) : Quiet s t := by
  rw [Kernel.sendSig] at h
  obtain ⟨rp, -, h⟩ := bind_ok.mp h
  obtain ⟨⟨r, u⟩, hu, h⟩ := bind_ok.mp h
  cases h
  refine trans ?_ (miniNotify hu)
  exact updPriv fun _ => ⟨rfl, rfl, rfl, rfl⟩

theorem caused (h : Caused p s t) : Quiet s t := by
  induction h with
  | known => exact refl _
  | passed hunset _ ih =>
    refine trans ?_ ((rtsUnset hunset).trans ih)
    exact updPriv fun _ => ⟨rfl, rfl, rfl, rfl⟩
  | own hsent =>
    refine trans ?_ (sendSig hsent)
    exact updPriv fun _ => ⟨rfl, rfl, rfl, rfl⟩
  | noted => exact upd fun _ => ⟨rfl, rfl, rfl⟩
  | raised hset hsent =>
    refine trans (trans ?_ (rtsSet hset)) (sendSig hsent)
    exact upd fun _ => ⟨rfl, rfl, rfl⟩

theorem sendDelayed (h : sendDelayed s p = .ok t) : Quiet s t := by
  rw [Kernel.sendDelayed] at h
  split at h
  · refine trans ?_ (caused (causeSig_caused h))
    exact upd fun _ => .clearMisc (by decide)
  · cases h
    exact refl s

theorem passKernelFlag (p q : Slot H) : Quiet s (passKernelFlag s p q) := by
  rw [Kernel.passKernelFlag]
  split
  · exact trans (upd fun _ => .status _) (upd fun _ => .clearMisc (by decide))
  · exact refl s

theorem unlinked (d q : Slot H) (xpp : Cell (Slot H)) (v : Option (Slot H)) :
    Quiet s ((s.setCallers d xpp v).upd q fun x => { x with qLink := none }) :=
  (setCallers d xpp v).trans (upd fun _ => ⟨rfl, rfl, rfl⟩)

theorem receiveQueued {source : Option (Slot H)}
    (h : receiveQueued s p source = .ok (some t)) : Quiet s t := by
  rw [Kernel.receiveQueued] at h
  split at h
  · cases h
  · split at h
    · cases h
    · obtain ⟨-, h⟩ := kassert_bind_ok.mp h
      obtain ⟨-, h⟩ := kassert_bind_ok.mp h
      obtain ⟨-, h⟩ := kassert_bind_ok.mp h
      obtain ⟨v, hv, h⟩ := bind_ok.mp h
      obtain ⟨w, hw, h⟩ := bind_ok.mp h
      obtain rfl := Option.some.inj (pure_ok.mp h)
      have hreleased : Quiet s v := by
        refine trans ?_ (rtsUnset hv)
        exact upd fun _ => .accept ..
      have hpassed : Quiet v w := by
        refine trans (trans ?_ (passKernelFlag ..)) (sendDelayed hw)
        exact upd fun _ => .status _
      exact (hreleased.trans hpassed).trans (unlinked ..)

theorem receiveNotify {source : Option (Slot H)}
    (h : receiveNotify s p source = .ok (some t)) : Quiet s t := by
  rw [Kernel.receiveNotify] at h
  split at h
  · cases h
  · obtain ⟨pending, -, h⟩ := bind_ok.mp h
    cases pending with
    | none => cases h
    | some x =>
      cases h
      refine trans ?_ (acceptNotify_quiet ..)
      exact updPriv fun _ => ⟨rfl, rfl, rfl, rfl⟩

end Quiet

def Registered (s : KState H M) (src : Slot H) : Prop :=
  (s.privOf src).sProcNr = procNr src ∧ (s.privOf src).sProcNr ≠ H.none ∧
    (s.proc src).priv ≠ H.userPrivId

def OwnPrivileges (s : KState H M) (src : Slot H) : Prop :=
  (s.proc src).priv = H.userPrivId ∨ Registered s src

def Undelivered (s : KState H M) (src : Slot H) (i : ℕ) (tabent : Asynmsg M) : Prop :=
  Registered s src ∧ i < (s.privOf src).sAsynsize ∧ (s.asyntab src)[i]? = some tabent ∧ tabent.Open

def SoundTable (table : List (Asynmsg M)) (size : ℕ) : Prop :=
  ∀ i < size, ∃ tabent, table[i]? = some tabent ∧
    (tabent.flags = 0 ∨ badAsynFlags tabent.flags = false)

def Expected (s : KState H M) (src : Slot H) (tabent : Asynmsg M) : Prop :=
  ∃ d, procAddr H (H.endpointP tabent.dst) = .ok d ∧ (s.proc d).endpoint = tabent.dst ∧
    (s.proc d).miscIsset MF_ASYNMSG = true ∧ maySendTo s src d = true

structure Findable (s : KState H M) : Prop where
  named : ∀ i, procAddr H (H.endpointP (s.proc i).endpoint) = .ok i
  owners : ∀ id, (s.priv id).sProcNr = H.none ∨
    ∃ p, (s.priv id).sProcNr = procNr p ∧ (s.proc p).priv = id
  owned : ∀ p, OwnPrivileges s p
  user : (s.priv H.userPrivId).has SYS_PROC = false
  tables : ∀ src, Registered s src → SoundTable (s.asyntab src) (s.privOf src).sAsynsize
  expected : ∀ src i tabent, Undelivered s src i tabent → Expected s src tabent

theorem Findable.sender (h : Findable s) (hsys : (s.privOf p).has SYS_PROC = true) :
    Registered s p := by
  refine (h.owned p).resolve_left fun huser => ?_
  rw [KState.privOf, huser, h.user] at hsys
  cases hsys

structure Static (s t : KState H M) : Prop where
  priv : ∀ i, (t.proc i).priv = (s.proc i).priv
  endpoint : ∀ i, (t.proc i).endpoint = (s.proc i).endpoint
  procNr : ∀ id, (t.priv id).sProcNr = (s.priv id).sProcNr
  flags : ∀ id, (t.priv id).sFlags = (s.priv id).sFlags
  ipcTo : ∀ id, (t.priv id).sIpcTo = (s.priv id).sIpcTo

namespace Static

theorem refl (s : KState H M) : Static s s :=
  ⟨fun _ => rfl, fun _ => rfl, fun _ => rfl, fun _ => rfl, fun _ => rfl⟩

theorem trans (h : Static s t) (h' : Static t u) : Static s u where
  priv i := (h'.priv i).trans (h.priv i)
  endpoint i := (h'.endpoint i).trans (h.endpoint i)
  procNr id := (h'.procNr id).trans (h.procNr id)
  flags id := (h'.flags id).trans (h.flags id)
  ipcTo id := (h'.ipcTo id).trans (h.ipcTo id)

theorem of_quiet (h : Quiet s t) : Static s t where
  priv i := (h.proc i).priv
  endpoint i := (h.proc i).endpoint
  procNr id := (h.priv id).procNr
  flags id := (h.priv id).flags
  ipcTo id := (h.priv id).ipcTo

theorem upd {g : Proc H M → Proc H M} (hpriv : ∀ x, (g x).priv = x.priv)
    (hend : ∀ x, (g x).endpoint = x.endpoint) : Static s (s.upd p g) := by
  refine ⟨fun i => ?_, fun i => ?_, fun _ => rfl, fun _ => rfl, fun _ => rfl⟩
  · rw [proc_upd_apply]
    split
    · rename_i hi
      rw [hi]
      exact hpriv _
    · rfl
  · rw [proc_upd_apply]
    split
    · rename_i hi
      rw [hi]
      exact hend _
    · rfl

theorem registered (h : Static s t) : Registered t src ↔ Registered s src := by
  rw [Registered, Registered, KState.privOf, KState.privOf, h.priv, h.procNr]

theorem maySendTo (h : Static s t) : maySendTo t src d = maySendTo s src d := by
  rw [Kernel.maySendTo, Kernel.maySendTo, KState.privOf, KState.privOf, h.priv, h.priv, h.ipcTo]

theorem ownPrivileges (h : Static s t) : OwnPrivileges t src ↔ OwnPrivileges s src := by
  rw [OwnPrivileges, OwnPrivileges, h.priv, h.registered]

end Static

section Tables
variable {tabent : Asynmsg M} {i j n : ℕ}

theorem Expected.kept (h : Expected s src tabent) (hstatic : Static s t)
    (hhint : ∀ d, (s.proc d).endpoint = tabent.dst → (s.proc d).miscIsset MF_ASYNMSG = true →
      (t.proc d).miscIsset MF_ASYNMSG = true) : Expected t src tabent := by
  obtain ⟨d, haddr, hend, hasyn, hmay⟩ := h
  exact ⟨d, haddr, (hstatic.endpoint d).trans hend, hhint d hend hasyn,
    hstatic.maySendTo.trans hmay⟩

theorem Findable.of_fewer (h : Findable s) (hstatic : Static s t)
    (htables : ∀ src, Registered s src →
      SoundTable (t.asyntab src) (t.privOf src).sAsynsize)
    (hexpected : ∀ src i tabent, Undelivered t src i tabent → Expected t src tabent) :
    Findable t where
  named i := by
    rw [hstatic.endpoint]
    exact h.named i
  owners id := by
    rw [hstatic.procNr]
    rcases h.owners id with hnone | ⟨p, hp, hid⟩
    · exact .inl hnone
    · exact .inr ⟨p, hp, (hstatic.priv p).trans hid⟩
  owned p := hstatic.ownPrivileges.mpr (h.owned p)
  user := by
    rw [Priv.has, hstatic.flags]
    exact h.user
  tables src hsrc := htables src (hstatic.registered.mp hsrc)
  expected := hexpected

theorem Quiet.undelivered (h : Quiet s t) :
    Undelivered t src i tabent ↔ Undelivered s src i tabent := by
  have hsize : (t.privOf src).sAsynsize = (s.privOf src).sAsynsize := by
    rw [KState.privOf, KState.privOf, (h.proc src).priv, (h.priv _).size]
  rw [Undelivered, Undelivered, (Static.of_quiet h).registered, hsize, h.tables]

theorem Findable.quiet (h : Findable s) (hquiet : Quiet s t) : Findable t := by
  have hstatic := Static.of_quiet hquiet
  refine h.of_fewer hstatic (fun src hsrc => ?_) fun src i tabent hwaits => ?_
  · rw [hquiet.tables, KState.privOf, (hquiet.proc src).priv, (hquiet.priv _).size]
    exact h.tables src hsrc
  · refine (h.expected src i tabent (hquiet.undelivered.mp hwaits)).kept hstatic fun d _ hasyn => ?_
    exact (hquiet.proc d).asyn.trans hasyn

theorem Registered.unique (h : Registered s p) (h' : Registered s q)
    (hpriv : (s.proc q).priv = (s.proc p).priv) : q = p := by
  have hnr := h'.1
  rw [KState.privOf, hpriv] at hnr
  exact Peers.procNr_inj (hnr.symm.trans h.1)

theorem static_asynsize : Static s (setAsynsize s src n) := by
  have hpriv (id : PrivId H) : (setAsynsize s src n).priv id =
      if id = (s.proc src).priv then { s.priv id with sAsynsize := n } else s.priv id := by
    rw [setAsynsize, KState.updPriv]
    change Function.update s.priv _ _ id = _
    rw [Function.update_apply]
    split
    · rename_i hid
      rw [hid]
    · rfl
  refine ⟨fun _ => rfl, fun _ => rfl, fun id => ?_, fun id => ?_, fun id => ?_⟩
  all_goals
    rw [hpriv]
    split
    · rfl
    · rfl

theorem asynsize_self : ((setAsynsize s src n).privOf src).sAsynsize = n := by
  rw [setAsynsize, KState.updPriv, KState.privOf]
  change (Function.update s.priv (s.proc src).priv _ (s.proc src).priv).sAsynsize = n
  rw [Function.update_self]

theorem asynsize_other (h : Registered s src) (hq : Registered s q) (hne : q ≠ src) :
    ((setAsynsize s src n).privOf q).sAsynsize = (s.privOf q).sAsynsize := by
  have hpriv : (s.proc q).priv ≠ (s.proc src).priv := fun hsame => hne (h.unique hq hsame)
  rw [setAsynsize, KState.updPriv, KState.privOf]
  change (Function.update s.priv (s.proc src).priv _ (s.proc q).priv).sAsynsize = _
  rw [Function.update_of_ne hpriv]
  rfl

theorem Findable.assign (h : Findable s) (hsrc : Registered s src)
    (hsound : SoundTable (s.asyntab src) n)
    (hexpected : ∀ i tabent, i < n → (s.asyntab src)[i]? = some tabent → tabent.Open →
      Expected s src tabent) : Findable (setAsynsize s src n) := by
  refine h.of_fewer static_asynsize (fun q hq => ?_) ?_
  · by_cases hne : q = src
    · rw [hne, asynsize_self]
      exact hsound
    · rw [asynsize_other hsrc hq hne]
      exact h.tables q hq
  · rintro q i tabent ⟨hq, hi, htab, hopen⟩
    have hreg := static_asynsize.registered.mp hq
    suffices Expected s q tabent from this.kept static_asynsize fun _ _ => id
    by_cases hne : q = src
    · subst hne
      rw [asynsize_self] at hi
      exact hexpected i tabent hi htab hopen
    · rw [asynsize_other hsrc hreg hne] at hi
      exact h.expected q i tabent ⟨hreg, hi, htab, hopen⟩

theorem Findable.drop (h : Findable s) (hsrc : Registered s src) :
    Findable (setAsynsize s src 0) :=
  h.assign hsrc (fun i hi => absurd hi (Nat.not_lt_zero i))
    fun i _ hi => absurd hi (Nat.not_lt_zero i)

def marked (tabent : Asynmsg M) : Asynmsg M :=
  { tabent with result := .OK, flags := tabent.flags ||| AMF_DONE }

def handedTo (s : KState H M) (src d : Slot H) (i : ℕ) (tabent : Asynmsg M) : KState H M :=
  { s.upd d fun x => x.accept ⟨0, .user tabent.msg⟩ (s.proc src).endpoint with
    asyntab := Function.update s.asyntab src ((s.asyntab src).set i (marked tabent)) }

theorem marked_flags : badAsynFlags (marked tabent).flags = badAsynFlags tabent.flags ∧
    ¬ (marked tabent).Open := by
  constructor
  · rw [badAsynFlags, badAsynFlags, marked, or_and_of_disjoint (by decide),
      or_and_of_disjoint (by decide)]
  · rintro ⟨-, hdone⟩
    have hset : isset (tabent.flags ||| AMF_DONE) AMF_DONE = true := isset_or_self
    rw [isset_iff] at hset
    exact absurd (hset.symm.trans hdone) (by decide)

theorem static_handed : Static s (handedTo s src d i tabent) := by
  have hquiet : Quiet s (s.upd d fun x => x.accept ⟨0, .user tabent.msg⟩ (s.proc src).endpoint) :=
    .upd fun _ => .accept ..
  exact ⟨fun j => (hquiet.proc j).priv, fun j => (hquiet.proc j).endpoint, fun _ => rfl,
    fun _ => rfl, fun _ => rfl⟩

theorem handed_hint (j : Slot H) : ((handedTo s src d i tabent).proc j).miscIsset MF_ASYNMSG =
    (s.proc j).miscIsset MF_ASYNMSG := by
  have hquiet : Quiet s (s.upd d fun x => x.accept ⟨0, .user tabent.msg⟩ (s.proc src).endpoint) :=
    .upd fun _ => .accept ..
  exact (hquiet.proc j).asyn

theorem handed_table (q : Slot H) : (handedTo s src d i tabent).asyntab q =
    if q = src then (s.asyntab src).set i (marked tabent) else s.asyntab q :=
  Function.update_apply ..

theorem handed_size (q : Slot H) : ((handedTo s src d i tabent).privOf q).sAsynsize =
    (s.privOf q).sAsynsize := by
  rw [KState.privOf, static_handed.priv]
  rfl

theorem handed_undelivered {tab : Asynmsg M}
    (h : Undelivered (handedTo s src d i tabent) q j tab) : Undelivered s q j tab := by
  obtain ⟨hreg, hj, htab, hopen⟩ := h
  rw [handed_size] at hj
  refine ⟨static_handed.registered.mp hreg, hj, ?_, hopen⟩
  rw [handed_table] at htab
  split at htab
  · rename_i hq
    subst hq
    by_cases hij : i = j
    · subst hij
      rw [List.getElem?_set] at htab
      split at htab
      · split at htab
        · cases htab
          exact absurd hopen marked_flags.2
        · cases htab
      · exact htab
    · rwa [List.getElem?_set_ne hij] at htab
  · exact htab

theorem Findable.handedTo (h : Findable s) (htab : (s.asyntab src)[i]? = some tabent)
    (hopen : tabent.Open) : Findable (handedTo s src d i tabent) := by
  refine h.of_fewer static_handed (fun q hq j hj => ?_) fun q j tab hwaits => ?_
  · rw [handed_size] at hj
    obtain ⟨tab, htab', hsound⟩ := h.tables q hq j hj
    rw [handed_table]
    split
    · rename_i hqsrc
      subst hqsrc
      by_cases hij : i = j
      · subst hij
        have hlt : i < (s.asyntab q).length := (List.getElem?_eq_some_iff.mp htab).1
        refine ⟨marked tabent, List.getElem?_set_self hlt, .inr ?_⟩
        rw [marked_flags.1]
        exact hopen.1
      · exact ⟨tab, (List.getElem?_set_ne hij).trans htab', hsound⟩
    · exact ⟨tab, htab', hsound⟩
  · exact (h.expected q j tab (handed_undelivered hwaits)).kept static_handed
      fun d' _ hasyn => (handed_hint d').trans hasyn

def Accepted (s : KState H M) (d : Slot H) (tabent : Asynmsg M) : Prop :=
  tabent.dst = (s.proc d).endpoint ∧
    (tabent.flags &&& AMF_NOREPLY ≠ 0 → (s.proc d).miscIsset MF_REPLY_PEND = false)

inductive Tried (s : KState H M) (src d : Slot H) (i size : ℕ) (done postponed : Bool) :
    TryOne H M → Prop
  | found {j tabent b} : i ≤ j → j < size → (s.asyntab src)[j]? = some tabent → tabent.Open →
      Accepted s d tabent → Tried s src d i size done postponed ⟨.OK, b, handedTo s src d j tabent⟩
  | nothing {b t} : (postponed = true → b = true) →
      (∀ j tabent, i ≤ j → j < size → (s.asyntab src)[j]? = some tabent → tabent.Open →
        tabent.dst = (s.proc d).endpoint → b = true ∧ ¬ Accepted s d tabent) →
      (t = s ∨ t = setAsynsize s src 0 ∧ done = true ∧
        ∀ j tabent, i ≤ j → j < size → (s.asyntab src)[j]? = some tabent → ¬ tabent.Open) →
      Tried s src d i size done postponed ⟨.EAGAIN, b, t⟩

theorem Tried.skip {done₁ postponed₁ : Bool} {x : TryOne H M}
    (hent : (s.asyntab src)[i]? = some tabent) (hdone : done₁ = true → done = true ∧ ¬ tabent.Open)
    (hpostponed : postponed = true → postponed₁ = true)
    (hwaits : tabent.Open → tabent.dst = (s.proc d).endpoint →
      postponed₁ = true ∧ ¬ Accepted s d tabent)
    (h : Tried s src d (i + 1) n done₁ postponed₁ x) : Tried s src d i n done postponed x := by
  cases h with
  | found hj hlt htab hopen hacc => exact .found (by omega) hlt htab hopen hacc
  | nothing hb hopen ht =>
    refine .nothing (fun hp => hb (hpostponed hp)) (fun j tab hj hlt htab hop hdst => ?_) ?_
    · rcases Nat.eq_or_lt_of_le hj with rfl | hlt'
      · obtain rfl := Option.some.inj (hent.symm.trans htab)
        obtain ⟨hp, hnot⟩ := hwaits hop hdst
        exact ⟨hb hp, hnot⟩
      · exact hopen j tab hlt' hlt htab hop hdst
    · rcases ht with hsame | ⟨hdrop, hd, hclosed⟩
      · exact .inl hsame
      · refine .inr ⟨hdrop, (hdone hd).1, fun j tab hj hlt htab => ?_⟩
        rcases Nat.eq_or_lt_of_le hj with rfl | hlt'
        · obtain rfl := Option.some.inj (hent.symm.trans htab)
          exact (hdone hd).2
        · exact hclosed j tab hlt' hlt htab

theorem tryOneLoop_tried (left : ℕ) (done postponed : Bool)
    (hsound : SoundTable (s.asyntab src) (i + left)) :
    Tried s src d i (i + left) done postponed (tryOneLoop s src d left i done postponed) := by
  induction left generalizing i done postponed with
  | zero =>
    rw [tryOneLoop]
    refine .nothing id (fun j _ hj hlt => absurd hlt (by omega)) ?_
    cases done with
    | true => exact .inr ⟨rfl, rfl, fun j _ hj hlt => absurd hlt (by omega)⟩
    | false => exact .inl rfl
  | succ left ih =>
    have hnext : SoundTable (s.asyntab src) (i + 1 + left) := by
      rwa [Nat.add_right_comm]
    have hsize : i + (left + 1) = i + 1 + left := by omega
    obtain ⟨tabent, hent, hflags⟩ := hsound i (by omega)
    rw [tryOneLoop, hent, hsize]
    dsimp only
    split
    · rename_i hempty
      have hclosed : ¬ tabent.Open := by
        rw [Asynmsg.Open, hempty]
        decide
      exact .skip hent (fun h => ⟨h, hclosed⟩) id (fun hopen => absurd hopen hclosed) (ih _ _ hnext)
    · rename_i hused
      have hgood := hflags.resolve_left hused
      split
      · rename_i hbad
        rw [hgood] at hbad
        cases hbad
      · split
        · rename_i hdone
          have hclosed : ¬ tabent.Open := fun hopen => hdone hopen.2
          exact .skip hent (fun h => ⟨h, hclosed⟩) id (fun hopen => absurd hopen hclosed)
            (ih _ _ hnext)
        · rename_i hdone
          have hopen : tabent.Open := ⟨hgood, not_not.mp hdone⟩
          split
          · rename_i hother
            refine .skip hent ?_ id (fun _ hdst => absurd hdst hother) (ih _ _ hnext)
            intro hfalse
            cases hfalse
          · rename_i hdst
            rw [not_not] at hdst
            split
            · rename_i hlater
              refine .skip hent ?_ (fun _ => rfl) (fun _ _ => ⟨rfl, fun hacc => ?_⟩) (ih _ _ hnext)
              · intro hfalse
                cases hfalse
              · have hpend := hacc.2 hlater.1
                rw [hlater.2] at hpend
                cases hpend
            · rename_i hnow
              refine .found le_rfl (by omega) hent hopen ⟨hdst, fun hnoreply => ?_⟩
              rw [← Bool.not_eq_true]
              exact fun hpend => hnow ⟨hnoreply, hpend⟩

theorem tryOne_tried (h : Findable s) (hsrc : Registered s src) :
    Tried s src d 0 (s.privOf src).sAsynsize true false (tryOne s src d) := by
  rw [tryOne, if_neg hsrc.2.2]
  split
  · rename_i hzero
    refine .nothing id (fun j tab _ hj => ?_) (.inl rfl)
    rw [hzero] at hj
    exact absurd hj (Nat.not_lt_zero j)
  · split
    · rename_i hdenied
      refine .nothing id (fun j tab _ hj htab hopen hdst => ?_) (.inl rfl)
      obtain ⟨d', haddr, hend, -, hmay⟩ := h.expected src j tab ⟨hsrc, hj, htab, hopen⟩
      have hd := h.named d
      rw [← hdst] at hd
      obtain rfl := Except.ok.inj (haddr.symm.trans hd)
      rw [hdenied] at hmay
      cases hmay
    · have hsound : SoundTable (s.asyntab src) (0 + (s.privOf src).sAsynsize) := by
        rw [Nat.zero_add]
        exact h.tables src hsrc
      have htried := tryOneLoop_tried (d := d) (s.privOf src).sAsynsize true false hsound
      rwa [Nat.zero_add] at htried

structure Lessened (s t : KState H M) : Prop where
  static : Static s t
  proc : t.proc = s.proc
  tables : t.asyntab = s.asyntab
  findable : Findable t
  waits : ∀ src i tabent, Undelivered t src i tabent ↔ Undelivered s src i tabent

theorem Lessened.refl (h : Findable s) : Lessened s s :=
  ⟨.refl s, rfl, rfl, h, fun _ _ _ => .rfl⟩

theorem Lessened.trans (h : Lessened s t) (h' : Lessened t u) : Lessened s u :=
  ⟨h.static.trans h'.static, h'.proc.trans h.proc, h'.tables.trans h.tables, h'.findable,
    fun src i tabent => (h'.waits src i tabent).trans (h.waits src i tabent)⟩

theorem Findable.lessened (h : Findable s) (hsrc : Registered s src)
    (hclosed : ∀ j tabent, j < (s.privOf src).sAsynsize → (s.asyntab src)[j]? = some tabent →
      ¬ tabent.Open) : Lessened s (setAsynsize s src 0) := by
  refine ⟨static_asynsize, rfl, rfl, h.drop hsrc, fun q j tab => ?_⟩
  rw [Undelivered, Undelivered, static_asynsize.registered]
  by_cases hq : q = src
  · subst hq
    rw [asynsize_self]
    constructor
    · rintro ⟨-, hj, -⟩
      exact absurd hj (Nat.not_lt_zero j)
    · rintro ⟨-, hj, htab, hopen⟩
      exact absurd hopen (hclosed j tab hj htab)
  · constructor
    · rintro ⟨hreg, hj, hrest⟩
      rw [asynsize_other hsrc hreg hq] at hj
      exact ⟨hreg, hj, hrest⟩
    · rintro ⟨hreg, hj, hrest⟩
      rw [asynsize_other hsrc hreg hq]
      exact ⟨hreg, hj, hrest⟩

theorem Accepted.of_proc (hproc : t.proc = s.proc) : Accepted t d tabent ↔ Accepted s d tabent := by
  rw [Accepted, Accepted, hproc]

inductive Searched (s : KState H M) (p : Slot H) (ids : List (PrivId H)) (postponed : Bool) :
    Bool → KState H M → Prop
  | found {t : KState H M} {src : Slot H} {j : ℕ} {tabent : Asynmsg M} : Lessened s t →
      Undelivered s src j tabent → Accepted s p tabent →
      Searched s p ids postponed true (handedTo t src p j tabent)
  | kept {t : KState H M} : Lessened s t → (∀ src j tabent, (s.proc src).priv ∈ ids →
      Undelivered s src j tabent → ¬ Accepted s p tabent) → Searched s p ids postponed false t
  | cleared {t : KState H M} : Lessened s t → postponed = false →
      (∀ src j tabent, (s.proc src).priv ∈ ids → Undelivered s src j tabent →
        tabent.dst ≠ (s.proc p).endpoint) →
      Searched s p ids postponed false (t.upd p (·.clearMisc MF_ASYNMSG))

theorem Searched.skip {id : PrivId H} {ids : List (PrivId H)} {postponed postponed₁ found : Bool}
    (hless : Lessened s t) (hpostponed : postponed = true → postponed₁ = true)
    (hnone : ∀ src j tabent, (s.proc src).priv = id → Undelivered s src j tabent →
      tabent.dst = (s.proc p).endpoint → postponed₁ = true ∧ ¬ Accepted s p tabent)
    (h : Searched t p ids postponed₁ found s') : Searched s p (id :: ids) postponed found s' := by
  cases h with
  | found hless' hwaits hacc =>
    exact .found (hless.trans hless') ((hless.waits ..).mp hwaits)
      ((Accepted.of_proc hless.proc).mp hacc)
  | kept hless' hrest =>
    refine .kept (hless.trans hless') fun src j tabent hid hwaits hacc => ?_
    rcases List.mem_cons.mp hid with hself | hlater
    · exact (hnone src j tabent hself hwaits hacc.1).2 hacc
    · refine hrest src j tabent ?_ ((hless.waits ..).mpr hwaits)
        ((Accepted.of_proc hless.proc).mpr hacc)
      rw [hless.proc]
      exact hlater
  | cleared hless' hp hrest =>
    have hfirst : postponed = false := by
      rw [← Bool.not_eq_true]
      intro htrue
      rw [hpostponed htrue] at hp
      cases hp
    refine .cleared (hless.trans hless') hfirst fun src j tabent hid hwaits hdst => ?_
    rcases List.mem_cons.mp hid with hself | hlater
    · rw [(hnone src j tabent hself hwaits hdst).1] at hp
      cases hp
    · refine hrest src j tabent ?_ ((hless.waits ..).mpr hwaits) ?_
      · rw [hless.proc]
        exact hlater
      · rw [hless.proc]
        exact hdst

theorem tryAsyncLoop_searched (ids : List (PrivId H)) (postponed : Bool) (h : Findable s)
    (hbox : (s.proc p).miscIsset MF_DELIVERMSG = false) :
    ∃ found s', tryAsyncLoop p ids postponed s = .ok (found, s') ∧
      Searched s p ids postponed found s' := by
  induction ids generalizing s postponed with
  | nil =>
    cases postponed with
    | true =>
      refine ⟨false, s, rfl, .kept (.refl h) fun src j tabent hid => ?_⟩
      exact absurd hid List.not_mem_nil
    | false =>
      refine ⟨false, s.upd p (·.clearMisc MF_ASYNMSG), rfl, .cleared (.refl h) rfl
        fun src j tabent hid => ?_⟩
      exact absurd hid List.not_mem_nil
  | cons i ids ih =>
    rw [tryAsyncLoop]
    by_cases hnone : (s.priv i).sProcNr = H.none
    · rw [if_pos hnone]
      obtain ⟨found, s', hs', hsearched⟩ := ih postponed h hbox
      refine ⟨found, s', hs', hsearched.skip (.refl h) id fun src j tabent hid hwaits => ?_⟩
      obtain ⟨-, hused, -⟩ := hwaits.1
      rw [KState.privOf, hid] at hused
      exact absurd hnone hused
    · rw [if_neg hnone]
      obtain ⟨src, hnr, hid⟩ := (h.owners i).resolve_left hnone
      have hassert : kassert (!(s.proc p).miscIsset MF_DELIVERMSG) = .ok () := by
        rw [hbox]
        rfl
      rw [hnr, procAddr_procNr]
      change ∃ found s', (kassert (!(s.proc p).miscIsset MF_DELIVERMSG) >>= _) = _ ∧ _
      rw [hassert]
      change ∃ found s', (if (tryOne s src p).result = .OK then _ else _) = _ ∧ _
      by_cases huser : (s.proc src).priv = H.userPrivId
      · have htried : tryOne s src p = ⟨.EAGAIN, false, s⟩ := by rw [tryOne, if_pos huser]
        rw [htried]
        obtain ⟨found, s', hs', hsearched⟩ := ih (postponed || false) h hbox
        refine ⟨found, s', hs', hsearched.skip (.refl h) (fun hp => by rw [hp]; rfl)
          fun q j tabent hq hwaits => ?_⟩
        exact absurd (hq.trans (hid.symm.trans huser)) hwaits.1.2.2
      · have hreg : Registered s src := by
          refine ⟨?_, ?_, huser⟩
          · rw [KState.privOf, hid, hnr]
          · rw [KState.privOf, hid]
            exact hnone
        have htried := tryOne_tried (d := p) h hreg
        generalize tryOne s src p = x at htried ⊢
        cases htried with
        | found _ hj htab hopen hacc =>
          exact ⟨true, _, rfl, .found (.refl h) ⟨hreg, hj, htab, hopen⟩ hacc⟩
        | @nothing b t _ hopen ht =>
          have hless : Lessened s t := by
            rcases ht with rfl | ⟨rfl, -, hclosed⟩
            · exact .refl h
            · exact h.lessened hreg fun j tabent hj => hclosed j tabent (Nat.zero_le j) hj
          obtain ⟨found, s', hs', hsearched⟩ := ih (postponed || b) hless.findable (by
            rw [hless.proc]
            exact hbox)
          refine ⟨found, s', hs', hsearched.skip hless (fun hp => by rw [hp]; rfl)
            fun q j tabent hq hwaits hdst => ?_⟩
          obtain rfl := hreg.unique hwaits.1 (hq.trans hid.symm)
          obtain ⟨hb, hnot⟩ := hopen j tabent (Nat.zero_le j) hwaits.2.1 hwaits.2.2.1
            hwaits.2.2.2 hdst
          exact ⟨by rw [hb, Bool.or_true], hnot⟩

end Tables

def DoneStays (s t : KState H M) (src : Slot H) : Prop :=
  ∀ (i : ℕ) (tabent : Asynmsg M), (s.asyntab src)[i]? = some tabent →
    tabent.flags &&& AMF_DONE ≠ 0 → (t.asyntab src)[i]? = some tabent

theorem DoneStays.of_tables (h : t.asyntab = s.asyntab) : DoneStays s t src := by
  intro i tabent htab _
  rw [h]
  exact htab

theorem DoneStays.trans (h : DoneStays s t src) (h' : DoneStays t u src) : DoneStays s u src :=
  fun i tabent htab hdone => h' i tabent (h i tabent htab hdone) hdone

section Receive
variable {tabent : Asynmsg M} {j : ℕ} {source : Option (Slot H)} {found : Bool}

theorem handed_done (htab : (s.asyntab src)[j]? = some tabent) (hopen : tabent.Open) :
    DoneStays s (handedTo s src d j tabent) q := by
  intro i tab hi hdone
  rw [handed_table]
  split
  · rename_i hq
    subst hq
    have hij : j ≠ i := by
      rintro rfl
      obtain rfl := Option.some.inj (htab.symm.trans hi)
      exact hdone hopen.2
    exact (List.getElem?_set_ne hij).trans hi
  · exact hi

structure Untouched (s t : KState H M) : Prop where
  static : Static s t
  tables : t.asyntab = s.asyntab
  mail : ∀ i, (t.proc i).delivermsg = (s.proc i).delivermsg ∧
    (t.proc i).miscIsset MF_DELIVERMSG = (s.proc i).miscIsset MF_DELIVERMSG

theorem Lessened.untouched (h : Lessened s t) : Untouched s t := by
  refine ⟨h.static, h.tables, fun i => ?_⟩
  rw [h.proc]
  exact ⟨rfl, rfl⟩

theorem untouched_cleared : Untouched s (s.upd p (·.clearMisc MF_ASYNMSG)) := by
  refine ⟨.upd (fun _ => rfl) fun _ => rfl, rfl, fun i => ?_⟩
  rw [proc_upd_apply]
  split
  · rename_i hi
    rw [hi]
    exact ⟨rfl, isset_clear (by decide)⟩
  · exact ⟨rfl, rfl⟩

theorem Untouched.trans (h : Untouched s t) (h' : Untouched t u) : Untouched s u :=
  ⟨h.static.trans h'.static, h'.tables.trans h.tables,
    fun i => ⟨(h'.mail i).1.trans (h.mail i).1, (h'.mail i).2.trans (h.mail i).2⟩⟩

theorem Findable.unhint (h : Findable s) (hnone : ∀ src j tabent, Undelivered s src j tabent →
    tabent.dst ≠ (s.proc p).endpoint) : Findable (s.upd p (·.clearMisc MF_ASYNMSG)) := by
  have hstatic : Static s (s.upd p (·.clearMisc MF_ASYNMSG)) := untouched_cleared.static
  have hsize (q : Slot H) : ((s.upd p (·.clearMisc MF_ASYNMSG)).privOf q).sAsynsize =
      (s.privOf q).sAsynsize := by
    rw [KState.privOf, hstatic.priv]
    rfl
  refine h.of_fewer hstatic (fun q hq => ?_) ?_
  · rw [hsize]
    exact h.tables q hq
  · rintro q i tab ⟨hq, hi, htab, hopen⟩
    rw [hsize] at hi
    have hwaits : Undelivered s q i tab := ⟨hstatic.registered.mp hq, hi, htab, hopen⟩
    refine (h.expected q i tab hwaits).kept hstatic fun d hend hasyn => ?_
    have hd : d ≠ p := by
      rintro rfl
      exact hnone q i tab hwaits hend.symm
    rw [upd_proc_of_ne hd]
    exact hasyn

inductive LookedFor (s : KState H M) (p : Slot H) (source : Option (Slot H)) :
    Bool → KState H M → Prop
  | found {t : KState H M} {src : Slot H} {j : ℕ} {tabent : Asynmsg M} : Lessened s t →
      Undelivered s src j tabent → Accepted s p tabent → acceptable source src = true →
      LookedFor s p source true
        ((handedTo t src p j tabent).upd p fun x => x.ipcStatusAdd (.call .SENDA))
  | nothing {t : KState H M} : Findable t → Untouched s t →
      (∀ src j tabent, acceptable source src = true → Undelivered s src j tabent →
        ¬ Accepted s p tabent) → LookedFor s p source false t

theorem Searched.looked {ids : List (PrivId H)} (hall : ∀ id, id ∈ ids)
    {postponed : Bool} (hs : Searched s p ids postponed found s') : LookedFor s p none found
      (if found = true then s'.upd p fun x => x.ipcStatusAdd (.call .SENDA) else s') := by
  cases hs with
  | found hless hwaits hacc => exact .found hless hwaits hacc rfl
  | kept hless hnone =>
    exact .nothing hless.findable hless.untouched fun src j tabent _ => hnone src j tabent (hall _)
  | @cleared t hless _ hnone =>
    refine .nothing (hless.findable.unhint fun src j tabent hwaits => ?_)
      (hless.untouched.trans untouched_cleared)
      fun src j tabent _ hwaits hacc => hnone src j tabent (hall _) hwaits hacc.1
    rw [hless.proc]
    exact hnone src j tabent (hall _) ((hless.waits ..).mp hwaits)

theorem receiveAsync_looked (source : Option (Slot H)) (h : Findable s)
    (hbox : (s.proc p).miscIsset MF_DELIVERMSG = false) :
    ∃ found t, receiveAsync s p source = .ok (found, t) ∧ LookedFor s p source found t := by
  rw [receiveAsync]
  by_cases hhint : (s.proc p).miscIsset MF_ASYNMSG = true
  · rw [if_pos hhint]
    cases source with
    | none =>
      obtain ⟨found, t, ht, hsearched⟩ :=
        tryAsyncLoop_searched (List.finRange H.nrSysProcs) false h hbox
      refine ⟨found, _, ?_, hsearched.looked fun id => List.mem_finRange id⟩
      change (tryAsync s p >>= _) = _
      rw [tryAsync, ht]
      rfl
    | some src =>
      rcases h.owned src with huser | hreg
      · have htried : tryOne s src p = ⟨.EAGAIN, false, s⟩ := by rw [tryOne, if_pos huser]
        refine ⟨false, s, ?_, .nothing h (Lessened.refl h).untouched
          fun q j tabent hq hwaits => ?_⟩
        · dsimp only
          rw [htried]
          rfl
        · obtain rfl : src = q := by simpa [acceptable] using hq
          exact absurd huser hwaits.1.2.2
      · have htried := tryOne_tried (d := p) h hreg
        dsimp only
        generalize tryOne s src p = x at htried ⊢
        cases htried with
        | found _ hj htab hopen hacc =>
          exact ⟨true, _, rfl, .found (.refl h) ⟨hreg, hj, htab, hopen⟩ hacc (by simp [acceptable])⟩
        | @nothing b t _ hopen ht =>
          have hless : Lessened s t := by
            rcases ht with rfl | ⟨rfl, -, hclosed⟩
            · exact .refl h
            · exact h.lessened hreg fun j tabent hj => hclosed j tabent (Nat.zero_le j) hj
          refine ⟨false, t, rfl, .nothing hless.findable hless.untouched
            fun q j tabent hq hwaits hacc => ?_⟩
          obtain rfl : src = q := by simpa [acceptable] using hq
          exact (hopen j tabent (Nat.zero_le j) hwaits.2.1 hwaits.2.2.1 hwaits.2.2.2 hacc.1).2 hacc
  · rw [if_neg hhint]
    refine ⟨false, s, rfl, .nothing h (Lessened.refl h).untouched
      fun src j tabent _ hwaits hacc => ?_⟩
    obtain ⟨d, haddr, hend, hasyn, -⟩ := h.expected src j tabent hwaits
    have hp := h.named p
    rw [← hacc.1] at hp
    obtain rfl := Except.ok.inj (haddr.symm.trans hp)
    exact hhint hasyn

theorem LookedFor.findable (hs : LookedFor s p source found t) : Findable t := by
  cases hs with
  | @found t src j tabent hless hwaits _ _ =>
    have htab : (t.asyntab src)[j]? = some tabent := by
      rw [hless.tables]
      exact hwaits.2.2.1
    exact (hless.findable.handedTo htab hwaits.2.2.2).quiet (.upd fun _ => .status _)
  | nothing h _ _ => exact h

theorem LookedFor.doneStays (hs : LookedFor s p source found t) : DoneStays s t q := by
  cases hs with
  | @found t src j tabent hless hwaits _ _ =>
    have htab : (t.asyntab src)[j]? = some tabent := by
      rw [hless.tables]
      exact hwaits.2.2.1
    have hdone : DoneStays t ((handedTo t src p j tabent).upd p fun x =>
        x.ipcStatusAdd (.call .SENDA)) q := handed_done (d := p) htab hwaits.2.2.2
    exact DoneStays.trans (.of_tables hless.tables) hdone
  | nothing _ h _ => exact .of_tables h.tables

def KeepsFindable (s t : KState H M) : Prop := Findable t ∧ ∀ q, DoneStays s t q

theorem KeepsFindable.of_quiet (h : Findable s) (hquiet : Quiet s t) : KeepsFindable s t :=
  ⟨h.quiet hquiet, fun _ => .of_tables hquiet.tables⟩

theorem KeepsFindable.trans (h : KeepsFindable s t) (h' : KeepsFindable t u) : KeepsFindable s u :=
  ⟨h'.1, fun q => (h.2 q).trans (h'.2 q)⟩

theorem KeepsFindable.quiet (h : KeepsFindable s t) (hquiet : Quiet t u) : KeepsFindable s u :=
  h.trans (.of_quiet h.1 hquiet)

theorem receiveAvailable_follows (h : Findable s)
    (hbox : (s.proc p).miscIsset MF_DELIVERMSG = false)
    (hs : receiveAvailable s p source = .ok (found, s')) : KeepsFindable s s' := by
  rw [receiveAvailable] at hs
  split at hs
  · cases hs
    exact .of_quiet h (.refl s)
  · obtain ⟨noted, hnoted, hs⟩ := bind_ok.mp hs
    cases noted with
    | some t =>
      cases hs
      exact .of_quiet h (.receiveNotify hnoted)
    | none =>
      dsimp only at hs
      obtain ⟨⟨found', t⟩, hasync, hs⟩ := bind_ok.mp hs
      obtain ⟨found'', t', ht', hlooked⟩ := receiveAsync_looked source h hbox
      obtain ⟨rfl, rfl⟩ := Prod.mk.inj (Except.ok.inj (hasync.symm.trans ht'))
      have hfollows : KeepsFindable s t := ⟨hlooked.findable, fun _ => hlooked.doneStays⟩
      dsimp only at hs
      split at hs
      · cases hs
        exact hfollows
      · obtain ⟨queued, hqueued, hs⟩ := bind_ok.mp hs
        cases queued with
        | some u =>
          cases hs
          exact hfollows.quiet (.receiveQueued hqueued)
        | none =>
          cases hs
          exact hfollows

theorem miniReceive_follows {mBuffUsr : ℕ} {nonBlocking : Bool} (h : Findable s)
    (hs : miniReceive s p e mBuffUsr nonBlocking = .ok (r, s')) : KeepsFindable s s' := by
  rw [miniReceive] at hs
  obtain ⟨hbox, hs⟩ := kassert_bind_ok.mp hs
  obtain ⟨source, -, hs⟩ := bind_ok.mp hs
  have hbuffer : Quiet s (s.upd p fun x => { x with delivermsgVir := mBuffUsr }) :=
    .upd fun _ => ⟨rfl, rfl, rfl⟩
  have hstart := KeepsFindable.of_quiet h hbuffer
  split at hs
  · cases hs
    exact hstart
  · obtain ⟨⟨found, t⟩, ht, hs⟩ := bind_ok.mp hs
    have hempty : ((s.upd p fun x => { x with delivermsgVir := mBuffUsr }).proc p).miscIsset
        MF_DELIVERMSG = false := by
      have hclear : (s.proc p).miscIsset MF_DELIVERMSG = false := by simpa using hbox
      rw [upd_proc_self]
      exact hclear
    have hlooked := hstart.trans (receiveAvailable_follows hstart.1 hempty ht)
    dsimp only at hs
    split at hs
    · cases hs
      exact hlooked.quiet (.upd fun _ => .clearMisc (by decide))
    · split at hs
      · cases hs
        exact hlooked
      · obtain ⟨group, -, hs⟩ := bind_ok.mp hs
        split at hs
        · cases hs
          exact hlooked
        · obtain ⟨u, hu, hs⟩ := bind_ok.mp hs
          cases hs
          refine hlooked.quiet (.trans ?_ (.rtsSet hu))
          exact .upd fun _ => ⟨rfl, rfl, rfl⟩

theorem doSyncIpc_follows {c : IpcCall M} (h : Findable s)
    (hs : doSyncIpc s p c = .ok (r, s')) : KeepsFindable s s' := by
  rw [doSyncIpc] at hs
  obtain ⟨-, hs⟩ := kassert_bind_ok.mp hs
  split at hs
  · cases hs
    exact .of_quiet h (.refl s)
  · split at hs
    · obtain ⟨⟨result, t⟩, ht, hs⟩ := bind_ok.mp hs
      have hsent : Quiet s t := by
        refine .trans ?_ (.miniSend ht)
        exact .upd fun _ => .setMisc (by decide)
      dsimp only at hs
      split at hs
      · cases hs
        exact .of_quiet h hsent
      · exact (KeepsFindable.of_quiet h hsent).trans (miniReceive_follows (h.quiet hsent) hs)
    · exact .of_quiet h (.miniSend hs)
    · generalize hv :
        (s.upd p fun x => { x.clearMisc MF_REPLY_PEND with ipcStatus := [] }) = v at hs
      have hfresh : Quiet s v := by
        rw [← hv]
        exact .upd fun x => ⟨rfl, rfl, isset_clear (by decide)⟩
      exact (KeepsFindable.of_quiet h hfresh).trans (miniReceive_follows (h.quiet hfresh) hs)
    · exact .of_quiet h (.miniNotify hs)
    · exact .of_quiet h (.miniSend hs)
    · cases hs
      exact .of_quiet h (.refl s)

end Receive

end Kernel
