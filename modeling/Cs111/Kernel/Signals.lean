import Cs111.Kernel.Ipc
import Cs111.Lib.Runs

namespace Kernel
open Minix FlagWord TransitionSystem
variable {H : Headers} {M : Type}

def findSignaled (s : KState H M) (caller : Slot H) : Option (Slot H) :=
  (List.finRange (H.nrTasks + H.nrProcs)).find? fun rp =>
    decide (H.nrTasks ≤ rp.val) && (s.proc rp).rtsIsset RTS_SIGNALED &&
      (s.proc caller).endpoint == (s.privOf rp).sSigMgr

def doGetksig (s : KState H M) (caller : Slot H) :
    Except Fault (Option (ℤ × Sigset) × KState H M) :=
  match findSignaled s caller with
  | none => pure (none, s)
  | some rp => do
    let r := ((s.proc rp).endpoint, (s.proc rp).pending)
    let s ← rtsUnset (s.upd rp fun x => { x with pending := 0 }) rp RTS_SIGNALED
    pure (some r, s)

def doEndksig (s : KState H M) (caller : Slot H) (sigEndpt : ℤ) :
    Except Fault (Errno × KState H M) :=
  match isokendpt s sigEndpt with
  | none => pure (.EINVAL, s)
  | some rp =>
    if (s.proc caller).endpoint ≠ (s.privOf rp).sSigMgr then pure (.EPERM, s)
    else if (s.proc rp).rtsIsset RTS_SIG_PENDING = false then pure (.EINVAL, s)
    else if (s.proc rp).rtsIsset RTS_SIGNALED then pure (.OK, s)
    else do
      let s ← rtsUnset s rp RTS_SIG_PENDING
      pure (.OK, s)

inductive SigEvent (H : Headers) where
  | causeSig (rp : Slot H) (sigNr : ℕ)
  | doGetksig (caller : Slot H) (r : Option (ℤ × Sigset))
  | doEndksig (caller : Slot H) (sigEndpt : ℤ) (r : Errno)

def SigEvent.Happens (s : KState H M) : SigEvent H → KState H M → Prop
  | .causeSig rp sigNr, s' => Kernel.causeSig 3 s rp sigNr = .ok s'
  | .doGetksig caller r, s' => Kernel.doGetksig s caller = .ok (r, s')
  | .doEndksig caller sigEndpt r, s' => Kernel.doEndksig s caller sigEndpt = .ok (r, s')

def quietSignals (s : KState H M) : Prop :=
  ∀ rp, (s.proc rp).pending = 0 ∧ (s.proc rp).rtsIsset RTS_SIGNALED = false ∧
    (s.proc rp).rtsIsset RTS_SIG_PENDING = false

instance (s : KState H M) : Decidable (quietSignals s) :=
  inferInstanceAs (Decidable (∀ _, _ ∧ _ ∧ _))

def sigSystem (H : Headers) (M : Type) : TransitionSystem (KState H M) (SigEvent H) where
  initial := quietSignals
  step s e s' := e.Happens s s'

abbrev SigPast (H : Headers) (M : Type) := List (KState H M × SigEvent H)

def handedSince (rp : Slot H) (sigNr : ℕ) : SigPast H M → Option ℕ
  | [] => none
  | (_, .causeSig p n) :: past => if p = rp ∧ n = sigNr then some 0 else handedSince rp sigNr past
  | (s, .doGetksig caller r) :: past =>
    if findSignaled s caller = some rp ∧ (s.proc caller).endpoint = (s.privOf rp).sSigMgr ∧
        (∃ x ∈ r, x.1 = (s.proc rp).endpoint ∧ sigismember x.2 sigNr = true) then
      (handedSince rp sigNr past).map (· + 1)
    else handedSince rp sigNr past
  | (_, .doEndksig _ _ _) :: past => handedSince rp sigNr past

def unended (rp : Slot H) : SigPast H M → ℕ
  | [] => 0
  | (_, .causeSig _ _) :: past => unended rp past
  | (s, .doGetksig caller _) :: past =>
    if findSignaled s caller = some rp then unended rp past + 1 else unended rp past
  | (s, .doEndksig _ sigEndpt r) :: past =>
    if isokendpt s sigEndpt = some rp ∧ r = .OK then unended rp past - 1 else unended rp past

def forOther (s : KState H M) (rp : Slot H) : Prop :=
  (s.privOf rp).sSigMgr ≠ H.self ∧ (s.privOf rp).sSigMgr ≠ (s.proc rp).endpoint

instance (s : KState H M) (rp : Slot H) : Decidable (forOther s rp) :=
  inferInstanceAs (Decidable (_ ∧ _))

def signalsForOther : SigPast H M → KState H M → SigEvent H → Prop
  | _, s, .causeSig rp sigNr => forOther s rp ∧ sigNr < 32
  | _, _, _ => True

def endsInTurn : SigPast H M → KState H M → SigEvent H → Prop
  | past, s, .doEndksig _ sigEndpt r => ∀ rp, isokendpt s sigEndpt = some rp → r = .OK →
      (s.proc rp).rtsIsset RTS_SIGNALED = false → unended rp past ≤ 1
  | past, s, e => signalsForOther past s e

structure Signals where
  pending : Sigset
  signaled : Bool
  sigPending : Bool

def Proc.signals (x : Proc H M) : Signals :=
  ⟨x.pending, x.rtsIsset RTS_SIGNALED, x.rtsIsset RTS_SIG_PENDING⟩

def KState.signals (s : KState H M) (rp : Slot H) : Signals := (s.proc rp).signals

section Frames
variable {s s' : KState H M} {rp src : Slot H} {f : Flags}

theorem signals_upd {g : Proc H M → Proc H M} : (s.upd rp g).signals =
    Function.update s.signals rp (g (s.proc rp)).signals := by
  funext j
  by_cases hj : j = rp
  · subst hj
    simp [KState.signals]
  · simp [KState.signals, upd_proc_of_ne hj, hj]

theorem signals_same {g : Proc H M → Proc H M}
    (hg : (g (s.proc rp)).signals = (s.proc rp).signals) : (s.upd rp g).signals = s.signals := by
  rw [signals_upd, hg]
  exact Function.update_eq_self ..

theorem Rescheduled.signals (h : Rescheduled s s') : s'.signals = s.signals := by
  funext i
  rcases h.proc i with hsame | ⟨-, hmarked⟩
  · exact congrArg Proc.signals hsame
  · refine (congrArg Proc.signals hmarked).trans ?_
    have hsignaled := isset_or (x := (s.proc i).rtsFlags) (f := RTS_PREEMPTED) (g := RTS_SIGNALED)
      (by decide)
    have hpending := isset_or (x := (s.proc i).rtsFlags) (f := RTS_PREEMPTED)
      (g := RTS_SIG_PENDING) (by decide)
    exact congrArg₂ (Signals.mk _) hsignaled hpending

theorem rtsUnset_signals (h : rtsUnset s rp f = .ok s') : s'.signals =
    Function.update s.signals rp
      ((s.proc rp).setRts ((s.proc rp).rtsFlags &&& ~~~f)).signals := by
  rw [(Rescheduled.rtsUnset h).signals]
  exact signals_upd

theorem rtsSet_signals (h : rtsSet s rp f = .ok s') : s'.signals =
    Function.update s.signals rp
      ((s.proc rp).setRts ((s.proc rp).rtsFlags ||| f)).signals := by
  rw [(Rescheduled.of_rtsSet h).signals]
  exact signals_upd

theorem acceptNotify_signals (src dst : Slot H) :
    (acceptNotify s src dst).signals = s.signals := by
  have hproc : (clearNotifyArg s src dst).proc = s.proc := by
    rw [clearNotifyArg]
    split_ifs <;> rfl
  rw [acceptNotify, signals_same]
  · funext i
    exact congrArg Proc.signals (congrFun hproc i)
  · rw [Proc.ipcStatusAdd]
    split <;> rfl

theorem miniNotify_signals {e : ℤ} {r : Errno} (h : miniNotify s src e = .ok (r, s')) :
    s'.signals = s.signals := by
  rw [miniNotify] at h
  split at h
  · obtain ⟨-, rfl⟩ := Prod.mk.inj (pure_ok.mp h)
    rfl
  · rename_i dst hdst
    split at h
    · obtain ⟨-, h⟩ := kassert_bind_ok.mp h
      obtain ⟨t, ht, h⟩ := bind_ok.mp h
      obtain ⟨-, rfl⟩ := Prod.mk.inj (pure_ok.mp h)
      have hclear : ((acceptNotify s src dst).proc dst |>.setRts
          (((acceptNotify s src dst).proc dst).rtsFlags &&& ~~~RTS_RECEIVING)).signals =
          (acceptNotify s src dst).signals dst :=
        congrArg₂ (Signals.mk _) (isset_clear (by decide)) (isset_clear (by decide))
      rw [rtsUnset_signals ht, hclear, Function.update_eq_self, acceptNotify_signals]
    · obtain ⟨-, rfl⟩ := Prod.mk.inj (pure_ok.mp h)
      rfl

theorem sendSig_signals {ep : ℤ} {sigNr : ℕ} (h : sendSig s ep sigNr = .ok s') :
    s'.signals = s.signals := by
  simp only [sendSig, bind_ok] at h
  obtain ⟨p, -, ⟨r, t⟩, hnotify, h⟩ := h
  obtain rfl : t = s' := pure_ok.mp h
  have hframe := miniNotify_signals hnotify
  exact hframe

end Frames

section Calls
variable {s s' : KState H M} {rp caller : Slot H} {sigNr : ℕ}

theorem causeSig_member {depth : ℕ} (hother : forOther s rp)
    (hmem : sigismember (s.proc rp).pending sigNr = true)
    (h : causeSig (depth + 1) s rp sigNr = .ok s') : s' = s := by
  have hself : (s.priv (s.proc rp).priv).sSigMgr ≠ H.self := hother.1
  have hown : (s.proc rp).endpoint ≠ (s.priv (s.proc rp).priv).sSigMgr := fun he => hother.2 he.symm
  rw [causeSig] at h
  simp only [hself, if_false, hown, hmem, if_true] at h
  exact (pure_ok.mp h).symm

theorem causeSig_signals {depth : ℕ} (hother : forOther s rp)
    (hmem : sigismember (s.proc rp).pending sigNr = false)
    (h : causeSig (depth + 1) s rp sigNr = .ok s') : s'.signals = Function.update s.signals rp
      ⟨sigaddset (s.signals rp).pending sigNr, true,
        (s.signals rp).sigPending || !(s.signals rp).signaled⟩ := by
  have hself : (s.priv (s.proc rp).priv).sSigMgr ≠ H.self := hother.1
  have hown : (s.proc rp).endpoint ≠ (s.priv (s.proc rp).priv).sSigMgr := fun he => hother.2 he.symm
  rw [causeSig] at h
  simp only [hself, if_false, hown, hmem, upd_proc_self] at h
  cases hsignaled : (s.proc rp).rtsIsset RTS_SIGNALED with
  | true =>
    rw [show ({ s.proc rp with pending := sigaddset (s.proc rp).pending sigNr } :
      Proc H M).rtsIsset RTS_SIGNALED = true from hsignaled] at h
    obtain rfl := pure_ok.mp h
    have hview : (s.proc rp).signals.signaled = true := hsignaled
    rw [signals_upd, KState.signals, hview, Bool.not_true, Bool.or_false, ← hview]
    rfl
  | false =>
    rw [show ({ s.proc rp with pending := sigaddset (s.proc rp).pending sigNr } :
      Proc H M).rtsIsset RTS_SIGNALED = false from hsignaled] at h
    obtain ⟨t, ht, h⟩ := bind_ok.mp h
    rw [sendSig_signals h, rtsSet_signals ht, signals_upd, Function.update_idem]
    have hset : isset ((s.proc rp).rtsFlags ||| (RTS_SIGNALED ||| RTS_SIG_PENDING)) RTS_SIGNALED =
        true := by
      rw [BitVec.or_comm RTS_SIGNALED, ← BitVec.or_assoc]
      exact isset_or_self
    have hpend : isset ((s.proc rp).rtsFlags ||| (RTS_SIGNALED ||| RTS_SIG_PENDING))
        RTS_SIG_PENDING = true := by
      rw [← BitVec.or_assoc]
      exact isset_or_self
    have hview : (s.proc rp).signals.signaled = false := hsignaled
    rw [upd_proc_self, KState.signals, hview, Bool.not_false, Bool.or_true]
    exact congrArg _ (congrArg₂ (Signals.mk _) hset hpend)

theorem get_ksig_none {r : Option (ℤ × Sigset)} (hscan : findSignaled s caller = none)
    (h : doGetksig s caller = .ok (r, s')) : s' = s := by
  rw [doGetksig, hscan] at h
  exact (Prod.mk.inj (pure_ok.mp h)).2.symm

theorem get_ksig_signals {r : Option (ℤ × Sigset)} (hscan : findSignaled s caller = some rp)
    (h : doGetksig s caller = .ok (r, s')) :
    r = some ((s.proc rp).endpoint, (s.proc rp).pending) ∧ s'.signals =
      Function.update s.signals rp ⟨0, false, (s.signals rp).sigPending⟩ := by
  rw [doGetksig, hscan] at h
  obtain ⟨t, ht, h⟩ := bind_ok.mp h
  obtain ⟨rfl, rfl⟩ := Prod.mk.inj (pure_ok.mp h)
  refine ⟨rfl, ?_⟩
  rw [rtsUnset_signals ht, signals_upd, Function.update_idem, upd_proc_self]
  exact congrArg _ (congrArg₂ (Signals.mk 0) (isset_clear_self (by decide) (by decide))
    (isset_clear (by decide)))

theorem findSignaled_some (hscan : findSignaled s caller = some rp) :
    (s.proc rp).rtsIsset RTS_SIGNALED = true ∧
      (s.proc caller).endpoint = (s.privOf rp).sSigMgr := by
  have hfound := List.find?_some hscan
  simp only [Bool.and_eq_true, beq_iff_eq] at hfound
  exact ⟨hfound.1.2, hfound.2⟩

theorem end_ksig_signals {e : ℤ} {r : Errno} (h : doEndksig s caller e = .ok (r, s')) :
    s'.signals = s.signals ∨ r = .OK ∧ ∃ rp, isokendpt s e = some rp ∧
      (s.signals rp).signaled = false ∧ s'.signals =
        Function.update s.signals rp ⟨(s.signals rp).pending, false, false⟩ := by
  rw [doEndksig] at h
  split at h
  · exact .inl (by rw [(Prod.mk.inj (pure_ok.mp h)).2])
  · rename_i rp hrp
    split_ifs at h with hmgr hpend hsignaled
    · exact .inl (by rw [(Prod.mk.inj (pure_ok.mp h)).2])
    · exact .inl (by rw [(Prod.mk.inj (pure_ok.mp h)).2])
    · exact .inl (by rw [(Prod.mk.inj (pure_ok.mp h)).2])
    · obtain ⟨t, ht, h⟩ := bind_ok.mp h
      obtain ⟨rfl, rfl⟩ := Prod.mk.inj (pure_ok.mp h)
      have hfalse : (s.proc rp).rtsIsset RTS_SIGNALED = false := by simpa using hsignaled
      refine .inr ⟨rfl, rp, hrp, hfalse, ?_⟩
      rw [rtsUnset_signals ht]
      exact congrArg _ (congrArg₂ (Signals.mk _) ((isset_clear (by decide)).trans hfalse)
        (isset_clear_self (by decide) (by decide)))

end Calls

structure Accounted (past : SigPast H M) (rp : Slot H) (x : Signals) : Prop where
  signaled : x.signaled = true → x.sigPending = true
  pending : x.pending ≠ 0 → x.signaled = true
  once : ∀ sigNr k, handedSince rp sigNr past = some k →
    sigismember x.pending sigNr = true ∧ k = 0 ∨ sigismember x.pending sigNr = false ∧ k = 1
  raised : ∀ sigNr, handedSince rp sigNr past = none → sigismember x.pending sigNr = false
  ended : x.sigPending = false → unended rp past = 0

section Steps
variable {past : SigPast H M} {s s' : KState H M} {rp caller : Slot H} {sigNr : ℕ}

theorem member_add {x : Sigset} {n : ℕ} (hn : n < 32) (k : ℕ) :
    sigismember (sigaddset x n) k = (sigismember x k || decide (n = k)) := by
  simp [sigismember, sigaddset, BitVec.getLsbD_twoPow, hn]

theorem Accounted.keep {e : KState H M × SigEvent H} {x : Signals} (hacc : Accounted past rp x)
    (hhanded : ∀ n, handedSince rp n (e :: past) = handedSince rp n past)
    (hunended : x.sigPending = false → unended rp (e :: past) = 0) :
    Accounted (e :: past) rp x where
  signaled := hacc.signaled
  pending := hacc.pending
  once n k hk := hacc.once n k (by rwa [← hhanded])
  raised n hn := hacc.raised n (by rwa [← hhanded])
  ended := hunended

theorem causeSig_accounted (hother : forOther s rp) (hsig : sigNr < 32)
    (hacc : ∀ p, Accounted past p (s.signals p)) (h : causeSig 3 s rp sigNr = .ok s') (p : Slot H) :
    Accounted ((s, .causeSig rp sigNr) :: past) p (s'.signals p) := by
  have hnone : ∀ n, ¬ (rp = p ∧ sigNr = n) →
      handedSince p n ((s, .causeSig rp sigNr) :: past) = handedSince p n past := fun n hn =>
    if_neg hn
  by_cases hp : p = rp
  · subst hp
    obtain ⟨hsignaled, hpending, honce, hraised, hunended⟩ := hacc p
    have hraise : handedSince p sigNr ((s, .causeSig p sigNr) :: past) = some 0 := if_pos ⟨rfl, rfl⟩
    cases hmem : sigismember (s.proc p).pending sigNr with
    | true =>
      obtain rfl := causeSig_member hother hmem h
      refine ⟨hsignaled, hpending, fun n k hk => ?_, fun n hn => ?_, hunended⟩
      · by_cases hn : sigNr = n
        · subst hn
          exact .inl ⟨hmem, Option.some.inj (hk.symm.trans hraise)⟩
        · rw [hnone n (by simp [hn])] at hk
          exact honce n k hk
      · by_cases hs : sigNr = n
        · subst hs
          rw [hraise] at hn
          cases hn
        · rw [hnone n (by simp [hs])] at hn
          exact hraised n hn
    | false =>
      have hview := congrFun (causeSig_signals hother hmem h) p
      rw [Function.update_self] at hview
      rw [hview]
      have hpend : ((s.signals p).sigPending || !(s.signals p).signaled) = true := by
        cases hb : (s.signals p).signaled with
        | true => simp [hsignaled hb]
        | false => simp
      refine ⟨fun _ => hpend, fun _ => rfl, fun n k hk => ?_, fun n hn => ?_, fun hfalse => ?_⟩
      · rw [member_add hsig]
        by_cases hn : sigNr = n
        · subst hn
          exact .inl ⟨by simp, Option.some.inj (hk.symm.trans hraise)⟩
        · rw [hnone n (by simp [hn])] at hk
          simpa [hn] using honce n k hk
      · rw [member_add hsig]
        by_cases hs : sigNr = n
        · subst hs
          rw [hraise] at hn
          cases hn
        · rw [hnone n (by simp [hs])] at hn
          simpa [hs] using hraised n hn
      · exact absurd (hpend.symm.trans hfalse) (by decide)
  · have hview : s'.signals p = s.signals p := by
      cases hmem : sigismember (s.proc rp).pending sigNr with
      | true => rw [causeSig_member hother hmem h]
      | false => rw [causeSig_signals hother hmem h, Function.update_of_ne hp]
    rw [hview]
    exact (hacc p).keep (fun n => hnone n fun hsame => hp hsame.1.symm) (hacc p).ended

theorem get_ksig_accounted {r : Option (ℤ × Sigset)}
    (hacc : ∀ p, Accounted past p (s.signals p)) (h : doGetksig s caller = .ok (r, s'))
    (p : Slot H) : Accounted ((s, .doGetksig caller r) :: past) p (s'.signals p) := by
  have hskip : findSignaled s caller ≠ some p →
      (∀ n, handedSince p n ((s, .doGetksig caller r) :: past) = handedSince p n past) ∧
      unended p ((s, .doGetksig caller r) :: past) = unended p past := fun hne =>
    ⟨fun n => if_neg fun hfound => hne hfound.1, if_neg hne⟩
  cases hscan : findSignaled s caller with
  | none =>
    obtain rfl := get_ksig_none hscan h
    obtain ⟨hhanded, hunended⟩ := hskip (by simp [hscan])
    exact (hacc p).keep hhanded fun hfalse => hunended.trans ((hacc p).ended hfalse)
  | some rp =>
    obtain ⟨rfl, hview⟩ := get_ksig_signals hscan h
    by_cases hp : p = rp
    · subst hp
      obtain ⟨hsignaled, -, honce, hraised, -⟩ := hacc p
      obtain ⟨hset, hmgr⟩ := findSignaled_some hscan
      have hpend : (s.signals p).sigPending = true := hsignaled hset
      rw [hview, Function.update_self]
      refine ⟨nofun, fun hne => absurd rfl hne, fun n k hk => ?_, fun n _ => by simp [sigismember],
        fun hfalse => absurd (hpend.symm.trans hfalse) (by decide)⟩
      refine .inr ⟨by simp [sigismember], ?_⟩
      rw [handedSince] at hk
      split_ifs at hk with hfound
      · obtain ⟨-, -, x, hx, -, hbit⟩ := hfound
        obtain rfl := Option.some.inj hx
        obtain ⟨j, hj, rfl⟩ := Option.map_eq_some_iff.mp hk
        rcases honce n j hj with ⟨-, rfl⟩ | ⟨hout, -⟩
        · rfl
        · exact absurd (hbit.symm.trans hout) (by decide)
      · rcases honce n k hk with ⟨hin, -⟩ | ⟨-, hk⟩
        · exact absurd ⟨hscan, hmgr, _, rfl, rfl, hin⟩ hfound
        · exact hk
    · obtain ⟨hhanded, hunended⟩ := hskip (by
        rw [hscan]
        exact fun he => hp (Option.some.inj he).symm)
      rw [hview, Function.update_of_ne hp]
      exact (hacc p).keep hhanded fun hfalse => hunended.trans ((hacc p).ended hfalse)

theorem end_ksig_accounted {e : ℤ} {r : Errno}
    (hturn : ∀ rp, isokendpt s e = some rp → r = .OK → (s.proc rp).rtsIsset RTS_SIGNALED = false →
      unended rp past ≤ 1)
    (hacc : ∀ p, Accounted past p (s.signals p)) (h : doEndksig s caller e = .ok (r, s'))
    (p : Slot H) : Accounted ((s, .doEndksig caller e r) :: past) p (s'.signals p) := by
  have hle : unended p ((s, .doEndksig caller e r) :: past) ≤ unended p past := by
    rw [unended]
    split <;> omega
  have hkeep : Accounted ((s, .doEndksig caller e r) :: past) p (s.signals p) :=
    (hacc p).keep (fun _ => rfl) fun hfalse =>
      Nat.le_zero.mp (hle.trans_eq ((hacc p).ended hfalse))
  rcases end_ksig_signals h with hsame | ⟨rfl, rp, hrp, hsignaled, hview⟩
  · rwa [hsame]
  · by_cases hp : p = rp
    · subst hp
      rw [hview, Function.update_self]
      have hempty : (s.signals p).pending = 0 := by
        by_contra hne
        exact absurd ((hacc p).pending hne) (by simp [hsignaled])
      refine ⟨nofun, fun hne => absurd hempty hne, (hacc p).once, (hacc p).raised, fun _ => ?_⟩
      have hone := hturn p hrp rfl hsignaled
      rw [unended, if_pos ⟨hrp, rfl⟩]
      omega
    · rwa [hview, Function.update_of_ne hp]

end Steps

theorem run_accounted {past : SigPast H M} {s : KState H M}
    (hrun : (sigSystem H M).Run endsInTurn past s) (rp : Slot H) :
    Accounted past rp (s.signals rp) := by
  revert rp
  refine hrun.trace_invariant (P := fun past s => ∀ rp, Accounted past rp (s.signals rp)) ?_ ?_
  · intro s hquiet rp
    obtain ⟨hpending, hsignaled, hsigPending⟩ := hquiet rp
    have hzero : (s.signals rp).pending = 0 := hpending
    refine ⟨fun hset => absurd (hsignaled.symm.trans hset) (by decide),
      fun hne => absurd hzero hne, nofun, fun n _ => by simp [hzero, sigismember], fun _ => rfl⟩
  · intro past s e s' hacc hok hstep rp
    cases e with
    | causeSig p sigNr => exact causeSig_accounted hok.1 hok.2 hacc hstep rp
    | doGetksig caller r => exact get_ksig_accounted hacc hstep rp
    | doEndksig caller e r => exact end_ksig_accounted hok hacc hstep rp

theorem signals_not_lost {past : SigPast H M} {s : KState H M}
    (hrun : (sigSystem H M).Run endsInTurn past s) (rp : Slot H) :
    (∀ sigNr k, handedSince rp sigNr past = some k →
      sigismember (s.proc rp).pending sigNr = true ∧ k = 0 ∨
      sigismember (s.proc rp).pending sigNr = false ∧ k = 1) ∧
    ((s.proc rp).rtsIsset RTS_SIGNALED = true → (s.proc rp).rtsIsset RTS_SIG_PENDING = true) ∧
    ((s.proc rp).pending ≠ 0 ∨ unended rp past ≠ 0 → (s.proc rp).isRunnable = false) := by
  obtain ⟨hsignaled, hpending, honce, -, hunended⟩ := run_accounted hrun rp
  refine ⟨honce, hsignaled, fun hbusy => ?_⟩
  have hset : (s.proc rp).rtsIsset RTS_SIG_PENDING = true := by
    rcases hbusy with hne | hout
    · exact hsignaled (hpending hne)
    · by_contra hfalse
      exact hout (hunended (Bool.eq_false_iff.mpr hfalse))
  rw [Proc.rtsIsset, isset_iff] at hset
  rw [Proc.isRunnable, rtsFIsRunnable, beq_eq_false_iff_ne]
  intro hzero
  rw [hzero] at hset
  exact absurd hset (by decide)

def endpointOf (p : Slot Headers.sample) : ℤ := Headers.sample.endpoint 1 (procNr p)

def managed : KState Headers.sample ℕ :=
  let s := KState.sample fun i => if i = 4 ∨ i = 9 then 0 else RTS_SLOT_FREE
  { s with priv := fun i => { s.priv i with sSigMgr := endpointOf 4 } }

theorem managed_forOther : forOther managed 9 := by decide

theorem managed_quiet : quietSignals managed := by decide

theorem signals_not_lost_raised : ∃ s, causeSig 3 managed 9 1 = .ok s ∧
    handedSince 9 1 [(managed, .causeSig 9 1)] = some 0 ∧ (s.proc 9).isRunnable = false := by
  have hrun : (sigSystem Headers.sample ℕ).Run endsInTurn [(managed, .causeSig 9 1)] _ :=
    .next (.start managed_quiet) ⟨managed_forOther, by decide⟩ rfl
  exact ⟨_, rfl, rfl, (signals_not_lost hrun 9).2.2 (.inl (by decide))⟩

theorem end_releases_handed : ∃ past s, (sigSystem Headers.sample ℕ).Run signalsForOther past s ∧
    unended 9 past = 1 ∧ (s.proc 9).isRunnable = true := by
  have hrun : (sigSystem Headers.sample ℕ).Run signalsForOther
      [(_, .doEndksig 4 (endpointOf 9) .OK), (_, .doGetksig 4 (some (endpointOf 9, 4))),
        (_, .causeSig 9 2), (_, .doGetksig 4 (some (endpointOf 9, 2))),
        (managed, .causeSig 9 1)] _ :=
    .next (.next (.next (.next (.next (.start managed_quiet) ⟨managed_forOther, by decide⟩ rfl)
      trivial rfl) (by constructor <;> decide) rfl) trivial rfl) trivial rfl
  exact ⟨_, _, hrun, by decide, by decide⟩

end Kernel
