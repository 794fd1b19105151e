import Cs111.Kernel.Ipc

namespace Kernel
open Minix FlagWord
variable {H : Headers} {M : Type}

-- `copies` tells which messages of the table can be copied from the caller's memory.
structure SendaCall (M : Type) where
  table : List (Asynmsg M)
  size : ℕ
  copies : ℕ → Bool

section Senda
variable (s : KState H M) (caller : Slot H)

def setTable (table : List (Asynmsg M)) : KState H M :=
  { s with asyntab := Function.update s.asyntab caller table }

def finishEntry (i : ℕ) (tabent : Asynmsg M) (result : Errno) : KState H M :=
  setTable s caller
    ((s.asyntab caller).set i { tabent with result := result, flags := tabent.flags ||| AMF_DONE })

def sendaTo (dst : ℤ) : Except Errno (Slot H) :=
  match isokendpt s dst with
  | none => .error .EDEADSRCDST
  | some dstP =>
    if iskernelp dstP then .error .ECALLDENIED
    else if maySendTo s caller dstP = false then .error .ECALLDENIED
    else if (s.proc dstP).rtsIsset RTS_NO_ENDPOINT then .error .EDEADSRCDST
    else .ok dstP

def takesAsync (dst : Slot H) (flags : BitVec 32) : Bool :=
  (s.proc dst).willReceive (s.proc caller).endpoint &&
    (flags &&& AMF_NOREPLY == 0 || !(s.proc dst).miscIsset MF_REPLY_PEND)

def giveAsync (dst : Slot H) (msg : M) : Except Fault (KState H M) :=
  rtsUnset (s.upd dst fun x =>
    (x.accept ⟨0, .user msg⟩ (s.proc caller).endpoint).ipcStatusAdd (.call .SENDA)) dst RTS_RECEIVING

def sendaLoop (copies : ℕ → Bool) :
    ℕ → ℕ → Bool → KState H M → Except Fault (Errno × Bool × KState H M)
  | 0, _, done, s => pure (.OK, done, s)
  | left + 1, i, done, s =>
    match (s.asyntab caller)[i]? with
    | none => pure (.EFAULT, done, s)
    | some tabent =>
      if tabent.flags = 0 then sendaLoop copies left (i + 1) done s
      else if badAsynFlags tabent.flags then pure (.EINVAL, done, s)
      else if tabent.flags &&& AMF_DONE ≠ 0 then sendaLoop copies left (i + 1) done s
      else
        match sendaTo s caller tabent.dst with
        | .error result =>
          sendaLoop copies left (i + 1) done (finishEntry s caller i tabent result)
        | .ok dst =>
          if takesAsync s caller dst tabent.flags then
            if copies i then do
              let s ← giveAsync s caller dst tabent.msg
              sendaLoop copies left (i + 1) done (finishEntry s caller i tabent .OK)
            else sendaLoop copies left (i + 1) done (finishEntry s caller i tabent .EFAULT)
          else sendaLoop copies left (i + 1) false (s.upd dst (·.setMisc MF_ASYNMSG))

def maxAsynsize (H : Headers) : ℕ := 16 * (H.nrTasks + H.nrProcs)

def miniSenda (c : SendaCall M) : Except Fault (Errno × KState H M) :=
  if (s.privOf caller).has SYS_PROC = false then pure (.EPERM, s)
  else
    let s := setAsynsize s caller 0
    if c.size = 0 then pure (.OK, s)
    else if c.size > maxAsynsize H then pure (.EDOM, s)
    else do
      let (r, done, s) ← sendaLoop caller c.copies c.size 0 true (setTable s caller c.table)
      if r ≠ .OK then pure (r, s)
      else if done then pure (.OK, s)
      else pure (.OK, setAsynsize s caller c.size)

def doSenda (c : SendaCall M) : Except Fault (Errno × KState H M) :=
  if c.size > maxAsynsize H then pure (.EDOM, s) else miniSenda s caller c

end Senda

def Asynmsg.Open (tabent : Asynmsg M) : Prop :=
  badAsynFlags tabent.flags = false ∧ tabent.flags &&& AMF_DONE = 0

section Loop
variable {s s' : KState H M} {caller : Slot H} {copies : ℕ → Bool}

inductive EntrySent (caller : Slot H) (copies : ℕ → Bool) (i : ℕ) (s : KState H M) (done : Bool) :
    Bool → KState H M → Prop
  | skipped {tabent} : (s.asyntab caller)[i]? = some tabent → ¬ tabent.Open →
      (tabent.flags ≠ 0 → badAsynFlags tabent.flags = false) →
      EntrySent caller copies i s done done s
  | failed {tabent result} : (s.asyntab caller)[i]? = some tabent → tabent.Open →
      sendaTo s caller tabent.dst = .error result →
      EntrySent caller copies i s done done (finishEntry s caller i tabent result)
  | unread {tabent dst} : (s.asyntab caller)[i]? = some tabent → tabent.Open →
      sendaTo s caller tabent.dst = .ok dst → takesAsync s caller dst tabent.flags = true →
      copies i = false →
      EntrySent caller copies i s done done (finishEntry s caller i tabent .EFAULT)
  | given {tabent dst t} : (s.asyntab caller)[i]? = some tabent → tabent.Open →
      sendaTo s caller tabent.dst = .ok dst → takesAsync s caller dst tabent.flags = true →
      copies i = true → giveAsync s caller dst tabent.msg = .ok t →
      EntrySent caller copies i s done done (finishEntry t caller i tabent .OK)
  | hinted {tabent dst} : (s.asyntab caller)[i]? = some tabent → tabent.Open →
      sendaTo s caller tabent.dst = .ok dst → takesAsync s caller dst tabent.flags = false →
      EntrySent caller copies i s done false (s.upd dst (·.setMisc MF_ASYNMSG))

theorem sendaLoop_rule {P : ℕ → Bool → KState H M → Prop} {left i : ℕ} {r : Errno}
    {done done' : Bool}
    (hround : ∀ j done s done' s', j < i + left → P j done s →
      EntrySent caller copies j s done done' s' → P (j + 1) done' s')
    (h : sendaLoop caller copies left i done s = .ok (r, done', s')) (hP : P i done s) :
    ∃ j, P j done' s' ∧ (r = .OK → j = i + left) := by
  induction left generalizing i done s with
  | zero =>
    rw [sendaLoop] at h
    cases h
    exact ⟨i, hP, fun _ => rfl⟩
  | succ left ih =>
    have hnext : ∀ {done₁ s₁}, sendaLoop caller copies left (i + 1) done₁ s₁ = .ok (r, done', s') →
        EntrySent caller copies i s done done₁ s₁ →
        ∃ j, P j done' s' ∧ (r = .OK → j = i + (left + 1)) := by
      intro done₁ s₁ hrest hsent
      obtain ⟨j, hj, hall⟩ := ih (fun j _ _ _ _ hlt => hround j _ _ _ _ (by omega)) hrest
        (hround i _ _ _ _ (by omega) hP hsent)
      exact ⟨j, hj, fun hr => by rw [hall hr]; omega⟩
    rw [sendaLoop] at h
    split at h
    · cases h
      exact ⟨i, hP, fun hr => by cases hr⟩
    · rename_i tabent hent
      split at h
      · rename_i hempty
        refine hnext h (.skipped hent ?_ fun hne => absurd hempty hne)
        rw [Asynmsg.Open, hempty]
        decide
      · split at h
        · cases h
          exact ⟨i, hP, fun hr => by cases hr⟩
        · rename_i hgood
          rw [Bool.not_eq_true] at hgood
          split at h
          · rename_i hdone
            exact hnext h (.skipped hent (fun hopen => hdone hopen.2) fun _ => hgood)
          · rename_i hdone
            have hopen : tabent.Open := ⟨hgood, not_not.mp hdone⟩
            split at h
            · rename_i hdst
              exact hnext h (.failed hent hopen hdst)
            · rename_i hdst
              split at h
              · rename_i htakes
                split at h
                · rename_i hcopy
                  obtain ⟨t, ht, h⟩ := bind_ok.mp h
                  exact hnext h (.given hent hopen hdst htakes hcopy ht)
                · rename_i hcopy
                  exact hnext h (.unread hent hopen hdst htakes (Bool.eq_false_iff.mpr hcopy))
              · rename_i htakes
                exact hnext h (.hinted hent hopen hdst (Bool.eq_false_iff.mpr htakes))

theorem doSenda_cases {c : SendaCall M} {r : Errno} (h : doSenda s caller c = .ok (r, s')) :
    (r ≠ .OK ∧ s' = s) ∨
    (s.privOf caller).has SYS_PROC = true ∧ c.size ≤ maxAsynsize H ∧
    ((c.size = 0 ∧ r = .OK ∧ s' = setAsynsize s caller 0) ∨
    ∃ done t, sendaLoop caller c.copies c.size 0 true
        (setTable (setAsynsize s caller 0) caller c.table) = .ok (r, done, t) ∧
      (s' = t ∧ (r = .OK → done = true) ∨
        r = .OK ∧ done = false ∧ s' = setAsynsize t caller c.size)) := by
  rw [doSenda] at h
  split at h
  · cases h
    exact .inl ⟨by decide, rfl⟩
  · rename_i hsize
    rw [miniSenda] at h
    split at h
    · cases h
      exact .inl ⟨by decide, rfl⟩
    · rename_i hpriv
      refine .inr ⟨by simpa using hpriv, not_lt.mp hsize, ?_⟩
      dsimp only at h
      split at h
      · rename_i hzero
        cases h
        exact .inl ⟨hzero, rfl, rfl⟩
      · obtain ⟨⟨r₁, done, t⟩, hloop, h⟩ := bind_ok.mp h
        refine .inr ⟨done, t, ?_⟩
        dsimp only at h
        split at h
        · rename_i hr
          cases h
          exact ⟨hloop, .inl ⟨rfl, fun hok => absurd hok hr⟩⟩
        · rename_i hr
          rw [not_not] at hr
          subst hr
          split at h
          · rename_i hdone
            cases h
            exact ⟨hloop, .inl ⟨rfl, fun _ => hdone⟩⟩
          · rename_i hdone
            cases h
            exact ⟨hloop, .inr ⟨rfl, Bool.eq_false_iff.mpr hdone, rfl⟩⟩

end Loop

structure Eased (x y : Proc H M) : Prop where
  endpoint : y.endpoint = x.endpoint
  priv : y.priv = x.priv
  free : y.rtsIsset RTS_SLOT_FREE = x.rtsIsset RTS_SLOT_FREE
  ended : y.rtsIsset RTS_NO_ENDPOINT = x.rtsIsset RTS_NO_ENDPOINT
  pend : y.miscIsset MF_REPLY_PEND = x.miscIsset MF_REPLY_PEND
  empty : x.isEmpty = true → y.isEmpty = true
  takes : ∀ e, y.willReceive e = true → x.willReceive e = true

namespace Eased
variable {x y z : Proc H M}

theorem refl (x : Proc H M) : Eased x x := ⟨rfl, rfl, rfl, rfl, rfl, id, fun _ => id⟩

theorem trans (h : Eased x y) (h' : Eased y z) : Eased x z :=
  ⟨h'.endpoint.trans h.endpoint, h'.priv.trans h.priv, h'.free.trans h.free,
    h'.ended.trans h.ended, h'.pend.trans h.pend, h'.empty ∘ h.empty,
    fun e => h.takes e ∘ h'.takes e⟩

theorem preempted (hused : x.rtsIsset RTS_SLOT_FREE = false) :
    Eased x (x.setRts (x.rtsFlags ||| RTS_PREEMPTED)) where
  endpoint := rfl
  priv := rfl
  free := isset_or (by decide)
  ended := isset_or (by decide)
  pend := rfl
  empty hempty := by
    rw [Proc.isEmpty, beq_iff_eq] at hempty
    rw [Proc.rtsIsset, hempty] at hused
    exact absurd hused (by decide)
  takes e htakes := by
    have hreceiving := isset_or (x := x.rtsFlags) (f := RTS_PREEMPTED) (g := RTS_RECEIVING)
      (by decide)
    have hsending := isset_or (x := x.rtsFlags) (f := RTS_PREEMPTED) (g := RTS_SENDING) (by decide)
    simp only [Proc.willReceive, Proc.rtsIsset, Proc.setRts, hreceiving, hsending] at htakes ⊢
    exact htakes

theorem setAsyn (x : Proc H M) : Eased x (x.setMisc MF_ASYNMSG) :=
  ⟨rfl, rfl, rfl, rfl, isset_or (by decide), id, fun _ => id⟩

theorem given (x : Proc H M) (m : Message M) (source : ℤ) (item : StatusItem) :
    Eased x (((x.accept m source).ipcStatusAdd item).setRts
      (((x.accept m source).ipcStatusAdd item).rtsFlags &&& ~~~RTS_RECEIVING)) := by
  obtain ⟨l, hl⟩ : ∃ l, (x.accept m source).ipcStatusAdd item =
      { x.accept m source with ipcStatus := l } := by
    rw [Proc.ipcStatusAdd]
    split
    · exact ⟨_, rfl⟩
    · exact ⟨_, rfl⟩
  rw [hl]
  refine ⟨rfl, rfl, isset_clear (by decide), isset_clear (by decide), isset_or (by decide), ?_, ?_⟩
  · intro hempty
    rw [Proc.isEmpty, beq_iff_eq] at hempty ⊢
    change x.rtsFlags &&& ~~~RTS_RECEIVING = _
    rw [hempty]
    decide
  · intro e htakes
    have hoff : isset (x.rtsFlags &&& ~~~RTS_RECEIVING) RTS_RECEIVING = false :=
      isset_clear_self (by decide) (by decide)
    simp [Proc.willReceive, Proc.rtsIsset, Proc.setRts, Proc.accept, hoff] at htakes

end Eased

section Scan
variable {s t s' : KState H M} {caller d : Slot H} {e : ℤ}

theorem isokendpt_eased (heased : ∀ i, Eased (s.proc i) (t.proc i))
    (h : isokendpt t e = some d) : isokendpt s e = some d := by
  obtain ⟨hnr, hused, he⟩ := isokendpt_some h
  have haddr : procAddr H (H.endpointP e) = .ok d := by rw [← hnr, procAddr_procNr]
  have hfull : ¬ (s.proc d).isEmpty = true := by
    intro hempty
    exact hused (beq_iff_eq.mp ((heased d).empty hempty))
  have hsame : (s.proc d).endpoint = e := (heased d).endpoint.symm.trans he
  rw [isokendpt, haddr]
  simp [hfull, hsame]

theorem sendaTo_eased (heased : ∀ i, Eased (s.proc i) (t.proc i))
    (hmask : ∀ id, (t.priv id).sIpcTo = (s.priv id).sIpcTo)
    (h : sendaTo t caller e = .ok d) : sendaTo s caller e = .ok d := by
  rw [sendaTo] at h
  split at h
  · cases h
  · rename_i hnamed
    rw [sendaTo, isokendpt_eased heased hnamed]
    have hmay : ∀ i, maySendTo t caller i = maySendTo s caller i := by
      intro i
      rw [maySendTo, maySendTo, KState.privOf, KState.privOf, (heased caller).priv,
        (heased i).priv, hmask]
    simp only [hmay, (heased _).ended] at h
    exact h

theorem takesAsync_eased (heased : ∀ i, Eased (s.proc i) (t.proc i)) {flags : BitVec 32}
    (h : takesAsync t caller d flags = true) : takesAsync s caller d flags = true := by
  rw [takesAsync, Bool.and_eq_true] at h ⊢
  rw [(heased caller).endpoint, (heased d).pend] at h
  exact ⟨(heased d).takes _ h.1, h.2⟩

theorem giveAsync_eased {msg : M} (hused : (s.proc s.procPtr).rtsIsset RTS_SLOT_FREE = false)
    (h : giveAsync s caller d msg = .ok s') :
    (∀ i, Eased (s.proc i) (s'.proc i)) ∧ s'.priv = s.priv ∧ s'.procPtr = s.procPtr ∧
      s'.asyntab = s.asyntab := by
  rw [giveAsync] at h
  have hresched := Rescheduled.rtsUnset h
  have hgiven : ∀ i, Eased (s.proc i) (((s.upd d fun x =>
      (x.accept ⟨0, .user msg⟩ (s.proc caller).endpoint).ipcStatusAdd (.call .SENDA)).setRts d
      (((s.upd d fun x => (x.accept ⟨0, .user msg⟩ (s.proc caller).endpoint).ipcStatusAdd
        (.call .SENDA)).proc d).rtsFlags &&& ~~~RTS_RECEIVING)).proc i) := by
    intro i
    by_cases hi : i = d
    · subst hi
      rw [KState.setRts, upd_proc_self, upd_proc_self]
      exact .given ..
    · rw [setRts_proc_of_ne hi, upd_proc_of_ne hi]
      exact .refl _
  refine ⟨fun i => ?_, hresched.priv_eq, hresched.procPtr_eq, ?_⟩
  · refine (hgiven i).trans ?_
    rcases hresched.proc i with hsame | ⟨hi, hmarked⟩
    · rw [hsame]
      exact .refl _
    · rw [hmarked]
      refine .preempted ?_
      have hfree := (hgiven i).free
      rw [hfree, hi]
      exact hused
  · rw [hresched.rest]
    rfl

theorem finishEntry_asyntab (i j : ℕ) (tabent : Asynmsg M) (result : Errno) (hj : i ≠ j) :
    ((finishEntry s caller i tabent result).asyntab caller)[j]? = (s.asyntab caller)[j]? := by
  have hself : (finishEntry s caller i tabent result).asyntab caller = (s.asyntab caller).set i
      { tabent with result := result, flags := tabent.flags ||| AMF_DONE } :=
    Function.update_self ..
  rw [hself, List.getElem?_set_ne hj]

theorem entrySent_eased {copies : ℕ → Bool} {i : ℕ} {done done' : Bool}
    (hused : (s.proc s.procPtr).rtsIsset RTS_SLOT_FREE = false)
    (h : EntrySent caller copies i s done done' s') :
    (∀ i, Eased (s.proc i) (s'.proc i)) ∧ s'.priv = s.priv ∧ s'.procPtr = s.procPtr ∧
      ∀ j > i, (s'.asyntab caller)[j]? = (s.asyntab caller)[j]? := by
  cases h with
  | skipped => exact ⟨fun _ => .refl _, rfl, rfl, fun _ _ => rfl⟩
  | failed =>
    exact ⟨fun _ => .refl _, rfl, rfl, fun j hj => finishEntry_asyntab i j _ _ (by omega)⟩
  | unread =>
    exact ⟨fun _ => .refl _, rfl, rfl, fun j hj => finishEntry_asyntab i j _ _ (by omega)⟩
  | given _ _ _ _ _ hgive =>
    obtain ⟨heased, hpriv, hptr, htable⟩ := giveAsync_eased hused hgive
    refine ⟨heased, hpriv, hptr, fun j hj => ?_⟩
    rw [finishEntry_asyntab i j _ _ (by omega), htable]
  | @hinted tabent d =>
    refine ⟨fun i => ?_, rfl, rfl, fun _ _ => rfl⟩
    by_cases hi : i = d
    · subst hi
      rw [upd_proc_self]
      exact .setAsyn _
    · rw [upd_proc_of_ne hi]
      exact .refl _

end Scan

end Kernel
