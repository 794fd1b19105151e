import Cs111.Kernel.DeadlockFree
import Cs111.Kernel.PrivSlots
import Mathlib.Order.WellFounded

namespace Kernel
open Minix FlagWord
variable {H : Headers} {M : Type} {s t s' : KState H M} {caller : Slot H} {src : Option (Slot H)}

section Scan

theorem lowestBit_some {chunk : BitVec 16} {i : ℕ} (h : lowestBit chunk = some i) :
    i < bitchunkBits ∧ chunk.getLsbD i = true ∧ ∀ j < i, chunk.getLsbD j = false := by
  rw [lowestBit, List.find?_range_eq_some] at h
  obtain ⟨hset, hlt, hfirst⟩ := h
  exact ⟨List.mem_range.mp hlt, hset, fun j hj => by simpa using hfirst j hj⟩

theorem lowestBit_none {chunk : BitVec 16} (h : lowestBit chunk = none) (i : ℕ) :
    chunk.getLsbD (i % bitchunkBits) = false := by
  rw [lowestBit, List.find?_range_eq_none] at h
  simpa using h _ (Nat.mod_lt i (by decide))

def KState.noted (s : KState H M) (caller : Slot H) (id : PrivId H) : Prop :=
  getSysBit (s.privOf caller).sNotifyPending id = true

structure LeadsChunk (s : KState H M) (caller : Slot H) (id : PrivId H) : Prop where
  noted : s.noted caller id
  first : ∀ j : PrivId H, s.noted caller j →
    j.val / bitchunkBits = id.val / bitchunkBits → id ≤ j

def Suits (s : KState H M) (src : Option (Slot H)) (id : PrivId H) : Prop :=
  ∀ q ∈ src, (s.priv id).sProcNr = procNr q

theorem suits_iff {id : PrivId H} : Suits s src id ↔
    (src.isSome && src.map procNr != some (s.priv id).sProcNr) = false := by
  cases src with
  | none => simp [Suits]
  | some q =>
    simp [Suits]
    exact eq_comm

variable (s caller src) in
def Found (a : ℕ) (id : PrivId H) : Prop :=
  a ≤ id.val / bitchunkBits ∧ LeadsChunk s caller id ∧ Suits s src id ∧
    ∀ j : PrivId H, a ≤ j.val / bitchunkBits → LeadsChunk s caller j → Suits s src j → id ≤ j

theorem noted_of_chunk {id : PrivId H} {a : ℕ} (ha : id.val / bitchunkBits = a) :
    s.noted caller id ↔
      ((s.privOf caller).sNotifyPending a).getLsbD (id.val % bitchunkBits) = true := by
  rw [KState.noted, getSysBit, ha]

theorem leads_of_lowest {a i : ℕ} (h : lowestBit ((s.privOf caller).sNotifyPending a) = some i)
    (hlt : a * bitchunkBits + i < H.nrSysProcs) :
    LeadsChunk s caller ⟨a * bitchunkBits + i, hlt⟩ := by
  obtain ⟨hi, hset, hfirst⟩ := lowestBit_some h
  have hdiv : (a * bitchunkBits + i) / bitchunkBits = a := by
    rw [Nat.mul_comm, Nat.mul_add_div (by decide), Nat.div_eq_of_lt hi, Nat.add_zero]
  have hmod : (a * bitchunkBits + i) % bitchunkBits = i := by
    rw [Nat.mul_comm, Nat.mul_add_mod, Nat.mod_eq_of_lt hi]
  constructor
  · rw [noted_of_chunk hdiv]
    simpa only [hmod] using hset
  · intro j hj hchunk
    rw [hdiv] at hchunk
    rw [noted_of_chunk hchunk] at hj
    by_contra hbelow
    have hjdiv := Nat.div_add_mod j.val bitchunkBits
    have hjlt : j.val < a * bitchunkBits + i := not_le.mp hbelow
    rw [hchunk, Nat.mul_comm] at hjdiv
    rw [hfirst _ (by omega)] at hj
    cases hj

theorem Found.earlier {a : ℕ} {id : PrivId H} (h : Found s caller src (a + 1) id)
    (hnone : ∀ j : PrivId H, j.val / bitchunkBits = a → LeadsChunk s caller j → ¬ Suits s src j) :
    Found s caller src a id := by
  obtain ⟨hchunk, hleads, hsuits, hfirst⟩ := h
  refine ⟨by omega, hleads, hsuits, ?_⟩
  intro j hj hjleads hjsuits
  by_cases heq : j.val / bitchunkBits = a
  · exact absurd hjsuits (hnone j heq hjleads)
  · exact hfirst j (by omega) hjleads hjsuits

variable (s caller src) in
theorem pendingLoop_spec (n a : ℕ) (hn : a + n = nrSysChunks H) :
    (∃ id, Found s caller src a id ∧ pendingLoop s caller src (List.range' a n) =
        (do let p ← procAddr H (s.priv id).sProcNr; pure (some (id, p)))) ∨
      (∀ j : PrivId H, a ≤ j.val / bitchunkBits → LeadsChunk s caller j → ¬ Suits s src j) ∧
        pendingLoop s caller src (List.range' a n) = .ok none := by
  induction n generalizing a with
  | zero =>
    refine .inr ⟨?_, rfl⟩
    intro j hj
    have hlt := j.isLt
    simp only [nrSysChunks, bitchunkBits] at hn hj
    omega
  | succ n ih =>
    -- what the scan does after a chunk that holds nothing suitable
    have hskip (hnone : ∀ j : PrivId H, j.val / bitchunkBits = a → LeadsChunk s caller j →
        ¬ Suits s src j)
        (hstep : pendingLoop s caller src (List.range' a (n + 1)) =
          pendingLoop s caller src (List.range' (a + 1) n)) :
        (∃ id, Found s caller src a id ∧ pendingLoop s caller src (List.range' a (n + 1)) =
          (do let p ← procAddr H (s.priv id).sProcNr; pure (some (id, p)))) ∨
        (∀ j : PrivId H, a ≤ j.val / bitchunkBits → LeadsChunk s caller j → ¬ Suits s src j) ∧
          pendingLoop s caller src (List.range' a (n + 1)) = .ok none := by
      rw [hstep]
      rcases ih (a + 1) (by omega) with ⟨id, hfound, hresult⟩ | ⟨hrest, hresult⟩
      · exact .inl ⟨id, hfound.earlier hnone, hresult⟩
      · refine .inr ⟨fun j hj hleads => ?_, hresult⟩
        by_cases heq : j.val / bitchunkBits = a
        · exact hnone j heq hleads
        · exact hrest j (by omega) hleads
    cases hbit : lowestBit ((s.privOf caller).sNotifyPending a) with
    | none =>
      refine hskip ?_ ?_
      · intro j hj hleads
        have hset := (noted_of_chunk hj).mp hleads.noted
        rw [lowestBit_none hbit] at hset
        cases hset
      · rw [List.range'_succ, pendingLoop, hbit]
    | some i =>
      by_cases hlt : a * bitchunkBits + i < H.nrSysProcs
      · have hleads := leads_of_lowest hbit hlt
        have hdiv : (a * bitchunkBits + i) / bitchunkBits = a := by
          rw [Nat.mul_comm, Nat.mul_add_div (by decide),
            Nat.div_eq_of_lt (lowestBit_some hbit).1, Nat.add_zero]
        have honly (j : PrivId H) (hj : j.val / bitchunkBits = a) (hjleads : LeadsChunk s caller j) :
            j = ⟨a * bitchunkBits + i, hlt⟩ :=
          le_antisymm (hjleads.first _ hleads.noted (hdiv.trans hj.symm))
            (hleads.first _ hjleads.noted (hj.trans hdiv.symm))
        by_cases hsuits : Suits s src ⟨a * bitchunkBits + i, hlt⟩
        · refine .inl ⟨_, ⟨hdiv.ge, hleads, hsuits, ?_⟩, ?_⟩
          · intro j hj hjleads _
            by_cases heq : j.val / bitchunkBits = a
            · exact (honly j heq hjleads).ge
            · have hge : (a + 1) * bitchunkBits ≤ j.val :=
                (Nat.le_div_iff_mul_le (by decide)).mp (by omega)
              have hi := (lowestBit_some hbit).1
              refine Fin.le_def.mpr ?_
              simp only [bitchunkBits] at hge hi ⊢
              omega
          · rw [List.range'_succ, pendingLoop, hbit]
            simp only [dif_pos hlt, suits_iff.mp hsuits]
            rfl
        · refine hskip ?_ ?_
          · intro j hj hjleads
            rwa [honly j hj hjleads]
          · rw [List.range'_succ, pendingLoop, hbit]
            rw [suits_iff, Bool.not_eq_false] at hsuits
            simp only [dif_pos hlt, hsuits, if_true]
      · refine .inr ⟨?_, ?_⟩
        · intro j hj hjleads
          have hi := (lowestBit_some hbit).1
          have hjlt := j.isLt
          by_cases heq : j.val / bitchunkBits = a
          · have hset := (noted_of_chunk heq).mp hjleads.noted
            have hjdiv := Nat.div_add_mod j.val bitchunkBits
            rw [heq, Nat.mul_comm] at hjdiv
            rw [(lowestBit_some hbit).2.2 _ (by omega)] at hset
            cases hset
          · have hge : (a + 1) * bitchunkBits ≤ j.val :=
              (Nat.le_div_iff_mul_le (by decide)).mp (by omega)
            simp only [bitchunkBits] at hge hi hlt
            omega
        · rw [List.range'_succ, pendingLoop, hbit]
          simp only [dif_neg hlt]
          rfl

variable (s caller src) in
theorem pendingNotify_spec :
    (∃ id, Found s caller src 0 id ∧ pendingNotify s caller src =
        (do let p ← procAddr H (s.priv id).sProcNr; pure (some (id, p)))) ∨
      (∀ j : PrivId H, LeadsChunk s caller j → ¬ Suits s src j) ∧
        pendingNotify s caller src = .ok none := by
  rw [pendingNotify, List.range_eq_range']
  rcases pendingLoop_spec s caller src _ 0 (Nat.zero_add _) with
    hfound | ⟨hnone, hresult⟩
  · exact .inl hfound
  · exact .inr ⟨fun j => hnone j (Nat.zero_le _), hresult⟩

end Scan

structure NotesKept (s s' : KState H M) : Prop where
  ptr : ∀ i, (s'.proc i).priv = (s.proc i).priv
  bits : ∀ id bit, getSysBit (s'.priv id).sNotifyPending bit =
      getSysBit (s.priv id).sNotifyPending bit ∨
    bit = (s.proc H.system).priv ∧ getSysBit (s'.priv id).sNotifyPending bit = true

namespace NotesKept
variable {rp : Slot H} {f : Flags} {k : PrivId H}

theorem refl (s : KState H M) : NotesKept s s := ⟨fun _ => rfl, fun _ _ => .inl rfl⟩

theorem trans (h : NotesKept s t) (h' : NotesKept t s') : NotesKept s s' where
  ptr i := (h'.ptr i).trans (h.ptr i)
  bits id bit := by
    rcases h'.bits id bit with hsame | ⟨hsystem, hset⟩
    · rw [hsame]
      exact h.bits id bit
    · exact .inr ⟨hsystem.trans (by rw [h.ptr]), hset⟩

theorem of_proc (hptr : ∀ i, (s'.proc i).priv = (s.proc i).priv) (hpriv : s'.priv = s.priv) :
    NotesKept s s' := ⟨hptr, fun id bit => .inl (by rw [hpriv])⟩

theorem upd {g : Proc H M → Proc H M} (hg : ∀ x, (g x).priv = x.priv) :
    NotesKept s (s.upd rp g) := .of_proc (fun _ => upd_ptr hg) rfl

theorem updPriv {g : Priv → Priv} (hg : ∀ x, (g x).sNotifyPending = x.sNotifyPending) :
    NotesKept s (s.updPriv k g) where
  ptr _ := rfl
  bits id bit := by
    left
    change getSysBit (Function.update s.priv k (g (s.priv k)) id).sNotifyPending bit = _
    by_cases hid : id = k
    · rw [hid, Function.update_self, hg]
    · rw [Function.update_of_ne hid]

theorem rtsSet (h : rtsSet s rp f = .ok s') : NotesKept s s' :=
  .of_proc (fun _ => rtsSet_ptr h) (rtsSet_priv h)

theorem rtsUnset (h : rtsUnset s rp f = .ok s') : NotesKept s s' :=
  .of_proc (fun _ => rtsUnset_ptr h) (rtsUnset_priv h)

theorem setCallers (d : Slot H) (xpp : Chain.Cell (Slot H)) (v : Option (Slot H)) :
    NotesKept s (s.setCallers d xpp v) := by
  cases xpp with
  | head =>
    rw [KState.setCallers]
    exact upd fun _ => rfl
  | link i =>
    rw [KState.setCallers]
    exact upd fun _ => rfl

theorem ipcStatusAdd (item : StatusItem) : NotesKept s (s.upd rp (·.ipcStatusAdd item)) := by
  refine upd fun x => ?_
  rw [Proc.ipcStatusAdd]
  split <;> rfl

theorem acceptNotify (p d : Slot H) : NotesKept s (acceptNotify s p d) := by
  have hclear : NotesKept s (clearNotifyArg s p d) := by
    rw [clearNotifyArg]
    split
    · exact updPriv fun _ => rfl
    · split
      · exact updPriv fun _ => rfl
      · exact .refl s
  refine hclear.trans ?_
  rw [Kernel.acceptNotify]
  refine upd fun x => ?_
  rw [Proc.ipcStatusAdd]
  split <;> rfl

theorem notifySystem {dstE : ℤ} {r : Errno} (h : miniNotify s H.system dstE = .ok (r, s')) :
    NotesKept s s' := by
  rw [miniNotify] at h
  split at h
  · cases h
    exact .refl s
  · rename_i dst _
    split at h
    · obtain ⟨-, h⟩ := kassert_bind_ok.mp h
      obtain ⟨t, ht, h⟩ := bind_ok.mp h
      cases h
      exact (acceptNotify H.system dst).trans (.rtsUnset ht)
    · cases h
      refine ⟨fun _ => rfl, fun id bit => ?_⟩
      change getSysBit (Function.update s.priv (s.proc dst).priv _ id).sNotifyPending bit = _ ∨
        _ ∧ getSysBit (Function.update s.priv (s.proc dst).priv _ id).sNotifyPending bit = true
      by_cases hid : id = (s.proc dst).priv
      · rw [hid, Function.update_self]
        dsimp only
        rw [getSysBit_set]
        by_cases hbit : (s.proc H.system).priv.val = bit
        · exact .inr ⟨hbit.symm, by simp [hbit]⟩
        · exact .inl (by simp [hbit])
      · rw [Function.update_of_ne hid]
        exact .inl rfl

theorem sendSig {ep : ℤ} {sig : ℕ} (h : sendSig s ep sig = .ok s') : NotesKept s s' := by
  rw [Kernel.sendSig] at h
  obtain ⟨rp, -, h⟩ := bind_ok.mp h
  obtain ⟨⟨r, t⟩, ht, h⟩ := bind_ok.mp h
  obtain rfl := pure_ok.mp h
  refine NotesKept.trans ?_ (notifySystem ht)
  exact updPriv fun _ => rfl

theorem caused (h : Caused rp s s') : NotesKept s s' := by
  induction h with
  | known => exact .refl _
  | passed hunset _ ih =>
    refine NotesKept.trans (NotesKept.trans ?_ (.rtsUnset hunset)) ih
    exact updPriv fun _ => rfl
  | own hsent =>
    refine NotesKept.trans ?_ (sendSig hsent)
    exact updPriv fun _ => rfl
  | noted => exact upd fun _ => rfl
  | raised hset hsent =>
    refine NotesKept.trans (NotesKept.trans ?_ (.rtsSet hset)) (sendSig hsent)
    exact upd fun _ => rfl

theorem sendDelayed (h : sendDelayed s rp = .ok s') : NotesKept s s' := by
  rw [Kernel.sendDelayed] at h
  split at h
  · refine NotesKept.trans ?_ (caused (causeSig_caused h))
    exact upd fun _ => rfl
  · cases h
    exact .refl s

theorem setAsynsize (p : Slot H) (size : ℕ) : NotesKept s (setAsynsize s p size) := by
  rw [Kernel.setAsynsize]
  exact updPriv fun _ => rfl

theorem tryOne (p d : Slot H) : NotesKept s (tryOne s p d).s := by
  have hloop : ∀ left i done postponed,
      NotesKept s (tryOneLoop s p d left i done postponed).s := by
    intro left
    induction left with
    | zero =>
      intro i done postponed
      rw [tryOneLoop]
      split
      · exact setAsynsize ..
      · exact .refl s
    | succ left ih =>
      intro i done postponed
      rw [tryOneLoop]
      split
      · exact .refl s
      · rename_i tabent _
        dsimp only
        split_ifs
        · exact ih ..
        · exact setAsynsize ..
        · exact ih ..
        · exact ih ..
        · exact ih ..
        · have haccept : NotesKept s (s.upd d fun x =>
              x.accept ⟨0, .user tabent.msg⟩ (s.proc p).endpoint) := upd fun _ => rfl
          exact ⟨haccept.ptr, haccept.bits⟩
  rw [Kernel.tryOne]
  split_ifs
  · exact .refl s
  · exact .refl s
  · exact .refl s
  · exact hloop ..

theorem tryAsync {found : Bool} (ids : List (PrivId H)) (postponed : Bool) (s : KState H M)
    (h : tryAsyncLoop rp ids postponed s = .ok (found, s')) : NotesKept s s' := by
  induction ids generalizing postponed s with
  | nil =>
    rw [tryAsyncLoop] at h
    obtain ⟨-, rfl⟩ := Prod.mk.inj (pure_ok.mp h)
    split
    · exact .refl s
    · exact upd fun _ => rfl
  | cons id ids ih =>
    rw [tryAsyncLoop] at h
    split at h
    · exact ih _ _ h
    · obtain ⟨p, -, h⟩ := bind_ok.mp h
      obtain ⟨-, h⟩ := kassert_bind_ok.mp h
      dsimp only at h
      split at h
      · obtain ⟨-, rfl⟩ := Prod.mk.inj (pure_ok.mp h)
        exact tryOne p rp
      · exact (tryOne p rp).trans (ih _ _ h)

theorem receiveAsync {found : Bool} (h : receiveAsync s caller src = .ok (found, s')) :
    NotesKept s s' := by
  rw [Kernel.receiveAsync] at h
  split at h
  · cases src with
    | some p =>
      obtain ⟨-, rfl⟩ := Prod.mk.inj (pure_ok.mp h)
      refine (tryOne p caller).trans ?_
      split
      · exact ipcStatusAdd _
      · exact .refl _
    | none =>
      dsimp only at h
      obtain ⟨⟨f, t⟩, ht, h⟩ := bind_ok.mp h
      obtain ⟨-, rfl⟩ := Prod.mk.inj (pure_ok.mp h)
      refine (tryAsync _ _ s ht).trans ?_
      dsimp only
      split
      · exact ipcStatusAdd _
      · exact .refl t
  · obtain ⟨-, rfl⟩ := Prod.mk.inj (pure_ok.mp h)
    exact .refl s

theorem receiveQueued (h : receiveQueued s caller src = .ok (some s')) : NotesKept s s' := by
  rw [Kernel.receiveQueued] at h
  split at h
  · cases h
  · split at h
    · cases h
    · rename_i xpp _ _ sender _
      obtain ⟨-, h⟩ := kassert_bind_ok.mp h
      obtain ⟨-, h⟩ := kassert_bind_ok.mp h
      obtain ⟨-, h⟩ := kassert_bind_ok.mp h
      obtain ⟨t, ht, h⟩ := bind_ok.mp h
      obtain ⟨u, hu, h⟩ := bind_ok.mp h
      obtain rfl := Option.some.inj (pure_ok.mp h)
      have hpass (v : KState H M) : NotesKept v (passKernelFlag v caller sender) := by
        rw [passKernelFlag]
        split
        · exact (ipcStatusAdd _).trans (upd fun _ => rfl)
        · exact .refl v
      have hunset : NotesKept s t := by
        refine NotesKept.trans ?_ (.rtsUnset ht)
        exact upd fun _ => rfl
      refine (hunset.trans (ipcStatusAdd _)).trans ((hpass _).trans ((sendDelayed hu).trans ?_))
      exact (setCallers ..).trans (upd fun _ => rfl)

end NotesKept

section Receive
variable {srcE : ℤ} {mBuffUsr : ℕ} {nonBlocking : Bool} {p : Slot H} {id : PrivId H} {r : Errno}

theorem receiveNotify_found (hpend : (s.proc caller).miscIsset MF_REPLY_PEND = false)
    (hfound : pendingNotify s caller src = .ok (some (id, p))) :
    receiveNotify s caller src = .ok (some (acceptNotify (s.updPriv (s.proc caller).priv fun x =>
      { x with sNotifyPending := unsetSysBit x.sNotifyPending id }) p caller)) := by
  rw [receiveNotify, if_neg (by simp [hpend]), hfound]
  rfl

theorem acceptNotify_bits (d : Slot H) (q : PrivId H) :
    ((acceptNotify s p d).priv q).sNotifyPending = (s.priv q).sNotifyPending := by
  have hclear : ((clearNotifyArg s p d).priv q).sNotifyPending = (s.priv q).sNotifyPending := by
    have hrow (g : Priv → Priv) (hg : ∀ x, (g x).sNotifyPending = x.sNotifyPending) :
        ((s.updPriv (s.proc d).priv g).priv q).sNotifyPending = (s.priv q).sNotifyPending := by
      change (Function.update s.priv _ _ q).sNotifyPending = _
      by_cases hq : q = (s.proc d).priv
      · rw [hq, Function.update_self, hg]
      · rw [Function.update_of_ne hq]
    rw [clearNotifyArg]
    split
    · exact hrow _ fun _ => rfl
    · split
      · exact hrow _ fun _ => rfl
      · rfl
  exact hclear

variable (s p caller) in
theorem acceptNotify_delivers : ((acceptNotify s p caller).proc caller).delivermsg =
      notifyMessage s p caller ∧
    ((acceptNotify s p caller).proc caller).miscIsset MF_DELIVERMSG = true := by
  rw [acceptNotify, upd_proc_self, Proc.ipcStatusAdd]
  have hset : (((clearNotifyArg s p caller).proc caller).accept (notifyMessage s p caller)
      (notifyMessage s p caller).mSource).miscIsset MF_DELIVERMSG = true := by
    rw [Proc.accept, Proc.miscIsset]
    exact isset_or_self
  split
  · exact ⟨rfl, hset⟩
  · exact ⟨rfl, hset⟩

theorem receiveSource_upd {g : Proc H M → Proc H M} (hg : (s.upd caller g).peers = s.peers) :
    receiveSource (s.upd caller g) srcE = receiveSource s srcE := by
  simp only [receiveSource, okendpt, isokendpt_named, hg]

theorem sourceGone_upd : sourceGone (s.upd caller fun x => { x with delivermsgVir := mBuffUsr })
    src = sourceGone s src := by
  cases src with
  | none => rfl
  | some q =>
    simp only [sourceGone, Option.any_some, Proc.rtsIsset, proc_upd_apply]
    split
    · rename_i hq
      rw [hq]
    · rfl

variable (s caller mBuffUsr) in
def KState.wanting : KState H M := s.upd caller fun x => { x with delivermsgVir := mBuffUsr }

variable (s caller mBuffUsr) in
theorem wanting_proc : (s.wanting caller mBuffUsr).proc caller =
    { s.proc caller with delivermsgVir := mBuffUsr } := by
  rw [KState.wanting, upd_proc_self]

variable (s caller mBuffUsr) in
theorem wanting_kept : NotesKept s (s.wanting caller mBuffUsr) := by
  rw [KState.wanting]
  exact .upd fun _ => rfl

variable (s caller src mBuffUsr) in
theorem wanting_pending :
    pendingNotify (s.wanting caller mBuffUsr) caller src = pendingNotify s caller src :=
  pendingNotify_congr (by rw [KState.wanting, upd_priv]) ((wanting_kept s caller mBuffUsr).ptr caller) src

theorem wanting_rts {f : Flags} : ((s.wanting caller mBuffUsr).proc caller).rtsIsset f =
    (s.proc caller).rtsIsset f := by
  rw [wanting_proc]
  rfl

theorem wanting_misc {f : Flags} : ((s.wanting caller mBuffUsr).proc caller).miscIsset f =
    (s.proc caller).miscIsset f := by
  rw [wanting_proc]
  rfl

variable (s caller mBuffUsr id) in
def KState.unnoted : KState H M :=
  (s.wanting caller mBuffUsr).updPriv ((s.wanting caller mBuffUsr).proc caller).priv fun x =>
    { x with sNotifyPending := unsetSysBit x.sNotifyPending id }

theorem unnoted_proc (q : Slot H) :
    (s.unnoted caller mBuffUsr id).proc q = (s.wanting caller mBuffUsr).proc q := by
  rw [KState.unnoted, updPriv_proc]

theorem unnoted_row : (s.unnoted caller mBuffUsr id).privOf caller = { s.privOf caller with
    sNotifyPending := unsetSysBit (s.privOf caller).sNotifyPending id } := by
  rw [KState.privOf, unnoted_proc]
  change Function.update (s.wanting caller mBuffUsr).priv _ _ _ = _
  rw [Function.update_self, wanting_proc, KState.wanting, upd_priv]
  rfl

theorem unnoted_bits (bit : ℕ) :
    getSysBit ((s.unnoted caller mBuffUsr id).privOf caller).sNotifyPending bit =
      (getSysBit (s.privOf caller).sNotifyPending bit && decide (bit ≠ id)) := by
  rw [unnoted_row, getSysBit_unset]
  simp only [ne_eq, eq_comm]

theorem unnoted_message :
    notifyMessage (s.unnoted caller mBuffUsr id) p caller = notifyMessage s p caller := by
  have hend : ((s.unnoted caller mBuffUsr id).proc p).endpoint = (s.proc p).endpoint := by
    rw [unnoted_proc, KState.wanting, proc_upd_apply]
    split
    · rename_i hp
      rw [hp]
    · rfl
  have harg : notifyArg (s.unnoted caller mBuffUsr id) p caller = notifyArg s p caller := by
    simp only [notifyArg, unnoted_row]
  rw [notifyMessage, hend, harg, notifyMessage]
  rfl

def afterSearch (caller : Slot H) (srcE : ℤ) (nonBlocking : Bool) (r : Bool × KState H M) :
    Except Fault (Errno × KState H M) :=
  if r.1 then pure (.OK, r.2.upd caller (·.clearMisc MF_REPLY_PEND))
  else if nonBlocking then pure (.ENOTREADY, r.2)
  else do
    let group ← deadlock r.2 .RECEIVE caller srcE
    if group ≠ 0 then pure (.ELOCKED, r.2)
    else do
      let s ← rtsSet (r.2.upd caller fun x => { x with getfromE := srcE }) caller RTS_RECEIVING
      pure (.OK, s)

section Search
variable (hidle : (s.proc caller).miscIsset MF_DELIVERMSG = false)
  (hsrc : receiveSource s srcE = .ok src)
include hidle hsrc

variable (mBuffUsr nonBlocking) in
theorem receive_gone (hgone : sourceGone s src = true) :
    miniReceive s caller srcE mBuffUsr nonBlocking =
      .ok (.EDEADSRCDST, s.wanting caller mBuffUsr) := by
  have hsrc' : receiveSource (s.wanting caller mBuffUsr) srcE = .ok src := by
    rw [KState.wanting, receiveSource_upd (peers_upd_same rfl), hsrc]
  have hgone' : sourceGone (s.wanting caller mBuffUsr) src = true := sourceGone_upd.trans hgone
  rw [KState.wanting] at hsrc' hgone'
  simp only [miniReceive, hidle, hsrc', hgone', kassert, bind, Except.bind, if_true,
    Bool.not_false]
  rfl

theorem receive_search (hlive : sourceGone s src = false) :
    miniReceive s caller srcE mBuffUsr nonBlocking =
      receiveAvailable (s.wanting caller mBuffUsr) caller src >>=
        afterSearch caller srcE nonBlocking := by
  have hsrc' : receiveSource (s.wanting caller mBuffUsr) srcE = .ok src := by
    rw [KState.wanting, receiveSource_upd (peers_upd_same rfl), hsrc]
  have hlive' : sourceGone (s.wanting caller mBuffUsr) src = false := sourceGone_upd.trans hlive
  rw [KState.wanting] at hsrc' hlive' ⊢
  simp only [miniReceive, hidle, hsrc', hlive', kassert, bind, Except.bind, if_true, if_false,
    Bool.not_false, Bool.false_eq_true]
  rfl

variable (hsending : (s.proc caller).rtsIsset RTS_SENDING = false)
  (hpend : (s.proc caller).miscIsset MF_REPLY_PEND = false)
  (hlive : sourceGone s src = false)
include hsending hpend hlive

variable (mBuffUsr nonBlocking) in
theorem receive_found (hfound : pendingNotify s caller src = .ok (some (id, p))) :
    ∃ t, miniReceive s caller srcE mBuffUsr nonBlocking = .ok (.OK, t) ∧
      (t.proc caller).miscIsset MF_DELIVERMSG = true ∧
      (t.proc caller).delivermsg = notifyMessage s p caller ∧
      ∀ bit, getSysBit (t.privOf caller).sNotifyPending bit =
        (getSysBit (s.privOf caller).sNotifyPending bit && decide (bit ≠ id)) := by
  have hnotify : receiveNotify (s.wanting caller mBuffUsr) caller src =
      .ok (some (acceptNotify (s.unnoted caller mBuffUsr id) p caller)) :=
    receiveNotify_found (wanting_misc.trans hpend) ((wanting_pending s caller src mBuffUsr).trans hfound)
  have havailable : receiveAvailable (s.wanting caller mBuffUsr) caller src =
      .ok (true, acceptNotify (s.unnoted caller mBuffUsr id) p caller) := by
    rw [receiveAvailable, wanting_rts, hsending, hnotify]
    rfl
  obtain ⟨hmessage, hdelivered⟩ := acceptNotify_delivers (s.unnoted caller mBuffUsr id) caller p
  refine ⟨(acceptNotify (s.unnoted caller mBuffUsr id) p caller).upd caller
    (·.clearMisc MF_REPLY_PEND), ?_, ?_, ?_, ?_⟩
  · rw [receive_search hidle hsrc hlive, havailable]
    rfl
  · rw [upd_proc_self, Proc.miscIsset, Proc.clearMisc, isset_clear (by decide)]
    exact hdelivered
  · rw [upd_proc_self]
    exact hmessage.trans unnoted_message
  · intro bit
    have hptr : (((acceptNotify (s.unnoted caller mBuffUsr id) p caller).upd caller
        (·.clearMisc MF_REPLY_PEND)).proc caller).priv =
          ((s.unnoted caller mBuffUsr id).proc caller).priv := by
      rw [upd_proc_self, Proc.clearMisc]
      exact (NotesKept.acceptNotify (s := s.unnoted caller mBuffUsr id) p caller).ptr caller
    rw [KState.privOf, hptr, upd_priv, acceptNotify_bits]
    exact unnoted_bits bit

variable (mBuffUsr nonBlocking) in
theorem receive_stuck {e : Fault} (hfound : pendingNotify s caller src = .error e) :
    miniReceive s caller srcE mBuffUsr nonBlocking = .error e := by
  rw [receive_search hidle hsrc hlive, receiveAvailable, wanting_rts, hsending, receiveNotify,
    wanting_misc, hpend, wanting_pending, hfound]
  rfl

theorem receive_unnoted (hfound : pendingNotify s caller src = .ok none)
    (h : miniReceive s caller srcE mBuffUsr nonBlocking = .ok (r, t)) : NotesKept s t := by
  rw [receive_search hidle hsrc hlive] at h
  obtain ⟨⟨found, v⟩, hv, h⟩ := bind_ok.mp h
  have hsearched : NotesKept s v := by
    refine (wanting_kept s caller mBuffUsr).trans ?_
    have hnotify : receiveNotify (s.wanting caller mBuffUsr) caller src = .ok none := by
      rw [receiveNotify, wanting_misc, hpend, wanting_pending, hfound]
      rfl
    rw [receiveAvailable, wanting_rts, hsending, hnotify] at hv
    obtain ⟨_, hnoted, hv⟩ := bind_ok.mp hv
    obtain rfl := Except.ok.inj hnoted
    obtain ⟨⟨f, w⟩, hw, hv⟩ := bind_ok.mp hv
    refine (NotesKept.receiveAsync hw).trans ?_
    dsimp only at hv
    split at hv
    · obtain ⟨-, rfl⟩ := Prod.mk.inj (pure_ok.mp hv)
      exact .refl w
    · obtain ⟨queued, hqueued, hv⟩ := bind_ok.mp hv
      cases queued with
      | none =>
        obtain ⟨-, rfl⟩ := Prod.mk.inj (pure_ok.mp hv)
        exact .refl w
      | some x =>
        obtain ⟨-, rfl⟩ := Prod.mk.inj (pure_ok.mp hv)
        exact NotesKept.receiveQueued hqueued
  refine hsearched.trans ?_
  rw [afterSearch] at h
  dsimp only at h
  split at h
  · obtain ⟨-, rfl⟩ := Prod.mk.inj (pure_ok.mp h)
    exact .upd fun _ => rfl
  · split at h
    · obtain ⟨-, rfl⟩ := Prod.mk.inj (pure_ok.mp h)
      exact .refl v
    · obtain ⟨group, -, h⟩ := bind_ok.mp h
      split at h
      · obtain ⟨-, rfl⟩ := Prod.mk.inj (pure_ok.mp h)
        exact .refl v
      · obtain ⟨w, hw, h⟩ := bind_ok.mp h
        obtain ⟨-, rfl⟩ := Prod.mk.inj (pure_ok.mp h)
        refine NotesKept.trans ?_ (.rtsSet hw)
        exact .upd fun _ => rfl

end Search

structure Notified (s : KState H M) (caller p : Slot H) (t : KState H M) : Prop where
  pending : s.noted caller (s.proc p).priv
  delivered : (t.proc caller).miscIsset MF_DELIVERMSG = true
  message : (t.proc caller).delivermsg = notifyMessage s p caller
  bits : ∀ bit, getSysBit (t.privOf caller).sNotifyPending bit =
    (getSysBit (s.privOf caller).sNotifyPending bit && decide (bit ≠ (s.proc p).priv))

def Wanted (s : KState H M) (caller : Slot H) : Option (Slot H) → Prop
  | none => ∃ id, s.noted caller id
  | some q => sourceGone s (some q) = false ∧ s.noted caller (s.proc q).priv

structure NotifiesRight (s : KState H M) (caller : Slot H) (src : Option (Slot H)) (srcE : ℤ)
    (mBuffUsr : ℕ) (nonBlocking : Bool) : Prop where
  delivers : Wanted s caller src → ∃ p t, (∀ q ∈ src, q = p) ∧
    miniReceive s caller srcE mBuffUsr nonBlocking = .ok (.OK, t) ∧ Notified s caller p t
  keeps : ¬ Wanted s caller src → ∀ r t,
    miniReceive s caller srcE mBuffUsr nonBlocking = .ok (r, t) → NotesKept s t

def FindsNote (s : KState H M) (caller : Slot H) : Option (Slot H) → Prop
  | none => ∀ id, s.noted caller id → (∀ j, s.noted caller j → id ≤ j) →
      ∃ p, (s.priv id).sProcNr = procNr p ∧ (s.proc p).priv = id
  | some q => sourceGone s (some q) = false →
      (s.noted caller (s.proc q).priv → LeadsChunk s caller (s.proc q).priv ∧
        (s.priv (s.proc q).priv).sProcNr = procNr q ∧
        ∀ id, LeadsChunk s caller id → (s.priv id).sProcNr = procNr q → (s.proc q).priv ≤ id) ∧
      (¬ s.noted caller (s.proc q).priv →
        ∀ id, LeadsChunk s caller id → (s.priv id).sProcNr ≠ procNr q)

theorem notifyMessage_inj {p q : Slot H}
    (h : notifyMessage s p caller = notifyMessage s q caller) : p = q := by
  simp only [notifyMessage, Message.mk.injEq, Body.notifyFrom.injEq] at h
  exact Owners.procNr_eq h.2.1

theorem Notified.found {q : Slot H} (h : Notified s caller q t) (hid : s.noted caller id)
    (hmessage : (t.proc caller).delivermsg = notifyMessage s p caller)
    (hbits : ∀ bit, getSysBit (t.privOf caller).sNotifyPending bit =
      (getSysBit (s.privOf caller).sNotifyPending bit && decide (bit ≠ id.val))) :
    q = p ∧ (s.proc p).priv = id := by
  obtain rfl := notifyMessage_inj (h.message.symm.trans hmessage)
  refine ⟨rfl, ?_⟩
  have hboth := (h.bits id).symm.trans (hbits id)
  rw [KState.noted] at hid
  rw [hid] at hboth
  simp only [ne_eq, Bool.true_and, not_true_eq_false, decide_false, decide_eq_false_iff_not,
    not_not] at hboth
  exact (Fin.ext hboth).symm

theorem exists_leader {j : PrivId H} (hj : s.noted caller j) : ∃ id, LeadsChunk s caller id ∧ id ≤ j := by
  obtain ⟨id, ⟨hnoted, hchunk⟩, hmin⟩ := wellFounded_lt.has_min
    {k : PrivId H | s.noted caller k ∧ k.val / bitchunkBits = j.val / bitchunkBits} ⟨j, hj, rfl⟩
  refine ⟨id, ⟨hnoted, fun k hk hkchunk => ?_⟩, not_lt.mp (hmin j ⟨hj, rfl⟩)⟩
  exact not_lt.mp (hmin k ⟨hk, hkchunk.trans hchunk⟩)

theorem suits_none : Suits s none id := by
  rintro _ ⟨⟩

theorem suits_some {q : Slot H} : Suits s (some q) id ↔ (s.priv id).sProcNr = procNr q := by
  simp [Suits]

theorem Found.least (h : Found s caller none 0 id) {j : PrivId H} (hj : s.noted caller j) :
    id ≤ j := by
  obtain ⟨k, hleads, hle⟩ := exists_leader hj
  exact (h.2.2.2 k (Nat.zero_le _) hleads suits_none).trans hle

section Equivalence
variable (hsending : (s.proc caller).rtsIsset RTS_SENDING = false)
  (hpend : (s.proc caller).miscIsset MF_REPLY_PEND = false)
  (hidle : (s.proc caller).miscIsset MF_DELIVERMSG = false)
include hsending hpend hidle

theorem notifies_any_iff (hsrc : receiveSource s srcE = .ok none) :
    NotifiesRight s caller none srcE mBuffUsr nonBlocking ↔ FindsNote s caller none := by
  rcases pendingNotify_spec s caller none with
    ⟨id, hfound, hresult⟩ | ⟨hnone, hresult⟩
  · have hnoted := hfound.2.1.noted
    constructor
    · intro hright k hk hmin
      obtain rfl : k = id := le_antisymm (hmin id hnoted) (hfound.least hk)
      obtain ⟨p, t, -, hok, hnotified⟩ := hright.delivers ⟨k, hk⟩
      cases hproc : procAddr H (s.priv k).sProcNr with
      | error e =>
        have hstuck := receive_stuck mBuffUsr nonBlocking hidle hsrc
          hsending hpend rfl (hresult.trans (by rw [hproc]; rfl))
        rw [hstuck] at hok
        cases hok
      | ok q =>
        obtain ⟨t', hok', -, hmessage, hbits⟩ := receive_found mBuffUsr
          nonBlocking hidle hsrc hsending hpend rfl
          (hresult.trans (by rw [hproc]; rfl))
        obtain rfl : t' = t := by
          rw [hok'] at hok
          exact (Prod.mk.inj (Except.ok.inj hok)).2
        obtain ⟨-, hptr⟩ := hnotified.found hk hmessage hbits
        exact ⟨q, (procAddr_ok hproc).symm, hptr⟩
    · intro hfinds
      obtain ⟨q, hnr, hptr⟩ := hfinds id hnoted fun j hj => hfound.least hj
      obtain ⟨t, hok, hdelivered, hmessage, hbits⟩ := receive_found (p := q) mBuffUsr
        nonBlocking hidle hsrc hsending hpend rfl
        (hresult.trans (by rw [hnr, procAddr_procNr]; rfl))
      subst hptr
      exact ⟨fun _ => ⟨q, t, by rintro _ ⟨⟩, hok, hnoted, hdelivered, hmessage, hbits⟩,
        fun hunwanted => absurd ⟨_, hnoted⟩ hunwanted⟩
  · have hempty : ∀ j, ¬ s.noted caller j := by
      intro j hj
      obtain ⟨k, hleads, -⟩ := exists_leader hj
      exact hnone k hleads suits_none
    constructor
    · intro _ id hid
      exact absurd hid (hempty id)
    · intro _
      refine ⟨fun ⟨id, hid⟩ => absurd hid (hempty id), fun _ r t h => ?_⟩
      exact receive_unnoted hidle hsrc hsending hpend rfl hresult h

theorem notifies_source_iff {q : Slot H} (hsrc : receiveSource s srcE = .ok (some q)) :
    NotifiesRight s caller (some q) srcE mBuffUsr nonBlocking ↔ FindsNote s caller (some q) := by
  cases hlive : sourceGone s (some q) with
  | true =>
    have hgone := receive_gone mBuffUsr nonBlocking hidle hsrc hlive
    constructor
    · intro _ hlive'
      rw [hlive] at hlive'
      cases hlive'
    · intro _
      refine ⟨fun ⟨hlive', _⟩ => ?_, fun _ r t h => ?_⟩
      · rw [hlive] at hlive'
        cases hlive'
      · rw [hgone] at h
        cases h
        exact wanting_kept s caller mBuffUsr
  | false =>
    rcases pendingNotify_spec s caller (some q) with
      ⟨id, ⟨-, hleads, hsuits, hfirst⟩, hresult⟩ | ⟨hnone, hresult⟩
    · have hnr := suits_some.mp hsuits
      obtain ⟨t, hok, hdelivered, hmessage, hbits⟩ := receive_found (p := q) mBuffUsr
        nonBlocking hidle hsrc hsending hpend hlive
        (hresult.trans (by rw [hnr, procAddr_procNr]; rfl))
      by_cases hwanted : s.noted caller (s.proc q).priv
      · constructor
        · intro hright _
          obtain ⟨p, t', -, hok', hnotified⟩ := hright.delivers ⟨hlive, hwanted⟩
          obtain rfl : t = t' := by
            rw [hok] at hok'
            exact (Prod.mk.inj (Except.ok.inj hok')).2
          obtain ⟨-, hptr⟩ := hnotified.found hleads.noted hmessage hbits
          rw [hptr]
          refine ⟨fun _ => ⟨hleads, hnr, fun k hk hknr => ?_⟩, absurd hleads.noted⟩
          exact hfirst k (Nat.zero_le _) hk (suits_some.mpr hknr)
        · intro hfinds
          obtain ⟨hqleads, hqnr, hqfirst⟩ := (hfinds hlive).1 hwanted
          obtain rfl : (s.proc q).priv = id := le_antisymm (hqfirst id hleads hnr)
            (hfirst _ (Nat.zero_le _) hqleads (suits_some.mpr hqnr))
          refine ⟨fun _ => ⟨q, t, ?_, hok, hwanted, hdelivered, hmessage, hbits⟩,
            absurd ⟨hlive, hwanted⟩⟩
          simp
      · constructor
        · intro hright
          have hkept := hright.keeps (fun h => hwanted h.2) _ _ hok
          have hbit := hkept.bits (s.proc caller).priv id
          have hcleared := hbits id
          rw [KState.privOf, hkept.ptr] at hcleared
          have hset : getSysBit (s.priv (s.proc caller).priv).sNotifyPending id = true :=
            hleads.noted
          rw [hcleared] at hbit
          simp [hset] at hbit
        · intro hfinds
          exact absurd hnr ((hfinds hlive).2 hwanted id hleads)
    · have hunnoted {r : Errno} {t : KState H M}
          (h : miniReceive s caller srcE mBuffUsr nonBlocking = .ok (r, t)) : NotesKept s t :=
        receive_unnoted hidle hsrc hsending hpend hlive hresult h
      have hnames : ∀ id, LeadsChunk s caller id → (s.priv id).sProcNr ≠ procNr q :=
        fun id hid hnr => hnone id hid (suits_some.mpr hnr)
      by_cases hwanted : s.noted caller (s.proc q).priv
      · constructor
        · intro hright
          obtain ⟨p, t, hp, hok, hnotified⟩ := hright.delivers ⟨hlive, hwanted⟩
          obtain rfl : q = p := hp q rfl
          have hkept := hunnoted hok
          have hbit := hkept.bits (s.proc caller).priv (s.proc q).priv
          have hcleared := hnotified.bits (s.proc q).priv
          rw [KState.privOf, hkept.ptr] at hcleared
          have hset : getSysBit (s.priv (s.proc caller).priv).sNotifyPending (s.proc q).priv = true :=
            hwanted
          rw [hcleared] at hbit
          simp [hset] at hbit
        · intro hfinds
          obtain ⟨hleads, hnr, -⟩ := (hfinds hlive).1 hwanted
          exact absurd hnr (hnames _ hleads)
      · constructor
        · intro _ _
          exact ⟨fun h => absurd h hwanted, fun _ => hnames⟩
        · intro _
          exact ⟨fun h => absurd h.2 hwanted, fun _ r t h => hunnoted h⟩

theorem notifiesRight_iff (hsrc : receiveSource s srcE = .ok src) :
    NotifiesRight s caller src srcE mBuffUsr nonBlocking ↔ FindsNote s caller src := by
  cases src with
  | none => exact notifies_any_iff hsending hpend hidle hsrc
  | some q => exact notifies_source_iff hsending hpend hidle hsrc

end Equivalence

def twoNotes : KState .sample ℕ :=
  let s := KState.sample fun _ => 0
  { s with priv := fun id =>
      if id.val = 4 then { s.priv id with sNotifyPending := fun _ => 12#16 } else s.priv id }

theorem twoNotes_any :
    NotifiesRight twoNotes (4 : Fin 12) none Headers.sample.any 100 false ↔
      FindsNote twoNotes (4 : Fin 12) none :=
  notifiesRight_iff rfl rfl rfl rfl

theorem hidden_notification :
    ¬ ∀ (H : Headers) (s : KState H ℕ) (caller : Slot H) (src : Option (Slot H)) (srcE : ℤ)
      (mBuffUsr : ℕ) (nonBlocking : Bool), (s.proc caller).rtsIsset RTS_SENDING = false →
      (s.proc caller).miscIsset MF_REPLY_PEND = false →
      (s.proc caller).miscIsset MF_DELIVERMSG = false → receiveSource s srcE = .ok src →
      NotifiesRight s caller src srcE mBuffUsr nonBlocking := by
  intro hall
  have hright := hall .sample twoNotes (4 : Fin 12) (some (3 : Fin 12)) 32767 100 true rfl rfl rfl
    rfl
  obtain ⟨p, t, -, hok, -⟩ := hright.delivers ⟨rfl, rfl⟩
  have hresult : miniReceive twoNotes (4 : Fin 12) 32767 100 true = .ok (.ENOTREADY, _) := rfl
  rw [hresult] at hok
  cases hok

end Receive

end Kernel
