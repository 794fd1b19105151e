import Cs111.Kernel.AsyncTables
import Cs111.Kernel.DeadlockFree
import Cs111.Kernel.Delivery
import Cs111.Kernel.PrivSlots

-- What mini_senda does to the tables, and the runs of sends and receives.
namespace Kernel
open Minix FlagWord Chain TransitionSystem
variable {H : Headers} {M : Type} {s s' t u : KState H M} {p q d src : Slot H} {e : ℤ} {r : Errno}

section Senda
variable {tabent : Asynmsg M} {copies : ℕ → Bool} {i : ℕ} {done done' : Bool}

theorem Quiet.giveAsync {msg : M} (h : giveAsync s p d msg = .ok t) : Quiet s t := by
  rw [Kernel.giveAsync] at h
  refine .trans ?_ (.rtsUnset h)
  exact .upd fun _ => (Calm.accept ..).trans (.status _)

theorem static_table (table : List (Asynmsg M)) : Static s (setTable s p table) :=
  ⟨fun _ => rfl, fun _ => rfl, fun _ => rfl, fun _ => rfl, fun _ => rfl⟩

theorem Findable.setTable (h : Findable s) (hzero : (s.privOf p).sAsynsize = 0)
    (table : List (Asynmsg M)) : Findable (setTable s p table) := by
  have hother {q : Slot H} (hq : q ≠ p) : (Kernel.setTable s p table).asyntab q = s.asyntab q :=
    Function.update_of_ne hq ..
  refine h.of_fewer (static_table table) (fun q hq => ?_) ?_
  · by_cases hqp : q = p
    · subst hqp
      change SoundTable _ (s.privOf q).sAsynsize
      rw [hzero]
      exact fun i hi => absurd hi (Nat.not_lt_zero i)
    · rw [hother hqp]
      exact h.tables q hq
  · rintro q i tabent ⟨hq, hi, htab, hopen⟩
    by_cases hqp : q = p
    · subst hqp
      change i < (s.privOf q).sAsynsize at hi
      rw [hzero] at hi
      exact absurd hi (Nat.not_lt_zero i)
    · rw [hother hqp] at htab
      exact (h.expected q i tabent ⟨hq, hi, htab, hopen⟩).kept (static_table table) fun _ _ => id

theorem hint_kept (q : Slot H) (h : (s.proc q).miscIsset MF_ASYNMSG = true) :
    ((s.upd d (·.setMisc MF_ASYNMSG)).proc q).miscIsset MF_ASYNMSG = true := by
  rw [proc_upd_apply]
  split
  · exact isset_or_self
  · exact h

theorem static_hint : Static s (s.upd d (·.setMisc MF_ASYNMSG)) :=
  .upd (fun _ => rfl) fun _ => rfl

theorem Findable.hint (h : Findable s) : Findable (s.upd d (·.setMisc MF_ASYNMSG)) := by
  have hsize (q : Slot H) : ((s.upd d (·.setMisc MF_ASYNMSG)).privOf q).sAsynsize =
      (s.privOf q).sAsynsize := by
    rw [KState.privOf, static_hint.priv]
    rfl
  refine h.of_fewer static_hint (fun q hq => ?_) ?_
  · rw [hsize]
    exact h.tables q hq
  · rintro q i tab ⟨hq, hi, htab, hopen⟩
    rw [hsize] at hi
    exact (h.expected q i tab ⟨static_hint.registered.mp hq, hi, htab, hopen⟩).kept static_hint
      fun q _ => hint_kept q

theorem sendaTo_named (h : sendaTo s p e = .ok d) : procAddr H (H.endpointP e) = .ok d ∧
    (s.proc d).endpoint = e ∧ maySendTo s p d = true := by
  rw [sendaTo] at h
  split at h
  · cases h
  · rename_i d' hnamed
    obtain ⟨hnr, -, hend⟩ := isokendpt_some hnamed
    split at h
    · cases h
    · split at h
      · cases h
      · rename_i hmay
        split at h
        · cases h
        · cases h
          rw [Bool.not_eq_false] at hmay
          exact ⟨by rw [← hnr, procAddr_procNr], hend, hmay⟩

structure TableScanned (s : KState H M) (p : Slot H) (n : ℕ) (done : Bool) (t : KState H M) :
    Prop where
  findable : Findable t
  static : Static s t
  size : (t.privOf p).sAsynsize = 0
  others : ∀ q, q ≠ p → t.asyntab q = s.asyntab q
  entries : ∀ i < n, ∃ tabent, (t.asyntab p)[i]? = some tabent ∧
    (tabent.flags = 0 ∨ badAsynFlags tabent.flags = false) ∧
    (tabent.Open → Expected t p tabent ∧ done = false)

theorem TableScanned.quiet {n : ℕ} (h : TableScanned s p n done t) (hquiet : Quiet t u) :
    TableScanned s p n done u where
  findable := h.findable.quiet hquiet
  static := h.static.trans (.of_quiet hquiet)
  size := by
    rw [KState.privOf, (hquiet.proc p).priv, (hquiet.priv _).size]
    exact h.size
  others q hq := by
    rw [hquiet.tables]
    exact h.others q hq
  entries i hi := by
    obtain ⟨tabent, htab, hflags, hopen⟩ := h.entries i hi
    rw [hquiet.tables]
    refine ⟨tabent, htab, hflags, fun hop =>
      ⟨(hopen hop).1.kept (.of_quiet hquiet) ?_, (hopen hop).2⟩⟩
    exact fun d _ hasyn => ((hquiet.proc d).asyn).trans hasyn

theorem done_flags (result : Errno) :
    badAsynFlags (tabent.flags ||| AMF_DONE) = badAsynFlags tabent.flags ∧
      ¬ ({ tabent with result := result, flags := tabent.flags ||| AMF_DONE } : Asynmsg M).Open :=
  ⟨marked_flags.1, fun hopen => marked_flags.2 ⟨hopen.1, hopen.2⟩⟩

theorem TableScanned.finish (h : TableScanned s p i done t) (htab : (t.asyntab p)[i]? = some tabent)
    (hopen : tabent.Open) (result : Errno) :
    TableScanned s p (i + 1) done (finishEntry t p i tabent result) where
  findable := h.findable.setTable h.size _
  static := h.static.trans (static_table _)
  size := h.size
  others q hq := by
    rw [finishEntry, setTable]
    change Function.update t.asyntab p _ q = _
    rw [Function.update_of_ne hq]
    exact h.others q hq
  entries j hj := by
    have hself : (finishEntry t p i tabent result).asyntab p = (t.asyntab p).set i
        { tabent with result := result, flags := tabent.flags ||| AMF_DONE } :=
      Function.update_self ..
    rw [hself]
    by_cases hij : i = j
    · subst hij
      have hlt : i < (t.asyntab p).length := (List.getElem?_eq_some_iff.mp htab).1
      refine ⟨_, List.getElem?_set_self hlt, .inr ?_, fun hop => absurd hop (done_flags result).2⟩
      rw [(done_flags result).1]
      exact hopen.1
    · rw [List.getElem?_set_ne hij]
      exact h.entries j (by omega)

theorem TableScanned.next (h : TableScanned s p i done t)
    (hent : EntrySent p copies i t done done' u) :
    TableScanned s p (i + 1) done' u := by
  cases hent with
  | @skipped tabent htab hclosed hgood =>
    refine ⟨h.findable, h.static, h.size, h.others, fun j hj => ?_⟩
    rcases Nat.lt_succ_iff_lt_or_eq.mp hj with hlt | rfl
    · exact h.entries j hlt
    · refine ⟨tabent, htab, ?_, fun hop => absurd hop hclosed⟩
      by_cases hempty : tabent.flags = 0
      · exact .inl hempty
      · exact .inr (hgood hempty)
  | failed htab hopen _ => exact h.finish htab hopen _
  | unread htab hopen _ _ _ => exact h.finish htab hopen _
  | given htab hopen _ _ _ hgive =>
    have hquiet := Quiet.giveAsync hgive
    refine (h.quiet hquiet).finish ?_ hopen _
    rw [hquiet.tables]
    exact htab
  | @hinted tabent d htab hopen hto _ =>
    have hexpects : ∀ tab : Asynmsg M, Expected t p tab →
        Expected (t.upd d (·.setMisc MF_ASYNMSG)) p tab :=
      fun tab hexp => hexp.kept static_hint fun q _ => hint_kept q
    refine ⟨h.findable.hint, h.static.trans static_hint, ?_, h.others, fun j hj => ?_⟩
    · rw [KState.privOf, static_hint.priv]
      exact h.size
    · rcases Nat.lt_succ_iff_lt_or_eq.mp hj with hlt | rfl
      · obtain ⟨tab, htab', hflags, hop⟩ := h.entries j hlt
        exact ⟨tab, htab', hflags, fun ho => ⟨hexpects tab (hop ho).1, rfl⟩⟩
      · obtain ⟨haddr, hend, hmay⟩ := sendaTo_named hto
        refine ⟨tabent, htab, .inr hopen.1, fun _ => ⟨⟨d, haddr, ?_, ?_, ?_⟩, rfl⟩⟩
        · rw [static_hint.endpoint]
          exact hend
        · rw [upd_proc_self]
          exact isset_or_self
        · rw [static_hint.maySendTo]
          exact hmay

theorem doSenda_findable {c : SendaCall M} (h : Findable s)
    (hs : doSenda s p c = .ok (r, s')) : Findable s' ∧ ∀ q, q ≠ p → DoneStays s s' q := by
  rcases doSenda_cases hs with ⟨-, rfl⟩ | ⟨hsys, -, ⟨-, -, rfl⟩ | ⟨done, t, hloop, hreturned⟩⟩
  · exact ⟨h, fun _ _ => .of_tables rfl⟩
  · exact ⟨h.drop (h.sender hsys), fun _ _ => .of_tables rfl⟩
  · have hreg := h.sender hsys
    have hstart : TableScanned s p 0 true (setTable (setAsynsize s p 0) p c.table) := by
      refine ⟨(h.drop hreg).setTable asynsize_self _, static_asynsize.trans (static_table _),
        asynsize_self, fun q hq => ?_, fun i hi => absurd hi (Nat.not_lt_zero i)⟩
      exact Function.update_of_ne hq ..
    obtain ⟨n, hscanned, hall⟩ := sendaLoop_rule (P := fun n done t => TableScanned s p n done t)
      (fun _ _ _ _ _ _ hP hsent => hP.next hsent) hloop hstart
    have hothers : ∀ q, q ≠ p → DoneStays s t q := by
      intro q hq i tabent htab _
      rw [hscanned.others q hq]
      exact htab
    rcases hreturned with ⟨rfl, -⟩ | ⟨rfl, rfl, rfl⟩
    · exact ⟨hscanned.findable, hothers⟩
    · have hsize : n = c.size := by
        rw [hall rfl, Nat.zero_add]
      subst hsize
      refine ⟨hscanned.findable.assign (hscanned.static.registered.mpr hreg) ?_ ?_, hothers⟩
      · intro i hi
        obtain ⟨tabent, htab, hflags, -⟩ := hscanned.entries i hi
        exact ⟨tabent, htab, hflags⟩
      · intro i tabent hi htab hopen
        obtain ⟨tabent', htab', -, hexp⟩ := hscanned.entries i hi
        obtain rfl := Option.some.inj (htab.symm.trans htab')
        exact (hexp hopen).1

end Senda

section System
variable {tabent : Asynmsg M} {j : ℕ} {source : Option (Slot H)}

structure SameMail (s t : KState H M) (d : Slot H) : Prop where
  delivermsg : (t.proc d).delivermsg = (s.proc d).delivermsg
  box : (t.proc d).miscIsset MF_DELIVERMSG = (s.proc d).miscIsset MF_DELIVERMSG

def HandsOver (s t : KState H M) (src d : Slot H) (j : ℕ) : Prop :=
  ∃ tabent, (s.asyntab src)[j]? = some tabent ∧ tabent.Open ∧ Accepted s d tabent ∧
    t.asyntab = Function.update s.asyntab src ((s.asyntab src).set j (marked tabent)) ∧
    (t.proc d).delivermsg = ⟨(s.proc src).endpoint, .user tabent.msg⟩ ∧
    (t.proc d).miscIsset MF_DELIVERMSG = true

theorem LookedFor.hands (h : LookedFor s p source true t) :
    ∃ src j, acceptable source src = true ∧ HandsOver s t src p j := by
  cases h with
  | @found t src j tabent hless hwaits hacc haccept =>
    have hproc : ((handedTo t src p j tabent).upd p fun x => x.ipcStatusAdd (.call .SENDA)).proc p =
        (((t.proc p).accept ⟨0, .user tabent.msg⟩ (t.proc src).endpoint).ipcStatusAdd
          (.call .SENDA)) := by
      have hself : (handedTo t src p j tabent).proc p =
          (t.proc p).accept ⟨0, .user tabent.msg⟩ (t.proc src).endpoint := Function.update_self ..
      rw [upd_proc_self, hself]
    refine ⟨src, j, haccept, tabent, hwaits.2.2.1, hwaits.2.2.2, hacc, ?_, ?_, ?_⟩
    · rw [← hless.tables]
      rfl
    · rw [hproc, Proc.ipcStatusAdd, ← hless.proc]
      split
      · rfl
      · rfl
    · rw [hproc, Proc.ipcStatusAdd]
      split
      · exact isset_or_self
      · exact isset_or_self

theorem LookedFor.same_mail (h : LookedFor s p source false t) :
    t.asyntab = s.asyntab ∧ ∀ d, SameMail s t d := by
  cases h with
  | nothing _ huntouched _ =>
    exact ⟨huntouched.tables, fun d => ⟨(huntouched.mail d).1, (huntouched.mail d).2⟩⟩

theorem LookedFor.finds {found : Bool} {src : Slot H} (h : LookedFor s p source found t)
    (hwaits : Undelivered s src j tabent) (hacc : Accepted s p tabent)
    (haccept : acceptable source src = true) : found = true := by
  cases h with
  | found => rfl
  | nothing _ _ hnone => exact absurd hacc (hnone src j tabent haccept hwaits)

theorem rescheduled_mail (h : Rescheduled s t) (d : Slot H) : SameMail s t d := by
  rcases h.proc d with hsame | ⟨-, hset⟩
  · exact ⟨by rw [hsame], by rw [hsame]⟩
  · constructor
    · rw [hset]
      rfl
    · rw [hset]
      rfl

theorem status_mail (x : Proc H M) (item : StatusItem) :
    (x.ipcStatusAdd item).delivermsg = x.delivermsg ∧
      (x.ipcStatusAdd item).miscIsset MF_DELIVERMSG = x.miscIsset MF_DELIVERMSG := by
  rw [Proc.ipcStatusAdd]
  split
  · exact ⟨rfl, rfl⟩
  · exact ⟨rfl, rfl⟩

theorem giveAsync_mail {msg : M} (h : giveAsync s p d msg = .ok t) :
    (t.proc d).delivermsg = ⟨(s.proc p).endpoint, .user msg⟩ ∧
      (t.proc d).miscIsset MF_DELIVERMSG = true := by
  rw [giveAsync] at h
  obtain ⟨hmail, hbox⟩ := rescheduled_mail (Rescheduled.rtsUnset h) d
  obtain ⟨hstatus, hstatusBox⟩ := status_mail
    ((s.proc d).accept ⟨0, .user msg⟩ (s.proc p).endpoint) (.call .SENDA)
  rw [hmail, hbox, KState.setRts, upd_proc_self, upd_proc_self]
  exact ⟨hstatus, hstatusBox.trans isset_or_self⟩

theorem giveAsync_other {msg : M} {q : Slot H} (h : giveAsync s p d msg = .ok t) (hq : q ≠ d) :
    SameMail s t q ∧ (t.proc q).rtsIsset RTS_RECEIVING = (s.proc q).rtsIsset RTS_RECEIVING := by
  constructor
  · rw [giveAsync] at h
    obtain ⟨hmail, hbox⟩ := rescheduled_mail (Rescheduled.rtsUnset h) q
    rw [setRts_proc_of_ne hq, upd_proc_of_ne hq] at hmail hbox
    exact ⟨hmail, hbox⟩
  · change (t.marks q).receiving = (s.marks q).receiving
    rw [giveAsync_marks h, Function.update_of_ne hq]

theorem giveAsync_waits {msg : M} (h : giveAsync s p d msg = .ok t) :
    (t.proc d).rtsIsset RTS_RECEIVING = false := by
  change (t.marks d).receiving = false
  rw [giveAsync_marks h, Function.update_self]
  rfl

def SentTo (t : KState H M) (p : Slot H) (table : List (Asynmsg M)) (i : ℕ) (d : Slot H) : Prop :=
  ∃ tabent, table[i]? = some tabent ∧ tabent.Open ∧ (t.proc d).endpoint = tabent.dst ∧
    (t.asyntab p)[i]? = some (marked tabent) ∧
    (t.proc d).delivermsg = ⟨(t.proc p).endpoint, .user tabent.msg⟩ ∧
    (t.proc d).miscIsset MF_DELIVERMSG = true ∧ (t.proc d).rtsIsset RTS_RECEIVING = false

def failed (tabent : Asynmsg M) (result : Errno) : Asynmsg M :=
  { tabent with result := result, flags := tabent.flags ||| AMF_DONE }

structure Posts (s t : KState H M) (p : Slot H) (table : List (Asynmsg M)) (n : ℕ) : Prop where
  mail : ∀ d, SameMail s t d ∨ ∃ i < n, SentTo t p table i d
  entries : ∀ i < n, ∀ tabent, table[i]? = some tabent → tabent.Open →
    (t.asyntab p)[i]? = some tabent ∨
      (∃ result, result ≠ .OK ∧ (t.asyntab p)[i]? = some (failed tabent result)) ∨
      ∃ d, SentTo t p table i d
  rest : ∀ i, n ≤ i → (t.asyntab p)[i]? = table[i]?

theorem SameMail.trans (h : SameMail s t d) (h' : SameMail t u d) : SameMail s u d :=
  ⟨h'.delivermsg.trans h.delivermsg, h'.box.trans h.box⟩

def SameWait (t u : KState H M) (d : Slot H) : Prop :=
  SameMail t u d ∧ (u.proc d).rtsIsset RTS_RECEIVING = (t.proc d).rtsIsset RTS_RECEIVING

theorem SentTo.kept {table : List (Asynmsg M)} {i : ℕ} (h : SentTo t p table i d)
    (hend : ∀ q, (u.proc q).endpoint = (t.proc q).endpoint) (hsame : SameWait t u d)
    (htab : (u.asyntab p)[i]? = (t.asyntab p)[i]?) : SentTo u p table i d := by
  obtain ⟨tabent, hent, hopen, hdst, hmarked, hmail, hbox, hwait⟩ := h
  refine ⟨tabent, hent, hopen, (hend d).trans hdst, htab.trans hmarked, ?_, ?_, ?_⟩
  · rw [hsame.1.delivermsg, hend]
    exact hmail
  · exact hsame.1.box.trans hbox
  · exact hsame.2.trans hwait

theorem Posts.step {table : List (Asynmsg M)} {n : ℕ} (h : Posts s t p table n)
    (hend : ∀ q, (u.proc q).endpoint = (t.proc q).endpoint)
    (hmail : ∀ d, SameWait t u d ∨
      SentTo u p table n d ∧ (t.proc d).rtsIsset RTS_RECEIVING = true)
    (htab : ∀ i, i ≠ n → (u.asyntab p)[i]? = (t.asyntab p)[i]?)
    (hentry : ∀ tabent, table[n]? = some tabent → tabent.Open →
      (u.asyntab p)[n]? = some tabent ∨
        (∃ result, result ≠ .OK ∧ (u.asyntab p)[n]? = some (failed tabent result)) ∨
        ∃ d, SentTo u p table n d) : Posts s u p table (n + 1) := by
  have hkept : ∀ i < n, ∀ d, SentTo t p table i d → SentTo u p table i d := by
    intro i hi d hsent
    rcases hmail d with hsame | ⟨-, hwaited⟩
    · exact hsent.kept hend hsame (htab i hi.ne)
    · obtain ⟨-, -, -, -, -, -, -, hwait⟩ := hsent
      rw [hwait] at hwaited
      cases hwaited
  refine ⟨fun d => ?_, fun i hi tabent hent hopen => ?_, fun i hi => ?_⟩
  · rcases hmail d with hsame | ⟨hsent, -⟩
    · rcases h.mail d with hfirst | ⟨i, hi, hsent⟩
      · exact .inl (hfirst.trans hsame.1)
      · exact .inr ⟨i, by omega, hkept i hi d hsent⟩
    · exact .inr ⟨n, by omega, hsent⟩
  · rcases Nat.lt_succ_iff_lt_or_eq.mp hi with hlt | rfl
    · rw [htab i hlt.ne]
      rcases h.entries i hlt tabent hent hopen with hsame | hfailed | ⟨d, hsent⟩
      · exact .inl hsame
      · exact .inr (.inl hfailed)
      · exact .inr (.inr ⟨d, hkept i hlt d hsent⟩)
    · exact hentry tabent hent hopen
  · rw [htab i (by omega)]
    exact h.rest i (by omega)

theorem Posts.congr {table : List (Asynmsg M)} {n : ℕ} (h : Posts s t p table n)
    (hproc : u.proc = t.proc) (htab : u.asyntab = t.asyntab) : Posts s u p table n := by
  have hsame (d : Slot H) : SameWait t u d := ⟨⟨by rw [hproc], by rw [hproc]⟩, by rw [hproc]⟩
  have hkept {i : ℕ} {d : Slot H} (hsent : SentTo t p table i d) : SentTo u p table i d :=
    hsent.kept (fun q => by rw [hproc]) (hsame d) (by rw [htab])
  refine ⟨fun d => ?_, fun i hi tabent hent hopen => ?_, fun i hi => ?_⟩
  · rcases h.mail d with hfirst | ⟨i, hi, hsent⟩
    · exact .inl (hfirst.trans (hsame d).1)
    · exact .inr ⟨i, hi, hkept hsent⟩
  · rw [htab]
    rcases h.entries i hi tabent hent hopen with hwaits | hfailed | ⟨d, hsent⟩
    · exact .inl hwaits
    · exact .inr (.inl hfailed)
    · exact .inr (.inr ⟨d, hkept hsent⟩)
  · rw [htab]
    exact h.rest i hi

theorem sendaTo_error (h : sendaTo s p e = .error r) : r ≠ .OK := by
  rw [sendaTo] at h
  split at h
  · cases h
    decide
  · split_ifs at h
    all_goals
      cases h
      decide

theorem Posts.finish {table : List (Asynmsg M)} {n : ℕ} (h : Posts s t p table n)
    (htab : (t.asyntab p)[n]? = some tabent) (hr : r ≠ .OK) :
    Posts s (finishEntry t p n tabent r) p table (n + 1) := by
  have hself : (finishEntry t p n tabent r).asyntab p = (t.asyntab p).set n (failed tabent r) :=
    Function.update_self ..
  refine h.step (fun _ => rfl) (fun d => .inl ⟨⟨rfl, rfl⟩, rfl⟩) (fun i hi => ?_)
    fun tabent' hent _ => .inr (.inl ⟨r, hr, ?_⟩)
  · rw [hself, List.getElem?_set_ne hi.symm]
  · obtain rfl := Option.some.inj (htab.symm.trans ((h.rest n le_rfl).trans hent))
    rw [hself]
    exact List.getElem?_set_self (List.getElem?_eq_some_iff.mp htab).1

theorem Posts.next {table : List (Asynmsg M)} {copies : ℕ → Bool} {i : ℕ} {done done' : Bool}
    (h : Posts s t p table i) (hent : EntrySent p copies i t done done' u) :
    Posts s u p table (i + 1) := by
  cases hent with
  | @skipped tabent htab hclosed _ =>
    refine h.step (fun _ => rfl) (fun d => .inl ⟨⟨rfl, rfl⟩, rfl⟩) (fun _ _ => rfl)
      fun tabent' hent hopen => ?_
    obtain rfl := Option.some.inj (htab.symm.trans ((h.rest i le_rfl).trans hent))
    exact absurd hopen hclosed
  | failed htab _ hto => exact h.finish htab (sendaTo_error hto)
  | unread htab => exact h.finish htab (by decide)
  | @given tabent d w htab hopen hto htakes _ hgive =>
    have hquiet := Quiet.giveAsync hgive
    have hend (q : Slot H) : (w.proc q).endpoint = (t.proc q).endpoint := (hquiet.proc q).endpoint
    obtain ⟨hmail, hbox⟩ := giveAsync_mail hgive
    have hwait := giveAsync_waits hgive
    have hself : (finishEntry w p i tabent .OK).asyntab p = (w.asyntab p).set i (marked tabent) :=
      Function.update_self ..
    have hwaited : (t.proc d).rtsIsset RTS_RECEIVING = true := by
      rw [takesAsync, Proc.willReceive] at htakes
      simp only [Bool.and_eq_true] at htakes
      exact htakes.1.1.1
    have hsent : SentTo (finishEntry w p i tabent .OK) p table i d := by
      refine ⟨tabent, (h.rest i le_rfl).symm.trans htab, hopen, ?_, ?_, ?_, hbox, hwait⟩
      · exact (hend d).trans (sendaTo_named hto).2.1
      · rw [hself, hquiet.tables]
        exact List.getElem?_set_self (List.getElem?_eq_some_iff.mp htab).1
      · exact hmail.trans (by rw [← hend p]; rfl)
    refine h.step hend (fun q => ?_) (fun j hj => ?_) fun _ _ _ => .inr (.inr ⟨d, hsent⟩)
    · by_cases hq : q = d
      · subst hq
        exact .inr ⟨hsent, hwaited⟩
      · obtain ⟨hmail', hwait'⟩ := giveAsync_other hgive hq
        exact .inl ⟨⟨hmail'.delivermsg, hmail'.box⟩, hwait'⟩
    · rw [hself, List.getElem?_set_ne hj.symm, hquiet.tables]
  | @hinted tabent d htab =>
    refine h.step (fun q => static_hint.endpoint q) (fun q => .inl ?_) (fun _ _ => rfl)
      fun tabent' hent _ => .inl ((h.rest i le_rfl).trans hent)
    by_cases hq : q = d
    · subst hq
      rw [SameWait, upd_proc_self]
      refine ⟨⟨?_, ?_⟩, rfl⟩
      · rw [upd_proc_self]
        rfl
      · rw [upd_proc_self]
        exact isset_or (by decide)
    · have hsame : (t.upd d (·.setMisc MF_ASYNMSG)).proc q = t.proc q := upd_proc_of_ne hq
      exact ⟨⟨by rw [hsame], by rw [hsame]⟩, by rw [hsame]⟩

theorem doSenda_posts {c : SendaCall M} (hs : doSenda s p c = .ok (r, t)) :
    (t.asyntab = s.asyntab ∧ ∀ d, SameMail s t d) ∨ ∃ n ≤ c.size, Posts s t p c.table n := by
  rcases doSenda_cases hs with ⟨-, rfl⟩ | ⟨-, -, ⟨-, -, rfl⟩ | ⟨done, u, hloop, hreturned⟩⟩
  · exact .inl ⟨rfl, fun d => ⟨rfl, rfl⟩⟩
  · exact .inl ⟨rfl, fun d => ⟨rfl, rfl⟩⟩
  · have hself : (setTable (setAsynsize s p 0) p c.table).asyntab p = c.table :=
      Function.update_self ..
    have hstart : Posts s (setTable (setAsynsize s p 0) p c.table) p c.table 0 := by
      refine ⟨fun d => .inl ⟨rfl, rfl⟩, fun i hi => absurd hi (Nat.not_lt_zero i), fun i _ => ?_⟩
      rw [hself]
    obtain ⟨n, ⟨hn, hposts⟩, -⟩ := sendaLoop_rule
      (P := fun n _ u => n ≤ c.size ∧ Posts s u p c.table n)
      (fun _ _ _ _ _ hlt hP hsent => ⟨by omega, hP.2.next hsent⟩) hloop ⟨Nat.zero_le _, hstart⟩
    refine .inr ⟨n, hn, ?_⟩
    rcases hreturned with ⟨rfl, -⟩ | ⟨-, -, rfl⟩
    · exact hposts
    · exact hposts.congr rfl rfl

theorem receiveNotify_congr (hpriv : t.priv = s.priv) (hp : (t.proc p).priv = (s.proc p).priv)
    (hmisc : (t.proc p).miscFlags = (s.proc p).miscFlags)
    (h : receiveNotify s p source = .ok none) : receiveNotify t p source = .ok none := by
  rw [receiveNotify, Proc.miscIsset] at h ⊢
  rw [hmisc]
  split at h
  · rename_i hreply
    rw [if_pos hreply]
    rfl
  · rename_i hreply
    rw [if_neg hreply]
    obtain ⟨pending, hpending, h⟩ := bind_ok.mp h
    rw [pendingNotify_congr hpriv hp, hpending]
    cases pending with
    | none => rfl
    | some x => cases h

structure SameReceiver (s v : KState H M) : Prop where
  quiet : Quiet s v
  priv : v.priv = s.priv
  rts : ∀ i, (v.proc i).rtsFlags = (s.proc i).rtsFlags
  misc : ∀ i, (v.proc i).miscFlags = (s.proc i).miscFlags

theorem sameReceiver (s : KState H M) (p : Slot H) (mBuffUsr : ℕ) :
    SameReceiver s (s.upd p fun x => { x with delivermsgVir := mBuffUsr }) := by
  have hproc (i : Slot H) : (s.upd p fun x => { x with delivermsgVir := mBuffUsr }).proc i =
      if i = p then { s.proc p with delivermsgVir := mBuffUsr } else s.proc i := proc_upd_apply ..
  refine ⟨.upd fun _ => ⟨rfl, rfl, rfl⟩, rfl, fun i => ?_, fun i => ?_⟩
  all_goals
    rw [hproc]
    split
    · rename_i hi
      rw [hi]
    · rfl

namespace SameReceiver
variable {v : KState H M}

theorem isokendpt (h : SameReceiver s v) (e : ℤ) : isokendpt v e = isokendpt s e := by
  rw [Kernel.isokendpt, Kernel.isokendpt]
  cases procAddr H (H.endpointP e) with
  | error _ => rfl
  | ok i =>
    dsimp only
    rw [Proc.isEmpty, Proc.isEmpty, h.rts, (h.quiet.proc i).endpoint]

theorem receiveSource (h : SameReceiver s v) (e : ℤ) : receiveSource v e = receiveSource s e := by
  rw [Kernel.receiveSource, Kernel.receiveSource, okendpt, okendpt, h.isokendpt]

theorem sourceGone (h : SameReceiver s v) : sourceGone v source = sourceGone s source := by
  cases source with
  | none => rfl
  | some src =>
    change (v.proc src).rtsIsset RTS_NO_ENDPOINT = (s.proc src).rtsIsset RTS_NO_ENDPOINT
    rw [Proc.rtsIsset, Proc.rtsIsset, h.rts]

theorem miscIsset (h : SameReceiver s v) (f : Flags) :
    (v.proc p).miscIsset f = (s.proc p).miscIsset f := by
  rw [Proc.miscIsset, Proc.miscIsset, h.misc]

theorem accepted (h : SameReceiver s v) : Accepted v p tabent ↔ Accepted s p tabent := by
  rw [Accepted, Accepted, (h.quiet.proc p).endpoint, h.miscIsset]

theorem hands (h : SameReceiver s v) (hhands : HandsOver v t src p j) : HandsOver s t src p j := by
  obtain ⟨tabent, htab, hopen, hacc, hafter, hmail, hbox⟩ := hhands
  rw [h.quiet.tables] at htab hafter
  rw [(h.quiet.proc src).endpoint] at hmail
  exact ⟨tabent, htab, hopen, h.accepted.mp hacc, hafter, hmail, hbox⟩

end SameReceiver

theorem receive_finds {mBuffUsr : ℕ} {nonBlocking : Bool} (h : Findable s)
    (hwaits : Undelivered s src j tabent) (hacc : Accepted s p tabent)
    (hsource : receiveSource s e = .ok source) (haccept : acceptable source src = true)
    (hgone : sourceGone s source = false) (hbox : (s.proc p).miscIsset MF_DELIVERMSG = false)
    (hsending : (s.proc p).rtsIsset RTS_SENDING = false)
    (hnote : receiveNotify s p source = .ok none) :
    ∃ t src' j', miniReceive s p e mBuffUsr nonBlocking = .ok (.OK, t) ∧
      acceptable source src' = true ∧ HandsOver s t src' p j' := by
  have hsame := sameReceiver s p mBuffUsr
  generalize hv : (s.upd p fun x => { x with delivermsgVir := mBuffUsr }) = v at hsame
  have hempty : (v.proc p).miscIsset MF_DELIVERMSG = false := (hsame.miscIsset _).trans hbox
  obtain ⟨found, t, ht, hlooked⟩ :=
    receiveAsync_looked source (h.quiet hsame.quiet) hempty
  obtain rfl : found = true :=
    hlooked.finds (hsame.quiet.undelivered.mpr hwaits) (hsame.accepted.mpr hacc) haccept
  have hnoted : receiveNotify v p source = .ok none :=
    receiveNotify_congr hsame.priv (hsame.quiet.proc p).priv (hsame.misc p) hnote
  have hidle : (v.proc p).rtsIsset RTS_SENDING = false := by
    rw [Proc.rtsIsset, hsame.rts]
    exact hsending
  have havailable : receiveAvailable v p source = .ok (true, t) := by
    rw [receiveAvailable, if_neg (by rw [hidle]; decide), hnoted]
    change (receiveAsync v p source >>= _) = _
    rw [ht]
    rfl
  have hreceived : miniReceive s p e mBuffUsr nonBlocking =
      .ok (.OK, t.upd p (·.clearMisc MF_REPLY_PEND)) := by
    rw [miniReceive, hbox]
    change (receiveSource (s.upd p fun x => { x with delivermsgVir := mBuffUsr }) e >>= _) = _
    rw [hv, hsame.receiveSource, hsource]
    change (if sourceGone v source = true then _ else _) = _
    rw [hsame.sourceGone, hgone]
    change (receiveAvailable v p source >>= _) = _
    rw [havailable]
    rfl
  obtain ⟨src', j', haccept', hhands⟩ := hlooked.hands
  refine ⟨_, src', j', hreceived, haccept', ?_⟩
  obtain ⟨tabent', htab, hopen, hacc', hafter, hmail, hfull⟩ := hsame.hands hhands
  refine ⟨tabent', htab, hopen, hacc', hafter, ?_, ?_⟩
  · rw [upd_proc_self]
    exact hmail
  · rw [upd_proc_self]
    exact (isset_clear (by decide)).trans hfull

structure AsyncBooted (s : KState H M) : Prop where
  named : ∀ i, procAddr H (H.endpointP (s.proc i).endpoint) = .ok i
  owners : ∀ id, (s.priv id).sProcNr = H.none ∨
    ∃ p, (s.priv id).sProcNr = procNr p ∧ (s.proc p).priv = id
  owned : ∀ p, OwnPrivileges s p
  user : (s.priv H.userPrivId).has SYS_PROC = false
  empty : ∀ id, (s.priv id).sAsynsize = 0

def asyncSystem (H : Headers) (M : Type) :
    TransitionSystem (KState H M) (Slot H × CallEvent H M) where
  initial := AsyncBooted
  step s e s' := e.2.Happens s e.1 s'

def CallEvent.replaces (p q : Slot H) : CallEvent H M → Prop
  | .senda _ _ => p = q
  | _ => False

theorem AsyncBooted.findable (h : AsyncBooted s) : Findable s where
  named := h.named
  owners := h.owners
  owned := h.owned
  user := h.user
  tables src _ i hi := by
    rw [KState.privOf, h.empty] at hi
    exact absurd hi (Nat.not_lt_zero i)
  expected src i tabent hwaits := by
    have hi := hwaits.2.1
    rw [KState.privOf, h.empty] at hi
    exact absurd hi (Nat.not_lt_zero i)

theorem Quiet.delivermsg {m : Message M} (h : delivermsg s p = .ok (m, t)) : Quiet s t := by
  rw [Kernel.delivermsg] at h
  obtain ⟨-, h⟩ := kassert_bind_ok.mp h
  obtain ⟨-, h⟩ := kassert_bind_ok.mp h
  cases h
  exact .upd fun _ => ⟨rfl, rfl, isset_clear (by decide)⟩

theorem happens_findable {e : CallEvent H M} (h : Findable s) (hs : e.Happens s p s') :
    Findable s' ∧ ∀ q, ¬ e.replaces p q → DoneStays s s' q := by
  have hswitch : Quiet s (s.switchTo p) := ⟨fun _ => .refl _, fun _ => ⟨rfl, rfl, rfl, rfl⟩, rfl⟩
  have hstart := KeepsFindable.of_quiet h hswitch
  cases e with
  | call c r =>
    obtain ⟨-, -, hs⟩ := hs
    have hfollows := hstart.trans (doSyncIpc_follows hstart.1 hs)
    exact ⟨hfollows.1, fun q _ => hfollows.2 q⟩
  | senda c r =>
    obtain ⟨-, -, hs⟩ := hs
    obtain ⟨hfindable, hothers⟩ := doSenda_findable hstart.1 hs
    exact ⟨hfindable, fun q hq => hothers q fun hqp => hq hqp.symm⟩
  | deliver m =>
    obtain ⟨-, hs⟩ := hs
    have hfollows := hstart.quiet (.delivermsg hs)
    exact ⟨hfollows.1, fun q _ => hfollows.2 q⟩
  | rtsSet q f =>
    obtain ⟨-, -, hs⟩ := hs
    have hfollows := hstart.quiet (.rtsSet hs)
    exact ⟨hfollows.1, fun q _ => hfollows.2 q⟩
  | rtsUnset q f =>
    obtain ⟨-, hs⟩ := hs
    have hfollows := hstart.quiet (.rtsUnset hs)
    exact ⟨hfollows.1, fun q _ => hfollows.2 q⟩

structure AsyncSound (past : List (KState H M × Slot H × CallEvent H M)) (s : KState H M) :
    Prop where
  hinted : ∀ src i tabent d, Undelivered s src i tabent → isokendpt s tabent.dst = some d →
    (s.proc d).miscIsset MF_ASYNMSG = true
  received : ∀ v p source found t, Quiet s v → (v.proc p).miscIsset MF_DELIVERMSG = false →
    receiveAsync v p source = .ok (found, t) →
    (found = true ∧ ∃ src j, acceptable source src = true ∧ HandsOver v t src p j) ∨
      (found = false ∧ t.asyntab = v.asyntab ∧ ∀ d, SameMail v t d)
  sent : ∀ v p c r t, Quiet s v → doSenda v p c = .ok (r, t) →
    (t.asyntab = v.asyntab ∧ ∀ d, SameMail v t d) ∨ ∃ n ≤ c.size, Posts v t p c.table n
  found : ∀ v p e source mBuffUsr nonBlocking src j tabent, Quiet s v →
    Undelivered v src j tabent → Accepted v p tabent → receiveSource v e = .ok source →
    acceptable source src = true → sourceGone v source = false →
    (v.proc p).miscIsset MF_DELIVERMSG = false → (v.proc p).rtsIsset RTS_SENDING = false →
    receiveNotify v p source = .ok none →
    ∃ t src' j', miniReceive v p e mBuffUsr nonBlocking = .ok (.OK, t) ∧
      acceptable source src' = true ∧ HandsOver v t src' p j'
  once : ∀ later t x earlier q, past = later ++ (t, x) :: earlier →
    (∀ y ∈ later, ¬ y.2.2.replaces y.2.1 q) → ¬ x.2.replaces x.1 q → DoneStays t s q

theorem run_doneStays {past : List (KState H M × Slot H × CallEvent H M)}
    (h : Run (asyncSystem H M) always past s) : Findable s ∧
      ∀ later t x earlier q, past = later ++ (t, x) :: earlier →
        (∀ y ∈ later, ¬ y.2.2.replaces y.2.1 q) → ¬ x.2.replaces x.1 q → DoneStays t s q := by
  refine h.trace_invariant (P := fun past s => Findable s ∧
    ∀ later t x earlier q, past = later ++ (t, x) :: earlier →
      (∀ y ∈ later, ¬ y.2.2.replaces y.2.1 q) → ¬ x.2.replaces x.1 q → DoneStays t s q) ?_ ?_
  · intro s hs
    refine ⟨hs.findable, fun later t x earlier q hpast => ?_⟩
    cases later with
    | nil => cases hpast
    | cons y later => cases hpast
  · intro past s e s' hs _ hstep
    obtain ⟨hfindable, hdone⟩ := happens_findable hs.1 hstep
    refine ⟨hfindable, fun later t x earlier q hpast hlater hx => ?_⟩
    cases later with
    | nil =>
      cases hpast
      exact hdone q hx
    | cons y later =>
      cases hpast
      have hfirst := hlater (s, e) List.mem_cons_self
      refine (hs.2 later t x earlier q rfl (fun y hy => ?_) hx).trans (hdone q hfirst)
      exact hlater y (List.mem_cons_of_mem _ hy)

theorem async_sends {past : List (KState H M × Slot H × CallEvent H M)}
    (h : Run (asyncSystem H M) always past s) : AsyncSound past s := by
  obtain ⟨hfindable, honce⟩ := run_doneStays h
  refine ⟨fun src i tabent d hwaits hlive => ?_, fun v p source found t hquiet hbox hs => ?_,
    fun v p c r t _ hs => doSenda_posts hs, ?_, honce⟩
  · obtain ⟨d', haddr, -, hasyn, -⟩ := hfindable.expected src i tabent hwaits
    obtain ⟨hnr, -⟩ := isokendpt_some hlive
    rw [← hnr, procAddr_procNr] at haddr
    obtain rfl := Except.ok.inj haddr
    exact hasyn
  · obtain ⟨found', t', ht', hlooked⟩ :=
      receiveAsync_looked source (hfindable.quiet hquiet) hbox
    obtain ⟨rfl, rfl⟩ := Prod.mk.inj (Except.ok.inj (hs.symm.trans ht'))
    cases found with
    | true => exact .inl ⟨rfl, hlooked.hands⟩
    | false => exact .inr ⟨rfl, hlooked.same_mail⟩
  · intro v p e source mBuffUsr nonBlocking src j tabent hquiet hwaits hacc hsource haccept hgone
      hbox hsending hnote
    exact receive_finds (hfindable.quiet hquiet) hwaits hacc hsource haccept hgone hbox hsending
      hnote

end System

theorem asyncBooted_services : AsyncBooted KState.services := by
  have hnamed : ∀ i, Headers.sample.endpointP (KState.services.proc i).endpoint = procNr i := by
    decide
  refine ⟨fun i => ?_, by decide, ?_, by decide, by decide⟩
  · rw [hnamed, procAddr_procNr]
  · unfold OwnPrivileges Registered
    decide

def sendaFive : SendaCall ℕ where
  table := [⟨AMF_VALID, Headers.sample.endpoint 1 1, 42, .OK⟩]
  size := 1
  copies := fun _ => true

theorem async_sends_service : ∃ past, ∃ s : KState Headers.sample ℕ,
    Run (asyncSystem _ _) always past s ∧ AsyncSound past s := by
  have hrun : Run (asyncSystem Headers.sample ℕ) always
      [(_, 5, .deliver ⟨32770, .user 42⟩), (_, 5, .call receiveAny .OK),
        (KState.services, 6, .senda sendaFive .OK)] _ :=
    .next (.next (.next (.start asyncBooted_services) trivial ⟨rfl, rfl, rfl⟩) trivial
      ⟨rfl, rfl, rfl⟩) trivial ⟨rfl, rfl⟩
  exact ⟨_, _, hrun, async_sends hrun⟩

end Kernel
