import Cs111.Vfs.PipeData

namespace Vfs
open Tally TransitionSystem

-- The panic of read_write() comes from nowhere else.
section Clear
variable {C : VfsConfig} {L : ℕ → ℕ} {s : VfsState} {p fd f v nbytes : ℕ} {flag : RwFlag} {woken : Woken}
  {callnr : CallNr}

def Clear {α : Type} (x : Except Panic α) : Prop := x ≠ .error .partialNotClear

theorem Clear.bind {α β : Type} {x : Except Panic α} {k : α → Except Panic β} (h : Clear x)
    (hk : ∀ a, Clear (k a)) : Clear (x.bind k) := by
  cases x with
  | error e =>
    intro he
    cases he
    exact h rfl
  | ok a => exact hk a

theorem Clear.map {α β : Type} {x : Except Panic α} {k : α → β} (h : Clear x) : Clear (x.map k) := by
  cases x with
  | error e =>
    intro he
    cases he
    exact h rfl
  | ok a =>
    intro he
    cases he

theorem clear_ok {α : Type} {a : α} : Clear (.ok a) := fun h => by cases h

theorem putVnode_clear : Clear (putVnode s v) := by
  unfold putVnode
  split
  · exact fun h => by cases h
  · exact clear_ok

theorem revive_clear {r : Except Errno ℕ} : Clear (revive p r s) := by
  unfold revive
  dsimp only
  split
  · exact clear_ok
  · split
    · exact clear_ok
    · split
      · split
        · unfold failOpen
          split
          · exact fun h => by cases h
          · dsimp only
            split
            · exact fun h => by cases h
            · exact putVnode_clear.map
        · exact clear_ok
      · split <;> exact clear_ok

theorem selectCallback_clear (woken : Woken) : Clear (selectCallback woken s) := by
  induction woken generalizing s with
  | nil => exact clear_ok
  | cons pr woken ih =>
    unfold selectCallback selectReturn
    refine Clear.bind ?_ fun _ => ih
    split
    · exact revive_clear.map
    · exact clear_ok

theorem releaseFrom_clear (slots : List ℕ) (count : ℤ) :
    Clear (releaseFrom v callnr slots count s) := by
  induction slots generalizing s count with
  | nil => exact clear_ok
  | cons p slots ih =>
    unfold releaseFrom
    split
    · exact clear_ok
    · split
      · next e he =>
        unfold hangs at he
        split at he
        · split at he
          · cases he
            exact fun h => by cases h
          · cases he
        · cases he
      · exact ih _
      · split
        · next e he =>
          have hclear : Clear (revive p (.ok 0) s) := revive_clear
          rw [he] at hclear
          exact fun h => hclear (by cases h; rfl)
        · dsimp only
          split
          · exact fun h => by cases h
          · split
            · exact clear_ok
            · exact ih _

theorem release_clear {count : ℤ} : Clear (release C v callnr count woken s) := by
  unfold release
  refine Clear.bind ?_ fun _ => releaseFrom_clear _ _
  split
  · exact selectCallback_clear woken
  · exact clear_ok

theorem pipeCheck_clear {nonblock : Bool} {pos : ℕ} :
    Clear (pipeCheck C v flag nonblock nbytes pos woken s) := by
  rcases pipeCheck_cases C v flag nonblock nbytes pos woken s with ⟨r, h⟩ | ⟨callnr, r, -, h⟩
  · rw [h]
    exact clear_ok
  · rw [h]
    exact release_clear.map

theorem rwPipe_clear {buf : List Byte} : Clear (rwPipe C flag p fd f buf nbytes woken s) :=
  pipeCheck_clear.map

theorem readWrite_clear {buf : List Byte} (hcum : (s.fproc p).fpCumIoPartial = 0) :
    Clear (readWrite C flag p fd buf nbytes woken s) := by
  unfold readWrite
  generalize (if flag = .READING then R_BIT else W_BIT) = bits
  split
  · exact clear_ok
  · split
    · exact clear_ok
    · split
      · exact clear_ok
      · rw [if_neg fun hne => hne hcum]
        exact rwPipe_clear

end Clear

section Steps
variable {C : VfsConfig} {L : ℕ → ℕ} {s s₀ s' : VfsState} {p fd v nbytes : ℕ} {flag : RwFlag} {woken : Woken}
  {buf last done : List Byte} {m : Moved} {req : Request} {past : List (VfsState × Request)}

theorem Underway.kept {rp rp' : Fproc} (h : Underway C last done rp) (hk : rp.Kept rp') :
    Underway C last done rp' where
  cum := hk.cum.trans h.cum
  rest := by rw [hk.buffer, h.rest]
  nbytes := by rw [hk.nbytes, hk.buffer, h.nbytes]
  pos := by
    rw [hk.nbytes]
    exact h.pos
  whole := h.whole

theorem streams_of_quiet (hs : Streams C past s) (hcall : pipeCall C s req = none)
    (hlast : ∀ q, lastWrite ((s, req) :: past) q = lastWrite past q)
    (hwritten : ∀ q, written C ((s, req) :: past) q = written C past q)
    (hdata : ∀ w, (s.vnode w).vRefCount ≠ 0 → (s.vnode w).SameData (s'.vnode w))
    (hfresh : ∀ w, (s.vnode w).vRefCount = 0 → (s'.vnode w).vRefCount = 0 ∨
      (s'.vnode w).kind ≠ .NAMED_PIPE ∨ ((s'.vnode w).vSize = 0 ∧
        (s'.vnode w).vPipeRdPos = 0 ∧ (s'.vnode w).vPipeWrPos = 0))
    (hproc : ∀ q, (s'.fproc q).free = false → (s.fproc q).Kept (s'.fproc q) ∨
      ((s'.fproc q).fpCumIoPartial = 0 ∧ (s'.fproc q).fpBlockedOn ≠ .PIPE)) :
    Streams C ((s, req) :: past) s' := by
  have hstream : ∀ fl w, stream C fl ((s, req) :: past) w =
      if (s.vnode w).vRefCount = 0 then [] else stream C fl past w := by
    intro fl w
    rw [stream, hcall]
    exact List.append_nil _
  refine ⟨fun q hfree hne => ?_, fun q hfree hb => ?_, fun q hfree hb hnr => ?_,
    fun w hused hkind => ?_⟩
  · rcases hproc q hfree with hk | hz
    · rw [hk.cum] at hne
      obtain ⟨hb, hnr⟩ := hs.cum q (hk.free hfree) hne
      obtain ⟨hb', hnr'⟩ := hk.pipe hb
      exact ⟨hb', hnr'.trans hnr⟩
    · exact absurd hz.1 hne
  · rcases hproc q hfree with hk | hz
    · have hb₀ := hk.back hb
      rw [(hk.pipe hb₀).2]
      exact hs.calls q (hk.free hfree) hb₀
    · exact absurd hb hz.2
  · rcases hproc q hfree with hk | hz
    · have hb₀ := hk.back hb
      rw [(hk.pipe hb₀).2] at hnr
      rw [hlast, hwritten]
      exact (hs.write q (hk.free hfree) hb₀ hnr).kept hk
    · exact absurd hb hz.2
  · rw [hstream, hstream]
    by_cases h0 : (s.vnode w).vRefCount = 0
    · rw [if_pos h0, if_pos h0]
      rcases hfresh w h0 with hn | hn | ⟨hsize, hrd, hwr⟩
      · exact absurd hn hused
      · exact absurd hkind hn
      · refine ⟨⟨by rw [hwr, hsize], by rw [hrd]; exact Nat.zero_le _⟩, ?_⟩
        rw [content, hsize, hrd]
        rfl
    · have hsame := hdata w h0
      obtain ⟨hends, heq⟩ := hs.pipe w h0 (hsame.kind.symm.trans hkind)
      rw [if_neg h0, if_neg h0, content_same hsame]
      exact ⟨hends.same hsame, heq⟩

theorem streams_of_fresh (hs : Streams C past s) (hcall : pipeCall C s req = none)
    (hlast : ∀ q, lastWrite ((s, req) :: past) q = lastWrite past q)
    (hwritten : ∀ q, written C ((s, req) :: past) q = written C past q) (h : Fresh s s') :
    Streams C ((s, req) :: past) s' :=
  streams_of_quiet hs hcall hlast hwritten h.data h.fresh fun q _ => .inl (h.proc q)

theorem streams_of_still (hs : Streams C past s) (hcall : pipeCall C s req = none)
    (hlast : ∀ q, lastWrite ((s, req) :: past) q = lastWrite past q)
    (hwritten : ∀ q, written C ((s, req) :: past) q = written C past q) (h : Still s s') :
    Streams C ((s, req) :: past) s' :=
  streams_of_fresh hs hcall hlast hwritten h.fresh

theorem streams_of_effect (hs : Streams C past s) (hvnode : s₀.vnode = s.vnode)
    (hothers : ∀ q, q ≠ p → s₀.fproc q = s.fproc q)
    (h : PipeEffect C flag p v last done m s₀ s')
    (hcall : pipeCall C s req = some ⟨p, flag, v, m⟩)
    (hlast : ∀ q, q ≠ p → lastWrite ((s, req) :: past) q = lastWrite past q)
    (hwritten : ∀ q, q ≠ p → written C ((s, req) :: past) q = written C past q)
    (hlastp : flag = .WRITING → lastWrite ((s, req) :: past) p = last)
    (hwrittenp : flag = .WRITING → written C ((s, req) :: past) p = done ++ m.bytes) :
    Streams C ((s, req) :: past) s' := by
  have hkept : ∀ q, q ≠ p → (s.fproc q).Kept (s'.fproc q) := fun q hq => by
    rw [← hothers q hq]
    exact h.others q hq
  have hstream : ∀ fl w, stream C fl ((s, req) :: past) w =
      (if (s.vnode w).vRefCount = 0 then [] else stream C fl past w) ++
        if flag = fl ∧ v = w then m.bytes else [] := by
    intro fl w
    rw [stream, hcall]
  refine ⟨fun q hfree hne => ?_, fun q hfree hb => ?_, fun q hfree hb hnr => ?_,
    fun w hused hkind => ?_⟩
  · by_cases hq : q = p
    · rw [hq] at hne ⊢
      exact h.cum hne
    · have hk := hkept q hq
      rw [hk.cum] at hne
      obtain ⟨hb, hnr⟩ := hs.cum q (hk.free hfree) hne
      obtain ⟨hb', hnr'⟩ := hk.pipe hb
      exact ⟨hb', hnr'.trans hnr⟩
  · by_cases hq : q = p
    · rw [hq] at hb ⊢
      exact h.calls hb
    · have hk := hkept q hq
      have hb₀ := hk.back hb
      rw [(hk.pipe hb₀).2]
      exact hs.calls q (hk.free hfree) hb₀
  · by_cases hq : q = p
    · rw [hq] at hb hnr ⊢
      obtain ⟨hflag, hunder⟩ := h.write hb hnr
      rw [hlastp hflag, hwrittenp hflag]
      exact hunder
    · have hk := hkept q hq
      have hb₀ := hk.back hb
      rw [(hk.pipe hb₀).2] at hnr
      rw [hlast q hq, hwritten q hq]
      exact (hs.write q (hk.free hfree) hb₀ hnr).kept hk
  · obtain ⟨hrefs, hkinds⟩ := h.refs w
    rw [hrefs, hvnode] at hused
    rw [hkinds, hvnode] at hkind
    obtain ⟨hends, heq⟩ := hs.pipe w hused hkind
    rw [hstream, hstream, if_neg hused, if_neg hused]
    have hcontent₀ : ∀ w, content s₀ w = content s w := fun w => by rw [content, content, hvnode]
    by_cases hw : v = w
    · subst hw
      rw [← hvnode] at hends
      obtain ⟨hends', hwr, hrd⟩ := h.moved hends
      refine ⟨hends', ?_⟩
      cases flag with
      | WRITING =>
        have hnot : ¬ (RwFlag.WRITING = .READING ∧ v = v) := fun h => by cases h.1
        rw [if_pos ⟨rfl, rfl⟩, if_neg hnot, List.append_nil, heq, hwr rfl, hcontent₀,
          List.append_assoc]
      | READING =>
        have hnot : ¬ (RwFlag.READING = .WRITING ∧ v = v) := fun h => by cases h.1
        rw [if_neg hnot, if_pos ⟨rfl, rfl⟩, List.append_nil, heq, ← hcontent₀, hrd rfl,
          List.append_assoc]
    · have hsame := h.data w (Ne.symm hw)
      rw [hvnode] at hsame
      rw [if_neg fun h => hw h.2, if_neg fun h => hw h.2, List.append_nil, List.append_nil,
        content_same hsame]
      exact ⟨hends.same hsame, heq⟩

theorem streams_finish {m : Moved × VfsState} (hs : Streams C past m.2) :
    Streams C past (finish p m) := by
  unfold finish
  split
  · exact hs
  · exact ⟨hs.cum, hs.calls, hs.write, hs.pipe⟩

theorem readWrite_effect (hs : Refs C L s) (hp : Caller C s p)
    (hcum : (s.fproc p).fpCumIoPartial = 0) (hlen : flag = .WRITING → nbytes = buf.length)
    (h : readWrite C flag p fd buf nbytes woken s = .ok (m, s')) :
    PipeEffect C flag p (vnoOf s p fd) buf [] m s s' := by
  have hended : ∀ r : Except Errno ℕ, (∀ n, r = .ok n → n = 0) →
      PipeEffect C flag p (vnoOf s p fd) buf [] ⟨some r, []⟩ s s := fun r hr =>
    ended_effect hp hcum (.refl s) fun _ n hn => hr n hn
  unfold readWrite at h
  generalize (if flag = .READING then R_BIT else W_BIT) = bits at h
  split at h
  · cases h
    exact hended _ fun n hn => by cases hn
  · next f hf =>
    split at h
    · cases h
      exact hended _ fun n hn => by cases hn
    · split at h
      · cases h
        exact hended _ fun n hn => by cases hn; rfl
      · next hzero =>
        rw [if_neg fun hne => hne hcum] at h
        have hvno : vnoOf s p fd = (s.filp f).filpVno := by rw [vnoOf, hf]
        rw [hvno]
        exact rwPipe_effect hs hp (fun _ => hcum)
          (fun hw => ⟨hcum, rfl, hlen hw, Nat.pos_of_ne_zero hzero, fun _ => rfl⟩)
          (fun _ hne => absurd hcum hne) h

theorem Streams.caller (hs : Streams C past s) (hp : Caller C s p) :
    (s.fproc p).fpCumIoPartial = 0 := by
  by_contra hne
  have hb := (hs.cum p hp.used hne).1
  rw [hp.runs] at hb
  cases hb

theorem streams_of_read (hs : Refs C L s) (hst : Streams C past s) (hp : Caller C s p)
    (h : readWrite C .READING p fd [] nbytes woken s = .ok (m, s')) :
    Streams C ((s, .read p fd nbytes woken) :: past) s' := by
  have heffect := readWrite_effect hs hp (hst.caller hp) (fun hw => by cases hw) h
  refine streams_of_effect hst rfl (fun _ _ => rfl) heffect ?_ (fun _ _ => rfl) (fun _ _ => rfl)
    (fun hw => by cases hw) fun hw => by cases hw
  rw [pipeCall, h]

theorem streams_of_write (hs : Refs C L s) (hst : Streams C past s) (hp : Caller C s p)
    (h : readWrite C .WRITING p fd buf buf.length woken s = .ok (m, s')) :
    Streams C ((s, .write p fd buf woken) :: past) s' := by
  have heffect := readWrite_effect hs hp (hst.caller hp) (fun _ => rfl) h
  have hcall : pipeCall C s (.write p fd buf woken) = some ⟨p, .WRITING, vnoOf s p fd, m⟩ := by
    rw [pipeCall, h]
  refine streams_of_effect hst rfl (fun _ _ => rfl) heffect hcall (fun q hq => ?_) (fun q hq => ?_)
    (fun _ => ?_) fun _ => ?_
  · rw [lastWrite, if_neg (Ne.symm hq)]
  · rw [written, if_neg (Ne.symm hq)]
  · rw [lastWrite, if_pos rfl]
  · rw [written, if_pos rfl, hcall]
    rfl

theorem retry_effect (hs : Refs C L s) (hst : Streams C past s) (hp : p < C.NR_PROCS)
    (hrev : (s.fproc p).reviving) (hpipe : (s.fproc p).fpBlockedOn = .PIPE)
    {outcome : LockOutcome} (hkeeps : KeepsPartial C s (.getWork p woken outcome))
    (h : retryPipe C p woken s = .ok (m, s')) :
    PipeEffect C (retryFlag s p) p (vnoOf s p (s.fproc p).fpBlockFd) (lastWrite past p)
      (written C past p) m (wake p s) s' := by
  obtain ⟨hwoken, hcaller⟩ := wake_refs hs hp hrev
  obtain ⟨f, hf, hmoved⟩ := retryPipe_ok h
  have hself : (wake p s).fproc p =
      { s.fproc p with fpBlockedOn := .NONE, fpRevived := false } := Function.update_self _ _ _
  have hcum : ((wake p s).fproc p).fpCumIoPartial = (s.fproc p).fpCumIoPartial := by rw [hself]
  have hvno : vnoOf s p (s.fproc p).fpBlockFd = (s.filp f).filpVno := by rw [vnoOf, hf]
  have hwriting : retryFlag s p = .WRITING → (s.fproc p).fpBlockCallnr = .WRITE := by
    intro hw
    rcases hst.calls p hrev.1 hpipe with hr | hw'
    · rw [retryFlag, if_pos hr] at hw
      cases hw
    · exact hw'
  rw [hvno]
  refine rwPipe_effect hwoken hcaller (fun hr => ?_) (fun hw => ?_) (fun hw hne => ?_) hmoved
  · rw [hcum]
    by_contra hne
    have hnr := (hst.cum p hrev.1 hne).2
    rw [retryFlag, hnr, if_neg (by decide)] at hr
    cases hr
  · have hunder := hst.write p hrev.1 hpipe (hwriting hw)
    rw [hcum]
    exact ⟨hunder.cum, hunder.rest, hunder.nbytes, hunder.pos, hunder.whole⟩
  · rw [hcum] at hne
    exact hkeeps hne f hf

theorem streams_of_getWork {outcome : LockOutcome} (hs : Refs C L s) (hst : Streams C past s)
    (hp : (∃ q < C.NR_PROCS, (s.fproc q).reviving) → p < C.NR_PROCS ∧ (s.fproc p).reviving)
    (hkeeps : KeepsPartial C s (.getWork p woken outcome))
    (h : getWork C p woken outcome s = .ok s') :
    Streams C ((s, .getWork p woken outcome) :: past) s' := by
  obtain ⟨hsome, hwork⟩ := getWork_ok h
  obtain ⟨hslot, hrev⟩ := hp hsome
  obtain ⟨hwoken, hcaller⟩ := wake_refs hs hslot hrev
  rcases hwork with ⟨hpipe, m, s₁, hretry, rfl⟩ | ⟨hpipe, hlock⟩
  · have heffect := retry_effect hs hst hslot hrev hpipe hkeeps hretry
    have hcall : pipeCall C s (.getWork p woken outcome) =
        some ⟨p, retryFlag s p, vnoOf s p (s.fproc p).fpBlockFd, m⟩ := by
      rw [pipeCall, if_pos hpipe, hretry]
    have hvnode : (wake p s).vnode = s.vnode := rfl
    refine streams_finish (streams_of_effect hst hvnode (fun q hq => ?_) heffect hcall
      (fun _ _ => rfl) (fun q hq => ?_) (fun _ => rfl) fun hw => ?_)
    · exact Function.update_of_ne hq _ _
    · rw [written, hcall]
      dsimp only
      rw [if_neg fun h => hq h.1.symm, List.append_nil]
    · rw [written, hcall]
      dsimp only
      rw [if_pos ⟨rfl, hw⟩]
  · have hcall : pipeCall C s (.getWork p woken outcome) = none := by rw [pipeCall, if_neg hpipe]
    refine streams_of_still hst hcall (fun _ => rfl) (fun q => ?_)
      ((wake_still hpipe).trans (lockOp_still hwoken.waits hcaller hlock))
    rw [written, hcall, List.append_nil]

theorem streams_of_signal {e : Option Errno} (hs : Refs C L s) (hst : Streams C past s)
    (hcum : (s.fproc p).fpCumIoPartial = 0) :
    Streams C ((s, .signal p e) :: past) (unpause p e s) := by
  rcases unpause_cases (p := p) (e := e) hs.waits with hsame | hends
  · rw [hsame.1]
    exact streams_of_still hst rfl (fun _ => rfl) (fun _ => rfl) (.refl s)
  · refine streams_of_quiet hst rfl (fun _ => rfl) (fun _ => rfl) (fun w _ => ?_) (fun w hw => ?_)
      fun q _ => ?_
    · rw [hends.vnode]
      exact .refl _
    · rw [hends.vnode]
      exact .inl hw
    · by_cases hq : q = p
      · right
        rw [hends.fproc, hq, Function.update_self]
        exact ⟨hcum, fun h => by cases h⟩
      · exact .inl (hends.kept hq)

theorem streams_of_fork {c : ℕ} (hs : Refs C L s) (hst : Streams C past s) (hp : Caller C s p) :
    Streams C ((s, .fork p c) :: past) (pmFork C p c s) := by
  have hstill := pmFork_still (c := c) hs hp.slot
  have hcopied : ∀ q, q ≠ c → (setProc s c (s.fproc p)).fproc q = s.fproc q := fun q hq =>
    Function.update_of_ne hq _ _
  have hself : (setProc s c (s.fproc p)).fproc c = s.fproc p := Function.update_self _ _ _
  refine streams_of_quiet hst rfl (fun _ => rfl) (fun _ => rfl) (fun w _ => hstill.data w)
    (fun w hw => .inl (hstill.unused w hw)) fun q _ => ?_
  have hk := hstill.proc q
  by_cases hq : q = c
  · right
    subst hq
    rw [hself] at hk
    refine ⟨hk.cum.trans (hst.caller hp), fun hb => ?_⟩
    have hb := hk.back hb
    rw [hp.runs] at hb
    cases hb
  · left
    rw [hcopied q hq] at hk
    exact hk

theorem streams_of_exit {a : ExitArgs} (hs : Refs C L s) (hst : Streams C past s)
    (h : freeProc C p a s = .ok s') : Streams C ((s, .exit p a) :: past) s' := by
  obtain ⟨hdata, hunused, hkept, hfree⟩ := freeProc_still hs h
  refine streams_of_quiet hst rfl (fun _ => rfl) (fun _ => rfl) (fun w _ => hdata w)
    (fun w hw => .inl (hunused w hw)) fun q hused => .inl (hkept q ?_)
  rintro rfl
  rw [hfree] at hused
  cases hused

theorem streams_step (hs : Refs C L s) (hst : Streams C past s) (hsent : Sent C s req)
    (hkeeps : KeepsPartial C s req) (h : handle C s req = .ok s') :
    Streams C ((s, req) :: past) s' := by
  cases req with
  | read p fd nbytes woken =>
    obtain ⟨⟨m, s₁⟩, hread, rfl⟩ := ok_of_map h
    exact streams_finish (streams_of_read hs hst hsent.2.1 hread)
  | write p fd buf woken =>
    obtain ⟨⟨m, s₁⟩, hwrite, rfl⟩ := ok_of_map h
    exact streams_finish (streams_of_write hs hst hsent.2.1 hwrite)
  | openFifo p lost v vSize bits nonblock callnr =>
    exact streams_of_fresh hst rfl (fun _ => rfl) (fun _ => rfl)
      (openFifo_fresh hs hsent.2.1 hkeeps.2.2 h)
  | openOther p lost v vSize kind bits nonblock waits callnr result =>
    obtain ⟨-, hp, -, hnot, hfound, hclones, -⟩ := hsent
    exact streams_of_fresh hst rfl (fun _ => rfl) (fun _ => rfl)
      (openOther_fresh hs hp hkeeps.2.2 hnot hfound hclones hkeeps.2.1 h)
  | openMissing p lost r =>
    cases h
    exact streams_of_fresh hst rfl (fun _ => rfl) (fun _ => rfl) (openMissing_fresh hkeeps.2.2)
  | pipe p v created =>
    cases h
    exact streams_of_fresh hst rfl (fun _ => rfl) (fun _ => rfl) (doPipe_fresh hsent.2.2)
  | close p fd woken unlocks =>
    exact streams_of_still hst rfl (fun _ => rfl) (fun _ => rfl) (doClose_still hs h)
  | dup p fd start =>
    cases h
    exact streams_of_still hst rfl (fun _ => rfl) (fun _ => rfl) still_doDup
  | dup2 p fd fd2 woken unlocks =>
    exact streams_of_still hst rfl (fun _ => rfl) (fun _ => rfl) (doDup2_still hs h)
  | setfl p fd nonblock =>
    cases h
    refine streams_of_still hst rfl (fun _ => rfl) (fun _ => rfl) ?_
    unfold setfl
    split <;> exact still_files rfl rfl
  | lock p fd outcome =>
    exact streams_of_still hst rfl (fun _ => rfl) (fun _ => rfl) (lockOp_still hs.waits hsent.2.1 h)
  | device p fd callnr =>
    cases h
    exact streams_of_still hst rfl (fun _ => rfl) (fun _ => rfl)
      (still_suspend hsent.2.1 (by decide))
  | selectPipe f pos woken =>
    obtain ⟨⟨r, s₁⟩, hcheck, rfl⟩ := ok_of_map h
    exact streams_of_still hst rfl (fun _ => rfl) (fun _ => rfl)
      (pipeCheck_roused hs.waits hcheck).still
  | select p nfds =>
    cases h
    refine streams_of_still hst rfl (fun _ => rfl) (fun _ => rfl) ?_
    have hsuspend : Still s (suspend p .SELECT nfds .SELECT s) :=
      still_suspend hsent (by decide)
    exact hsuspend.trans (still_files rfl rfl)
  | selectWake woken =>
    exact streams_of_still hst rfl (fun _ => rfl) (fun _ => rfl)
      (selectCallback_roused _ hs.waits h).still
  | driverRevive p r =>
    exact streams_of_still hst rfl (fun _ => rfl) (fun _ => rfl) (revive_still h)
  | signal p cancelled =>
    cases h
    exact streams_of_signal hs hst hkeeps
  | fork p c =>
    cases h
    exact streams_of_fork hs hst hsent.2.1
  | exit p a => exact streams_of_exit hs hst h
  | getWork p woken outcome => exact streams_of_getWork hs hst hsent.2 hkeeps h
  | passFilp f =>
    cases h
    exact streams_of_still hst rfl (fun _ => rfl) (fun _ => rfl) (still_files rfl rfl)
  | copyFilp p f => exact hkeeps.1.elim
  | putFilp f woken =>
    obtain ⟨s₁, hclose, rfl⟩ := ok_of_map h
    exact streams_of_still hst rfl (fun _ => rfl) (fun _ => rfl)
      ((closeFilp_still hs.waits hclose).trans (still_files rfl rfl))
  | cancelFd p fd => exact hkeeps.1.elim
  | selectAsynch f major =>
    cases h
    refine streams_of_still hst rfl (fun _ => rfl) (fun _ => rfl) ?_
    unfold selectAsynch
    split <;> exact still_files rfl rfl
  | selectReply major woken closing =>
    exact streams_of_still hst rfl (fun _ => rfl) (fun _ => rfl) (selectReply1_still hs.waits h)

theorem keeps_own (h : KeepsPartial C s req) : OwnFds req ∧ ClonesFree req := by
  cases req with
  | signal p e => exact ⟨trivial, trivial⟩
  | getWork p woken outcome => exact ⟨trivial, trivial⟩
  | _ => exact ⟨h.1, h.2.1⟩

theorem streams_of_initial (h : Initial C s) : Streams C [] s := by
  refine ⟨fun p _ hne => absurd (h.partials p) hne, fun p _ hb => ?_, fun p _ hb => ?_,
    fun v _ hkind => absurd hkind (h.pipes v)⟩
  · rw [h.blocked p] at hb
    cases hb
  · rw [h.blocked p] at hb
    cases hb

theorem streams_of_run (h : Run (vfsSystem C) (fun _ s req => KeepsPartial C s req) past s) :
    (∃ L, Refs C L s) ∧ Streams C past s := by
  refine h.trace_invariant (P := fun past s => (∃ L, Refs C L s) ∧ Streams C past s)
    (fun s hs => ⟨⟨_, refs_of_initial hs⟩, streams_of_initial hs⟩) ?_
  intro past s req s' hs hkeeps hstep
  obtain ⟨⟨L, hrefs⟩, hst⟩ := hs
  have hown := keeps_own hkeeps
  exact ⟨handle_refs hrefs hstep.1 (keepsRefs_of_own hown.1 hown.2) hstep.2,
    streams_step hrefs hst hstep.1 hkeeps hstep.2⟩

theorem call_of_step {c : PipeCall} (hs : Refs C L s) (hst : Streams C past s)
    (hstep : (vfsSystem C).step s req s') (hkeeps : KeepsPartial C s req)
    (hcall : pipeCall C s req = some c) (hflag : c.flag = .WRITING) :
    (∀ n, c.moved.result = some (.ok n) → n = (written C ((s, req) :: past) c.p).length) ∧
      ((lastWrite ((s, req) :: past) c.p).length ≤ C.PIPE_BUF →
        c.moved.bytes = [] ∨ c.moved.bytes = lastWrite ((s, req) :: past) c.p) := by
  obtain ⟨hsent, h⟩ := hstep
  cases req with
  | read p fd nbytes woken =>
    obtain ⟨⟨m, s₁⟩, hread, -⟩ := ok_of_map h
    rw [pipeCall, hread] at hcall
    cases hcall
    cases hflag
  | write p fd buf woken =>
    obtain ⟨⟨m, s₁⟩, hwrite, -⟩ := ok_of_map h
    have heffect := readWrite_effect hs hsent.2.1 (hst.caller hsent.2.1) (fun _ => rfl) hwrite
    have hcall' := hcall
    rw [pipeCall, hwrite] at hcall'
    cases hcall'
    refine ⟨fun n hn => ?_, fun hshort => ?_⟩
    · rw [written, if_pos rfl, hcall]
      exact heffect.returns rfl n hn
    · rw [lastWrite, if_pos rfl] at hshort ⊢
      exact heffect.whole rfl hshort
  | getWork p woken outcome =>
    obtain ⟨hsome, hwork⟩ := getWork_ok h
    obtain ⟨hslot, hrev⟩ := hsent.2 hsome
    rcases hwork with ⟨hpipe, m, s₁, hretry, -⟩ | ⟨hpipe, -⟩
    · have heffect := retry_effect hs hst hslot hrev hpipe hkeeps hretry
      have hcall' := hcall
      rw [pipeCall, if_pos hpipe, hretry] at hcall'
      cases hcall'
      refine ⟨fun n hn => ?_, fun hshort => heffect.whole hflag hshort⟩
      rw [written, hcall]
      dsimp only at hflag ⊢
      rw [if_pos ⟨rfl, hflag⟩]
      exact heffect.returns hflag n hn
    · rw [pipeCall, if_neg hpipe] at hcall
      cases hcall
  | _ => cases hcall

end Steps

theorem pipe_writes_in_order (C : VfsConfig) (past : List (VfsState × Request)) (s : VfsState)
    (h : Run (vfsSystem C) (fun _ s req => KeepsPartial C s req) past s) :
    (∀ p, (s.fproc p).free = false → (s.fproc p).fpCumIoPartial ≠ 0 →
      (s.fproc p).fpBlockedOn = .PIPE ∧ (s.fproc p).fpBlockCallnr = .WRITE) ∧
    (∀ p fd nbytes woken, Sent C s (.read p fd nbytes woken) →
      handle C s (.read p fd nbytes woken) ≠ .error .partialNotClear) ∧
    (∀ p fd buf woken, Sent C s (.write p fd buf woken) →
      handle C s (.write p fd buf woken) ≠ .error .partialNotClear) ∧
    (∀ req s' c, (vfsSystem C).step s req s' → KeepsPartial C s req → pipeCall C s req = some c →
      c.flag = .WRITING →
      (∀ n, c.moved.result = some (.ok n) → n = (written C ((s, req) :: past) c.p).length) ∧
      ((lastWrite ((s, req) :: past) c.p).length ≤ C.PIPE_BUF →
        c.moved.bytes = [] ∨ c.moved.bytes = lastWrite ((s, req) :: past) c.p)) ∧
    ∀ v, (s.vnode v).vRefCount ≠ 0 → (s.vnode v).kind = .NAMED_PIPE →
      stream C .WRITING past v = stream C .READING past v ++ content s v := by
  obtain ⟨⟨L, hs⟩, hst⟩ := streams_of_run h
  refine ⟨hst.cum, fun p fd nbytes woken hsent => ?_, fun p fd buf woken hsent => ?_,
    fun req s' c hstep hkeeps hcall hflag => ?_, fun v hused hkind => (hst.pipe v hused hkind).2⟩
  · exact (readWrite_clear (hst.caller hsent.2.1)).map
  · exact (readWrite_clear (hst.caller hsent.2.1)).map
  · exact call_of_step hs hst hstep hkeeps hcall hflag

section Small

def fiveBytes : List Byte := [1, 2, 3, 4, 5]

def smallWriter : VfsState :=
  pipeSuspend 0 .WRITING 1 (fiveBytes.drop 4) 1
    (setPartial 0 4 (writePipe 0 (fiveBytes.take 4) smallPipe))

theorem smallWriter_step : (vfsSystem smallVfs).step smallPipe (.write 0 1 fiveBytes []) smallWriter := by
  refine ⟨⟨rfl, ⟨Nat.zero_lt_succ 1, rfl, rfl⟩, fun f hf => ?_⟩, rfl⟩
  have hone : (smallPipe.fproc 0).fpFilp 1 = some 1 := rfl
  rw [hone] at hf
  cases hf
  rfl

theorem partial_write_waits : ∃ past s,
    Run (vfsSystem smallVfs) (fun _ s req => KeepsPartial smallVfs s req) past s ∧
      (s.fproc 0).fpCumIoPartial = 4 ∧ (s.fproc 0).fpBlockedOn = .PIPE ∧
      stream smallVfs .WRITING past 0 = stream smallVfs .READING past 0 ++ content s 0 := by
  have hpipe : KeepsPartial smallVfs emptyVfs (.pipe 0 0 (.ok ())) :=
    ⟨trivial, trivial, fun _ h => (by cases h)⟩
  have hwrite : KeepsPartial smallVfs smallPipe (.write 0 1 fiveBytes []) :=
    ⟨trivial, trivial, fun _ h => (by cases h)⟩
  have hrun : Run (vfsSystem smallVfs) (fun _ s req => KeepsPartial smallVfs s req) _ smallWriter :=
    .next (.next (.start emptyVfs_initial) hpipe smallPipe_step) hwrite smallWriter_step
  have hall := pipe_writes_in_order smallVfs _ _ hrun
  exact ⟨_, _, hrun, rfl, (hall.1 0 rfl (by decide)).1, hall.2.2.2.2 0 (by decide) rfl⟩

theorem signal_leaves_progress : ¬ ∀ (C : VfsConfig) (s : VfsState), (vfsSystem C).Reachable s →
    ∀ p, (s.fproc p).free = false → (s.fproc p).fpCumIoPartial ≠ 0 →
      (s.fproc p).fpBlockedOn = .PIPE ∧ (s.fproc p).fpBlockCallnr = .WRITE := by
  intro hall
  have hsignal : (vfsSystem smallVfs).step smallWriter (.signal 0 none)
      (unpause 0 none smallWriter) := ⟨⟨Nat.zero_lt_succ 1, rfl⟩, rfl⟩
  have hrun : Run (vfsSystem smallVfs) always _ (unpause 0 none smallWriter) :=
    .next (.next (.next (.start emptyVfs_initial) trivial smallPipe_step) trivial smallWriter_step)
      trivial hsignal
  have hblocked := (hall smallVfs _ hrun.reachable 0 rfl (by decide)).1
  exact absurd hblocked (by decide)

end Small

end Vfs
