import Cs111.Vfs.WakeSteps

namespace Vfs
open Tally TransitionSystem

def Room (C : VfsConfig) (held n : ℕ) : Prop :=
  held + n ≤ C.PIPE_BUF ∨ C.PIPE_BUF < n ∧ held < C.PIPE_BUF

def partSize (C : VfsConfig) (pos n : ℕ) : ℕ := if C.PIPE_BUF < n then C.PIPE_BUF - pos else 0

def Sleeping (s : VfsState) (v : ℕ) (callnr : CallNr) (q : ℕ) : Prop :=
  (s.fproc q).asleep ∧ (s.fproc q).fpBlockCallnr = callnr ∧
    ∃ f, (s.fproc q).fpFilp (s.fproc q).fpBlockFd = some f ∧ (s.filp f).filpVno = v

theorem Sleeping.hanging {s : VfsState} {v q : ℕ} {callnr : CallNr} (h : Sleeping s v callnr q) :
    Hanging s v callnr q := by
  obtain ⟨⟨hfree, hb, hrev⟩, hnr, hfile⟩ := h
  exact ⟨hfree, by rw [hb]; decide, hrev, hnr, hfile⟩

def ReadKeeps (C : VfsConfig) (s : VfsState) (v n : ℕ) : Prop :=
  ∀ q, Sleeping s v .WRITE q → ¬ Room C ((content s v).length - n) (s.fproc q).fpNbytes

def WriteKeeps (C : VfsConfig) (s : VfsState) (f n : ℕ) : Prop :=
  (s.filp f).nonblock = false → HasEnd C s (s.filp f).filpVno R_BIT →
    C.PIPE_BUF < (s.vnode (s.filp f).filpVno).vPipeWrPos + n →
      ¬ Room C ((content s (s.filp f).filpVno).length +
          partSize C (s.vnode (s.filp f).filpVno).vPipeWrPos n)
        (n - partSize C (s.vnode (s.filp f).filpVno).vPipeWrPos n)

section Check
variable {C : VfsConfig} {L : ℕ → ℕ} {s s₁ : VfsState} {v bytes pos : ℕ} {nonblock : Bool} {woken : Woken}

def Check.Wakes (C : VfsConfig) (v : ℕ) (nonblock : Bool) (bytes pos : ℕ) (s s₁ : VfsState) :
    Check → Prop
  | .error _ => s₁ = s
  | .suspend => s₁ = s ∧ HasEnd C s v R_BIT ∧ nonblock = false ∧ C.PIPE_BUF < pos + bytes ∧
      partSize C pos bytes = 0
  | .bytes n => Roused s s₁ ∧ HasEnd C s v R_BIT ∧ (∀ q, ¬ Sleeping s₁ v .READ q) ∧
      (n < bytes → C.PIPE_BUF < pos + bytes ∧ n = partSize C pos bytes)

theorem pipeCheck_wakes {r : Check} (hb : Balanced C s) (hw : Waits C s)
    (hkind : (s.vnode v).kind = .NAMED_PIPE) (hnone : pos ≠ 0 → ∀ q, ¬ Sleeping s v .READ q)
    (h : pipeCheck C v .WRITING nonblock bytes pos woken s = .ok (r, s₁)) :
    r.Wakes C v nonblock bytes pos s s₁ := by
  have hwake : ∀ {n : ℕ}, HasEnd C s v R_BIT →
      (n < bytes → C.PIPE_BUF < pos + bytes ∧ n = partSize C pos bytes) →
      (release C v .READ s.suspCount woken s).map (Check.bytes n, ·) = .ok (r, s₁) →
      r.Wakes C v nonblock bytes pos s s₁ := by
    intro n hend hpart h
    obtain ⟨s₂, hrelease, hpair⟩ := ok_of_map h
    cases hpair
    exact ⟨release_roused (by decide) hw hrelease, hend,
      fun q hq => release_complete ⟨by decide, by decide⟩ hb hw hkind (le_refl _) hrelease q
        hq.hanging, hpart⟩
  unfold pipeCheck at h
  dsimp only at h
  split at h
  · cases h
    rfl
  · next hsome =>
    have hend : HasEnd C s v R_BIT := findFilp_ne_none.mp hsome
    split at h
    · next hfull =>
      split at h
      · split at h
        · cases h
          rfl
        · next hlarge =>
          split at h
          · refine hwake hend (fun _ => ⟨hfull, ?_⟩) h
            rw [partSize, if_pos (Nat.lt_of_not_le hlarge)]
          · cases h
            rfl
      · next hblock =>
        split at h
        · next hroom =>
          refine hwake hend (fun _ => ⟨hfull, ?_⟩) h
          rw [partSize, if_pos hroom.1]
        · next hroom =>
          cases h
          refine ⟨rfl, hend, Bool.not_eq_true _ ▸ hblock, hfull, ?_⟩
          unfold partSize
          split <;> omega
    · split at h
      · exact hwake hend (fun h => absurd h (Nat.lt_irrefl _)) h
      · next hpos =>
        cases h
        exact ⟨.refl s, hend, hnone hpos, fun h => absurd h (Nat.lt_irrefl _)⟩

end Check

inductive PipeOutcome (C : VfsConfig) (flag : RwFlag) (p fd v : ℕ) (buf : List Byte) (nbytes : ℕ)
    (s : VfsState) : Moved → VfsState → Prop
  | returns (s₁ : VfsState) (r : Except Errno ℕ) : Roused s s₁ →
      PipeOutcome C flag p fd v buf nbytes s ⟨some r, []⟩ s₁
  | readWaits (s₁ : VfsState) : flag = .READING → (s.vnode v).vSize ≤ (s.vnode v).vPipeRdPos →
      HasEnd C s v W_BIT → Roused s s₁ →
      PipeOutcome C flag p fd v buf nbytes s ⟨none, []⟩ (pipeSuspend p .READING fd buf nbytes s₁)
  | writeWaits : flag = .WRITING → HasEnd C s v R_BIT →
      ¬ Room C (content s v).length nbytes →
      PipeOutcome C flag p fd v buf nbytes s ⟨none, []⟩ (pipeSuspend p .WRITING fd buf nbytes s)
  | reads (r : Except Errno ℕ) : flag = .READING → (s.vnode v).vPipeRdPos < (s.vnode v).vSize →
      PipeOutcome C flag p fd v buf nbytes s ⟨some r, (readPipe v nbytes s).1⟩
        (setPartial p 0 (readPipe v nbytes s).2)
  | wrote (s₁ : VfsState) (n : ℕ) (r : Except Errno ℕ) : flag = .WRITING → Roused s s₁ →
      0 < n → (∀ q, ¬ Sleeping s₁ v .READ q) →
      PipeOutcome C flag p fd v buf nbytes s ⟨some r, buf.take n⟩
        (setPartial p 0 (writePipe v (buf.take n) s₁))
  | part (s₁ : VfsState) (n k : ℕ) : flag = .WRITING → Roused s s₁ → 0 < n →
      (∀ q, ¬ Sleeping s₁ v .READ q) →
      HasEnd C s v R_BIT → n < nbytes → ¬ Room C ((content s v).length + n) (nbytes - n) →
      PipeOutcome C flag p fd v buf nbytes s ⟨none, buf.take n⟩
        (pipeSuspend p .WRITING fd (buf.drop n) (nbytes - n)
          (setPartial p k (writePipe v (buf.take n) s₁)))

section Outcome
variable {C : VfsConfig} {L : ℕ → ℕ} {s s' : VfsState} {p fd f v nbytes n : ℕ} {flag : RwFlag} {woken : Woken}
  {buf : List Byte} {m : Moved}

theorem rwPipe_outcome (hb : Balanced C s) (hw : Waits C s) (hkind : kindOf s f = .NAMED_PIPE)
    (hnone : (s.vnode (s.filp f).filpVno).vPipeWrPos ≠ 0 →
      ∀ q, ¬ Sleeping s (s.filp f).filpVno .READ q)
    (hkeeps : flag = .WRITING → WriteKeeps C s f nbytes)
    (h : rwPipe C flag p fd f buf nbytes woken s = .ok (m, s')) :
    PipeOutcome C flag p fd (s.filp f).filpVno buf nbytes s m s' := by
  obtain ⟨⟨r, s₁⟩, hcheck, hmoved⟩ := ok_of_map h
  have hroused := pipeCheck_roused hw hcheck
  dsimp only at hmoved
  cases flag with
  | READING =>
    unfold pipeCheck at hcheck
    dsimp only at hcheck
    rw [if_pos rfl] at hcheck
    split at hcheck
    · next hempty =>
      have hends : ∀ {r' : Check}, HasEnd C s (s.filp f).filpVno W_BIT →
          r' = (if (s.filp f).nonblock = true then .error .EAGAIN else .suspend) → r = r' →
          PipeOutcome C .READING p fd (s.filp f).filpVno buf nbytes s m s' := by
        intro r' hend hr' hr
        rw [hr, hr'] at hmoved
        split at hmoved
        · cases hmoved
          exact .returns _ _ hroused
        · cases hmoved
          exact .readWaits _ rfl hempty hend hroused
      split at hcheck
      · next hsome =>
        split at hcheck
        · obtain ⟨s₂, -, hpair⟩ := ok_of_map hcheck
          cases hpair
          exact hends (findFilp_ne_none.mp hsome) rfl rfl
        · cases hcheck
          exact hends (findFilp_ne_none.mp hsome) rfl rfl
      · cases hcheck
        cases hmoved
        exact .returns _ _ hroused
    · next hdata =>
      cases hcheck
      unfold movePipe at hmoved
      dsimp only at hmoved
      split at hmoved
      · cases hmoved
        exact .returns _ _ hroused
      · cases hmoved
        exact .reads _ rfl (by omega)
  | WRITING =>
    rw [if_neg (by decide)] at hcheck
    have hwakes := pipeCheck_wakes hb hw hkind hnone hcheck
    cases r with
    | error e =>
      cases hmoved
      exact .returns _ _ hroused
    | suspend =>
      obtain ⟨rfl, hend, hblock, hfull, hpart⟩ := hwakes
      cases hmoved
      have hroom := hkeeps rfl hblock hend hfull
      rw [hpart] at hroom
      exact .writeWaits rfl hend hroom
    | bytes n =>
      obtain ⟨-, hend, hgone, hpart⟩ := hwakes
      unfold movePipe at hmoved
      dsimp only at hmoved
      split at hmoved
      · cases hmoved
        exact .returns _ _ hroused
      · next hpos =>
        split at hmoved
        · next hmore =>
          cases hmoved
          obtain ⟨hfull, hsize⟩ := hpart hmore.1
          have hroom := hkeeps rfl (Bool.not_eq_true _ ▸ hmore.2) hend hfull
          rw [← hsize] at hroom
          exact .part _ _ _ rfl hroused (Nat.pos_of_ne_zero hpos) hgone hend hmore.1 hroom
        · cases hmoved
          exact .wrote _ _ _ rfl hroused (Nat.pos_of_ne_zero hpos) hgone

structure PipeFrame (p v : ℕ) (s s' : VfsState) : Prop where
  filp : s'.filp = s.filp
  data : ∀ w, w ≠ v → (s.vnode w).SameData (s'.vnode w)
  refs : ∀ w, (s'.vnode w).vRefCount = (s.vnode w).vRefCount ∧
    (s'.vnode w).kind = (s.vnode w).kind
  proc : ∀ q, q ≠ p → (s.fproc q).Roused (s'.fproc q)

theorem roused_frame (h : Roused s s') : PipeFrame p v s s' :=
  ⟨h.filp, fun w _ => h.still.data w, roused_refs h, fun q _ => h.fproc q⟩

theorem suspended_frame {s₁ : VfsState} (h : PipeFrame p v s s₁) :
    PipeFrame p v s (pipeSuspend p flag fd buf nbytes s₁) :=
  ⟨h.filp, h.data, h.refs, fun q hq => by
    rw [suspended_proc, if_neg hq]
    exact h.proc q hq⟩

theorem partial_frame {s₁ : VfsState} (h : PipeFrame p v s s₁) : PipeFrame p v s (setPartial p n s₁) :=
  ⟨h.filp, h.data, h.refs, fun q hq => by
    rw [setPartial_proc, if_neg hq]
    exact h.proc q hq⟩

theorem vnode_frame {s₁ : VfsState} {x : Vnode} (h : PipeFrame p v s s₁)
    (hrefs : x.vRefCount = (s₁.vnode v).vRefCount) (hkind : x.kind = (s₁.vnode v).kind) :
    PipeFrame p v s (setVnode s₁ v x) := by
  refine ⟨h.filp, fun w hw => ?_, fun w => ?_, h.proc⟩
  · rw [other_vnode hw]
    exact h.data w hw
  · rw [vnode_setVnode]
    split
    · next hw =>
      rw [hrefs, hkind, hw]
      exact h.refs v
    · exact h.refs w

theorem PipeOutcome.frame (h : PipeOutcome C flag p fd v buf nbytes s m s') : PipeFrame p v s s' := by
  cases h with
  | returns s₁ r hroused => exact roused_frame hroused
  | readWaits s₁ _ _ _ hroused => exact suspended_frame (roused_frame hroused)
  | writeWaits => exact suspended_frame (roused_frame (.refl s))
  | reads r =>
    refine partial_frame (vnode_frame (roused_frame (.refl s)) ?_ ?_)
    · split <;> split <;> rfl
    · split <;> split <;> rfl
  | wrote s₁ n r _ hroused => exact partial_frame (vnode_frame (roused_frame hroused) rfl rfl)
  | part s₁ n k _ hroused =>
    exact suspended_frame (partial_frame (vnode_frame (roused_frame hroused) rfl rfl))

structure Tidy (vp : Vnode) : Prop extends Ends vp where
  start : vp.vPipeRdPos = vp.vSize → vp.vSize = 0

theorem readPipe_tidy (h : Tidy (s.vnode v)) :
    Tidy ((readPipe v n s).2.vnode v) ∧
      (content (readPipe v n s).2 v).length = (content s v).length - n := by
  obtain ⟨hcontent, hends⟩ := content_read n h.toEnds
  have hlength : (content s v).length = (s.vnode v).vSize - (s.vnode v).vPipeRdPos := by
    rw [content, readData, List.length_map, List.length_range]
  have hmoved : (readPipe v n s).1.length = min n (content s v).length := by
    rw [hlength]
    unfold readPipe
    dsimp only
    rw [readData, List.length_map, List.length_range]
    have hle := h.rdPos
    split <;> omega
  refine ⟨⟨hends, ?_⟩, ?_⟩
  · unfold readPipe
    dsimp only
    rw [vnode_setVnode, if_pos rfl]
    generalize (if (s.vnode v).vPipeRdPos + n > (s.vnode v).vSize then
      (s.vnode v).vSize - (s.vnode v).vPipeRdPos else n) = size
    split
    · exact fun _ => rfl
    · next hsome => exact fun h => absurd (Nat.le_of_eq h.symm) hsome
  · have hboth := congrArg List.length hcontent
    rw [List.length_append, hmoved] at hboth
    omega

theorem writePipe_tidy (h : Tidy (s.vnode v)) (hbuf : 0 < buf.length) :
    Tidy ((writePipe v buf s).vnode v) ∧
      (content (writePipe v buf s) v).length = (content s v).length + buf.length := by
  obtain ⟨hcontent, hends⟩ := content_written buf h.toEnds
  have hpos : ((writePipe v buf s).vnode v).vPipeWrPos = (s.vnode v).vPipeWrPos + buf.length := by
    unfold writePipe
    rw [vnode_setVnode, if_pos rfl]
  have hrd : ((writePipe v buf s).vnode v).vPipeRdPos = (s.vnode v).vPipeRdPos := by
    unfold writePipe
    rw [vnode_setVnode, if_pos rfl]
  refine ⟨⟨hends, fun hfull => ?_⟩, by rw [hcontent, List.length_append]⟩
  have hle := h.rdPos
  have hwr := h.wrPos
  rw [← hends.wrPos, hpos, hrd] at hfull
  omega

theorem Tidy.same {vp vp' : Vnode} (h : Tidy vp) (hsame : vp.SameData vp') : Tidy vp' :=
  ⟨h.toEnds.same hsame, by
    rw [hsame.vPipeRdPos, hsame.vSize]
    exact h.start⟩

end Outcome

structure Alert (C : VfsConfig) (s : VfsState) : Prop where
  modes : Modes s
  calls : PipeCalls s
  tidy : ∀ v, (s.vnode v).vRefCount ≠ 0 → (s.vnode v).kind = .NAMED_PIPE → Tidy (s.vnode v)
  reader : ∀ q f, (s.fproc q).asleep → (s.fproc q).fpFilp (s.fproc q).fpBlockFd = some f →
    (s.fproc q).fpBlockCallnr = .READ →
      (s.vnode (s.filp f).filpVno).vSize ≤ (s.vnode (s.filp f).filpVno).vPipeRdPos ∧
        HasEnd C s (s.filp f).filpVno W_BIT
  writer : ∀ q f, (s.fproc q).asleep → (s.fproc q).fpFilp (s.fproc q).fpBlockFd = some f →
    (s.fproc q).fpBlockCallnr = .WRITE → HasEnd C s (s.filp f).filpVno R_BIT ∧
      ¬ Room C (content s (s.filp f).filpVno).length (s.fproc q).fpNbytes

section Alert
variable {C : VfsConfig} {L : ℕ → ℕ} {s s' : VfsState} {p fd f v nbytes n : ℕ} {flag : RwFlag} {woken : Woken}
  {buf : List Byte} {m : Moved}

theorem Alert.passive (hal : Alert C s) (h : Passive C s s') : Alert C s' := by
  refine ⟨h.modes, hal.calls.kept h.proc, fun w hused hkind => ?_, fun q f hq hf hnr => ?_,
    fun q f hq hf hnr => ?_⟩
  · by_cases h0 : (s.vnode w).vRefCount = 0
    · rcases h.fresh w h0 with hn | hn | ⟨hsize, hrd, hwr⟩
      · exact absurd hn hused
      · exact absurd hkind hn
      · exact ⟨⟨by rw [hwr, hsize], by rw [hrd]; exact Nat.zero_le _⟩, fun _ => hsize⟩
    · have hsame := h.data w h0
      exact (hal.tidy w h0 (hsame.kind.symm.trans hkind)).same hsame
  · obtain ⟨hq₀, hf₀, hnr₀, -, hvno, hdata, hend⟩ := h.steady.asleep q f hq hf
    rw [hnr₀] at hnr
    rw [hnr, otherEnd, if_pos rfl] at hend
    obtain ⟨hsize, hw⟩ := hal.reader q f hq₀ hf₀ hnr
    rw [hvno, hdata.vSize, hdata.vPipeRdPos]
    exact ⟨hsize, hend hw⟩
  · obtain ⟨hq₀, hf₀, hnr₀, hn, hvno, hdata, hend⟩ := h.steady.asleep q f hq hf
    rw [hnr₀] at hnr
    rw [hnr, otherEnd, if_neg (by decide)] at hend
    obtain ⟨hr, hroom⟩ := hal.writer q f hq₀ hf₀ hnr
    rw [hvno, content_same hdata, hn]
    exact ⟨hend hr, hroom⟩

theorem Alert.no_reader (hal : Alert C s) {q : ℕ}
    (hdata : (s.vnode v).vPipeRdPos < (s.vnode v).vSize) : ¬ Sleeping s v .READ q := by
  rintro ⟨hasleep, hnr, f, hf, rfl⟩
  have hempty := (hal.reader q f hasleep hf hnr).1
  omega

theorem Alert.reader_at (hal : Alert C s) {q : ℕ} (h : Sleeping s v .READ q) :
    (s.vnode v).vSize ≤ (s.vnode v).vPipeRdPos ∧ HasEnd C s v W_BIT := by
  obtain ⟨hasleep, hnr, f, hf, rfl⟩ := h
  exact hal.reader q f hasleep hf hnr

theorem Alert.writer_at (hal : Alert C s) {q : ℕ} (h : Sleeping s v .WRITE q) :
    HasEnd C s v R_BIT ∧ ¬ Room C (content s v).length (s.fproc q).fpNbytes := by
  obtain ⟨hasleep, hnr, f, hf, rfl⟩ := h
  exact hal.writer q f hasleep hf hnr

theorem room_before {held k : ℕ} (h : Room C (held + k) n) : Room C held n := by
  unfold Room at h ⊢
  omega

theorem PipeFrame.sleeping {q : ℕ} {callnr : CallNr} {w : ℕ} (h : PipeFrame p v s s') (hq : q ≠ p)
    (hs : Sleeping s' w callnr q) : Sleeping s w callnr q ∧ s'.fproc q = s.fproc q := by
  have hsame := (h.proc q hq).asleep hs.1
  obtain ⟨hasleep, hnr, f, hf, hvno⟩ := hs
  rw [hsame] at hasleep hnr hf
  rw [h.filp] at hvno
  exact ⟨⟨hasleep, hnr, f, hf, hvno⟩, hsame⟩

theorem PipeFrame.hasEnd {w : ℕ} {bits : FilpMode} (h : PipeFrame p v s s')
    (he : HasEnd C s w bits) : HasEnd C s' w bits := by
  rw [HasEnd, h.filp]
  exact he

def SleepsFor (C : VfsConfig) (v : ℕ) (s : VfsState) (rp : Fproc) : Prop :=
  (∀ g, rp.fpFilp rp.fpBlockFd = some g → (s.filp g).filpVno = v) ∧
    (rp.fpBlockCallnr = .READ ∧ (s.vnode v).vSize ≤ (s.vnode v).vPipeRdPos ∧ HasEnd C s v W_BIT ∨
      rp.fpBlockCallnr = .WRITE ∧ rp.fpNbytes = rp.fpBuffer.length ∧ 0 < rp.fpNbytes ∧
        HasEnd C s v R_BIT ∧ ¬ Room C (content s v).length rp.fpNbytes)

theorem Alert.frame (hal : Alert C s) (h : PipeFrame p v s s')
    (htidy : Tidy (s'.vnode v))
    (hself : (s'.fproc p).fpBlockedOn ≠ .PIPE ∨ SleepsFor C v s' (s'.fproc p))
    (hreader : ∀ q, q ≠ p → Sleeping s' v .READ q →
      (s'.vnode v).vSize ≤ (s'.vnode v).vPipeRdPos)
    (hwriter : ∀ q, q ≠ p → Sleeping s' v .WRITE q →
      ¬ Room C (content s' v).length (s'.fproc q).fpNbytes) : Alert C s' := by
  refine ⟨fun g hcount hkind => ?_, fun q hfree hb => ?_, fun w hused hkind => ?_,
    fun q f hq hf hnr => ?_, fun q f hq hf hnr => ?_⟩
  · rw [kindOf, h.filp, (h.refs _).2] at hkind
    rw [h.filp] at hcount ⊢
    exact hal.modes g hcount hkind
  · by_cases hqp : q = p
    · subst hqp
      rcases hself.resolve_left fun hnot => hnot hb with ⟨-, hread | hwrite⟩
      · exact .inl hread.1
      · exact .inr ⟨hwrite.1, hwrite.2.1, hwrite.2.2.1⟩
    · have hk := (h.proc q hqp).kept
      have hb₀ := hk.back hb
      rw [(hk.pipe hb₀).2, hk.nbytes, hk.buffer]
      exact hal.calls q (hk.free hfree) hb₀
  · by_cases hw : w = v
    · rw [hw]
      exact htidy
    · rw [(h.refs w).1] at hused
      rw [(h.refs w).2] at hkind
      exact (hal.tidy w hused hkind).same (h.data w hw)
  · by_cases hqp : q = p
    · subst hqp
      obtain ⟨hat, hread | hwrite⟩ := hself.resolve_left fun hnot => hnot hq.2.1
      · rw [hat f hf]
        exact hread.2
      · rw [hwrite.1] at hnr
        cases hnr
    · obtain ⟨hback, -⟩ := h.sleeping hqp ⟨hq, hnr, f, hf, rfl⟩
      obtain ⟨hsize, hend⟩ := hal.reader_at hback
      refine ⟨?_, h.hasEnd hend⟩
      by_cases hv : (s'.filp f).filpVno = v
      · rw [hv]
        exact hreader q hqp ⟨hq, hnr, f, hf, hv⟩
      · rw [(h.data _ hv).vSize, (h.data _ hv).vPipeRdPos]
        exact hsize
  · by_cases hqp : q = p
    · subst hqp
      obtain ⟨hat, hread | hwrite⟩ := hself.resolve_left fun hnot => hnot hq.2.1
      · rw [hread.1] at hnr
        cases hnr
      · rw [hat f hf]
        exact ⟨hwrite.2.2.2.1, hwrite.2.2.2.2⟩
    · obtain ⟨hback, hsame⟩ := h.sleeping hqp ⟨hq, hnr, f, hf, rfl⟩
      obtain ⟨hend, hroom⟩ := hal.writer_at hback
      refine ⟨h.hasEnd hend, ?_⟩
      by_cases hv : (s'.filp f).filpVno = v
      · rw [hv]
        exact hwriter q hqp ⟨hq, hnr, f, hf, hv⟩
      · rw [content_same (h.data _ hv), hsame]
        exact hroom

theorem PipeOutcome.alert (hal : Alert C s) (hp : Caller C s p)
    (hf : (s.fproc p).fpFilp fd = some f) (hv : (s.filp f).filpVno = v)
    (hused : (s.vnode v).vRefCount ≠ 0) (hkind : (s.vnode v).kind = .NAMED_PIPE)
    (hlen : flag = .WRITING → nbytes = buf.length ∧ 0 < nbytes)
    (h : PipeOutcome C flag p fd v buf nbytes s m s')
    (hkeeps : flag = .READING → ReadKeeps C s v nbytes) : Alert C s' := by
  have hframe := h.frame
  have htidy := hal.tidy v hused hkind
  have hfile : ∀ g, (s.fproc p).fpFilp fd = some g → (s.filp g).filpVno = v := by
    intro g hg
    rw [hf] at hg
    cases hg
    exact hv
  -- who slept before, when the pipe stays as it was
  have hquiet : s'.vnode v = s.vnode v →
      ((s'.fproc p).fpBlockedOn ≠ .PIPE ∨ SleepsFor C v s' (s'.fproc p)) → Alert C s' := by
    intro hsame hself
    refine hal.frame hframe (by rw [hsame]; exact htidy) hself (fun q hq hs => ?_)
      fun q hq hs => ?_
    · rw [hsame]
      exact (hal.reader_at (hframe.sleeping hq hs).1).1
    · obtain ⟨hback, hproc⟩ := hframe.sleeping hq hs
      rw [content, hsame, hproc]
      exact (hal.writer_at hback).2
  have hwritten : ∀ {s₁ : VfsState} {n : ℕ}, flag = .WRITING → Roused s s₁ → 0 < n →
      (∀ q, ¬ Sleeping s₁ v .READ q) →
      s'.vnode v = (writePipe v (buf.take n) s₁).vnode v →
      (∀ q, q ≠ p → s'.fproc q = s₁.fproc q) →
      ((s'.fproc p).fpBlockedOn ≠ .PIPE ∨ SleepsFor C v s' (s'.fproc p)) → Alert C s' := by
    intro s₁ n hflag hroused hn hgone hvnode hproc hself
    obtain ⟨hlength, hpos⟩ := hlen hflag
    have hvnode₁ := congrFun hroused.vnode v
    obtain ⟨htidy', hwr⟩ : Tidy ((writePipe v (buf.take n) s₁).vnode v) ∧ _ :=
      writePipe_tidy (by rw [hvnode₁]; exact htidy) (by rw [List.length_take]; omega)
    refine hal.frame hframe (by rw [hvnode]; exact htidy') hself (fun q hq hs => ?_)
      fun q hq hs hroom => ?_
    · obtain ⟨hasleep, hnr, g, hg, hvno⟩ := hs
      rw [hproc q hq] at hasleep hnr hg
      rw [hframe.filp, ← hroused.filp] at hvno
      exact absurd ⟨hasleep, hnr, g, hg, hvno⟩ (hgone q)
    · obtain ⟨hback, hsame⟩ := hframe.sleeping hq hs
      have hcontent : content s' v = content (writePipe v (buf.take n) s₁) v := by
        rw [content, content, hvnode]
      have hcontent₁ : content s₁ v = content s v := by rw [content, content, hvnode₁]
      rw [hcontent, hwr, hcontent₁, hsame] at hroom
      exact (hal.writer_at hback).2 (room_before hroom)
  cases h with
  | returns s₁ r hroused =>
    refine hquiet (by rw [hroused.vnode]) (.inl ?_)
    rw [(hp.roused hroused).runs]
    decide
  | readWaits s₁ hflag hempty hend hroused =>
    have hvnode : (pipeSuspend p .READING fd buf nbytes s₁).vnode v = s.vnode v :=
      congrFun hroused.vnode v
    refine hquiet hvnode (.inr ?_)
    rw [suspended_proc, if_pos rfl]
    refine ⟨fun g hg => ?_, .inl ⟨rfl, by rw [hvnode]; exact hempty, hframe.hasEnd hend⟩⟩
    rw [hframe.filp]
    refine hfile g ?_
    rw [← (hroused.fproc p).fpFilp_eq]
    exact hg
  | writeWaits hflag hend hroom =>
    refine hquiet rfl (.inr ?_)
    rw [suspended_proc, if_pos rfl]
    exact ⟨hfile, .inr ⟨rfl, (hlen hflag).1, (hlen hflag).2, hframe.hasEnd hend, hroom⟩⟩
  | reads r hflag hdata =>
    obtain ⟨htidy', hleft⟩ : Tidy ((readPipe v nbytes s).2.vnode v) ∧ _ := readPipe_tidy htidy
    refine hal.frame hframe htidy' (.inl ?_) (fun q hq hs => ?_) fun q hq hs => ?_
    · rw [setPartial_proc, if_pos rfl]
      exact fun hb => by
        have hruns := hp.runs
        have hsame : (readPipe v nbytes s).2.fproc = s.fproc := rfl
        rw [hsame, hruns] at hb
        cases hb
    · exact absurd (hframe.sleeping hq hs).1 (hal.no_reader hdata)
    · obtain ⟨hback, hproc⟩ := hframe.sleeping hq hs
      have hcontent : content (setPartial p 0 (readPipe v nbytes s).2) v =
          content (readPipe v nbytes s).2 v := rfl
      rw [hcontent, hleft, hproc]
      exact hkeeps hflag q hback
  | wrote s₁ n r hflag hroused hn hgone =>
    refine hwritten hflag hroused hn hgone rfl (fun q hq => ?_) (.inl ?_)
    · rw [setPartial_proc, if_neg hq]
      rfl
    · have hproc : (writePipe v (buf.take n) s₁).fproc = s₁.fproc := rfl
      rw [setPartial_proc, if_pos rfl, hproc, (hp.roused hroused).runs]
      decide
  | part s₁ n k hflag hroused hn hgone hend hmore hroom =>
    refine hwritten hflag hroused hn hgone rfl (fun q hq => ?_) (.inr ?_)
    · rw [suspended_proc, if_neg hq, setPartial_proc, if_neg hq]
      rfl
    · obtain ⟨hlength, hpos⟩ := hlen hflag
      have hvnode₁ := congrFun hroused.vnode v
      obtain ⟨-, hwr⟩ : Tidy ((writePipe v (buf.take n) s₁).vnode v) ∧ _ :=
        writePipe_tidy (by rw [hvnode₁]; exact htidy) (by rw [List.length_take]; omega)
      have hcontent₁ : content s₁ v = content s v := by rw [content, content, hvnode₁]
      rw [hcontent₁, List.length_take, Nat.min_eq_left (by omega)] at hwr
      rw [suspended_proc, if_pos rfl, setPartial_proc, if_pos rfl]
      refine ⟨fun g hg => ?_, .inr ⟨rfl, ?_, ?_, hframe.hasEnd hend, ?_⟩⟩
      · rw [hframe.filp]
        refine hfile g ?_
        rw [← (hroused.fproc p).fpFilp_eq]
        exact hg
      · dsimp only
        rw [List.length_drop, hlength]
      · dsimp only
        omega
      · have hcontent : content (pipeSuspend p .WRITING fd (buf.drop n) (nbytes - n)
            (setPartial p k (writePipe v (buf.take n) s₁))) v =
            content (writePipe v (buf.take n) s₁) v := rfl
        rw [hcontent, hwr]
        exact hroom

theorem Alert.finish {m : Moved × VfsState} (hal : Alert C m.2) : Alert C (finish p m) := by
  unfold Vfs.finish
  split
  · exact hal
  · exact ⟨hal.modes, hal.calls, hal.tidy, hal.reader, hal.writer⟩

theorem Alert.nobody_reads (hal : Alert C s) (htidy : Tidy (s.vnode v))
    (hpos : (s.vnode v).vPipeWrPos ≠ 0) (q : ℕ) : ¬ Sleeping s v .READ q := by
  intro hs
  have hsize := (hal.reader_at hs).1
  have hzero := htidy.start (Nat.le_antisymm htidy.rdPos hsize)
  rw [htidy.wrPos] at hpos
  exact hpos hzero

theorem rwPipe_alert (hs : Refs C L s) (hb : Balanced C s) (hal : Alert C s) (hp : Caller C s p)
    (hf : (s.fproc p).fpFilp fd = some f) (hkind : kindOf s f = .NAMED_PIPE)
    (hlen : flag = .WRITING → nbytes = buf.length ∧ 0 < nbytes)
    (hread : flag = .READING → ReadKeeps C s (s.filp f).filpVno nbytes)
    (hwrite : flag = .WRITING → WriteKeeps C s f nbytes)
    (h : rwPipe C flag p fd f buf nbytes woken s = .ok (m, s')) : Alert C s' := by
  have hused := hs.filp_vnode (hs.fd_used hf)
  have htidy := hal.tidy _ hused hkind
  have houtcome := rwPipe_outcome hb hs.waits hkind (hal.nobody_reads htidy) hwrite h
  exact houtcome.alert hal hp hf rfl hused hkind hlen hread

theorem readWrite_alert (hs : Refs C L s) (hb : Balanced C s) (hal : Alert C s) (hp : Caller C s p)
    (hkind : ∀ f, (s.fproc p).fpFilp fd = some f → kindOf s f = .NAMED_PIPE)
    (hlen : flag = .WRITING → nbytes = buf.length)
    (hread : flag = .READING → ∀ f, (s.fproc p).fpFilp fd = some f →
      (s.filp f).filpMode.has R_BIT → ReadKeeps C s (s.filp f).filpVno nbytes)
    (hwrite : flag = .WRITING → ∀ f, (s.fproc p).fpFilp fd = some f →
      (s.filp f).filpMode.has W_BIT → WriteKeeps C s f nbytes)
    (h : readWrite C flag p fd buf nbytes woken s = .ok (m, s')) : Alert C s' := by
  unfold readWrite at h
  generalize hbits : (if flag = .READING then R_BIT else W_BIT) = bits at h
  split at h
  · cases h
    exact hal
  · next f hf =>
    split at h
    · cases h
      exact hal
    · next hmode =>
      rw [not_not, ← hbits] at hmode
      split at h
      · cases h
        exact hal
      · next hzero =>
        split at h
        · cases h
        · refine rwPipe_alert hs hb hal hp hf (hkind f hf)
            (fun hflag => ⟨hlen hflag, Nat.pos_of_ne_zero hzero⟩) (fun hflag => ?_) (fun hflag => ?_) h
          · rw [if_pos hflag] at hmode
            exact hread hflag f hf hmode
          · rw [hflag, if_neg (by decide)] at hmode
            exact hwrite hflag f hf hmode

theorem wake_passive (hm : Modes s) : Passive C s (wake p s) := by
  refine ⟨fun w _ => .refl _, fun w hw => .inl hw, fun q _ => ?_,
    steady_same rfl rfl (undisturbed_setProc fun h => by cases h.2.1), modes_same hm rfl rfl⟩
  rw [wake, fproc_setProc, Function.update_apply]
  split
  · exact .inr fun h => by cases h
  · exact .inl (.refl _)

theorem retryPipe_alert (hs : Refs C L s) (hb : Balanced C s) (hal : Alert C s)
    (hp : p < C.NR_PROCS) (hrev : (s.fproc p).reviving) (hpipe : (s.fproc p).fpBlockedOn = .PIPE)
    (hread : (s.fproc p).fpBlockCallnr = .READ → ∀ f,
      (s.fproc p).fpFilp (s.fproc p).fpBlockFd = some f →
        ReadKeeps C s (s.filp f).filpVno (s.fproc p).fpNbytes)
    (hwrite : (s.fproc p).fpBlockCallnr = .WRITE → ∀ f,
      (s.fproc p).fpFilp (s.fproc p).fpBlockFd = some f → WriteKeeps C s f (s.fproc p).fpNbytes)
    (h : retryPipe C p woken s = .ok (m, s')) : Alert C s' := by
  obtain ⟨hwoken, hcaller⟩ := wake_refs hs hp hrev
  have hb₁ := wake_balanced hb hp hrev
  have hal₁ : Alert C (wake p s) := hal.passive (wake_passive hal.modes)
  obtain ⟨f, hf, hmoved⟩ := retryPipe_ok h
  have hself : (wake p s).fproc p =
      { s.fproc p with fpBlockedOn := .NONE, fpRevived := false } := Function.update_self _ _ _
  have hkind : kindOf s f = .NAMED_PIPE :=
    (hb.file p f ⟨hrev.1, .inr (.inr hpipe)⟩ hf).mpr hpipe
  have hwriting : (if (s.fproc p).fpBlockCallnr = .READ then RwFlag.READING else .WRITING) =
      .WRITING → (s.fproc p).fpBlockCallnr = .WRITE ∧
        (s.fproc p).fpNbytes = (s.fproc p).fpBuffer.length ∧ 0 < (s.fproc p).fpNbytes := by
    intro hflag
    rcases hal.calls p hrev.1 hpipe with hr | hw
    · rw [if_pos hr] at hflag
      cases hflag
    · exact hw
  refine rwPipe_alert hwoken hb₁ hal₁ hcaller (by rw [hself]; exact hf) hkind
    (fun hflag => (hwriting hflag).2) (fun hflag q hsleep => ?_)
    (fun hflag => hwrite (hwriting hflag).1 f hf) hmoved
  have hcall : (s.fproc p).fpBlockCallnr = .READ := by
    by_contra hne
    rw [if_neg hne] at hflag
    cases hflag
  have hq : q ≠ p := by
    rintro rfl
    have hb := hsleep.1.2.1
    rw [hself] at hb
    cases hb
  obtain ⟨hasleep, hnr, g, hg, hat⟩ := hsleep
  have hother : (wake p s).fproc q = s.fproc q := Function.update_of_ne hq _ _
  rw [hother] at hasleep hnr hg ⊢
  exact hread hcall f hf q ⟨hasleep, hnr, g, hg, hat⟩

end Alert

def KeepsRoom (C : VfsConfig) (s : VfsState) : Request → Prop
  | .read p fd nbytes _ => ∀ f, (s.fproc p).fpFilp fd = some f → (s.filp f).filpMode.has R_BIT →
    ReadKeeps C s (s.filp f).filpVno nbytes
  | .write p fd buf _ => ∀ f, (s.fproc p).fpFilp fd = some f → (s.filp f).filpMode.has W_BIT →
    WriteKeeps C s f buf.length
  | .getWork p _ _ => (s.fproc p).fpBlockedOn = .PIPE →
    ∀ f, (s.fproc p).fpFilp (s.fproc p).fpBlockFd = some f →
      ((s.fproc p).fpBlockCallnr = .READ →
        ReadKeeps C s (s.filp f).filpVno (s.fproc p).fpNbytes) ∧
      ((s.fproc p).fpBlockCallnr = .WRITE → WriteKeeps C s f (s.fproc p).fpNbytes)
  | req => OwnFds req ∧ ClonesFree req ∧ PipesUsed s req.lost

section Runs
variable {C : VfsConfig} {L : ℕ → ℕ} {s s' : VfsState} {req : Request} {past : List (VfsState × Request)}

theorem keepsRoom_own (h : KeepsRoom C s req) : OwnFds req ∧ ClonesFree req := by
  cases req with
  | read p fd nbytes woken => exact ⟨trivial, trivial⟩
  | write p fd buf woken => exact ⟨trivial, trivial⟩
  | getWork p woken outcome => exact ⟨trivial, trivial⟩
  | _ => exact ⟨h.1, h.2.1⟩

theorem keepsRoom_used (h : KeepsRoom C s req) : PipesUsed s req.lost := by
  cases req with
  | read p fd nbytes woken => exact fun _ h => (by cases h)
  | write p fd buf woken => exact fun _ h => (by cases h)
  | getWork p woken outcome => exact fun _ h => (by cases h)
  | _ => exact h.2.2

theorem alert_step (hs : Refs C L s) (hb : Balanced C s) (hal : Alert C s)
    (hsent : Sent C s req) (hkeeps : KeepsRoom C s req) (h : handle C s req = .ok s') :
    Alert C s' := by
  cases hcall : pipeCall C s req with
  | none =>
    have hown := keepsRoom_own hkeeps
    exact hal.passive (handle_passive hs hb hal.modes hal.calls hsent hown.1 hown.2
      (keepsRoom_used hkeeps) hcall h)
  | some c =>
    cases req with
    | read p fd nbytes woken =>
      obtain ⟨⟨m, s₁⟩, hread, rfl⟩ := ok_of_map h
      exact (readWrite_alert hs hb hal hsent.2.1 hsent.2.2 (fun hw => by cases hw) (fun _ => hkeeps)
        (fun hw => by cases hw) hread).finish
    | write p fd buf woken =>
      obtain ⟨⟨m, s₁⟩, hwrite, rfl⟩ := ok_of_map h
      exact (readWrite_alert hs hb hal hsent.2.1 hsent.2.2 (fun _ => rfl) (fun hw => by cases hw)
        (fun _ => hkeeps) hwrite).finish
    | getWork p woken outcome =>
      obtain ⟨hsome, hwork⟩ := getWork_ok h
      obtain ⟨hslot, hrev⟩ := hsent.2 hsome
      rcases hwork with ⟨hpipe, m, s₁, hretry, rfl⟩ | ⟨hpipe, -⟩
      · exact (retryPipe_alert hs hb hal hslot hrev hpipe (fun hr f hf => (hkeeps hpipe f hf).1 hr)
          (fun hw f hf => (hkeeps hpipe f hf).2 hw) hretry).finish
      · rw [pipeCall, if_neg hpipe] at hcall
        cases hcall
    | _ => cases hcall

theorem alert_of_initial (h : Initial C s) : Alert C s := by
  have hawake : ∀ q, ¬ (s.fproc q).asleep := fun q hq => by
    have hb := hq.2.1
    rw [h.blocked q] at hb
    cases hb
  refine ⟨fun f hcount => absurd (h.filps f) hcount, fun q _ hb => ?_,
    fun v _ hkind => absurd hkind (h.pipes v), fun q _ hq => absurd hq (hawake q),
    fun q _ hq => absurd hq (hawake q)⟩
  rw [h.blocked q] at hb
  cases hb

theorem alert_of_run (h : Run (vfsSystem C) (fun _ s req => KeepsRoom C s req) past s) :
    (∃ L, Refs C L s) ∧ Balanced C s ∧ Alert C s := by
  refine h.invariant (P := fun s => (∃ L, Refs C L s) ∧ Balanced C s ∧ Alert C s)
    (fun s hs => ⟨⟨_, refs_of_initial hs⟩, balanced_of_initial hs, alert_of_initial hs⟩) ?_
  rintro past s req s' ⟨⟨L, hs⟩, hb, hal⟩ hkeeps ⟨hsent, hstep⟩
  have hown := keepsRoom_own hkeeps
  have hsafe := handle_safe hs hb hsent hown.1
  rw [hstep] at hsafe
  exact ⟨handle_refs hs hsent (keepsRefs_of_own hown.1 hown.2) hstep, hsafe,
    alert_step hs hb hal hsent hkeeps hstep⟩

end Runs

theorem pipe_waits_have_reason (C : VfsConfig) (past : List (VfsState × Request)) (s : VfsState)
    (h : Run (vfsSystem C) (fun _ s req => KeepsRoom C s req) past s) (hrev : s.reviving = 0) :
    ∀ q f, (s.fproc q).free = false → (s.fproc q).fpBlockedOn = .PIPE →
      (s.fproc q).fpFilp (s.fproc q).fpBlockFd = some f →
      (s.fproc q).fpBlockCallnr = .READ ∧ content s (s.filp f).filpVno = [] ∧
          HasEnd C s (s.filp f).filpVno W_BIT ∨
        (s.fproc q).fpBlockCallnr = .WRITE ∧ HasEnd C s (s.filp f).filpVno R_BIT ∧
          ¬ Room C (content s (s.filp f).filpVno).length (s.fproc q).fpNbytes := by
  intro q f hfree hpipe hf
  obtain ⟨⟨L, hs⟩, hb, hal⟩ := alert_of_run h
  have hslot : q < C.NR_PROCS := (hs.fds q _ f hf).1
  have hasleep : (s.fproc q).asleep := by
    refine ⟨hfree, hpipe, ?_⟩
    have hcount := hb.reviving
    rw [hrev] at hcount
    have hnone := tally_zero_iff.mp (by exact_mod_cast hcount.symm) q hslot
    cases hr : (s.fproc q).fpRevived with
    | false => rfl
    | true => exact absurd ⟨hfree, hr⟩ hnone
  rcases hal.calls q hfree hpipe with hread | ⟨hwrite, -⟩
  · obtain ⟨hempty, hend⟩ := hal.reader q f hasleep hf hread
    refine .inl ⟨hread, ?_, hend⟩
    rw [content, Nat.sub_eq_zero_of_le hempty]
    rfl
  · exact .inr ⟨hwrite, hal.writer q f hasleep hf hwrite⟩

section Small

def spareVfs : VfsState := { emptyVfs with fproc p := { idleProc with free := decide (p = 1) } }

theorem spareVfs_initial : Initial smallVfs spareVfs where
  filps _ := rfl
  fds _ _ := rfl
  blocked _ := rfl
  revived _ := rfl
  partials _ := rfl
  dirs _ _ := ⟨rfl, rfl⟩
  refs v := by
    have hnone : tally smallVfs.NR_PROCS (·.fpRd = some v) spareVfs.fproc = 0 :=
      tally_zero_iff.mpr fun _ _ h => by cases h
    have hnone' : tally smallVfs.NR_PROCS (·.fpWd = some v) spareVfs.fproc = 0 :=
      tally_zero_iff.mpr fun _ _ h => by cases h
    rw [hnone, hnone']
    rfl
  pipes _ h := by cases h
  selecting _ := rfl
  sel _ := rfl
  inFlight _ := rfl
  susp := rfl
  reviving := rfl

def sharedPipe : VfsState := pmFork smallVfs 0 1 (doPipe smallVfs 0 0 (.ok ()) spareVfs)

theorem spare_caller {s : VfsState} {p : ℕ} (hp : p < 2) (hfree : (s.fproc p).free = false)
    (hb : (s.fproc p).fpBlockedOn = .NONE) : Caller smallVfs s p := ⟨hp, hfree, hb⟩

theorem on_pipe {s : VfsState} {p fd g : ℕ} (hfd : (s.fproc p).fpFilp fd = some g)
    (hkind : kindOf s g = .NAMED_PIPE) : ∀ f, (s.fproc p).fpFilp fd = some f →
      (s.vnode (s.filp f).filpVno).kind = .NAMED_PIPE := by
  intro f hf
  rw [hfd] at hf
  cases hf
  exact hkind

theorem sharedPipe_run {ok : List (VfsState × Request) → VfsState → Request → Prop}
    (hpipe : ∀ past s, ok past s (.pipe 0 0 (.ok ()))) (hfork : ∀ past s, ok past s (.fork 0 1)) :
    ∃ past, Run (vfsSystem smallVfs) ok past sharedPipe := by
  have hfirst : (vfsSystem smallVfs).step spareVfs (.pipe 0 0 (.ok ()))
      (doPipe smallVfs 0 0 (.ok ()) spareVfs) :=
    ⟨⟨rfl, spare_caller (by decide) rfl rfl, rfl⟩, rfl⟩
  have hsecond : (vfsSystem smallVfs).step (doPipe smallVfs 0 0 (.ok ()) spareVfs) (.fork 0 1)
      sharedPipe := ⟨⟨rfl, spare_caller (by decide) rfl rfl, by decide, rfl⟩, rfl⟩
  exact ⟨_, .next (.next (.start spareVfs_initial) (hpipe _ _) hfirst) (hfork _ _) hsecond⟩

def halfPipe : VfsState := after smallVfs sharedPipe (.write 0 1 (fiveBytes.take 3) [])

def halfWriter : VfsState := after smallVfs halfPipe (.write 0 1 (fiveBytes.take 3) [])

def halfRead : VfsState := after smallVfs halfWriter (.read 1 0 1 [])

theorem writer_waits_for_room : ∃ past s,
    Run (vfsSystem smallVfs) (fun _ s req => KeepsRoom smallVfs s req) past s ∧
      (s.fproc 0).fpBlockedOn = .PIPE ∧ HasEnd smallVfs s 0 R_BIT ∧
      (content s 0).length = 2 ∧ ¬ Room smallVfs (content s 0).length (s.fproc 0).fpNbytes := by
  obtain ⟨past, hshared⟩ : ∃ past,
      Run (vfsSystem smallVfs) (fun _ s req => KeepsRoom smallVfs s req) past sharedPipe :=
    sharedPipe_run (fun _ _ => ⟨trivial, trivial, fun _ h => (by cases h)⟩)
      fun _ _ => ⟨trivial, trivial, fun _ h => (by cases h)⟩
  have hfits : KeepsRoom smallVfs sharedPipe (.write 0 1 (fiveBytes.take 3) []) := by
    intro f hf _ _ _ hfull
    have hone : (sharedPipe.fproc 0).fpFilp 1 = some 1 := rfl
    rw [hone] at hf
    cases hf
    exact absurd hfull (by decide)
  have hwaits : KeepsRoom smallVfs halfPipe (.write 0 1 (fiveBytes.take 3) []) := by
    intro f hf _ _ _ _
    have hone : (halfPipe.fproc 0).fpFilp 1 = some 1 := rfl
    rw [hone] at hf
    cases hf
    exact fun h => h.elim (by decide) fun h => absurd h.1 (by decide)
  have hfirst : (vfsSystem smallVfs).step sharedPipe _ halfPipe :=
    step_after ⟨rfl, spare_caller (by decide) rfl rfl, on_pipe rfl rfl⟩ rfl
  have hsecond : (vfsSystem smallVfs).step halfPipe _ halfWriter :=
    step_after ⟨rfl, spare_caller (by decide) rfl rfl, on_pipe rfl rfl⟩ rfl
  have hthird : (vfsSystem smallVfs).step halfWriter _ halfRead :=
    step_after ⟨rfl, spare_caller (by decide) rfl rfl, on_pipe rfl rfl⟩ rfl
  have hasleep := Run.next (.next hshared hfits hfirst) hwaits hsecond
  have hleaves : KeepsRoom smallVfs halfWriter (.read 1 0 1 []) := by
    intro f hf _ q hq
    have hzero : (halfWriter.fproc 1).fpFilp 0 = some 0 := rfl
    rw [hzero] at hf
    cases hf
    obtain ⟨⟨L, hrefs⟩, -⟩ := alert_of_run hasleep
    obtain ⟨hsleeps, -, g, hg, -⟩ := hq
    have hslot : q < 2 := (hrefs.fds q _ g hg).1
    obtain rfl | rfl : q = 0 ∨ q = 1 := by omega
    · exact fun h => h.elim (by decide) fun h => absurd h.1 (by decide)
    · exact absurd hsleeps.2.1 (by decide)
  have hrun := Run.next hasleep hleaves hthird
  rcases pipe_waits_have_reason smallVfs _ _ hrun rfl 0 1 rfl rfl rfl with hreads | hwrites
  · exact absurd hreads.1 (by decide)
  · exact ⟨_, _, hrun, rfl, hwrites.2.1, rfl, hwrites.2.2⟩

def fullPipe : VfsState := after smallVfs sharedPipe (.write 0 1 (fiveBytes.take 4) [])

def waitingWriter : VfsState := after smallVfs fullPipe (.write 0 1 (fiveBytes.drop 4) [])

def drainedPipe : VfsState := after smallVfs waitingWriter (.read 1 0 4 [])

theorem drainedPipe_run : ∃ past, Run (vfsSystem smallVfs) always past drainedPipe := by
  obtain ⟨past, hshared⟩ : ∃ past, Run (vfsSystem smallVfs) always past sharedPipe :=
    sharedPipe_run (fun _ _ => trivial) fun _ _ => trivial
  have hfill : (vfsSystem smallVfs).step sharedPipe _ fullPipe :=
    step_after ⟨rfl, spare_caller (by decide) rfl rfl, on_pipe rfl rfl⟩ rfl
  have hwait : (vfsSystem smallVfs).step fullPipe _ waitingWriter :=
    step_after ⟨rfl, spare_caller (by decide) rfl rfl, on_pipe rfl rfl⟩ rfl
  have hdrain : (vfsSystem smallVfs).step waitingWriter _ drainedPipe :=
    step_after ⟨rfl, spare_caller (by decide) rfl rfl, on_pipe rfl rfl⟩ rfl
  exact ⟨_, .next (.next (.next hshared trivial hfill) trivial hwait) trivial hdrain⟩

theorem writer_waits_with_room : ¬ ∀ (C : VfsConfig) (s : VfsState), (vfsSystem C).Reachable s →
    s.reviving = 0 → ∀ q f, (s.fproc q).free = false → (s.fproc q).fpBlockedOn = .PIPE →
      (s.fproc q).fpFilp (s.fproc q).fpBlockFd = some f → (s.fproc q).fpBlockCallnr = .WRITE →
        ¬ Room C (content s (s.filp f).filpVno).length (s.fproc q).fpNbytes := by
  intro hall
  refine hall smallVfs drainedPipe drainedPipe_run rfl 0 1 rfl rfl rfl rfl (.inl ?_)
  decide

end Small

end Vfs
