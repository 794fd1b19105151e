import Cs111.Vfs.Still

namespace Vfs
open Tally TransitionSystem Errno

section Check
variable {C : VfsConfig} {L : ℕ → ℕ} {s s' : VfsState} {v bytes pos : ℕ} {nonblock : Bool} {woken : Woken}

def Refused (C : VfsConfig) (v : ℕ) (nonblock : Bool) (bytes pos : ℕ) (s : VfsState) : Prop :=
  findFilp C s v R_BIT = none ∨ (nonblock = true ∧ pos + bytes > C.PIPE_BUF ∧
    (bytes ≤ C.PIPE_BUF ∨ C.PIPE_BUF - pos = 0))

def Check.Answers (C : VfsConfig) (v : ℕ) (nonblock : Bool) (bytes pos : ℕ) (s : VfsState) :
    Check → Prop
  | .error _ => Refused C v nonblock bytes pos s
  | .suspend => ¬ nonblock = true
  | .bytes n => 0 < n ∧ n ≤ bytes ∧ (n < bytes → C.PIPE_BUF < bytes)

theorem pipeCheck_writing {r : Check} (hpos : 0 < bytes)
    (h : pipeCheck C v .WRITING nonblock bytes pos woken s = .ok (r, s')) :
    r.Answers C v nonblock bytes pos s := by
  have hmap : ∀ {callnr : CallNr} {count : ℤ} {r' : Check},
      (release C v callnr count woken s).map (r', ·) = .ok (r, s') → r = r' := by
    intro callnr count r' h
    obtain ⟨s₁, -, hpair⟩ := ok_of_map h
    cases hpair
    rfl
  unfold pipeCheck at h
  dsimp only at h
  split at h
  · next hnone =>
    cases h
    exact .inl hnone
  · split at h
    · next hfull =>
      split at h
      · next hnb =>
        split at h
        · next hsmall =>
          cases h
          exact .inr ⟨hnb, hfull, .inl hsmall⟩
        · next hlarge =>
          split at h
          · next hroom =>
            rw [hmap h]
            exact ⟨hroom, by omega, fun _ => by omega⟩
          · next hroom =>
            cases h
            exact .inr ⟨hnb, hfull, .inr (by omega)⟩
      · next hnb =>
        split at h
        · next hroom =>
          rw [hmap h]
          exact ⟨hroom.2, by omega, fun _ => hroom.1⟩
        · cases h
          exact hnb
    · split at h
      · rw [hmap h]
        exact ⟨hpos, Nat.le_refl _, fun h => absurd h (Nat.lt_irrefl _)⟩
      · cases h
        exact ⟨hpos, Nat.le_refl _, fun h => absurd h (Nat.lt_irrefl _)⟩

end Check

-- The bytes between the positions of a pipe.
section Content
variable {s : VfsState} {v nbytes : ℕ} {buf : List Byte}

def content (s : VfsState) (v : ℕ) : List Byte :=
  readData (s.vnode v).vData (s.vnode v).vPipeRdPos ((s.vnode v).vSize - (s.vnode v).vPipeRdPos)

structure Ends (vp : Vnode) : Prop where
  wrPos : vp.vPipeWrPos = vp.vSize
  rdPos : vp.vPipeRdPos ≤ vp.vSize

theorem readData_append (data : ℕ → Byte) (pos n m : ℕ) :
    readData data pos (n + m) = readData data pos n ++ readData data (pos + n) m := by
  rw [readData, List.range_add, List.map_append, List.map_map, readData, readData]
  refine congrArg _ (List.map_congr_left fun i _ => ?_)
  rw [Function.comp_apply, Nat.add_assoc]

theorem readData_congr {data data' : ℕ → Byte} {pos n : ℕ}
    (h : ∀ i, pos ≤ i → i < pos + n → data' i = data i) :
    readData data' pos n = readData data pos n := by
  refine List.map_congr_left fun i hi => ?_
  rw [List.mem_range] at hi
  exact h _ (Nat.le_add_right _ _) (Nat.add_lt_add_left hi _)

theorem readData_written (data : ℕ → Byte) (pos : ℕ) (buf : List Byte) :
    readData (writeData data pos buf) pos buf.length = buf := by
  refine List.ext_getElem ?_ fun i hi hi' => ?_
  · rw [readData, List.length_map, List.length_range]
  · simp only [readData, List.getElem_map, List.getElem_range, writeData]
    rw [if_pos (Nat.le_add_right _ _), Nat.add_sub_cancel_left, List.getD_eq_getElem?_getD,
      List.getElem?_eq_getElem hi', Option.getD_some]

theorem content_written (buf : List Byte) (h : Ends (s.vnode v)) :
    content (writePipe v buf s) v = content s v ++ buf ∧ Ends ((writePipe v buf s).vnode v) := by
  obtain ⟨hwr, hrd⟩ := h
  have hvnode : (writePipe v buf s).vnode v = { s.vnode v with
      vData := writeData (s.vnode v).vData (s.vnode v).vPipeWrPos buf
      vSize := if (s.vnode v).vPipeWrPos + buf.length > (s.vnode v).vSize then
        (s.vnode v).vPipeWrPos + buf.length else (s.vnode v).vSize
      vPipeWrPos := (s.vnode v).vPipeWrPos + buf.length } := by
    unfold writePipe
    exact (vnode_setVnode v).trans (if_pos rfl)
  have hsize : (if (s.vnode v).vPipeWrPos + buf.length > (s.vnode v).vSize then
      (s.vnode v).vPipeWrPos + buf.length else (s.vnode v).vSize) = (s.vnode v).vSize + buf.length := by
    rw [hwr]
    split <;> omega
  rw [hsize] at hvnode
  refine ⟨?_, ?_⟩
  · rw [content, content, hvnode]
    dsimp only
    have hsplit : (s.vnode v).vSize + buf.length - (s.vnode v).vPipeRdPos =
        ((s.vnode v).vSize - (s.vnode v).vPipeRdPos) + buf.length := by omega
    rw [hsplit, readData_append]
    congr 1
    · refine readData_congr fun i _ hi => ?_
      rw [writeData, if_neg (by omega)]
    · have hend : (s.vnode v).vPipeRdPos + ((s.vnode v).vSize - (s.vnode v).vPipeRdPos) =
          (s.vnode v).vPipeWrPos := by omega
      rw [hend, readData_written]
  · rw [hvnode]
    exact ⟨by rw [hwr], by dsimp only; omega⟩

theorem content_read (nbytes : ℕ) (h : Ends (s.vnode v)) :
    content s v = (readPipe v nbytes s).1 ++ content (readPipe v nbytes s).2 v ∧
      Ends ((readPipe v nbytes s).2.vnode v) := by
  obtain ⟨hwr, hrd⟩ := h
  have hvnode : ∀ x : Vnode, (setVnode s v x).vnode v = x := fun x =>
    (vnode_setVnode v).trans (if_pos rfl)
  unfold readPipe
  dsimp only
  generalize hsize : (if (s.vnode v).vPipeRdPos + nbytes > (s.vnode v).vSize then
    (s.vnode v).vSize - (s.vnode v).vPipeRdPos else nbytes) = size
  have hle : (s.vnode v).vPipeRdPos + size ≤ (s.vnode v).vSize := by
    rw [← hsize]
    split <;> omega
  split
  · next hall =>
    refine ⟨?_, ?_⟩
    · rw [content, content, hvnode]
      dsimp only
      have hempty : readData (s.vnode v).vData 0 (0 - 0) = [] := rfl
      rw [hempty, List.append_nil]
      congr 1
      omega
    · rw [hvnode]
      exact ⟨rfl, Nat.le_refl _⟩
  · next hsome =>
    refine ⟨?_, ?_⟩
    · rw [content, content, hvnode]
      dsimp only
      rw [← readData_append]
      congr 1
      omega
    · rw [hvnode]
      exact ⟨hwr, hle⟩

theorem content_same {s' : VfsState} (h : (s.vnode v).SameData (s'.vnode v)) :
    content s' v = content s v := by
  rw [content, content, h.vData, h.vPipeRdPos, h.vSize]

theorem Ends.same {vp vp' : Vnode} (h : Ends vp) (hsame : vp.SameData vp') : Ends vp' :=
  ⟨by rw [hsame.vPipeWrPos, hsame.vSize, h.wrPos], by
    rw [hsame.vPipeRdPos, hsame.vSize]
    exact h.rdPos⟩

theorem other_vnode {x : Vnode} {w : ℕ} (hw : w ≠ v) : (setVnode s v x).vnode w = s.vnode w :=
  (vnode_setVnode w).trans (if_neg hw)

end Content

-- The calls on pipes of a run, and what they have moved.
section Log
variable (C : VfsConfig)

structure PipeCall where
  p : ℕ
  flag : RwFlag
  v : ℕ
  moved : Moved

def vnoOf (s : VfsState) (p fd : ℕ) : ℕ :=
  match (s.fproc p).fpFilp fd with
  | some f => (s.filp f).filpVno
  | none => 0

def retryFlag (s : VfsState) (p : ℕ) : RwFlag :=
  if (s.fproc p).fpBlockCallnr = .READ then .READING else .WRITING

def pipeCall (s : VfsState) : Request → Option PipeCall
  | .read p fd nbytes woken =>
    match readWrite C .READING p fd [] nbytes woken s with
    | .ok (m, _) => some ⟨p, .READING, vnoOf s p fd, m⟩
    | .error _ => none
  | .write p fd buf woken =>
    match readWrite C .WRITING p fd buf buf.length woken s with
    | .ok (m, _) => some ⟨p, .WRITING, vnoOf s p fd, m⟩
    | .error _ => none
  | .getWork p woken _ =>
    if (s.fproc p).fpBlockedOn = .PIPE then
      match retryPipe C p woken s with
      | .ok (m, _) => some ⟨p, retryFlag s p, vnoOf s p (s.fproc p).fpBlockFd, m⟩
      | .error _ => none
    else none
  | _ => none

def stream (flag : RwFlag) : List (VfsState × Request) → ℕ → List Byte
  | [], _ => []
  | (s, req) :: past, v =>
    (if (s.vnode v).vRefCount = 0 then [] else stream flag past v) ++
      match pipeCall C s req with
      | some c => if c.flag = flag ∧ c.v = v then c.moved.bytes else []
      | none => []

def lastWrite : List (VfsState × Request) → ℕ → List Byte
  | [], _ => []
  | (_, .write q _ buf _) :: past, p => if q = p then buf else lastWrite past p
  | _ :: past, p => lastWrite past p

def written : List (VfsState × Request) → ℕ → List Byte
  | [], _ => []
  | (s, .write q fd buf woken) :: past, p =>
    if q = p then
      match pipeCall C s (.write q fd buf woken) with
      | some c => c.moved.bytes
      | none => []
    else written past p
  | (s, .getWork q woken outcome) :: past, p =>
    written past p ++
      match pipeCall C s (.getWork q woken outcome) with
      | some c => if c.p = p ∧ c.flag = .WRITING then c.moved.bytes else []
      | none => []
  | _ :: past, p => written past p

end Log

def KeepsPartial (C : VfsConfig) (s : VfsState) : Request → Prop
  | .signal p _ => (s.fproc p).fpCumIoPartial = 0
  | .getWork p _ _ => (s.fproc p).fpCumIoPartial ≠ 0 →
    ∀ f, (s.fproc p).fpFilp (s.fproc p).fpBlockFd = some f →
      ¬ Refused C (s.filp f).filpVno (s.filp f).nonblock (s.fproc p).fpNbytes
        (s.vnode (s.filp f).filpVno).vPipeWrPos s
  | req => OwnFds req ∧ ClonesFree req ∧ PipesUsed s req.lost

structure Underway (C : VfsConfig) (last done : List Byte) (rp : Fproc) : Prop where
  cum : rp.fpCumIoPartial = done.length
  rest : last = done ++ rp.fpBuffer
  nbytes : rp.fpNbytes = rp.fpBuffer.length
  pos : 0 < rp.fpNbytes
  whole : last.length ≤ C.PIPE_BUF → done = []

structure Streams (C : VfsConfig) (past : List (VfsState × Request)) (s : VfsState) : Prop where
  cum : ∀ p, (s.fproc p).free = false → (s.fproc p).fpCumIoPartial ≠ 0 →
    (s.fproc p).fpBlockedOn = .PIPE ∧ (s.fproc p).fpBlockCallnr = .WRITE
  calls : ∀ p, (s.fproc p).free = false → (s.fproc p).fpBlockedOn = .PIPE →
    (s.fproc p).fpBlockCallnr = .READ ∨ (s.fproc p).fpBlockCallnr = .WRITE
  write : ∀ p, (s.fproc p).free = false → (s.fproc p).fpBlockedOn = .PIPE →
    (s.fproc p).fpBlockCallnr = .WRITE → Underway C (lastWrite past p) (written C past p) (s.fproc p)
  pipe : ∀ v, (s.vnode v).vRefCount ≠ 0 → (s.vnode v).kind = .NAMED_PIPE → Ends (s.vnode v) ∧
    stream C .WRITING past v = stream C .READING past v ++ content s v

structure PipeEffect (C : VfsConfig) (flag : RwFlag) (p v : ℕ) (last done : List Byte) (m : Moved)
    (s s' : VfsState) : Prop where
  others : ∀ q, q ≠ p → (s.fproc q).Kept (s'.fproc q)
  cum : (s'.fproc p).fpCumIoPartial ≠ 0 →
    (s'.fproc p).fpBlockedOn = .PIPE ∧ (s'.fproc p).fpBlockCallnr = .WRITE
  calls : (s'.fproc p).fpBlockedOn = .PIPE →
    (s'.fproc p).fpBlockCallnr = .READ ∨ (s'.fproc p).fpBlockCallnr = .WRITE
  write : (s'.fproc p).fpBlockedOn = .PIPE → (s'.fproc p).fpBlockCallnr = .WRITE →
    flag = .WRITING ∧ Underway C last (done ++ m.bytes) (s'.fproc p)
  returns : flag = .WRITING → ∀ n, m.result = some (.ok n) → n = (done ++ m.bytes).length
  whole : flag = .WRITING → last.length ≤ C.PIPE_BUF → m.bytes = [] ∨ m.bytes = last
  refs : ∀ w, (s'.vnode w).vRefCount = (s.vnode w).vRefCount ∧
    (s'.vnode w).kind = (s.vnode w).kind
  data : ∀ w, w ≠ v → (s.vnode w).SameData (s'.vnode w)
  moved : Ends (s.vnode v) → Ends (s'.vnode v) ∧
    (flag = .WRITING → content s' v = content s v ++ m.bytes) ∧
    (flag = .READING → content s v = m.bytes ++ content s' v)

section Effect
variable {C : VfsConfig} {L : ℕ → ℕ} {s s₁ s' : VfsState} {p fd f v nbytes n : ℕ} {flag : RwFlag} {woken : Woken}
  {buf last done : List Byte} {m : Moved}

theorem Caller.kept_roused (hp : Caller C s p) (h : Roused s s₁) :
    (s₁.fproc p).fpBlockedOn = .NONE ∧
      (s₁.fproc p).fpCumIoPartial = (s.fproc p).fpCumIoPartial :=
  ⟨(hp.roused h).runs, (h.fproc p).fpCumIoPartial_eq⟩

theorem roused_refs (h : Roused s s₁) (w : ℕ) : (s₁.vnode w).vRefCount = (s.vnode w).vRefCount ∧
    (s₁.vnode w).kind = (s.vnode w).kind := by
  rw [h.vnode]
  exact ⟨rfl, rfl⟩

theorem moved_nothing (h : ∀ w, (s.vnode w).SameData (s'.vnode w)) (he : Ends (s.vnode v)) :
    Ends (s'.vnode v) ∧ (flag = .WRITING → content s' v = content s v ++ []) ∧
      (flag = .READING → content s v = [] ++ content s' v) :=
  ⟨he.same (h v), fun _ => by rw [content_same (h v), List.append_nil], fun _ => by
    rw [content_same (h v), List.nil_append]⟩

theorem ended_effect (hp : Caller C s p) (hcum : (s.fproc p).fpCumIoPartial = 0)
    (h : Roused s s₁) {r : Except Errno ℕ}
    (hr : flag = .WRITING → ∀ n, r = .ok n → n = done.length) :
    PipeEffect C flag p v last done ⟨some r, []⟩ s s₁ := by
  obtain ⟨hb, hc⟩ := hp.kept_roused h
  refine ⟨fun q _ => (h.fproc q).kept, fun hne => ?_, fun hpipe => ?_, fun hpipe => ?_,
    fun hw n hn => ?_, fun _ _ => .inl rfl, roused_refs h, fun w _ => h.still.data w,
    moved_nothing h.still.data⟩
  · exact absurd (hc.trans hcum) hne
  · exact absurd (hb.symm.trans hpipe) (by decide)
  · exact absurd (hb.symm.trans hpipe) (by decide)
  · rw [List.append_nil]
    exact hr hw n (Option.some.inj hn)

theorem suspended_proc (q : ℕ) : (pipeSuspend p flag fd buf nbytes s).fproc q =
    if q = p then { s.fproc p with
      fpBlockedOn := .PIPE
      fpBlockFd := fd
      fpBlockCallnr := if flag = .READING then .READ else .WRITE
      fpBuffer := buf
      fpNbytes := nbytes } else s.fproc q := Function.update_apply _ _ _ _

theorem callnr_write (h : (if flag = .READING then CallNr.READ else .WRITE) = .WRITE) :
    flag = .WRITING := by
  cases flag with
  | READING => cases h
  | WRITING => rfl

theorem waits_effect (hp : Caller C s p) (hcum : flag = .READING → (s.fproc p).fpCumIoPartial = 0)
    (h : Roused s s₁)
    (hw : flag = .WRITING → (s.fproc p).fpCumIoPartial = done.length ∧ last = done ++ buf ∧
      nbytes = buf.length ∧ 0 < nbytes ∧ (last.length ≤ C.PIPE_BUF → done = [])) :
    PipeEffect C flag p v last done ⟨none, []⟩ s (pipeSuspend p flag fd buf nbytes s₁) := by
  have hc : (s₁.fproc p).fpCumIoPartial = (s.fproc p).fpCumIoPartial := (hp.kept_roused h).2
  have hrefs := roused_refs h
  have hdata : ∀ w, (s.vnode w).SameData ((pipeSuspend p flag fd buf nbytes s₁).vnode w) :=
    h.still.data
  refine ⟨fun q hq => ?_, fun hne => ?_, fun _ => ?_, fun _ hcall => ?_, fun _ n hn => (by cases hn),
    fun _ _ => .inl rfl, hrefs, fun w _ => hdata w, moved_nothing hdata⟩
  · rw [suspended_proc, if_neg hq]
    exact (h.fproc q).kept
  · rw [suspended_proc, if_pos rfl] at hne ⊢
    refine ⟨rfl, ?_⟩
    dsimp only at hne ⊢
    rw [if_neg fun hr => hne (hc.trans (hcum hr))]
  · rw [suspended_proc, if_pos rfl]
    dsimp only
    split
    · exact .inl rfl
    · exact .inr rfl
  · rw [suspended_proc, if_pos rfl] at hcall ⊢
    have hflag := callnr_write hcall
    obtain ⟨hcw, hlast, hlen, hpos, hwhole⟩ := hw hflag
    refine ⟨hflag, ?_⟩
    rw [List.append_nil]
    exact ⟨hc.trans hcw, hlast, hlen, hpos, hwhole⟩

theorem setPartial_proc (q : ℕ) : (setPartial p n s).fproc q =
    if q = p then { s.fproc p with fpCumIoPartial := n } else s.fproc q :=
  Function.update_apply _ _ _ _

theorem read_effect (hp : Caller C s p) (h : Roused s s₁) {r : Except Errno ℕ} :
    PipeEffect C .READING p v last done ⟨some r, (readPipe v n s₁).1⟩ s
      (setPartial p 0 (readPipe v n s₁).2) := by
  have hb := (hp.kept_roused h).1
  have hproc : (readPipe v n s₁).2.fproc = s₁.fproc := rfl
  have hnot : ((setPartial p 0 (readPipe v n s₁).2).fproc p).fpBlockedOn = .NONE := by
    rw [setPartial_proc, if_pos rfl]
    exact hb
  have hvnode : ∀ w, w ≠ v → (readPipe v n s₁).2.vnode w = s₁.vnode w := fun w hw => other_vnode hw
  refine ⟨fun q hq => ?_, fun hne => ?_, fun hpipe => ?_, fun hpipe => ?_, fun hw => (by cases hw),
    fun hw => (by cases hw), fun w => ?_, fun w hw => ?_, fun he => ?_⟩
  · rw [setPartial_proc, if_neg hq, hproc]
    exact (h.fproc q).kept
  · rw [setPartial_proc, if_pos rfl] at hne
    exact absurd rfl hne
  · exact absurd (hnot.symm.trans hpipe) (by decide)
  · exact absurd (hnot.symm.trans hpipe) (by decide)
  · have hrefs := roused_refs h w
    by_cases hw : w = v
    · subst hw
      have hkept : ((readPipe w n s₁).2.vnode w).vRefCount = (s₁.vnode w).vRefCount ∧
          ((readPipe w n s₁).2.vnode w).kind = (s₁.vnode w).kind := by
        unfold readPipe
        dsimp only
        rw [vnode_setVnode, if_pos rfl]
        split <;> split <;> exact ⟨rfl, rfl⟩
      exact ⟨hkept.1.trans hrefs.1, hkept.2.trans hrefs.2⟩
    · have hsame : (setPartial p 0 (readPipe v n s₁).2).vnode w = s₁.vnode w := hvnode w hw
      rw [hsame]
      exact hrefs
  · have hsame : (setPartial p 0 (readPipe v n s₁).2).vnode w = s₁.vnode w := hvnode w hw
    rw [hsame]
    exact h.still.data w
  · have hread := content_read n (he.same (h.still.data v))
    rw [content_same (h.still.data v)] at hread
    exact ⟨hread.2, fun hw => absurd hw (by decide), fun _ => hread.1⟩

theorem written_effect (p v : ℕ) (buf : List Byte) (h : Roused s s₁) :
    (∀ q, q ≠ p → (s.fproc q).Kept ((setPartial p n (writePipe v buf s₁)).fproc q)) ∧
      (∀ w, ((setPartial p n (writePipe v buf s₁)).vnode w).vRefCount = (s.vnode w).vRefCount ∧
        ((setPartial p n (writePipe v buf s₁)).vnode w).kind = (s.vnode w).kind) ∧
      (∀ w, w ≠ v → (s.vnode w).SameData ((setPartial p n (writePipe v buf s₁)).vnode w)) ∧
      (Ends (s.vnode v) → Ends ((setPartial p n (writePipe v buf s₁)).vnode v) ∧
        content (setPartial p n (writePipe v buf s₁)) v = content s v ++ buf) := by
  refine ⟨fun q hq => ?_, fun w => ?_, fun w hw => ?_, fun he => ?_⟩
  · rw [setPartial_proc, if_neg hq]
    exact (h.fproc q).kept
  · have hrefs := roused_refs h w
    by_cases hw : w = v
    · subst hw
      have hkept : ((writePipe w buf s₁).vnode w).vRefCount = (s₁.vnode w).vRefCount ∧
          ((writePipe w buf s₁).vnode w).kind = (s₁.vnode w).kind := by
        unfold writePipe
        dsimp only
        rw [vnode_setVnode, if_pos rfl]
        exact ⟨rfl, rfl⟩
      exact ⟨hkept.1.trans hrefs.1, hkept.2.trans hrefs.2⟩
    · have hsame : (setPartial p n (writePipe v buf s₁)).vnode w = s₁.vnode w := other_vnode hw
      rw [hsame]
      exact hrefs
  · have hsame : (setPartial p n (writePipe v buf s₁)).vnode w = s₁.vnode w := other_vnode hw
    rw [hsame]
    exact h.still.data w
  · have hwrite := content_written buf (he.same (h.still.data v))
    rw [content_same (h.still.data v)] at hwrite
    exact ⟨hwrite.2, hwrite.1⟩

theorem wrote_effect (hp : Caller C s p) (h : Roused s s₁) (hn : n ≤ nbytes)
    (hlen : nbytes = buf.length) (hpart : n < nbytes → C.PIPE_BUF < nbytes)
    (hcum : (s.fproc p).fpCumIoPartial = done.length) (hlast : last = done ++ buf)
    (hwhole : last.length ≤ C.PIPE_BUF → done = []) :
    PipeEffect C .WRITING p v last done
      ⟨some (.ok ((s.fproc p).fpCumIoPartial + n)), buf.take n⟩ s
      (setPartial p 0 (writePipe v (buf.take n) s₁)) := by
  have hb := (hp.kept_roused h).1
  have hnot : ((setPartial p 0 (writePipe v (buf.take n) s₁)).fproc p).fpBlockedOn = .NONE := by
    rw [setPartial_proc, if_pos rfl]
    exact hb
  have hwritten := written_effect (n := 0) p v (buf.take n) h
  refine ⟨hwritten.1, fun hne => ?_, fun hpipe => ?_, fun hpipe => ?_, fun _ k hk => ?_,
    fun _ hshort => ?_, hwritten.2.1, hwritten.2.2.1, fun he => ?_⟩
  · rw [setPartial_proc, if_pos rfl] at hne
    exact absurd rfl hne
  · exact absurd (hnot.symm.trans hpipe) (by decide)
  · exact absurd (hnot.symm.trans hpipe) (by decide)
  · have hk := Except.ok.inj (Option.some.inj hk)
    rw [List.length_append, List.length_take, ← hk, hcum]
    omega
  · have hnil := hwhole hshort
    rw [hnil, List.nil_append] at hlast
    rw [hlast] at hshort ⊢
    have hall : n = buf.length := by
      by_contra hne
      have := hpart (by omega)
      omega
    exact .inr (by rw [hall, List.take_length])
  · obtain ⟨he', hcontent⟩ := hwritten.2.2.2 he
    exact ⟨he', fun _ => hcontent, fun hr => absurd hr (by decide)⟩

theorem part_effect (h : Roused s s₁) (hn : n < nbytes)
    (hlen : nbytes = buf.length) (hpart : n < nbytes → C.PIPE_BUF < nbytes)
    (hcum : (s.fproc p).fpCumIoPartial = done.length) (hlast : last = done ++ buf) :
    PipeEffect C .WRITING p v last done ⟨none, buf.take n⟩ s
      (pipeSuspend p .WRITING fd (buf.drop n) (nbytes - n)
        (setPartial p ((s.fproc p).fpCumIoPartial + n) (writePipe v (buf.take n) s₁))) := by
  have hwritten := written_effect (n := (s.fproc p).fpCumIoPartial + n) p v
    (buf.take n) h
  have hlong : C.PIPE_BUF < last.length := by
    have := hpart hn
    rw [hlast, List.length_append]
    omega
  refine ⟨fun q hq => ?_, fun _ => ?_, fun _ => .inr ?_, fun _ _ => ⟨rfl, ?_⟩, fun _ k hk => (by cases hk),
    fun _ hshort => absurd hshort (by omega), hwritten.2.1, hwritten.2.2.1, fun he => ?_⟩
  · rw [suspended_proc, if_neg hq]
    exact hwritten.1 q hq
  · rw [suspended_proc, if_pos rfl]
    exact ⟨rfl, rfl⟩
  · rw [suspended_proc, if_pos rfl]
    rfl
  · rw [suspended_proc, if_pos rfl, setPartial_proc, if_pos rfl]
    refine ⟨?_, ?_, ?_, ?_, fun hshort => absurd hshort (by omega)⟩
    · dsimp only
      rw [List.length_append, List.length_take, hcum]
      omega
    · dsimp only
      rw [List.append_assoc, List.take_append_drop, hlast]
    · dsimp only
      rw [List.length_drop, hlen]
    · dsimp only
      omega
  · obtain ⟨he', hcontent⟩ := hwritten.2.2.2 he
    exact ⟨he', fun _ => hcontent, fun hr => absurd hr (by decide)⟩

theorem rwPipe_effect (hs : Refs C L s) (hp : Caller C s p)
    (hread : flag = .READING → (s.fproc p).fpCumIoPartial = 0)
    (hw : flag = .WRITING → (s.fproc p).fpCumIoPartial = done.length ∧ last = done ++ buf ∧
      nbytes = buf.length ∧ 0 < nbytes ∧ (last.length ≤ C.PIPE_BUF → done = []))
    (hkeeps : flag = .WRITING → (s.fproc p).fpCumIoPartial ≠ 0 →
      ¬ Refused C (s.filp f).filpVno (s.filp f).nonblock nbytes
        (s.vnode (s.filp f).filpVno).vPipeWrPos s)
    (h : rwPipe C flag p fd f buf nbytes woken s = .ok (m, s')) :
    PipeEffect C flag p (s.filp f).filpVno last done m s s' := by
  obtain ⟨⟨r, s₁⟩, hcheck, hmoved⟩ := ok_of_map h
  have hroused := pipeCheck_roused hs.waits hcheck
  dsimp only at hmoved
  cases flag with
  | READING =>
    have hcum := hread rfl
    cases r with
    | error e =>
      cases hmoved
      exact ended_effect hp hcum hroused fun hw => by cases hw
    | suspend =>
      cases hmoved
      exact waits_effect hp (fun _ => hcum) hroused fun hw => by cases hw
    | bytes n =>
      unfold movePipe at hmoved
      dsimp only at hmoved
      split at hmoved
      · cases hmoved
        exact ended_effect hp hcum hroused fun hw => by cases hw
      · cases hmoved
        exact read_effect hp hroused
  | WRITING =>
    obtain ⟨hcum, hlast, hlen, hpos, hwhole⟩ := hw rfl
    have hanswer := pipeCheck_writing hpos hcheck
    cases r with
    | error e =>
      cases hmoved
      refine ended_effect hp ?_ hroused fun _ n hn => by cases hn
      by_contra hne
      exact hkeeps rfl hne hanswer
    | suspend =>
      cases hmoved
      exact waits_effect hp (fun hr => by cases hr) hroused
        fun _ => ⟨hcum, hlast, hlen, hpos, hwhole⟩
    | bytes n =>
      obtain ⟨hn, hle, hpart⟩ := hanswer
      unfold movePipe at hmoved
      dsimp only at hmoved
      split at hmoved
      · next hzero => exact absurd hzero (by omega)
      · split at hmoved
        · next hmore =>
          cases hmoved
          exact part_effect hroused hmore.1 hlen hpart hcum hlast
        · cases hmoved
          exact wrote_effect hp hroused hle hlen hpart hcum hlast hwhole

end Effect

end Vfs
