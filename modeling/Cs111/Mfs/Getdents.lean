import Cs111.Mfs.DirSlots

-- fs_getdents(): the records of a directory, call after call.
namespace Mfs.Entries

def GETDENTS_BUFSIZ : ℕ := 257

structure Record where
  dIno : BitVec 32
  dOff : ℕ
  dReclen : ℕ
  dName : List (BitVec 8)

structure Request where
  size : ℕ
  safecopyto : ℕ → ℕ → Bool

structure Buffers where
  getdentsBuf : List Record
  user : List Record

inductive GetdentsReply where
  | OK (records : List Record) (nbytes newPos : ℕ)
  | ENOENT
  | EINVAL
  | failed

section Code
variable {H : MfsHeaders} (D : DirHeaders) (sp : ZoneSuper H)

def reclen (dp : Direct) : ℕ :=
  let reclen := D.nameOffset + (cname D dp.dName).length + 1
  let o := reclen % D.longSize
  if o ≠ 0 then reclen + (D.longSize - o) else reclen

def record (entPos : ℕ) (dp : Direct) : Record := ⟨dp.dIno, entPos, reclen D dp, cname D dp.dName⟩

def bytes (l : List Record) : ℕ := (l.map Record.dReclen).sum

def flush (req : Request) (f : Buffers) : Option Buffers :=
  if req.safecopyto (bytes f.user) (bytes f.getdentsBuf) then some ⟨[], f.user ++ f.getdentsBuf⟩
  else none

inductive Filled where
  | more (f : Buffers)
  | done (f : Buffers) (newPos : ℕ)
  | failed

def fillBlock (req : Request) (blockPos : ℕ) (bDir : ℕ → Direct) : List ℕ → Buffers → Filled
  | [], f => .more f
  | k :: ks, f =>
    let dp := bDir k
    if dp.dIno = 0 then fillBlock req blockPos bDir ks f
    else
      let entPos := blockPos + k * D.entrySize
      let room := if bytes f.getdentsBuf + reclen D dp > GETDENTS_BUFSIZ then flush req f else some f
      match room with
      | none => .failed
      | some f =>
        if bytes f.user + bytes f.getdentsBuf + reclen D dp > req.size then .done f entPos
        else fillBlock req blockPos bDir ks
          { f with getdentsBuf := f.getdentsBuf ++ [record D entPos dp] }

def DirState.bDir (s : DirState H) (blockPos : ℕ) : Except DirFault (ℕ → Direct) :=
  match readMapAt sp s.toZoneState blockPos with
  | .error e => .error e
  | .ok b => .ok (s.dir b)

def fillDir (req : Request) (bDir : ℕ → Except DirFault (ℕ → Direct)) (size pos blockPos : ℕ)
    (f : Buffers) : Except DirFault Filled :=
  if blockPos < size then
    match bDir blockPos with
    | .error e => .error e
    | .ok dir =>
      let first := if blockPos < pos then pos % sp.sBlockSize / D.entrySize else 0
      match fillBlock D req blockPos dir (List.range' first (nrDirEntries D sp - first)) f with
      | .more f =>
        if blockPos + sp.sBlockSize < OFF_LIMIT then
          fillDir req bDir size pos (blockPos + sp.sBlockSize) f
        else .error .overflow
      | r => .ok r
  else .ok (.more f)
termination_by size - blockPos
decreasing_by
  have := sp.block_ge
  omega

def finish (req : Request) (f : Buffers) (done : Bool) (newPos : ℕ) (s : DirState H) :
    GetdentsReply × DirState H :=
  match if bytes f.getdentsBuf ≠ 0 then flush req f else some f with
  | none => (.failed, s)
  | some f =>
    if done ∧ bytes f.user = 0 then (.EINVAL, s)
    else (.OK f.user (bytes f.user) newPos, { s with rip.updateAtime := true, rip.iDirt := true })

def getdents (req : Request) (pos : ℕ) (s : DirState H) :
    Except DirFault (GetdentsReply × DirState H) :=
  if pos % D.entrySize ≠ 0 then .ok (.ENOENT, s)
  else
    let off := pos % sp.sBlockSize
    match fillDir D sp req (s.bDir sp) s.size pos (pos - off) ⟨[], []⟩ with
    | .error e => .error e
    | .ok .failed => .ok (.failed, s)
    | .ok (.more f) => .ok (finish req f false s.size s)
    | .ok (.done f newPos) => .ok (finish req f true newPos s)

def getdentsRun (reqs : ℕ → Request) (s : DirState H) : ℕ → Option (List Record × ℕ × DirState H)
  | 0 => some ([], 0, s)
  | n + 1 =>
    match getdentsRun reqs s n with
    | none => none
    | some (records, pos, s) =>
      match getdents D sp (reqs n) pos s with
      | .ok (.OK more _ newPos, s) => some (records ++ more, newPos, s)
      | _ => none

end Code

section Row
variable {H : MfsHeaders} {D : DirHeaders} {sp : ZoneSuper H} {s : DirState H} {req : Request}
  {bDir : ℕ → Direct} {f f' : Buffers} {ks : List ℕ} {dp : Direct} {j k : ℕ}

def records (D : DirHeaders) (row : ℕ → Direct) (ks : List ℕ) : List Record :=
  (ks.filter fun k => (row k).dIno ≠ 0).map fun k => record D (k * D.entrySize) (row k)

def Buffers.all (f : Buffers) : List Record := f.user ++ f.getdentsBuf

theorem bytes_append (l l' : List Record) : bytes (l ++ l') = bytes l + bytes l' := by
  simp [bytes]

theorem reclen_pos : 0 < reclen D dp := by
  rw [reclen]
  split <;> omega

theorem records_append (row : ℕ → Direct) (ks' : List ℕ) :
    records D row (ks ++ ks') = records D row ks ++ records D row ks' := by
  simp [records]

theorem records_cons (row : ℕ → Direct) : records D row (k :: ks) =
    (if (row k).dIno = 0 then [] else [record D (k * D.entrySize) (row k)]) ++
      records D row ks := by
  rw [records, List.filter_cons]
  split
  · rename_i hused
    rw [if_neg (of_decide_eq_true hused)]
    rfl
  · rename_i hfree
    rw [if_pos (not_not.mp fun hno => hfree (decide_eq_true hno))]
    rfl

inductive FilledRow (D : DirHeaders) (req : Request) (row : ℕ → Direct) (ks : List ℕ)
    (before : List Record) : Filled → Prop
  | more {f : Buffers} (hall : f.all = before ++ records D row ks) :
      FilledRow D req row ks before (.more f)
  | done {f : Buffers} {k : ℕ} {ks₁ ks₂ : List ℕ} (hks : ks = ks₁ ++ k :: ks₂)
      (hused : (row k).dIno ≠ 0) (hall : f.all = before ++ records D row ks₁)
      (hfull : req.size < bytes f.all + reclen D (row k)) :
      FilledRow D req row ks before (.done f (k * D.entrySize))

theorem FilledRow.cons {row : ℕ → Direct} {r : Filled} {before after : List Record}
    (h : FilledRow D req row ks after r) (hafter : after = before ++ records D row [k]) :
    FilledRow D req row (k :: ks) before r := by
  have happend : ∀ ks, after ++ records D row ks = before ++ records D row (k :: ks) := by
    intro ks
    rw [hafter, List.append_assoc, ← records_append]
    rfl
  cases h with
  | more hall => exact .more (hall.trans (happend ks))
  | @done f l ks₁ ks₂ hks hused hall hfull =>
    have hks' : k :: ks = (k :: ks₁) ++ l :: ks₂ := by rw [hks]; rfl
    exact .done hks' hused (hall.trans (happend ks₁)) hfull

theorem fillBlock_row (hcopy : ∀ off n, req.safecopyto off n = true) (row : ℕ → Direct) :
    FilledRow D req row ks f.all (fillBlock D req 0 row ks f) := by
  induction ks generalizing f with
  | nil => exact .more (List.append_nil _).symm
  | cons k ks ih =>
    rw [fillBlock]
    dsimp only
    split
    · rename_i hfree
      exact ih.cons (by rw [records_cons, if_pos hfree]; exact (List.append_nil _).symm)
    · rename_i hused
      have hroom : ∃ f₁, (if bytes f.getdentsBuf + reclen D (row k) > GETDENTS_BUFSIZ then
          flush req f else some f) = some f₁ ∧ f₁.all = f.all := by
        split
        · exact ⟨⟨[], f.user ++ f.getdentsBuf⟩, by rw [flush, if_pos (hcopy _ _)],
            List.append_nil _⟩
        · exact ⟨f, rfl, rfl⟩
      obtain ⟨f₁, hf₁, hall⟩ := hroom
      rw [hf₁, Nat.zero_add]
      dsimp only
      split
      · rename_i hfull
        have hks : k :: ks = [] ++ k :: ks := rfl
        refine .done hks hused (hall.trans (List.append_nil _).symm) ?_
        rwa [Buffers.all, bytes_append]
      · refine ih.cons ?_
        rw [records_cons, if_neg hused, ← hall, Buffers.all, Buffers.all, List.append_assoc]
        rfl

end Row

-- The blocks of the directory one after the other.
section Blocks
variable {H : MfsHeaders} {D : DirHeaders} {sp : ZoneSuper H} {s : DirState H} {req : Request}
  {f : Buffers} {ks ks' : List ℕ} {pos j k c : ℕ}

theorem fillBlock_append (blockPos : ℕ) (bDir : ℕ → Direct) :
    fillBlock D req blockPos bDir (ks ++ ks') f =
      match fillBlock D req blockPos bDir ks f with
      | .more f => fillBlock D req blockPos bDir ks' f
      | r => r := by
  induction ks generalizing f with
  | nil => rfl
  | cons k ks ih =>
    rw [List.cons_append, fillBlock, fillBlock]
    dsimp only
    split
    · exact ih
    · split
      · rfl
      · split
        · rfl
        · exact ih

theorem fillBlock_slot (hk : k + c ≤ nrDirEntries D sp) :
    fillBlock D req (j * sp.sBlockSize) (s.dir (blockOf sp s j)) (List.range' k c) f =
      fillBlock D req 0 (slot D sp s) (List.range' (j * nrDirEntries D sp + k) c) f := by
  induction c generalizing k f with
  | zero => rfl
  | succ c ih =>
    have hpos : j * sp.sBlockSize + k * D.entrySize =
        0 + (j * nrDirEntries D sp + k) * D.entrySize := by
      rw [Nat.zero_add, Nat.add_mul, Nat.mul_assoc, block_whole]
    rw [List.range'_succ, List.range'_succ, fillBlock, fillBlock, slot_at (by omega), hpos]
    simp only [Nat.add_assoc, ih (k := k + 1) (by omega)]

def closing (sp : ZoneSuper H) (s : DirState H) (r : Filled) : Except DirFault Filled :=
  match r with
  | .more f =>
    if nrBlocks sp s * sp.sBlockSize < OFF_LIMIT then .ok (.more f) else .error .overflow
  | r => .ok r

theorem bDir_at (h : DirFile D sp s) (hj : j < nrBlocks sp s) :
    s.bDir sp (j * sp.sBlockSize) = .ok (s.dir (blockOf sp s j)) := by
  rw [DirState.bDir, h.read hj]

def rest (D : DirHeaders) (sp : ZoneSuper H) (s : DirState H) (k : ℕ) : List ℕ :=
  List.range' k (nrBlocks sp s * nrDirEntries D sp - k)

theorem fillDir_step (h : DirFile D sp s) (hj : j < nrBlocks sp s)
    (hk : (if j * sp.sBlockSize < pos then pos % sp.sBlockSize / D.entrySize else 0) = k)
    (hle : k ≤ nrDirEntries D sp) :
    fillDir D sp req (s.bDir sp) s.size pos (j * sp.sBlockSize) f =
      match fillBlock D req 0 (slot D sp s)
        (List.range' (j * nrDirEntries D sp + k) (nrDirEntries D sp - k)) f with
      | .more f =>
        if (j + 1) * sp.sBlockSize < OFF_LIMIT then
          fillDir D sp req (s.bDir sp) s.size pos ((j + 1) * sp.sBlockSize) f
        else .error .overflow
      | r => .ok r := by
  rw [fillDir, if_pos (block_lt_iff.mp hj), bDir_at h hj, ← Nat.succ_mul]
  simp only [hk]
  rw [fillBlock_slot (by omega)]

theorem closing_step (hj : j < nrBlocks sp s) (hle : k ≤ nrDirEntries D sp) :
    closing sp s (fillBlock D req 0 (slot D sp s) (rest D sp s (j * nrDirEntries D sp + k)) f) =
      match fillBlock D req 0 (slot D sp s)
        (List.range' (j * nrDirEntries D sp + k) (nrDirEntries D sp - k)) f with
      | .more f =>
        if (j + 1) * sp.sBlockSize < OFF_LIMIT then
          closing sp s (fillBlock D req 0 (slot D sp s)
            (rest D sp s ((j + 1) * nrDirEntries D sp)) f)
        else .error .overflow
      | r => .ok r := by
  have hblocks : (j + 1) * nrDirEntries D sp ≤ nrBlocks sp s * nrDirEntries D sp :=
    Nat.mul_le_mul_right _ hj
  have hsplit : rest D sp s (j * nrDirEntries D sp + k) =
      List.range' (j * nrDirEntries D sp + k) (nrDirEntries D sp - k) ++
        rest D sp s ((j + 1) * nrDirEntries D sp) := by
    rw [Nat.succ_mul] at hblocks
    rw [rest, rest, Nat.succ_mul, show j * nrDirEntries D sp + nrDirEntries D sp =
      j * nrDirEntries D sp + k + 1 * (nrDirEntries D sp - k) by omega, List.range'_append]
    congr 1
    omega
  rw [hsplit, fillBlock_append]
  cases fillBlock D req 0 (slot D sp s)
    (List.range' (j * nrDirEntries D sp + k) (nrDirEntries D sp - k)) f with
  | more f =>
    dsimp only
    split
    · rfl
    · rename_i hlimit
      have hlast : j + 1 = nrBlocks sp s := by
        by_contra hne
        exact hlimit ((block_lt_iff.mp (show j + 1 < nrBlocks sp s by omega)).trans
          DirState.size_lt)
      rw [rest, hlast, Nat.sub_self]
      exact if_neg (hlast ▸ hlimit)
  | done f newPos => rfl
  | failed => rfl

theorem fillDir_from (h : DirFile D sp s) (hj : j ≤ nrBlocks sp s)
    (hlimit : j * sp.sBlockSize < OFF_LIMIT) (hpos : pos ≤ j * sp.sBlockSize) :
    fillDir D sp req (s.bDir sp) s.size pos (j * sp.sBlockSize) f =
      closing sp s (fillBlock D req 0 (slot D sp s) (rest D sp s (j * nrDirEntries D sp)) f) := by
  induction hd : nrBlocks sp s - j generalizing j f with
  | zero =>
    have heq : j = nrBlocks sp s := by omega
    rw [fillDir, if_neg fun hlt => absurd (block_lt_iff.mpr hlt) (by omega), rest, heq,
      Nat.sub_self]
    exact (if_pos (heq ▸ hlimit)).symm
  | succ d ih =>
    have hlt : j < nrBlocks sp s := by omega
    have hstep : closing sp s (fillBlock D req 0 (slot D sp s)
        (rest D sp s (j * nrDirEntries D sp + 0)) f) = _ := closing_step hlt (Nat.zero_le _)
    rw [Nat.add_zero] at hstep
    rw [fillDir_step h hlt (if_neg (not_lt.mpr hpos)) (Nat.zero_le _), Nat.add_zero, hstep]
    split
    · split
      · rename_i hlimit'
        exact ih hlt hlimit' (hpos.trans (Nat.mul_le_mul_right _ (Nat.le_succ j))) (by omega)
      · rfl
    · rfl

theorem fillDir_start (h : DirFile D sp s) (hk : k ≤ s.slots D) :
    fillDir D sp req (s.bDir sp) s.size (k * D.entrySize)
      (k * D.entrySize - k * D.entrySize % sp.sBlockSize) f =
      closing sp s (fillBlock D req 0 (slot D sp s) (rest D sp s k) f) := by
  have hpos := entrySize_pos (D := D)
  have hper : 0 < nrDirEntries D sp := nrDirEntries_pos
  obtain ⟨j, i, hi, rfl⟩ : ∃ j i, i < nrDirEntries D sp ∧ k = j * nrDirEntries D sp + i :=
    ⟨k / nrDirEntries D sp, k % nrDirEntries D sp, Nat.mod_lt _ hper, (Nat.div_add_mod' k _).symm⟩
  have hbytes : (j * nrDirEntries D sp + i) * D.entrySize = j * sp.sBlockSize + i * D.entrySize := by
    rw [Nat.add_mul, Nat.mul_assoc, block_whole]
  have hi' : i * D.entrySize < sp.sBlockSize := by
    rw [← block_whole (D := D)]
    exact Nat.mul_lt_mul_of_pos_right hi hpos
  have hmod : (j * sp.sBlockSize + i * D.entrySize) % sp.sBlockSize = i * D.entrySize := by
    rw [Nat.mul_comm j, Nat.mul_add_mod, Nat.mod_eq_of_lt hi']
  have hsize := Nat.mul_le_mul_right D.entrySize hk
  rw [h.size_eq, hbytes] at hsize
  have hlimit := hsize.trans_lt DirState.size_lt
  rw [hbytes, hmod, Nat.add_sub_cancel]
  rcases Nat.eq_zero_or_pos i with rfl | hipos
  · have hj : j ≤ nrBlocks sp s :=
      Nat.le_of_mul_le_mul_right (hk.trans (slots_le h)) hper
    rw [Nat.zero_mul, Nat.add_zero, Nat.add_zero] at *
    exact fillDir_from h hj hlimit le_rfl
  · have hlt : j < nrBlocks sp s := block_lt_iff.mpr ((pos_lt_iff h).mpr (by omega))
    have hbelow : j * sp.sBlockSize < j * sp.sBlockSize + i * D.entrySize :=
      Nat.lt_add_of_pos_right (Nat.mul_pos hipos hpos)
    have hfirst : (if j * sp.sBlockSize < j * sp.sBlockSize + i * D.entrySize then
        (j * sp.sBlockSize + i * D.entrySize) % sp.sBlockSize / D.entrySize else 0) = i := by
      rw [if_pos hbelow, hmod, Nat.mul_div_cancel i hpos]
    rw [fillDir_step h hlt hfirst hi.le, closing_step hlt hi.le]
    split
    · split
      · rename_i hlimit'
        refine fillDir_from h hlt hlimit' ?_
        rw [Nat.succ_mul]
        omega
      · rfl
    · rfl

end Blocks

-- One call.
section Call
variable {H : MfsHeaders} {D : DirHeaders} {sp : ZoneSuper H} {s s' : DirState H} {req : Request}
  {f : Buffers} {row : ℕ → Direct} {ks : List ℕ} {k l : ℕ}

def marked (s : DirState H) : DirState H := { s with rip.updateAtime := true, rip.iDirt := true }

theorem DirFile.marked (h : DirFile D sp s) : DirFile D sp (marked s) :=
  ⟨h.mode, h.positive, h.whole, h.mapped, h.distinct⟩

theorem mem_records {r : Record} :
    r ∈ records D row ks ↔
      ∃ k ∈ ks, (row k).dIno ≠ 0 ∧ record D (k * D.entrySize) (row k) = r := by
  simp [records, and_assoc]

theorem bytes_zero (l : List Record) (h : ∀ r ∈ l, 0 < r.dReclen) (hzero : bytes l = 0) : l = [] := by
  cases l with
  | nil => rfl
  | cons r l =>
    have hpos := h r List.mem_cons_self
    have hsum : r.dReclen + bytes l = 0 := hzero
    omega

theorem records_pos : ∀ r ∈ records D row ks, 0 < r.dReclen := by
  intro r hr
  obtain ⟨k, -, -, rfl⟩ := mem_records.mp hr
  exact reclen_pos

theorem finish_all (hcopy : ∀ off n, req.safecopyto off n = true) (hall : f.all = records D row ks)
    (done : Bool) (newPos : ℕ) : finish req f done newPos s =
      if done ∧ records D row ks = [] then (.EINVAL, s)
      else (.OK (records D row ks) (bytes (records D row ks)) newPos, marked s) := by
  have hlast : (if bytes f.getdentsBuf ≠ 0 then flush req f else some f) =
      some ⟨if bytes f.getdentsBuf ≠ 0 then [] else f.getdentsBuf, records D row ks⟩ := by
    split
    · rw [flush, if_pos (hcopy _ _)]
      exact congrArg (fun l => some (Buffers.mk [] l)) hall
    · rename_i hzero
      have hnone : f.getdentsBuf = [] := by
        refine bytes_zero _ (fun r hr => ?_) (not_not.mp hzero)
        have hmem : r ∈ f.all := List.mem_append_right _ hr
        rw [hall] at hmem
        exact records_pos r hmem
      rw [← hall, Buffers.all, hnone, List.append_nil]
      exact congrArg some (by rw [← hnone])
  have hempty : bytes (records D row ks) = 0 ↔ records D row ks = [] :=
    ⟨bytes_zero _ records_pos, fun h => by rw [h]; rfl⟩
  rw [finish, hlast]
  simp only [hempty]
  rfl

inductive Called (D : DirHeaders) (sp : ZoneSuper H) (s : DirState H) (req : Request) (k : ℕ) :
    Except DirFault (GetdentsReply × DirState H) → Prop
  | rest {n : ℕ} (hlimit : nrBlocks sp s * sp.sBlockSize < OFF_LIMIT) :
      Called D sp s req k
        (.ok (.OK (records D (slot D sp s) (rest D sp s k)) n s.size, marked s))
  | part {n l : ℕ} (hkl : k < l) (hl : l < nrBlocks sp s * nrDirEntries D sp)
      (hused : (slot D sp s l).dIno ≠ 0)
      (hfull : req.size < bytes (records D (slot D sp s) (List.range' k (l - k))) +
        reclen D (slot D sp s l)) :
      Called D sp s req k (.ok (.OK (records D (slot D sp s) (List.range' k (l - k))) n
        (l * D.entrySize), marked s))
  | small {l : ℕ} {s' : DirState H} (hkl : k ≤ l) (hl : l < nrBlocks sp s * nrDirEntries D sp)
      (hused : (slot D sp s l).dIno ≠ 0)
      (hnone : records D (slot D sp s) (List.range' k (l - k)) = [])
      (hfull : req.size < reclen D (slot D sp s l)) :
      Called D sp s req k (.ok (.EINVAL, s'))
  | overflow (hlimit : OFF_LIMIT ≤ nrBlocks sp s * sp.sBlockSize) :
      Called D sp s req k (.error .overflow)

theorem getdents_called (h : DirFile D sp s) (hcopy : ∀ off n, req.safecopyto off n = true)
    (hk : k ≤ s.slots D) : Called D sp s req k (getdents D sp req (k * D.entrySize) s) := by
  rw [getdents, if_neg (by rw [Nat.mul_mod_left]; exact not_not.mpr rfl)]
  dsimp only
  rw [fillDir_start h hk]
  have hrow : FilledRow D req (slot D sp s) (rest D sp s k) [] _ :=
    fillBlock_row (f := ⟨[], []⟩) hcopy (slot D sp s)
  generalize fillBlock D req 0 (slot D sp s) (rest D sp s k) ⟨[], []⟩ = r at hrow
  cases hrow with
  | @more f hall =>
    replace hall : f.all = records D (slot D sp s) (rest D sp s k) := hall
    by_cases hlimit : nrBlocks sp s * sp.sBlockSize < OFF_LIMIT
    · have hclosing : closing sp s (.more f) = .ok (.more f) := if_pos hlimit
      rw [hclosing]
      dsimp only
      rw [finish_all hcopy hall, if_neg fun hno => Bool.false_ne_true hno.1]
      exact .rest hlimit
    · have hclosing : closing sp s (.more f) = .error .overflow := if_neg hlimit
      rw [hclosing]
      exact .overflow (not_lt.mp hlimit)
  | @done f l ks₁ ks₂ hks hused hall hfull =>
    obtain ⟨c, hc, hks₁, hks₂⟩ := List.range'_eq_append_iff.mp hks
    obtain ⟨rfl, hc', -⟩ := List.range'_eq_cons_iff.mp hks₂.symm
    replace hall : f.all = records D (slot D sp s) ks₁ := hall
    have hlen : k + c - k = c := by omega
    rw [hall, hks₁] at hfull
    rw [Nat.mul_one] at *
    have hclosing : closing sp s (.done f ((k + c) * D.entrySize)) =
        .ok (.done f ((k + c) * D.entrySize)) := rfl
    rw [hclosing]
    dsimp only
    rw [finish_all hcopy hall, hks₁]
    split
    · rename_i hnone
      refine .small (Nat.le_add_right k c) (by omega) hused ?_ ?_
      · rw [hlen]
        exact hnone.2
      · rwa [hnone.2, show bytes [] = 0 from rfl, Nat.zero_add] at hfull
    · rename_i hsome
      have hpos : 0 < c := by
        by_contra hzero
        refine hsome ⟨rfl, ?_⟩
        rw [show c = 0 by omega]
        rfl
      have hpart : Called D sp s req k _ := .part (n := bytes (records D (slot D sp s)
        (List.range' k c))) (show k < k + c by omega) (by omega) hused (by rwa [hlen])
      rwa [hlen] at hpart

end Call

-- Any number of calls.
section Run
variable {H : MfsHeaders} {D : DirHeaders} {sp : ZoneSuper H} {s s' : DirState H}
  {reqs : ℕ → Request} {recs recs' : List Record} {k l m n pos : ℕ}

def entries (D : DirHeaders) (sp : ZoneSuper H) (s : DirState H) : List Direct :=
  ((List.range (s.slots D)).map (slot D sp s)).filter (·.dIno ≠ 0)

def Roomy (D : DirHeaders) (sp : ZoneSuper H) (reqs : ℕ → Request) (s : DirState H) : Prop :=
  ∀ n recs k s', getdentsRun D sp reqs s n = some (recs, k * D.entrySize, s') →
    ∀ l, k ≤ l → l < s.slots D → (slot D sp s l).dIno ≠ 0 →
      (∀ i, k ≤ i → i < l → (slot D sp s i).dIno = 0) →
        reclen D (slot D sp s l) ≤ (reqs n).size

def Lists (D : DirHeaders) (sp : ZoneSuper H) (now : BitVec 32) (stale : BitVec 32 → IndBlock)
    (reqs : ℕ → Request) (s : DirState H) : Prop :=
  ∃ n recs, (∀ m, n ≤ m → ∃ s', getdentsRun D sp reqs s m = some (recs, s.size, s')) ∧
    recs.map Record.dName = (entries D sp s).map (fun dp => cname D dp.dName) ∧
    ∀ r ∈ recs, ∀ a string numb, forbidden sp .LOOK_UP a = none → cname D string = r.dName →
      searchDir D sp now stale a .LOOK_UP string numb s = .ok (.numb r.dIno, s)

structure Listable (D : DirHeaders) (sp : ZoneSuper H) (s : DirState H) : Prop where
  limit : nrBlocks sp s * sp.sBlockSize < OFF_LIMIT
  clean : ∀ k, s.slots D ≤ k → k < nrBlocks sp s * nrDirEntries D sp → (slot D sp s k).dIno = 0
  native : ∀ k < s.slots D, conv4 sp.sNative (slot D sp s k).dIno = (slot D sp s k).dIno

theorem getdents_again (h : DirFile D sp s) (hs : s' = s ∨ s' = marked s) {req : Request}
    (hcopy : ∀ off n, req.safecopyto off n = true) (hk : k ≤ s.slots D) :
    Called D sp s req k (getdents D sp req (k * D.entrySize) s') := by
  rcases hs with rfl | rfl
  · exact getdents_called h hcopy hk
  · have hcalled := getdents_called h.marked hcopy hk
    generalize getdents D sp req (k * D.entrySize) (marked s) = r at hcalled
    cases hcalled with
    | rest hlimit => exact .rest hlimit
    | part hkl hl hused hfull => exact .part hkl hl hused hfull
    | small hkl hl hused hnone hfull => exact .small hkl hl hused hnone hfull
    | overflow hlimit => exact .overflow hlimit

theorem rest_split (hkl : k ≤ l) (hl : l ≤ nrBlocks sp s * nrDirEntries D sp) :
    rest D sp s k = List.range' k (l - k) ++ rest D sp s l := by
  have hlast : l = k + 1 * (l - k) := by omega
  have hcount : nrBlocks sp s * nrDirEntries D sp - k =
      l - k + (nrBlocks sp s * nrDirEntries D sp - l) := by omega
  rw [rest, rest, hcount, ← List.range'_append, ← hlast]

theorem records_used (hkl : k ≤ l) (hl : l < nrBlocks sp s * nrDirEntries D sp)
    (hused : (slot D sp s l).dIno ≠ 0) : records D (slot D sp s) (rest D sp s k) =
      records D (slot D sp s) (List.range' k (l - k)) ++
        record D (l * D.entrySize) (slot D sp s l) ::
          records D (slot D sp s) (rest D sp s (l + 1)) := by
  have hone : l + 1 - l = 1 := by omega
  rw [rest_split hkl hl.le, rest_split (Nat.le_succ l) hl, hone, records_append, List.range'_one,
    List.singleton_append, records_cons, if_neg hused]
  rfl

theorem Listable.records_end (hl : Listable D sp s) :
    records D (slot D sp s) (rest D sp s (s.slots D)) = [] := by
  refine List.eq_nil_iff_forall_not_mem.mpr fun r hr => ?_
  obtain ⟨k, hk, hused, -⟩ := mem_records.mp hr
  have hmem := List.mem_range'_1.mp hk
  exact hused (hl.clean k hmem.1 (by omega))

theorem records_rest (h : DirFile D sp s) : records D (slot D sp s) (rest D sp s 0) =
    records D (slot D sp s) (List.range (s.slots D)) ++
      records D (slot D sp s) (rest D sp s (s.slots D)) := by
  rw [rest_split (Nat.zero_le _) (slots_le h), records_append, Nat.sub_zero, List.range_eq_range']

theorem records_names : (records D (slot D sp s) (List.range (s.slots D))).map Record.dName =
    (entries D sp s).map fun dp => cname D dp.dName := by
  rw [records, entries, List.filter_map, List.map_map, List.map_map]
  rfl

structure Reached (D : DirHeaders) (sp : ZoneSuper H) (s : DirState H) (recs : List Record) (k : ℕ)
    (s' : DirState H) : Prop where
  state : s' = s ∨ s' = marked s
  slots : k ≤ s.slots D
  listed : recs ++ records D (slot D sp s) (rest D sp s k) =
    records D (slot D sp s) (rest D sp s 0)

theorem Reached.call (h : DirFile D sp s) (hl : Listable D sp s)
    (hcopy : ∀ n off len, (reqs n).safecopyto off len = true) (hroomy : Roomy D sp reqs s)
    (hrun : getdentsRun D sp reqs s n = some (recs, k * D.entrySize, s'))
    (hreached : Reached D sp s recs k s') :
    ∃ recs' l s'', getdentsRun D sp reqs s (n + 1) = some (recs', l * D.entrySize, s'') ∧
      Reached D sp s recs' l s'' ∧ (k < l ∨ l = s.slots D) := by
  have hcalled := getdents_again h hreached.state (hcopy n) hreached.slots
  rw [getdentsRun, hrun]
  dsimp only
  generalize getdents D sp (reqs n) (k * D.entrySize) s' = r at hcalled
  cases hcalled with
  | rest hlimit =>
    refine ⟨_, s.slots D, _, by rw [h.size_eq], ⟨.inr rfl, le_rfl, ?_⟩, .inr rfl⟩
    rw [hl.records_end, List.append_nil, hreached.listed]
  | @part b l hkl hlt hused hfull =>
    have hslots : l < s.slots D := by
      by_contra hbehind
      exact hused (hl.clean l (not_lt.mp hbehind) hlt)
    refine ⟨_, l, _, rfl, ⟨.inr rfl, hslots.le, ?_⟩, .inl hkl⟩
    rw [List.append_assoc, ← records_append, ← rest_split hkl.le hlt.le, hreached.listed]
  | @small l s'' hkl hlt hused hnone hfull =>
    have hslots : l < s.slots D := by
      by_contra hbehind
      exact hused (hl.clean l (not_lt.mp hbehind) hlt)
    refine absurd (hroomy n recs k s' hrun l hkl hslots hused fun i hki hil => ?_) (not_le.mpr hfull)
    by_contra hno
    have hmem : record D (i * D.entrySize) (slot D sp s i) ∈
        records D (slot D sp s) (List.range' k (l - k)) :=
      mem_records.mpr ⟨i, List.mem_range'_1.mpr ⟨hki, by omega⟩, hno, rfl⟩
    rw [hnone] at hmem
    cases hmem
  | overflow hlimit => exact absurd hl.limit (not_lt.mpr hlimit)

theorem Reached.run (h : DirFile D sp s) (hl : Listable D sp s)
    (hcopy : ∀ n off len, (reqs n).safecopyto off len = true) (hroomy : Roomy D sp reqs s) (n : ℕ) :
    ∃ recs k s', getdentsRun D sp reqs s n = some (recs, k * D.entrySize, s') ∧
      Reached D sp s recs k s' ∧ (n ≤ k ∨ k = s.slots D) := by
  induction n with
  | zero =>
    refine ⟨[], 0, s, ?_, ⟨.inl rfl, Nat.zero_le _, List.nil_append _⟩, .inl le_rfl⟩
    rw [getdentsRun, Nat.zero_mul]
  | succ n ih =>
    obtain ⟨recs, k, s', hrun, hreached, hk⟩ := ih
    obtain ⟨recs', l, s'', hrun', hreached', hl'⟩ := hreached.call h hl hcopy hroomy hrun
    have hslots := hreached.slots
    have hslots' := hreached'.slots
    exact ⟨recs', l, s'', hrun', hreached', by omega⟩

theorem lists_of_listable (h : DirFile D sp s) (hl : Listable D sp s) (now : BitVec 32)
    (stale : BitVec 32 → IndBlock) (hcopy : ∀ n off len, (reqs n).safecopyto off len = true)
    (hroomy : Roomy D sp reqs s) : Lists D sp now stale reqs s := by
  have hall := records_rest h
  rw [hl.records_end, List.append_nil] at hall
  refine ⟨s.slots D, records D (slot D sp s) (List.range (s.slots D)), fun m hm => ?_,
    records_names, fun r hr a string numb ha hname => ?_⟩
  · obtain ⟨recs, k, s', hrun, hreached, hk⟩ := Reached.run h hl hcopy hroomy m
    have hend : k = s.slots D := by
      have := hreached.slots
      omega
    have hlisted := hreached.listed
    rw [hend, hl.records_end, List.append_nil, hall] at hlisted
    exact ⟨s', by rw [hrun, hend, h.size_eq, hlisted]⟩
  · obtain ⟨k, hk, hused, rfl⟩ := mem_records.mp hr
    have hslots := List.mem_range.mp hk
    rw [lookUp_present h ha hslots hused hname.symm, hl.native k hslots]
    rfl

theorem getdentsRun_prefix (hrun : getdentsRun D sp reqs s (n + m) = some (recs, pos, s')) :
    ∃ recs₀ pos₀ s₀, getdentsRun D sp reqs s n = some (recs₀, pos₀, s₀) ∧ recs₀ <+: recs := by
  induction m generalizing recs pos s' with
  | zero => exact ⟨recs, pos, s', hrun, List.prefix_rfl⟩
  | succ m ih =>
    rw [← Nat.add_assoc, getdentsRun] at hrun
    split at hrun
    · cases hrun
    · rename_i recs₁ pos₁ s₁ hbefore
      obtain ⟨recs₀, pos₀, s₀, hrun₀, hprefix⟩ := ih hbefore
      split at hrun
      · cases hrun
        exact ⟨recs₀, pos₀, s₀, hrun₀, hprefix.trans (List.prefix_append _ _)⟩
      · cases hrun

def ample (D : DirHeaders) (sp : ZoneSuper H) (s : DirState H) (_ : ℕ) : Request :=
  ⟨bytes (records D (slot D sp s) (rest D sp s 0)), fun _ _ => true⟩

theorem ample_roomy (h : DirFile D sp s) : Roomy D sp (ample D sp s) s := by
  intro n recs k s' _ l _ hl hused _
  have hlt := hl.trans_le (slots_le h)
  have htotal : (ample D sp s n).size = _ :=
    congrArg bytes (records_used (Nat.zero_le l) hlt hused)
  have hcons : ∀ r l, bytes (r :: l) = r.dReclen + bytes l := fun _ _ => List.sum_cons
  rw [htotal, bytes_append, hcons]
  have hrecord : (record D (l * D.entrySize) (slot D sp s l)).dReclen =
    reclen D (slot D sp s l) := rfl
  omega

theorem ample_first (h : DirFile D sp s) :
    (getdentsRun D sp (ample D sp s) s 1 =
        some (records D (slot D sp s) (rest D sp s 0), s.size, marked s) ∧
      nrBlocks sp s * sp.sBlockSize < OFF_LIMIT) ∨
    getdentsRun D sp (ample D sp s) s 1 = none := by
  have hcalled : Called D sp s (ample D sp s 0) 0 _ := getdents_called h (fun _ _ => rfl) (Nat.zero_le _)
  have hcons : ∀ r l, bytes (r :: l) = r.dReclen + bytes l := fun _ _ => List.sum_cons
  have hsize : (ample D sp s 0).size = bytes (records D (slot D sp s) (rest D sp s 0)) := rfl
  rw [Nat.zero_mul] at hcalled
  rw [getdentsRun, getdentsRun]
  dsimp only
  generalize getdents D sp (ample D sp s 0) 0 s = r at hcalled
  cases hcalled with
  | rest hlimit => exact .inl ⟨rfl, hlimit⟩
  | @part b l hkl hlt hused hfull =>
    have hrecord : (record D (l * D.entrySize) (slot D sp s l)).dReclen =
      reclen D (slot D sp s l) := rfl
    rw [hsize, records_used hkl.le hlt hused, bytes_append, hcons] at hfull
    omega
  | @small l s'' hkl hlt hused hnone hfull =>
    have hrecord : (record D (l * D.entrySize) (slot D sp s l)).dReclen =
      reclen D (slot D sp s l) := rfl
    rw [hsize, records_used hkl hlt hused, bytes_append, hcons] at hfull
    omega
  | overflow hlimit => exact .inr rfl

theorem listable_of_lists (h : DirFile D sp s) (now : BitVec 32) (stale : BitVec 32 → IndBlock)
    (hlists : Lists D sp now stale (ample D sp s) s) : Listable D sp s := by
  obtain ⟨n, recs, hend, hnames, hlookUp⟩ := hlists
  obtain ⟨s', hrun⟩ := hend (1 + n) (Nat.le_add_left n 1)
  obtain ⟨recs₀, pos₀, s₀, hfirst, hprefix⟩ := getdentsRun_prefix hrun
  rcases ample_first h with ⟨hone, hlimit⟩ | hnone
  · rw [hone] at hfirst
    cases hfirst
    have hlength := hprefix.length_le
    have hentries := congrArg List.length hnames
    rw [← records_names, List.length_map, List.length_map] at hentries
    rw [hentries, records_rest h, List.length_append] at hlength
    have hnone : records D (slot D sp s) (rest D sp s (s.slots D)) = [] :=
      List.length_eq_zero_iff.mp (by omega)
    refine ⟨hlimit, fun k hk hlt => ?_, fun k hk => ?_⟩
    · by_contra hused
      have hmem : record D (k * D.entrySize) (slot D sp s k) ∈
          records D (slot D sp s) (rest D sp s (s.slots D)) :=
        mem_records.mpr ⟨k, List.mem_range'_1.mpr ⟨hk, by omega⟩, hused, rfl⟩
      rw [hnone] at hmem
      cases hmem
    · by_cases hused : (slot D sp s k).dIno = 0
      · rw [hused]
        exact (conv4_zero _).mpr rfl
      · have hlt := hk.trans_le (slots_le h)
        have hmem : record D (k * D.entrySize) (slot D sp s k) ∈ recs :=
          hprefix.subset (mem_records.mpr ⟨k, List.mem_range'_1.mpr ⟨Nat.zero_le k, by omega⟩,
            hused, rfl⟩)
        have hfound := hlookUp _ hmem ⟨false, false, true⟩ (slot D sp s k).dName 0 rfl rfl
        rw [lookUp_present h rfl hk hused rfl] at hfound
        exact Reply.numb.inj (Prod.mk.inj (Except.ok.inj hfound)).1
  · rw [hnone] at hfirst
    cases hfirst

theorem getdents_iff (h : DirFile D sp s) (now : BitVec 32) (stale : BitVec 32 → IndBlock) :
    (∀ reqs, (∀ n off len, (reqs n).safecopyto off len = true) → Roomy D sp reqs s →
      Lists D sp now stale reqs s) ↔ Listable D sp s :=
  ⟨fun hall => listable_of_lists h now stale (hall _ (fun _ _ _ => rfl) (ample_roomy h)),
    fun hl _ hcopy hroomy => lists_of_listable h hl now stale hcopy hroomy⟩

end Run

def dirHeaders : DirHeaders := ⟨60, 10, 4, by decide, by decide, by decide, by decide⟩

theorem dir_above : 4 < 40 := by decide

theorem dir_first : 40 < 1000 := by decide

theorem dir_size : 1024 % 512 = 0 := by decide

theorem dir_blocks : 1000 * 2 ^ 0 ≤ 2 ^ 32 := by decide

def dirSuper (native : Bool) : ZoneSuper charHeaders :=
  ⟨⟨.V1, native, false, 1024, 500, 1, 1, 1000, 1, v1Super.dev_ne, v1Super.block_size,
    v1Super.block_ge, v1Super.zones_v1⟩, 0, 40, dir_above, dir_first, dir_size, dir_blocks⟩

def oneEntry (ino : BitVec 32) : DirState charHeaders where
  rip := { linkedInode 2 with iMode := 0x41ED, iSize := 64, iZone := fun _ => 41 }
  block _ := Mfs.zeroBlock
  zmap := {0, 2}
  sZsearch := 0
  errCode := .OK
  dir _ k := if k = 0 then ⟨ino, fun i => if i = 0 then 97 else 0⟩ else noEntries k
  inodes := noBlocks

theorem oneEntry_file (native : Bool) (ino : BitVec 32) :
    DirFile dirHeaders (dirSuper native) (oneEntry ino) where
  mode := show (0x41ED : BitVec 16) &&& I_TYPE = I_DIRECTORY by decide
  positive := show 0 ≤ (64 : BitVec 32).toInt by decide
  whole := show 64 ∣ (64 : BitVec 32).toInt.toNat by decide
  mapped j hj := by
    have hone : nrBlocks (dirSuper native) (oneEntry ino) = 1 :=
      show ((64 : BitVec 32).toInt.toNat + 1024 - 1) / 1024 = 1 by decide
    obtain rfl : j = 0 := by omega
    have hzone : relZone (dirSuper native) 0 = 0 := show (0 / 1024) >>> 0 = 0 by decide
    rw [Nat.zero_mul, readMapAt, hzone, if_pos (.inl (show 0 < 7 + 512 + 512 * 512 by decide)),
      readMap, hzone]
    exact ⟨_, rfl⟩
  distinct k hk l hl _ _ _ := by
    have hone : (oneEntry ino).slots dirHeaders = 1 :=
      show (64 : BitVec 32).toInt.toNat / 64 = 1 by decide
    omega

def fourSlots : DirState charHeaders :=
  { oneEntry 5 with
    rip := { linkedInode 2 with iMode := 0x41ED, iSize := 256, iZone := fun _ => 41 }
    dir _ k :=
      if k = 0 then ⟨2, fun i => if i = 0 then 46 else 0⟩
      else if k = 1 then ⟨1, fun i => if i < 2 then 46 else 0⟩
      else if k = 3 then ⟨5, fun i => if i = 0 then 97 else 0⟩
      else noEntries k }

theorem fourSlots_blocks : nrBlocks (dirSuper true) fourSlots = 1 :=
  show ((256 : BitVec 32).toInt.toNat + 1024 - 1) / 1024 = 1 by decide

theorem fourSlots_slots : fourSlots.slots dirHeaders = 4 :=
  show (256 : BitVec 32).toInt.toNat / 64 = 4 by decide

theorem fourSlots_file : DirFile dirHeaders (dirSuper true) fourSlots where
  mode := show (0x41ED : BitVec 16) &&& I_TYPE = I_DIRECTORY by decide
  positive := show 0 ≤ (256 : BitVec 32).toInt by decide
  whole := show 64 ∣ (256 : BitVec 32).toInt.toNat by decide
  mapped j hj := by
    rw [fourSlots_blocks] at hj
    obtain rfl : j = 0 := by omega
    have hzone : relZone (dirSuper true) 0 = 0 := show (0 / 1024) >>> 0 = 0 by decide
    rw [Nat.zero_mul, readMapAt, hzone, if_pos (.inl (show 0 < 7 + 512 + 512 * 512 by decide)),
      readMap, hzone]
    exact ⟨_, rfl⟩
  distinct k hk l hl := by
    rw [fourSlots_slots] at hk hl
    interval_cases k <;> interval_cases l <;> decide +kernel

theorem fourSlots_clean : ∀ k, fourSlots.slots dirHeaders ≤ k →
    k < nrBlocks (dirSuper true) fourSlots * nrDirEntries dirHeaders (dirSuper true) →
    (slot dirHeaders (dirSuper true) fourSlots k).dIno = 0 := by
  intro k hge hlt
  rw [fourSlots_slots] at hge
  rw [fourSlots_blocks, Nat.one_mul] at hlt
  change (fourSlots.dir _ (k % _)).dIno = 0
  rw [Nat.mod_eq_of_lt hlt]
  change (if k = 0 then _ else if k = 1 then _ else if k = 3 then _ else noEntries k).dIno = 0
  rw [if_neg (by omega), if_neg (by omega), if_neg (by omega)]
  rfl

theorem getdents_fourSlots : Lists dirHeaders (dirSuper true) 0 (fun _ => Mfs.zeroBlock)
    (ample dirHeaders (dirSuper true) fourSlots) fourSlots :=
  (getdents_iff fourSlots_file 0 fun _ => Mfs.zeroBlock).mpr
    ⟨by decide, fourSlots_clean, fun _ _ => rfl⟩ _ (fun _ _ _ => rfl) (ample_roomy fourSlots_file)

theorem getdents_swapped : ¬ ∀ reqs, (∀ n off len, (reqs n).safecopyto off len = true) →
    Roomy dirHeaders (dirSuper false) reqs (oneEntry 0x01000000) →
      Lists dirHeaders (dirSuper false) 0 (fun _ => Mfs.zeroBlock) reqs (oneEntry 0x01000000) := by
  intro hall
  have h := oneEntry_file false 0x01000000
  have hlists := hall _ (fun _ _ _ => rfl) (ample_roomy h)
  have hsame := (listable_of_lists h 0 (fun _ => Mfs.zeroBlock) hlists).native 0 (by decide)
  exact absurd hsame (by decide)

end Mfs.Entries
