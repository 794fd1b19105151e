import Cs111.Mfs.DirEntries

-- A directory seen as one row of slots, and what the search of it stops at.
namespace Mfs.Entries

section Row
variable {H : MfsHeaders} (D : DirHeaders) (sp : ZoneSuper H) (s : DirState H)

def blockOf (j : ℕ) : BitVec 32 :=
  match readMapAt sp s.toZoneState (j * sp.sBlockSize) with
  | .error _ => BitVec.ofNat 32 NO_BLOCK
  | .ok b => b

def slot (k : ℕ) : Direct :=
  s.dir (blockOf sp s (k / nrDirEntries D sp)) (k % nrDirEntries D sp)

def nrBlocks : ℕ := (s.size + sp.sBlockSize - 1) / sp.sBlockSize

structure DirFile : Prop where
  mode : s.rip.iMode &&& I_TYPE = I_DIRECTORY
  positive : 0 ≤ s.rip.iSize.toInt
  whole : D.entrySize ∣ s.size
  mapped : ∀ j < nrBlocks sp s, ∃ b, readMapAt sp s.toZoneState (j * sp.sBlockSize) = .ok b
  distinct : ∀ k < s.slots D, ∀ l < s.slots D, (slot D sp s k).dIno ≠ 0 →
    (slot D sp s l).dIno ≠ 0 →
      cname D (slot D sp s k).dName = cname D (slot D sp s l).dName → k = l

end Row

section Sizes
variable {H : MfsHeaders} {D : DirHeaders} {sp : ZoneSuper H} {s : DirState H} {j k : ℕ}

theorem entrySize_pos : 0 < D.entrySize := by
  rw [DirHeaders.entrySize]
  omega

theorem block_whole : nrDirEntries D sp * D.entrySize = sp.sBlockSize :=
  Nat.div_mul_cancel ((Nat.dvd_of_mod_eq_zero D.entry_mod).trans
    (Nat.dvd_of_mod_eq_zero sp.size_mod))

variable (sp) in
theorem block_pos : 0 < sp.sBlockSize := Nat.lt_of_lt_of_le (by decide) sp.block_ge

theorem nrDirEntries_pos : 0 < nrDirEntries D sp := by
  have hblock : 0 < nrDirEntries D sp * D.entrySize := block_whole.symm ▸ block_pos sp
  exact Nat.pos_of_mul_pos_right hblock

theorem DirFile.size_eq (h : DirFile D sp s) : s.slots D * D.entrySize = s.size :=
  Nat.div_mul_cancel h.whole

theorem pos_lt_iff (h : DirFile D sp s) :
    j * sp.sBlockSize < s.size ↔ j * nrDirEntries D sp < s.slots D := by
  rw [← h.size_eq, ← block_whole (D := D), ← Nat.mul_assoc]
  exact Nat.mul_lt_mul_right entrySize_pos

theorem block_lt_iff : j < nrBlocks sp s ↔ j * sp.sBlockSize < s.size := by
  have hpos := block_pos sp
  rw [nrBlocks, Nat.lt_iff_add_one_le, Nat.le_div_iff_mul_le hpos, Nat.succ_mul]
  omega

theorem DirFile.read (h : DirFile D sp s) (hj : j < nrBlocks sp s) :
    readMapAt sp s.toZoneState (j * sp.sBlockSize) = .ok (blockOf sp s j) := by
  obtain ⟨b, hb⟩ := h.mapped j hj
  rw [blockOf, hb]

theorem slot_at (hk : k < nrDirEntries D sp) :
    slot D sp s (j * nrDirEntries D sp + k) = s.dir (blockOf sp s j) k := by
  rw [slot, Nat.mul_comm, Nat.mul_add_div nrDirEntries_pos, Nat.div_eq_of_lt hk,
    Nat.mul_add_mod, Nat.mod_eq_of_lt hk, Nat.add_zero]

end Sizes

-- What the search of a block meets.
section Scans
variable {D : DirHeaders} {flag : Flag} {string : ℕ → BitVec 8} {bDir : ℕ → Direct}
  {oldSlots n : ℕ}

def Stops (D : DirHeaders) (flag : Flag) (string : ℕ → BitVec 8) (dp : Direct) : Prop :=
  matchesEntry D flag string dp ∨ flag = .ENTER ∧ dp.dIno = 0

inductive Scanned (D : DirHeaders) (flag : Flag) (string : ℕ → BitVec 8) (bDir : ℕ → Direct)
    (oldSlots base i m : ℕ) : Scan → Prop
  | hit {k : ℕ} (hk : k < m) (hlt : base + k < oldSlots)
      (hbefore : ∀ l, i ≤ l → l < k → ¬ Stops D flag string (bDir l)) (hik : i ≤ k)
      (hmatch : matchesEntry D flag string (bDir k)) :
      Scanned D flag string bDir oldSlots base i m (.hit k)
  | free {k : ℕ} (hk : k < m) (hlt : base + k < oldSlots)
      (hbefore : ∀ l, i ≤ l → l < k → ¬ Stops D flag string (bDir l)) (hik : i ≤ k)
      (hflag : flag = .ENTER) (hfree : (bDir k).dIno = 0) :
      Scanned D flag string bDir oldSlots base i m (.free k (base + k + 1))
  | room {k : ℕ} (hk : k < m) (hlast : base + k = oldSlots)
      (hbefore : ∀ l, i ≤ l → l < k → ¬ Stops D flag string (bDir l)) (hik : i ≤ k)
      (hflag : flag = .ENTER) : Scanned D flag string bDir oldSlots base i m (.free k (oldSlots + 1))
  | ends {k : ℕ} (hk : k < m) (hlast : base + k = oldSlots)
      (hbefore : ∀ l, i ≤ l → l < k → ¬ Stops D flag string (bDir l)) (hik : i ≤ k)
      (hflag : flag ≠ .ENTER) :
      Scanned D flag string bDir oldSlots base i m (.searched (oldSlots + 1))
  | through (hle : base + m ≤ oldSlots)
      (hbefore : ∀ l, i ≤ l → l < m → ¬ Stops D flag string (bDir l)) :
      Scanned D flag string bDir oldSlots base i m (.searched (base + m))

theorem Scanned.pass {base i m : ℕ} {r : Scan} (hpass : ¬ Stops D flag string (bDir i))
    (h : Scanned D flag string bDir oldSlots base (i + 1) m r) :
    Scanned D flag string bDir oldSlots base i m r := by
  have hfirst : ∀ {k}, (∀ l, i + 1 ≤ l → l < k → ¬ Stops D flag string (bDir l)) →
      ∀ l, i ≤ l → l < k → ¬ Stops D flag string (bDir l) := by
    intro k hbefore l hil hlk
    rcases Nat.eq_or_lt_of_le hil with rfl | hlt
    · exact hpass
    · exact hbefore l hlt hlk
  cases h with
  | hit hk hlt hbefore hik hmatch => exact .hit hk hlt (hfirst hbefore) (by omega) hmatch
  | free hk hlt hbefore hik hflag hfree =>
    exact .free hk hlt (hfirst hbefore) (by omega) hflag hfree
  | room hk hlast hbefore hik hflag => exact .room hk hlast (hfirst hbefore) (by omega) hflag
  | ends hk hlast hbefore hik hflag => exact .ends hk hlast (hfirst hbefore) (by omega) hflag
  | through hle hbefore => exact .through hle (hfirst hbefore)

variable (D flag string bDir) in
theorem scanBlock_scanned (base i c : ℕ) (hle : base + i ≤ oldSlots) :
    Scanned D flag string bDir oldSlots base i (i + c)
      (scanBlock D flag string bDir oldSlots (List.range' i c) (base + i)) := by
  induction c generalizing i with
  | zero => exact .through hle fun l hil hlt => absurd hlt (by omega)
  | succ c ih =>
    have hbefore : ∀ l, i ≤ l → l < i → ¬ Stops D flag string (bDir l) :=
      fun l hil hlt => absurd hlt (by omega)
    rw [List.range'_succ, scanBlock]
    split
    · rename_i hpast
      split
      · rename_i hflag
        have hlast : base + i + 1 = oldSlots + 1 := by omega
        rw [hlast]
        exact .room (by omega) (by omega) hbefore le_rfl hflag
      · rename_i hflag
        have hlast : base + i + 1 = oldSlots + 1 := by omega
        rw [hlast]
        exact .ends (by omega) (by omega) hbefore le_rfl hflag
    · split
      · rename_i hmatch
        exact .hit (by omega) (by omega) hbefore le_rfl hmatch
      · rename_i hno
        split
        · rename_i hfree
          exact .free (by omega) (by omega) hbefore le_rfl hfree.1 hfree.2
        · rename_i hused
          have hrest := ih (i + 1) (by omega)
          rw [show i + 1 + c = i + (c + 1) by omega] at hrest
          exact hrest.pass fun hstops => hstops.elim hno hused

end Scans

-- What search_dir() comes to in a directory.
section Search
variable {H : MfsHeaders} {D : DirHeaders} {sp : ZoneSuper H} {s : DirState H} {flag : Flag}
  {string : ℕ → BitVec 8} {j : ℕ}

def place (D : DirHeaders) (sp : ZoneSuper H) (s : DirState H) (k : ℕ) : BitVec 32 × ℕ :=
  (blockOf sp s (k / nrDirEntries D sp), k % nrDirEntries D sp)

inductive Searched (D : DirHeaders) (sp : ZoneSuper H) (flag : Flag) (string : ℕ → BitVec 8)
    (s : DirState H) (i : ℕ) : Except DirFault Found → Prop
  | hit {k : ℕ} (hik : i ≤ k) (hk : k < s.slots D)
      (hbefore : ∀ l, i ≤ l → l < k → ¬ Stops D flag string (slot D sp s l))
      (hmatch : matchesEntry D flag string (slot D sp s k)) :
      Searched D sp flag string s i (.ok (.hit (place D sp s k).1 (place D sp s k).2))
  | free {k : ℕ} (hik : i ≤ k) (hk : k < s.slots D)
      (hbefore : ∀ l, i ≤ l → l < k → ¬ Stops D flag string (slot D sp s l))
      (hflag : flag = .ENTER) (hfree : (slot D sp s k).dIno = 0) :
      Searched D sp flag string s i
        (.ok (.free (place D sp s k).1 (place D sp s k).2 (k + 1)))
  | room (hflag : flag = .ENTER) (hroom : ¬ nrDirEntries D sp ∣ s.slots D)
      (hbefore : ∀ l, i ≤ l → l < s.slots D → ¬ Stops D flag string (slot D sp s l)) :
      Searched D sp flag string s i
        (.ok (.free (place D sp s (s.slots D)).1 (place D sp s (s.slots D)).2 (s.slots D + 1)))
  | through {n : ℕ} (hn : flag = .ENTER → n = s.slots D ∧ nrDirEntries D sp ∣ s.slots D)
      (hbefore : ∀ l, i ≤ l → l < s.slots D → ¬ Stops D flag string (slot D sp s l))
      (hlimit : nrBlocks sp s * sp.sBlockSize < OFF_LIMIT) :
      Searched D sp flag string s i (.ok (.searched n))
  | overflow (hbefore : ∀ l, i ≤ l → l < s.slots D → ¬ Stops D flag string (slot D sp s l))
      (hflag : flag ≠ .ENTER) (hlimit : OFF_LIMIT ≤ nrBlocks sp s * sp.sBlockSize) :
      Searched D sp flag string s i (.error .overflow)

theorem DirState.size_lt : s.size < OFF_LIMIT := by
  have hlt := s.rip.iSize.toInt_lt
  rw [DirState.size, OFF_LIMIT]
  omega

theorem slots_le (h : DirFile D sp s) : s.slots D ≤ nrBlocks sp s * nrDirEntries D sp := by
  by_contra hlt
  exact absurd (block_lt_iff.mpr ((pos_lt_iff h).mpr (not_le.mp hlt))) (lt_irrefl _)

theorem place_at {k : ℕ} (hk : k < nrDirEntries D sp) :
    place D sp s (j * nrDirEntries D sp + k) = (blockOf sp s j, k) := by
  rw [place, Nat.mul_comm, Nat.mul_add_div nrDirEntries_pos, Nat.div_eq_of_lt hk,
    Nat.mul_add_mod, Nat.mod_eq_of_lt hk, Nat.add_zero]

theorem Searched.pass {i : ℕ} {r : Except DirFault Found} (hij : i ≤ j)
    (hpass : ∀ l, i ≤ l → l < j → l < s.slots D → ¬ Stops D flag string (slot D sp s l))
    (h : Searched D sp flag string s j r) : Searched D sp flag string s i r := by
  have hfirst : ∀ {k}, k ≤ s.slots D →
      (∀ l, j ≤ l → l < k → ¬ Stops D flag string (slot D sp s l)) →
        ∀ l, i ≤ l → l < k → ¬ Stops D flag string (slot D sp s l) := by
    intro k hk hbefore l hil hlk
    rcases Nat.lt_or_ge l j with hlt | hge
    · exact hpass l hil hlt (by omega)
    · exact hbefore l hge hlk
  cases h with
  | hit hik hk hbefore hmatch => exact .hit (by omega) hk (hfirst hk.le hbefore) hmatch
  | free hik hk hbefore hflag hfree =>
    exact .free (by omega) hk (hfirst hk.le hbefore) hflag hfree
  | room hflag hroom hbefore => exact .room hflag hroom (hfirst le_rfl hbefore)
  | through hn hbefore hlimit => exact .through hn (hfirst le_rfl hbefore) hlimit
  | overflow hbefore hflag hlimit => exact .overflow (hfirst le_rfl hbefore) hflag hlimit

variable (flag string) in
theorem scanDir_from (h : DirFile D sp s) {n : ℕ} (hj : j ≤ nrBlocks sp s)
    (hpos : j * sp.sBlockSize < OFF_LIMIT)
    (hn : j < nrBlocks sp s → n = j * nrDirEntries D sp)
    (hend : j = nrBlocks sp s → flag = .ENTER → n = s.slots D ∧ nrDirEntries D sp ∣ s.slots D) :
    Searched D sp flag string s (j * nrDirEntries D sp)
      (scanDir D sp flag string s (j * sp.sBlockSize) n) := by
  induction hd : nrBlocks sp s - j generalizing j n with
  | zero =>
    have heq : j = nrBlocks sp s := by omega
    rw [scanDir, if_neg (fun hlt => absurd (block_lt_iff.mpr hlt) (by omega))]
    refine .through (hend heq) (fun l hil hlt => ?_) (heq ▸ hpos)
    have := slots_le h
    rw [← heq] at this
    omega
  | succ d ih =>
    have hlt : j < nrBlocks sp s := by omega
    have hsize := block_lt_iff.mp hlt
    have hslots := (pos_lt_iff h).mp hsize
    rw [scanDir, if_pos hsize, h.read hlt, hn hlt, List.range_eq_range']
    dsimp only
    have hscan := scanBlock_scanned D flag string (s.dir (blockOf sp s j))
      (j * nrDirEntries D sp) 0 (nrDirEntries D sp) hslots.le
    rw [Nat.add_zero, Nat.zero_add] at hscan
    have hbefore' : ∀ {k}, k ≤ nrDirEntries D sp →
        (∀ l, 0 ≤ l → l < k → ¬ Stops D flag string (s.dir (blockOf sp s j) l)) →
          ∀ l, j * nrDirEntries D sp ≤ l → l < j * nrDirEntries D sp + k →
            ¬ Stops D flag string (slot D sp s l) := by
      intro k hk hbefore l hjl hlk
      obtain ⟨m, rfl⟩ := Nat.exists_eq_add_of_le hjl
      rw [slot_at (by omega)]
      exact hbefore m (Nat.zero_le m) (by omega)
    -- the loop goes on behind this block, where there may be none
    have hnext : ∀ {n : ℕ}, (∀ l, j * nrDirEntries D sp ≤ l → l < (j + 1) * nrDirEntries D sp →
        l < s.slots D → ¬ Stops D flag string (slot D sp s l)) →
        (j + 1 < nrBlocks sp s → n = (j + 1) * nrDirEntries D sp) →
        (j + 1 = nrBlocks sp s → flag = .ENTER → n = s.slots D ∧ nrDirEntries D sp ∣ s.slots D) →
        Searched D sp flag string s (j * nrDirEntries D sp)
          (if j * sp.sBlockSize + sp.sBlockSize < OFF_LIMIT then
            scanDir D sp flag string s (j * sp.sBlockSize + sp.sBlockSize) n
          else .error .overflow) := by
      intro n hpass hmore hend
      rw [← Nat.succ_mul]
      split
      · rename_i hlimit
        exact (ih (by omega) hlimit hmore hend (by omega)).pass
          (Nat.mul_le_mul_right _ (Nat.le_succ j)) hpass
      · rename_i hlimit
        have hlast : j + 1 = nrBlocks sp s := by
          by_contra hne
          have hsize' := block_lt_iff.mp (show j + 1 < nrBlocks sp s by omega)
          exact hlimit (hsize'.trans DirState.size_lt)
        have hslots' := slots_le h
        rw [← hlast] at hslots'
        refine .overflow (fun l hjl hls => hpass l hjl (hls.trans_le hslots') hls)
          (fun henter => hlimit ?_) (hlast ▸ not_lt.mp hlimit)
        obtain ⟨-, q, hq⟩ := hend hlast henter
        have hqj : q = j + 1 := by
          rw [hq, Nat.mul_comm _ q] at hslots hslots'
          have hlow := Nat.lt_of_mul_lt_mul_right hslots
          have hhigh := Nat.le_of_mul_le_mul_right hslots' nrDirEntries_pos
          omega
        have hwhole := h.size_eq
        rw [hq, hqj, Nat.mul_comm (nrDirEntries D sp), Nat.mul_assoc, block_whole] at hwhole
        rw [hwhole]
        exact DirState.size_lt
    generalize scanBlock D flag string (s.dir (blockOf sp s j)) (s.slots D)
      (List.range' 0 (nrDirEntries D sp)) (j * nrDirEntries D sp) = r at hscan ⊢
    cases hscan with
    | @hit k hk hlt hbefore hik hmatch =>
      have hfound : Searched D sp flag string s _ _ := .hit (Nat.le_add_right _ k) hlt
        (hbefore' hk.le hbefore) (by rwa [slot_at hk])
      rwa [place_at hk] at hfound
    | @free k hk hlt hbefore hik hflag hfree =>
      have hfound : Searched D sp flag string s _ _ := .free (Nat.le_add_right _ k) hlt
        (hbefore' hk.le hbefore) hflag (by rwa [slot_at hk])
      rwa [place_at hk] at hfound
    | @room k hk hlast hbefore hik hflag =>
      have hroom : ¬ nrDirEntries D sp ∣ s.slots D := by
        rw [← hlast, Nat.dvd_add_right (Nat.dvd_mul_left _ _)]
        exact Nat.not_dvd_of_pos_of_lt (by omega) hk
      have hfound : Searched D sp flag string s _ _ := .room hflag hroom
        (hlast ▸ hbefore' hk.le hbefore)
      rwa [← hlast, place_at hk, hlast] at hfound
    | @ends k hk hlast hbefore hik hflag =>
      refine hnext (fun l hjl _ hls => hbefore' hk.le hbefore l hjl (hlast ▸ hls)) (fun hmore => ?_)
        fun _ henter => absurd henter hflag
      have hless := (pos_lt_iff h).mp (block_lt_iff.mp hmore)
      rw [Nat.succ_mul] at hless
      omega
    | through hle hbefore =>
      rw [← Nat.succ_mul]
      refine hnext (fun l hjl hlt _ => hbefore' le_rfl hbefore l hjl (Nat.succ_mul .. ▸ hlt))
        (fun _ => rfl) fun hend _ => ?_
      have hslots' := slots_le h
      rw [← hend] at hslots'
      have heq : s.slots D = (j + 1) * nrDirEntries D sp := by
        rw [Nat.succ_mul] at hslots' ⊢
        omega
      exact ⟨heq.symm, heq ▸ Nat.dvd_mul_left _ _⟩

theorem scanDir_searched (flag : Flag) (string : ℕ → BitVec 8) (h : DirFile D sp s) :
    Searched D sp flag string s 0 (scanDir D sp flag string s 0 0) := by
  have hstart := scanDir_from flag string h (j := 0) (n := 0)
    (Nat.zero_le _) (by rw [Nat.zero_mul]; decide) (fun _ => (Nat.zero_mul _).symm)
    (fun hnone _ => ?_)
  · rwa [Nat.zero_mul, Nat.zero_mul] at hstart
  · have hslots := slots_le h
    rw [← hnone, Nat.zero_mul, Nat.le_zero] at hslots
    exact ⟨hslots.symm, hslots ▸ dvd_zero _⟩

variable {now : BitVec 32} {stale : BitVec 32 → IndBlock} {a : Access} {numb : BitVec 32} {k : ℕ}

theorem search_eq (h : DirFile D sp s) (ha : forbidden sp flag a = none) :
    searchDir D sp now stale a flag string numb s =
      match scanDir D sp flag string s 0 0 with
      | .error e => .error e
      | .ok found => afterSearch D sp now stale flag string numb s found := by
  refine (if_neg (not_not_intro h.mode)).trans ?_
  split
  · rename_i r hr
    cases ha.symm.trans hr
  · rfl

theorem lookUp_present (h : DirFile D sp s) (ha : forbidden sp .LOOK_UP a = none)
    (hk : k < s.slots D) (hused : (slot D sp s k).dIno ≠ 0)
    (hname : cname D (slot D sp s k).dName = cname D string) :
    searchDir D sp now stale a .LOOK_UP string numb s =
      .ok (.numb (conv4 sp.sNative (slot D sp s k).dIno), s) := by
  have hstops : Stops D .LOOK_UP string (slot D sp s k) := .inl ⟨hused, hname⟩
  have hsearch := scanDir_searched .LOOK_UP string h
  rw [search_eq h ha]
  generalize scanDir D sp .LOOK_UP string s 0 0 = r at hsearch
  cases hsearch with
  | @hit l hil hl hbefore hmatch =>
    have hkl : l = k := h.distinct l hl k hk hmatch.1 hused (hmatch.2.trans hname.symm)
    subst hkl
    rfl
  | free hik hk hbefore hflag hfree => cases hflag
  | room hflag hroom hbefore => cases hflag
  | through hn hbefore hlimit => exact absurd hstops (hbefore k (Nat.zero_le k) hk)
  | overflow hbefore hflag hlimit => exact absurd hstops (hbefore k (Nat.zero_le k) hk)

end Search

end Mfs.Entries
