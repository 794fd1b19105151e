import Cs111.Vm.AllocMem

namespace Vm
open Kernel (Fault kassert bind_ok kassert_bind_ok pure_ok)
open Span

section Code
variable (env : VmEnv)

def allocRetry (rempages : ℕ) (flags : BitVec 32) :
    ℕ → FreePool → Except Fault (AllocResult × FreePool)
  | 0, _ => .error .hang
  | fuel + 1, s => do
    let (res, s) ← s.allocPages env rempages flags true
    if res.mem = noMem then do
      let (freed, s) ← s.freeYielded env (physBytes (rempages * CLICK_SIZE))
      if freed > 0 then allocRetry rempages flags fuel s else pure (res, s)
    else pure (res, s)

def freeMemList (all : Bool) : List MemList → FreePool → Except Fault FreePool
  | [], s => pure s
  | list :: next, s => do
    kassert (decide (list.phys % CLICK_SIZE = 0))
    kassert (decide (list.length % CLICK_SIZE = 0))
    let s ← if all then
        s.freePages env (list.phys / CLICK_SIZE : ℕ) (list.length / CLICK_SIZE : ℕ)
      else pure s
    freeMemList all next s

def allocListLoop (flags : BitVec 32) : ℕ → ℕ → List MemList → FreePool →
    Except Fault (Option (List MemList) × FreePool)
  | 0, _, _, _ => .error .hang
  | fuel + 1, rempages, head, s => do
    let (res, s) ← allocRetry env rempages flags env.fuel s
    if res.mem = noMem then do
      let s ← freeMemList env true head s
      pure (none, s)
    else do
      let gotpages := res.pages rempages
      kassert (decide (gotpages ≤ rempages))
      kassert (decide (gotpages > 0))
      let slab := env.slabMemlist s.time
      let s := { s with time := s.time + 1 }
      if slab then do
        let head := head ++ [⟨click2abs res.mem, click2abs gotpages⟩]
        if rempages - gotpages > 0 then allocListLoop flags fuel (rempages - gotpages) head s
        else pure (some head, s)
      else do
        let s ← freeMemList env true head s
        let s ← s.freePages env res.mem gotpages
        pure (none, s)

def checkList : List MemList → Except Fault Unit
  | [] => pure ()
  | ml :: next => do
    kassert (decide (ml.phys ≠ 0))
    kassert (decide (ml.length ≠ 0))
    checkList next

def allocMemInList (bytes : ℕ) (flags : BitVec 32) (s : FreePool) :
    Except Fault (Option (List MemList) × FreePool) := do
  kassert (decide (bytes > 0))
  kassert (decide (bytes % CLICK_SIZE = 0))
  let flags := if hasFlag flags PAF_CONTIG then flags else flags ||| PAF_FIRSTBLOCK
  match ← allocListLoop env flags env.fuel (bytes / CLICK_SIZE) [] s with
  | (none, s) => pure (none, s)
  | (some head, s) => do
    checkList head
    pure (some head, s)

end Code

def MemList.block (ml : MemList) : PageRange := ⟨ml.phys / CLICK_SIZE, ml.length / CLICK_SIZE⟩

structure MemList.Whole (ml : MemList) : Prop where
  phys : CLICK_SIZE ∣ ml.phys
  length : CLICK_SIZE ∣ ml.length
  nonzero : 0 < ml.block.addr
  nonempty : 0 < ml.block.size
  inside : ml.block.addr + ml.block.size ≤ maxPages

def chunkPages (chunks : List MemList) : List PageRange := chunks.map MemList.block

structure Lent (env : VmEnv) (s₀ s : FreePool) (chunks : List MemList) : Prop where
  sound : s.Sound env
  whole : ∀ ml ∈ chunks, ml.Whole
  disjoint : chunks.Pairwise fun c d => ∀ m, ¬ (c.block.Covers m ∧ d.block.Covers m)
  apart : ∀ m, covered (chunkPages chunks) m → ¬ s.Holds m
  held : ∀ m, s₀.Holds m ↔ s.Holds m ∨ covered (chunkPages chunks) m

def lengths (chunks : List MemList) : ℕ := (chunks.map MemList.length).sum

def NoRoom (n : ℕ) (flags : BitVec 32) (t : AddrAvl) : Prop :=
  if hasFlag flags PAF_FIRSTBLOCK then ∀ pr ∈ t, LowRequest flags ∧ boundary flags < pr.addr + n
  else ¬ Room n flags (covered t)

def OutOfMemory (env : VmEnv) (s : FreePool) (bytes : ℕ) (flags : BitVec 32) : Prop :=
  ∃ chunks s', Lent env s s' chunks ∧ s'.lru = [] ∧ lengths chunks < bytes ∧
    NoRoom ((bytes - lengths chunks) / CLICK_SIZE) flags s'.addravl

def NoSlab (env : VmEnv) (s s' : FreePool) : Prop :=
  ∃ time, s.time ≤ time ∧ time < s'.time ∧ env.slabMemlist time = false

def AllOrNothing (env : VmEnv) (s : FreePool) (bytes : ℕ) (flags : BitVec 32) :
    Except Fault (Option (List MemList) × FreePool) → Prop
  | .ok (some chunks, s') => Lent env s s' chunks ∧ lengths chunks = bytes
  | .ok (none, s') => (∀ m, s'.Holds m ↔ s.Holds m) ∧
      (OutOfMemory env s bytes flags ∨ NoSlab env s s')
  | .error _ => False

def listFlags (flags : BitVec 32) : BitVec 32 :=
  if hasFlag flags PAF_CONTIG then flags else flags ||| PAF_FIRSTBLOCK

section Retry
variable {env : VmEnv} {s s' s'' : FreePool} {gone : List Yielded}

structure SamePool (env : VmEnv) (s s' : FreePool) : Prop where
  sound : s'.Sound env
  holds : ∀ m, s'.Holds m ↔ s.Holds m
  lru : s'.lru.length ≤ s.lru.length
  time : s.time ≤ s'.time

theorem SamePool.later (h : s.Sound env) {time : ℕ} (htime : s.time ≤ time) :
    SamePool env s { s with time := time } :=
  ⟨h.later time, fun _ => Iff.rfl, le_rfl, htime⟩

theorem SamePool.trans (h : SamePool env s s') (h' : SamePool env s' s'') : SamePool env s s'' :=
  ⟨h'.sound, fun m => (h'.holds m).trans (h.holds m), h'.lru.trans h.lru, h.time.trans h'.time⟩

theorem evicted_samePool (h : FreePool.Evicted env s s' gone) : SamePool env s s' := by
  refine ⟨h.sound, h.holds, ?_, h.time⟩
  rw [h.lru, List.length_append]
  omega

theorem freeYielded_none {maxBytes : ℕ} (hlru : s.lru = []) (hfuel : 0 < env.fuel) :
    s.freeYielded env maxBytes = .ok (0, s) := by
  rw [FreePool.freeYielded, ← Nat.succ_pred_eq_of_pos hfuel, FreePool.freeYieldedLoop, hlru]
  rfl

theorem evicted_shorter {maxBytes : ℕ} (h : s.Sound env) (hmax : 0 < maxBytes) (hlru : s.lru ≠ [])
    (hevicted : FreePool.Evicted env s s' (FreePool.evicts maxBytes 0 s.lru)) :
    0 < FreePool.bytes (FreePool.evicts maxBytes 0 s.lru) ∧ s'.lru.length < s.lru.length := by
  obtain ⟨y, ys, hlist⟩ := List.exists_cons_of_ne_nil hlru
  have hpos := (h.paged y (by simp [hlist])).nonempty
  have hgone : FreePool.evicts maxBytes 0 s.lru = y :: FreePool.evicts maxBytes (0 + y.len) ys := by
    rw [hlist, FreePool.evicts, if_pos hmax]
  rw [hgone] at hevicted ⊢
  refine ⟨?_, ?_⟩
  · rw [FreePool.bytes, List.map_cons, List.sum_cons]
    omega
  · rw [hevicted.lru, List.length_append, List.length_cons]
    omega

theorem noRoom {n : ℕ} {flags : BitVec 32} {t : AddrAvl} (h : Formed t) (hn : n < 4293918720)
    (hnone : ∀ pr, chosen n flags t = some pr → aboveBoundary n flags pr = true) :
    NoRoom n flags t := by
  have hmax : maxPages = 1048576 := rfl
  rw [NoRoom]
  split
  · rename_i hfirst
    intro pr hpr
    have hsuits : ∀ p, suits n flags p = true := fun p => by simp [suits, hfirst]
    cases hchosen : chosen n flags t with
    | none =>
      have hnot := List.find?_eq_none.mp hchosen pr (mem_searched.mpr hpr)
      exact absurd (hsuits pr) hnot
    | some p =>
      have habove := hnone p hchosen
      have hinside := h.inside p (chosen_mem hchosen)
      by_cases hlow : LowRequest flags
      · have hfirst := chosen_lowest h hlow hchosen hpr (hsuits pr)
        rw [aboveBoundary_iff hlow (by omega)] at habove
        exact ⟨hlow, by omega⟩
      · rw [not_low_above hlow] at habove
        exact absurd habove Bool.false_ne_true
  · intro hroom
    obtain ⟨pr, hchosen, hbelow⟩ := room_chosen h hroom
    rw [hnone pr hchosen] at hbelow
    exact Bool.false_ne_true hbelow.symm

theorem granted_le_asked (n : ℕ) (memflags : BitVec 32) (pr : PageRange) :
    granted n memflags pr ≤ n := by
  rw [granted]
  split
  · rename_i hshort
    simp only [Bool.and_eq_true, decide_eq_true_eq] at hshort
    exact hshort.2.le
  · exact le_rfl

theorem allocRetry_settles {n fuel : ℕ} (flags : BitVec 32) (h : s.Sound env) (hn : 0 < n)
    (hword : n * CLICK_SIZE < 4294967296) (hfuel : s.lru.length < fuel)
    (henv : s.lru.length < env.fuel) :
    (∃ res s₁ s', allocRetry env n flags fuel s = .ok (res, s') ∧ SamePool env s s₁ ∧
      (res.mem = noMem ∧ s' = s₁ ∧ s'.lru = [] ∧ NoRoom n flags s'.addravl ∨
        FreePool.Taken env s₁ s' res.mem (res.pages n) ∧ 0 < res.pages n ∧ res.pages n ≤ n)) ∨
      allocRetry env n flags fuel s = .error .panic ∧ env.FailsFrom s.time := by
  have hsmall : n < 1048576 := Nat.lt_of_mul_lt_mul_right (a := CLICK_SIZE) hword
  induction fuel generalizing s with
  | zero => omega
  | succ fuel ih =>
    have hphys : physBytes (n : ℤ) = n := physBytes_nat rfl (by omega)
    have hbytes : physBytes ((n : ℤ) * CLICK_SIZE) = n * CLICK_SIZE :=
      physBytes_nat (by push_cast; rfl) hword
    rw [allocRetry, hbytes]
    rcases FreePool.allocPages_returns h n flags true (fun _ => rfl) with
      ⟨res, u, hu⟩ | ⟨hpanic, hfailed⟩
    · rw [hu, ok_bind]
      dsimp only
      rcases FreePool.allocPages_takes h hu with
        ⟨hmem, rfl, hnone⟩ | ⟨pr, hchosen, -, hpages, htaken⟩
      · rw [if_pos hmem]
        have hlater : SamePool env s { s with time := s.time + 1 } := .later h (Nat.le_succ _)
        by_cases hlru : s.lru = []
        · rw [freeYielded_none (s := { s with time := s.time + 1 }) hlru (by omega)]
          rw [hphys] at hnone
          exact .inl ⟨res, _, _, rfl, hlater, .inl ⟨hmem, rfl, hlru, noRoom h.formed (by omega) hnone⟩⟩
        · rcases FreePool.freeYielded_evicts hlater.sound (n * CLICK_SIZE) with
            ⟨v, hv, hevicted⟩ | ⟨hpanic, time, htime, hslab⟩ | ⟨-, hlong⟩
          · obtain ⟨hfreed, hshorter⟩ := evicted_shorter (s := { s with time := s.time + 1 })
              hlater.sound (Nat.mul_pos hn (by decide)) hlru hevicted
            have hkept : SamePool env s v := hlater.trans (evicted_samePool hevicted)
            change v.lru.length < s.lru.length at hshorter
            rw [hv, ok_bind]
            dsimp only
            rw [if_pos hfreed]
            rcases ih hkept.sound (by omega) (by omega) with
              ⟨res', s₁, s', hs', hkept', hresult⟩ | ⟨hpanic, hfails⟩
            · exact .inl ⟨res', s₁, s', hs', hkept.trans hkept', hresult⟩
            · exact .inr ⟨hpanic, hfails.mono hkept.time⟩
          · rw [hpanic]
            exact .inr ⟨rfl, time, (Nat.le_succ _).trans htime, .inl hslab⟩
          · change env.fuel ≤ s.lru.length at hlong
            omega
      · rw [if_neg htaken.mem]
        rw [hphys] at hpages htaken hchosen
        have hpos : 0 < granted n flags pr :=
          granted_pos hn (h.formed.spread.nonempty pr (chosen_mem hchosen))
        refine .inl ⟨res, s, u, rfl, ⟨h, fun _ => Iff.rfl, le_rfl, le_rfl⟩, .inr ?_⟩
        rw [hpages]
        exact ⟨htaken, hpos, granted_le_asked n flags pr⟩
    · rw [hpanic]
      exact .inr ⟨rfl, _, le_rfl, .inr hfailed⟩

end Retry

section Lend
variable {env : VmEnv} {s₀ s s' : FreePool} {chunks rest : List MemList} {ml : MemList} {a n : ℕ}

theorem Lent.start (h : s.Sound env) : Lent env s s [] :=
  ⟨h, by simp, .nil, by simp [chunkPages], by simp [chunkPages]⟩

theorem Lent.kept (h : Lent env s₀ s chunks) (hkept : SamePool env s s') : Lent env s₀ s' chunks :=
  ⟨hkept.sound, h.whole, h.disjoint, fun m hm => by rw [hkept.holds]; exact h.apart m hm,
    fun m => by rw [hkept.holds]; exact h.held m⟩

theorem chunk_block (hn : 0 < n) (ha : a ≠ noMem) (hmax : a + n ≤ maxPages) :
    MemList.block ⟨click2abs a, click2abs n⟩ = ⟨a, n⟩ ∧
      MemList.Whole ⟨click2abs a, click2abs n⟩ ∧ click2abs n = n * CLICK_SIZE := by
  have hpages : maxPages = 1048576 := rfl
  have hclick : CLICK_SIZE = 4096 := rfl
  have hpos : 0 < a := Nat.pos_of_ne_zero ha
  have haddr : click2abs a = a * CLICK_SIZE :=
    physBytes_nat (by push_cast; rfl) (by rw [hclick]; omega)
  have hsize : click2abs n = n * CLICK_SIZE :=
    physBytes_nat (by push_cast; rfl) (by rw [hclick]; omega)
  have hblock : MemList.block ⟨click2abs a, click2abs n⟩ = ⟨a, n⟩ := by
    rw [MemList.block, haddr, hsize, Nat.mul_div_cancel _ (by omega), Nat.mul_div_cancel _ (by omega)]
  refine ⟨hblock, ⟨?_, ?_, ?_, ?_, ?_⟩, hsize⟩
  · rw [haddr]
    exact Nat.dvd_mul_left _ _
  · rw [hsize]
    exact Nat.dvd_mul_left _ _
  · rw [hblock]
    exact hpos
  · rw [hblock]
    exact hn
  · rw [hblock]
    exact hmax

theorem Lent.taken (h : Lent env s₀ s chunks) (htaken : FreePool.Taken env s s' a n) (hn : 0 < n) :
    Lent env s₀ s' (chunks ++ [⟨click2abs a, click2abs n⟩]) := by
  obtain ⟨hblock, hwhole, -⟩ := chunk_block hn htaken.mem htaken.inside
  have hpages : ∀ m, covered (chunkPages (chunks ++ [⟨click2abs a, click2abs n⟩])) m ↔
      covered (chunkPages chunks) m ∨ a ≤ m ∧ m < a + n := by
    intro m
    simp [chunkPages, hblock, Covers]
  refine ⟨htaken.sound, fun c hc => ?_, ?_, fun m hm => ?_, fun m => ?_⟩
  · rcases List.mem_append.mp hc with hc | hc
    · exact h.whole c hc
    · exact List.mem_singleton.mp hc ▸ hwhole
  · refine List.pairwise_append.mpr ⟨h.disjoint, List.pairwise_singleton _ _, fun c hc d hd m hm => ?_⟩
    rw [List.mem_singleton.mp hd, hblock] at hm
    refine h.apart m ⟨c.block, List.mem_map_of_mem hc, hm.1⟩ ?_
    exact (htaken.holds m).mpr (.inr hm.2)
  · rcases (hpages m).mp hm with hm | ⟨hge, hlt⟩
    · exact fun hold => h.apart m hm ((htaken.holds m).mpr (.inl hold))
    · exact htaken.apart m hge hlt
  · rw [h.held, htaken.holds, hpages, or_assoc]
    exact or_congr_right or_comm

theorem Lent.free (h : Lent env s₀ s (ml :: chunks)) :
    (∃ s', s.freePages env ml.block.addr ml.block.size = .ok s' ∧ Lent env s₀ s' chunks ∧
        s.time ≤ s'.time) ∨
      s.freePages env ml.block.addr ml.block.size = .error .panic ∧ env.FailsFrom s.time := by
  have hwhole := h.whole ml List.mem_cons_self
  obtain ⟨hfirst, hrest⟩ := List.pairwise_cons.mp h.disjoint
  have hout : ∀ m, ml.block.addr ≤ m → m < ml.block.addr + ml.block.size → ¬ s.Holds m :=
    fun m hge hlt => h.apart m ⟨ml.block, by simp [chunkPages], hge, hlt⟩
  rcases FreePool.freePages_frees h.sound hwhole.nonzero hwhole.nonempty hwhole.inside hout with
    ⟨s', hs', hfreed⟩ | ⟨hpanic, hslab⟩
  · have hholds : ∀ m, s'.Holds m ↔ s.Holds m ∨ ml.block.Covers m := by
      intro m
      rw [FreePool.Holds, FreePool.Holds, hfreed.free, hfreed.lru, Covers]
      exact or_right_comm
    refine .inl ⟨s', hs', ⟨hfreed.sound, fun c hc => h.whole c (List.mem_cons_of_mem ml hc), hrest,
      fun m hm => ?_, fun m => ?_⟩, hfreed.time⟩
    · rw [hholds]
      rintro (hold | hml)
      · refine h.apart m ?_ hold
        rw [chunkPages, List.map_cons, covered_cons]
        exact .inr hm
      · obtain ⟨b, hb, hm⟩ := hm
        obtain ⟨c, hc, rfl⟩ := List.mem_map.mp hb
        exact hfirst c hc m ⟨hml, hm⟩
    · rw [h.held, hholds, chunkPages, chunkPages, List.map_cons, covered_cons, or_assoc]
  · exact .inr ⟨hpanic, _, le_rfl, .inl hslab⟩

theorem freeMemList_returns (h : Lent env s₀ s (chunks ++ rest)) :
    (∃ s', freeMemList env true chunks s = .ok s' ∧ Lent env s₀ s' rest ∧ s.time ≤ s'.time) ∨
      freeMemList env true chunks s = .error .panic ∧ env.FailsFrom s.time := by
  induction chunks generalizing s with
  | nil => exact .inl ⟨s, rfl, h, le_rfl⟩
  | cons ml chunks ih =>
    have hwhole := h.whole ml (by simp)
    have hphys : ml.phys % CLICK_SIZE = 0 := Nat.mod_eq_zero_of_dvd hwhole.phys
    have hlength : ml.length % CLICK_SIZE = 0 := Nat.mod_eq_zero_of_dvd hwhole.length
    simp only [freeMemList, hphys, hlength, decide_true, kassert_true, ok_bind, if_true]
    rcases h.free with ⟨u, hu, hlent, htime⟩ | ⟨hpanic, hfails⟩
    · rw [MemList.block] at hu
      rw [hu]
      refine (ih hlent).imp ?_ fun hfault => ⟨hfault.1, hfault.2.mono htime⟩
      rintro ⟨s', hs', hback, hlater⟩
      exact ⟨s', hs', hback, htime.trans hlater⟩
    · rw [MemList.block] at hpanic
      rw [hpanic]
      exact .inr ⟨rfl, hfails⟩

theorem Lent.restored (h : Lent env s₀ s []) (m : ℕ) : s.Holds m ↔ s₀.Holds m := by
  rw [h.held]
  simp [chunkPages]

theorem lengths_append (chunks : List MemList) (hn : 0 < n) (ha : a ≠ noMem) (hmax : a + n ≤ maxPages) :
    lengths (chunks ++ [⟨click2abs a, click2abs n⟩]) = lengths chunks + n * CLICK_SIZE := by
  simp [lengths, (chunk_block hn ha hmax).2.2]

theorem checkList_ok (h : ∀ ml ∈ chunks, ml.Whole) : checkList chunks = .ok () := by
  induction chunks with
  | nil => rfl
  | cons ml chunks ih =>
    have hwhole := h ml List.mem_cons_self
    have hphys : ml.phys ≠ 0 := by
      intro hzero
      have hpos := hwhole.nonzero
      simp [MemList.block, hzero] at hpos
    have hlength : ml.length ≠ 0 := by
      intro hzero
      have hpos := hwhole.nonempty
      simp [MemList.block, hzero] at hpos
    have hrest := ih fun c hc => h c (List.mem_cons_of_mem ml hc)
    rw [checkList, decide_eq_true hphys, decide_eq_true hlength]
    exact hrest

theorem Lent.undone (h : Lent env s₀ s chunks) :
    (∃ s', (freeMemList env true chunks s >>= fun s => pure (none, s) :
        Except Fault (Option (List MemList) × FreePool)) = .ok (none, s') ∧
      ∀ m, s'.Holds m ↔ s₀.Holds m) ∨
    (freeMemList env true chunks s >>= fun s => pure (none, s) :
      Except Fault (Option (List MemList) × FreePool)) = .error .panic ∧ env.FailsFrom s.time := by
  rw [← List.append_nil chunks] at h
  rcases freeMemList_returns h with ⟨s', hs', hback, -⟩ | ⟨hpanic, hfails⟩
  · rw [hs']
    exact .inl ⟨s', rfl, hback.restored⟩
  · rw [hpanic]
    exact .inr ⟨rfl, hfails⟩

theorem Lent.undone_last (h : Lent env s₀ s (chunks ++ [⟨click2abs a, click2abs n⟩])) (hn : 0 < n)
    (ha : a ≠ noMem) (hmax : a + n ≤ maxPages) :
    (∃ s', (freeMemList env true chunks s >>= fun s => s.freePages env a n >>= fun s =>
        pure (none, s) : Except Fault (Option (List MemList) × FreePool)) = .ok (none, s') ∧
      (∀ m, s'.Holds m ↔ s₀.Holds m) ∧ s.time ≤ s'.time) ∨
    (freeMemList env true chunks s >>= fun s => s.freePages env a n >>= fun s =>
      pure (none, s) : Except Fault (Option (List MemList) × FreePool)) = .error .panic ∧
      env.FailsFrom s.time := by
  rcases freeMemList_returns h with ⟨v, hv, hone, htime⟩ | ⟨hpanic, hfails⟩
  · rw [hv, ok_bind]
    have hlast := hone.free
    rw [(chunk_block hn ha hmax).1] at hlast
    rcases hlast with ⟨s', hs', hback, hlater⟩ | ⟨hpanic, hfails⟩
    · rw [hs']
      exact .inl ⟨s', rfl, hback.restored, htime.trans hlater⟩
    · rw [hpanic]
      exact .inr ⟨rfl, hfails.mono htime⟩
  · rw [hpanic]
    exact .inr ⟨rfl, hfails⟩

theorem allocListLoop_settles {fuel rempages bytes : ℕ} (flags : BitVec 32)
    (h : Lent env s₀ s chunks) (htime : s₀.time ≤ s.time) (hrem : 0 < rempages)
    (hbytes : lengths chunks + rempages * CLICK_SIZE = bytes) (hword : bytes < 4294967296)
    (hfuel : rempages ≤ fuel) (henv : s.lru.length < env.fuel) :
    AllOrNothing env s₀ bytes flags (allocListLoop env flags fuel rempages chunks s) ∨
      allocListLoop env flags fuel rempages chunks s = .error .panic ∧ env.FailsFrom s₀.time := by
  have hclick : CLICK_SIZE = 4096 := rfl
  induction fuel generalizing s chunks rempages with
  | zero => omega
  | succ fuel ih =>
    rw [hclick] at hbytes
    rw [allocListLoop]
    rcases allocRetry_settles flags h.sound hrem (by rw [hclick]; omega) henv henv with
      ⟨res, s₁, u, hu, hkept, hresult⟩ | ⟨hpanic, hfails⟩
    · rw [hu, ok_bind]
      dsimp only
      rcases hresult with ⟨hmem, rfl, hlru, hroom⟩ | ⟨htaken, hpos, hle⟩
      · rw [if_pos hmem]
        have hlent := h.kept hkept
        have hrest : (bytes - lengths chunks) / CLICK_SIZE = rempages := by
          rw [hclick]
          omega
        rcases hlent.undone with ⟨s', hs', hsame⟩ | ⟨hpanic, hfails⟩
        · rw [hs']
          refine .inl ⟨hsame, .inl ⟨chunks, u, hlent, hlru, by omega, ?_⟩⟩
          rw [hrest]
          exact hroom
        · exact .inr ⟨hpanic, hfails.mono (htime.trans hkept.time)⟩
      · rw [if_neg htaken.mem, decide_eq_true hle, decide_eq_true hpos]
        simp only [kassert_true, ok_bind]
        have hlent := ((h.kept hkept).taken htaken hpos).kept
          (.later htaken.sound (Nat.le_succ u.time))
        have hlater : s₀.time ≤ u.time := htime.trans (hkept.time.trans htaken.time)
        have hsum := lengths_append chunks hpos htaken.mem htaken.inside
        split
        · split
          · have hlru : u.lru.length < env.fuel := by
              rw [htaken.lru]
              exact lt_of_le_of_lt hkept.lru henv
            exact ih hlent (hlater.trans (Nat.le_succ _)) (by omega)
              (by rw [hsum, hclick]; omega) (by omega) hlru
          · have hall : res.pages rempages = rempages := by omega
            refine .inl ⟨hlent, hsum.trans ?_⟩
            rw [hall, hclick]
            exact hbytes
        · rename_i hslab
          rcases hlent.undone_last hpos htaken.mem htaken.inside with
            ⟨s', hs', hsame, hend⟩ | ⟨hpanic, hfails⟩
          · rw [hs']
            have hbefore : u.time < s'.time := Nat.lt_of_lt_of_le (Nat.lt_succ_self _) hend
            exact .inl ⟨hsame, .inr ⟨u.time, hlater, hbefore, by simpa using hslab⟩⟩
          · exact .inr ⟨hpanic, hfails.mono (hlater.trans (Nat.le_succ _))⟩
    · rw [hpanic]
      exact .inr ⟨rfl, hfails.mono htime⟩

end Lend

theorem allocMemInList_settles {env : VmEnv} {s : FreePool} {bytes : ℕ}
    (flags : BitVec 32) (h : s.Sound env) (hpos : 0 < bytes) (hpaged : CLICK_SIZE ∣ bytes)
    (hword : bytes < 4294967296) (hfuel : s.lru.length < env.fuel ∧ bytes / CLICK_SIZE ≤ env.fuel) :
    AllOrNothing env s bytes (listFlags flags) (allocMemInList env bytes flags s) ∨
      allocMemInList env bytes flags s = .error .panic ∧ env.FailsFrom s.time := by
  have hpages : 0 < bytes / CLICK_SIZE := Nat.div_pos (Nat.le_of_dvd hpos hpaged) (by decide)
  have htotal : lengths [] + bytes / CLICK_SIZE * CLICK_SIZE = bytes := by
    rw [Nat.div_mul_cancel hpaged]
    exact Nat.zero_add _
  have hsettles := allocListLoop_settles (listFlags flags) (.start h) le_rfl hpages htotal hword
    hfuel.2 hfuel.1
  have hmod : bytes % CLICK_SIZE = 0 := Nat.mod_eq_zero_of_dvd hpaged
  have hflags : (if hasFlag flags PAF_CONTIG then flags else flags ||| PAF_FIRSTBLOCK) =
    listFlags flags := rfl
  simp only [allocMemInList, hpos, hmod, hflags, decide_true, kassert_true, ok_bind]
  revert hsettles
  generalize allocListLoop env _ env.fuel (bytes / CLICK_SIZE) [] s = out
  rintro (hsettles | ⟨rfl, hfails⟩)
  · match out, hsettles with
    | .ok (none, s'), hheld => exact .inl hheld
    | .ok (some chunks, s'), hlent =>
      rw [ok_bind]
      dsimp only
      rw [checkList_ok hlent.1.whole]
      exact .inl hlent
  · exact .inr ⟨rfl, hfails⟩

def slablessEnv : VmEnv :=
  { freshEnv with slabPagerange := fun _ => false, slabMemlist := fun _ => false }

end Vm
