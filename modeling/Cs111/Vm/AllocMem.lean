import Cs111.Vm.Yielded

namespace Vm
open Kernel (Fault kassert bind_ok kassert_bind_ok pure_ok)
open Span

def PAF_CONTIG : BitVec 32 := 0x02
def PAF_ALIGN64K : BitVec 32 := 0x04

section Code
variable (env : VmEnv)

def alignMem (alignClicks mem : ℕ) (s : FreePool) : Except Fault (ℕ × FreePool) :=
  if alignClicks ≠ 0 then
    let o := mem % alignClicks
    if o > 0 then do
      let e := alignClicks - o
      let s ← s.freeMem env mem e
      pure (physBytes (mem + e), s)
    else pure (mem, s)
  else pure (mem, s)

def alignClicks (memflags : BitVec 32) : ℕ :=
  if hasFlag memflags PAF_ALIGN64K then 64 * 1024 / CLICK_SIZE else 0

def allocMem (clicks : ℕ) (memflags : BitVec 32) (s : FreePool) : Except Fault (ℕ × FreePool) := do
  let clicks := physBytes (clicks + alignClicks memflags)
  let (res, s) ← s.allocPages env clicks memflags false
  let (res, s) ←
    if res.mem = noMem then do
      let (_, s) ← s.freeYielded env (physBytes (clicks * CLICK_SIZE))
      s.allocPages env clicks memflags false
    else pure (res, s)
  if res.mem = noMem then pure (noMem, s)
  else alignMem env (alignClicks memflags) res.mem s

end Code

def Room (n : ℕ) (memflags : BitVec 32) (pages : ℕ → Prop) : Prop :=
  ∃ a, pages a ∧ (∀ m, a ≤ m → m < a + n → pages m) ∧
    (LowRequest memflags → a + n ≤ boundary memflags)

structure Exact (s s' : FreePool) (base clicks : ℕ) (gone : List Yielded) : Prop where
  lru : s.lru = gone ++ s'.lru
  left : ∀ m, covered s.addravl m ∨ covered (yieldedPages gone) m ↔
    covered s'.addravl m ∨ base ≤ m ∧ m < base + clicks
  apart : ∀ m, base ≤ m → m < base + clicks → ¬ covered s'.addravl m
  restored : ∀ slab t, freeMem slab s'.addravl ⟨base, clicks⟩ = .ok t →
    ∀ m, covered t m ↔ covered s.addravl m ∨ covered (yieldedPages gone) m

def AllocMemRight (s : FreePool) (clicks : ℕ) (memflags : BitVec 32) (base : ℕ) (s' : FreePool) :
    Prop :=
  base = noMem ∨ (hasFlag memflags PAF_ALIGN64K = true → 16 ∣ base) ∧
    ∃ gone, Exact s s' base clicks gone

def pagesAfter (s : FreePool) (n m : ℕ) : Prop := covered s.addravl m ∨
  covered (yieldedPages (FreePool.evicts (physBytes (n * CLICK_SIZE)) 0 s.lru)) m

section Rooms
variable {n : ℕ} {memflags : BitVec 32} {t : AddrAvl} {pages pages' : ℕ → Prop} {pr : PageRange}

theorem Room.mono (h : Room n memflags pages) (hsub : ∀ m, pages m → pages' m) :
    Room n memflags pages' := by
  obtain ⟨a, ha, hall, hlow⟩ := h
  exact ⟨a, hsub a ha, fun m hge hlt => hsub m (hall m hge hlt), hlow⟩

theorem not_low_above (h : ¬ LowRequest memflags) : aboveBoundary n memflags pr = false := by
  simp only [LowRequest, not_or, Bool.not_eq_true] at h
  simp [aboveBoundary, h]

theorem covered_run (h : Spread t) {a : ℕ} (ha : covered t a)
    (hall : ∀ m, a ≤ m → m < a + n → covered t m) :
    ∃ p ∈ t, p.addr ≤ a ∧ a + n ≤ p.addr + p.size := by
  obtain ⟨p, hp, hge, hlt⟩ := ha
  refine ⟨p, hp, hge, ?_⟩
  by_contra hshort
  obtain ⟨q, hq, hqge, hqlt⟩ := hall (p.addr + p.size) (by omega) (by omega)
  obtain ⟨lo, hi, rfl⟩ := List.append_of_mem hp
  obtain ⟨-, -, hbefore, hafter⟩ := spread_middle.mp h
  rcases List.mem_append.mp hq with hq | hq
  · have hlt' : q.addr + q.size < p.addr := hbefore q hq
    omega
  · rcases List.mem_cons.mp hq with rfl | hq
    · omega
    · have hlt' : p.addr + p.size < q.addr := hafter q hq
      omega

theorem room_chosen (h : Formed t) (hroom : Room n memflags (covered t)) :
    ∃ pr, chosen n memflags t = some pr ∧ aboveBoundary n memflags pr = false := by
  have hmax : maxPages = 1048576 := rfl
  obtain ⟨a, ha, hall, hlimit⟩ := hroom
  obtain ⟨p, hp, hple, hend⟩ := covered_run h.spread ha hall
  have hinside := h.inside p hp
  cases hchosen : chosen n memflags t with
  | none =>
    have := chosen_none hchosen hp
    omega
  | some pr =>
    refine ⟨pr, rfl, ?_⟩
    by_cases hlow : LowRequest memflags
    · have hsize : n ≤ p.size := by omega
      have hfirst := chosen_lowest h hlow hchosen hp (by simp [suits, hsize])
      have hle := hlimit hlow
      by_contra habove
      rw [Bool.not_eq_false, aboveBoundary_iff hlow (by omega)] at habove
      omega
    · exact not_low_above hlow

theorem chosen_room (h : Formed t) (hwhole : hasFlag memflags PAF_FIRSTBLOCK = false)
    (hchosen : chosen n memflags t = some pr) (hbelow : aboveBoundary n memflags pr = false) :
    Room n memflags (covered t) := by
  have hmax : maxPages = 1048576 := rfl
  have hpr := chosen_mem hchosen
  have hpos := h.spread.nonempty pr hpr
  have hinside := h.inside pr hpr
  have hsize : n ≤ pr.size := by simpa [suits, hwhole] using chosen_suits hchosen
  refine ⟨pr.addr, ⟨pr, hpr, le_rfl, by omega⟩, fun m hge hlt => ⟨pr, hpr, hge, by omega⟩,
    fun hlow => ?_⟩
  by_contra hnot
  have habove := (aboveBoundary_iff hlow (by omega)).mpr (not_le.mp hnot)
  rw [hbelow] at habove
  exact Bool.false_ne_true habove

end Rooms

section Search
variable {env : VmEnv} {s s' : FreePool} {clicks n base : ℕ} {memflags : BitVec 32}
  {res : AllocResult}

theorem physBytes_word (n : ℤ) : physBytes (physBytes n : ℕ) = physBytes n := by
  rw [physBytes, physBytes]
  omega

theorem alloc_block (h : s.Sound env) (hn : physBytes (n : ℤ) = n)
    (hs : s.allocPages env n memflags false = .ok (res, s')) :
    (res.mem = noMem ∧ s' = { s with time := s.time + 1 } ∧ ¬ Room n memflags (covered s.addravl)) ∨
    FreePool.Taken env s s' res.mem n ∧ Room n memflags (covered s.addravl) := by
  have hasked : hasFlag memflags PAF_FIRSTBLOCK = true → ∀ pr,
      chosen n memflags s.addravl = some pr → aboveBoundary n memflags pr = true := by
    intro hfirst pr hchosen
    by_contra hbelow
    rw [FreePool.allocPages] at hs
    obtain ⟨⟨r, t⟩, hr, -⟩ := bind_ok.mp hs
    rw [allocPages_eq h.formed, hn, hchosen] at hr
    simp only [if_neg hbelow, takeRange] at hr
    have hlen := (kassert_bind_ok.mp hr).1
    simp [hfirst] at hlen
  rcases FreePool.allocPages_takes h hs with ⟨hmem, hsame, habove⟩ | ⟨pr, hchosen, hbelow, -, htaken⟩
  · refine .inl ⟨hmem, hsame, fun hroom => ?_⟩
    obtain ⟨pr, hchosen, hbelow⟩ := room_chosen h.formed hroom
    rw [hn] at habove
    rw [habove pr hchosen] at hbelow
    exact Bool.false_ne_true hbelow.symm
  · rw [hn] at hchosen hbelow htaken
    have hwhole : hasFlag memflags PAF_FIRSTBLOCK = false := by
      by_contra hfirst
      rw [hasked (by simpa using hfirst) pr hchosen] at hbelow
      exact Bool.false_ne_true hbelow.symm
    rw [granted_exact hwhole] at htaken
    exact .inr ⟨htaken, chosen_room h.formed hwhole hchosen hbelow⟩

theorem allocMem_cases (h : s.Sound env) (hn : physBytes (clicks + alignClicks memflags) = n)
    (hs : allocMem env clicks memflags s = .ok (base, s')) :
    (base = noMem ∧ ¬ Room n memflags (pagesAfter s n)) ∨
    ∃ gone s₁ s₂ mem, FreePool.Evicted env s s₁ gone ∧ FreePool.Taken env s₁ s₂ mem n ∧
      Room n memflags (pagesAfter s n) ∧ alignMem env (alignClicks memflags) mem s₂ = .ok (base, s') := by
  have hword : physBytes (n : ℤ) = n := by rw [← hn, physBytes_word]
  rw [allocMem] at hs
  dsimp only at hs
  rw [hn] at hs
  obtain ⟨⟨res, u⟩, hres, hs⟩ := bind_ok.mp hs
  rcases alloc_block h hword hres with ⟨hmem, rfl, hnone⟩ | ⟨htaken, hroom⟩
  · dsimp only at hs
    rw [if_pos hmem] at hs
    have hlater := h.later (s.time + 1)
    rcases FreePool.freeYielded_evicts hlater (physBytes (n * CLICK_SIZE)) with
      ⟨u₁, hu₁, hevicted⟩ | ⟨hpanic, -⟩ | ⟨hhang, -⟩
    · have hafter : covered u₁.addravl = pagesAfter s n := funext fun m => propext (hevicted.free m)
      have hfrom : FreePool.Evicted env s u₁ _ :=
        ⟨hevicted.sound, hevicted.lru, hevicted.free, (Nat.le_succ _).trans hevicted.time⟩
      rw [hu₁, ok_bind] at hs
      obtain ⟨⟨res', u₂⟩, hres', hs⟩ := bind_ok.mp hs
      dsimp only at hs
      rcases alloc_block hevicted.sound hword hres' with ⟨hmem', -, hnone'⟩ | ⟨htaken, hroom⟩
      · rw [if_pos hmem'] at hs
        obtain ⟨rfl, -⟩ := Prod.mk.inj (pure_ok.mp hs)
        exact .inl ⟨rfl, hafter ▸ hnone'⟩
      · rw [if_neg htaken.mem] at hs
        exact .inr ⟨_, u₁, u₂, _, hfrom, htaken, hafter ▸ hroom, hs⟩
    · rw [hpanic] at hs
      cases hs
    · rw [hhang] at hs
      cases hs
  · dsimp only at hs
    rw [if_neg htaken.mem] at hs
    rw [pure_bind] at hs
    dsimp only at hs
    rw [if_neg htaken.mem] at hs
    exact .inr ⟨[], s, u, _, .refl h, htaken, hroom.mono fun _ => .inl, hs⟩

end Search

section Exact
variable {env : VmEnv} {s s₁ s₂ s' : FreePool} {clicks n mem base : ℕ} {memflags : BitVec 32}
  {gone : List Yielded}

theorem taken_exact (hevicted : FreePool.Evicted env s s₁ gone)
    (htaken : FreePool.Taken env s₁ s₂ mem n) : Exact s s₂ mem n gone := by
  have hleft : ∀ m, covered s.addravl m ∨ covered (yieldedPages gone) m ↔
      covered s₂.addravl m ∨ mem ≤ m ∧ m < mem + n := fun m => by
    rw [← hevicted.free, htaken.free]
  have hout : ∀ m, mem ≤ m → m < mem + n → ¬ covered s₂.addravl m :=
    fun m hge hlt hm => htaken.apart m hge hlt (.inl hm)
  refine ⟨by rw [htaken.lru]; exact hevicted.lru, hleft, hout, fun slab t ht m => ?_⟩
  have hfreed := freeMem_formed htaken.sound.formed htaken.inside
    (fun m hm => hout m hm.1 hm.2) ht
  rw [hfreed.2, hleft]
  rfl

theorem freeMem_lru (hs : s₂.freeMem env mem n = .ok s') : s'.lru = s₂.lru := by
  rw [FreePool.freeMem] at hs
  split at hs
  · obtain rfl := pure_ok.mp hs
    rfl
  · rw [FreePool.freePages] at hs
    obtain ⟨t, -, hs⟩ := bind_ok.mp hs
    obtain rfl := pure_ok.mp hs
    rfl

theorem aligned_left (htaken : FreePool.Taken env s₁ s₂ mem n)
    (hs : alignMem env 16 mem s₂ = .ok (base, s')) : s'.lru = s₂.lru ∧ base ≠ noMem ∧
      ∃ e < 16, base = mem + e ∧
        (e ≤ n → ∀ m, mem + e ≤ m → m < mem + n → ¬ covered s'.addravl m) := by
  have hmax : maxPages = 1048576 := rfl
  have hmem : mem ≠ 0 := htaken.mem
  have hinside := htaken.inside
  have hnone : noMem = 0 := rfl
  have hout : ∀ m, mem ≤ m → m < mem + n → ¬ covered s₂.addravl m :=
    fun m hge hlt hm => htaken.apart m hge hlt (.inl hm)
  simp only [alignMem, ne_eq, OfNat.ofNat_ne_zero, not_false_eq_true, if_true] at hs
  split at hs
  · rename_i ho
    obtain ⟨u, hu, hs⟩ := bind_ok.mp hs
    obtain ⟨rfl, rfl⟩ := Prod.mk.inj (pure_ok.mp hs)
    have he : 16 - mem % 16 ≠ 0 := by omega
    have hbase : physBytes (mem + (16 - mem % 16 : ℕ)) = mem + (16 - mem % 16) :=
      physBytes_nat (by push_cast; rfl) (by omega)
    rw [hbase]
    refine ⟨freeMem_lru hu, by omega, 16 - mem % 16, by omega, rfl, fun hle m hge hlt hm => ?_⟩
    rw [FreePool.freeMem, if_neg he] at hu
    rcases FreePool.freePages_frees htaken.sound (Nat.pos_of_ne_zero hmem) (Nat.pos_of_ne_zero he)
      (by omega) (fun m hge hlt => htaken.apart m hge (by omega)) with ⟨v, hv, hfreed⟩ | ⟨hpanic, -⟩
    · obtain rfl := Except.ok.inj (hu.symm.trans hv)
      rcases (hfreed.free m).mp hm with hm | hm
      · exact hout m (by omega) hlt hm
      · omega
    · rw [hu] at hpanic
      cases hpanic
  · obtain ⟨rfl, rfl⟩ := Prod.mk.inj (pure_ok.mp hs)
    exact ⟨rfl, htaken.mem, 0, by omega, rfl, fun _ => hout⟩

theorem aligned_not_exact (h : s.Sound env) (hclicks : clicks < 4294967296)
    (hn : physBytes (clicks + 16) = n) (hevicted : FreePool.Evicted env s s₁ gone)
    (htaken : FreePool.Taken env s₁ s₂ mem n) (hs : alignMem env 16 mem s₂ = .ok (base, s')) :
    ¬ AllocMemRight s clicks memflags base s' := by
  have hmax : maxPages = 1048576 := rfl
  have hinside := htaken.inside
  obtain ⟨hlru, hbase, e, he, rfl, hout⟩ := aligned_left htaken hs
  rintro (hnone | ⟨-, gone', hexact⟩)
  · exact hbase hnone
  · have hgone : gone' = gone := by
      have hsame := hexact.lru.symm.trans hevicted.lru
      rw [hlru, htaken.lru] at hsame
      exact List.append_cancel_right hsame
    subst hgone
    by_cases hwrap : clicks + 16 < 4294967296
    · rw [show physBytes (clicks + 16) = clicks + 16 from physBytes_nat (by push_cast; rfl) hwrap] at hn
      subst hn
      have hleft : covered s₁.addravl (mem + e + clicks) :=
        (htaken.free _).mpr (.inr ⟨by omega, by omega⟩)
      rw [hevicted.free, hexact.left] at hleft
      rcases hleft with hfree | ⟨-, hlt⟩
      · exact hout (by omega) _ (by omega) (by omega) hfree
      · omega
    · have hfar := (hexact.left (mem + e + maxPages)).mpr (.inr ⟨by omega, by omega⟩)
      rw [← hevicted.free] at hfar
      have := h.inside ((hevicted.holds _).mp (.inl hfar))
      omega

theorem VmEnv.FailsFrom.mono {a b : ℕ} (hle : a ≤ b) (h : env.FailsFrom b) : env.FailsFrom a := by
  obtain ⟨time, hlater, hfails⟩ := h
  exact ⟨time, hle.trans hlater, hfails⟩

theorem alignMem_returns (htaken : FreePool.Taken env s₁ s₂ mem n) (halign : alignClicks memflags ≤ n) :
    (∃ base s', alignMem env (alignClicks memflags) mem s₂ = .ok (base, s')) ∨
      alignMem env (alignClicks memflags) mem s₂ = .error .panic ∧ env.FailsFrom s₂.time := by
  rw [alignMem]
  split
  · rename_i hsome
    dsimp only
    split
    · have he : alignClicks memflags - mem % alignClicks memflags ≠ 0 := by
        have := Nat.mod_lt mem (Nat.pos_of_ne_zero hsome)
        omega
      have hinside := htaken.inside
      rw [FreePool.freeMem, if_neg he]
      rcases FreePool.freePages_frees htaken.sound (Nat.pos_of_ne_zero htaken.mem)
        (Nat.pos_of_ne_zero he) (by omega) (fun m hge hlt => htaken.apart m hge (by omega)) with
        ⟨v, hv, -⟩ | ⟨hpanic, hslab⟩
      · rw [hv]
        exact .inl ⟨_, _, rfl⟩
      · rw [hpanic]
        exact .inr ⟨rfl, _, le_rfl, .inl hslab⟩
    · exact .inl ⟨_, _, rfl⟩
  · exact .inl ⟨_, _, rfl⟩

theorem allocMem_returns (h : s.Sound env) (hfuel : s.lru.length < env.fuel)
    (hwhole : hasFlag memflags PAF_FIRSTBLOCK = false)
    (hclicks : clicks + alignClicks memflags < 4294967296) :
    (∃ base s', allocMem env clicks memflags s = .ok (base, s')) ∨
      allocMem env clicks memflags s = .error .panic ∧ env.FailsFrom s.time := by
  have hn : physBytes (clicks + alignClicks memflags) = clicks + alignClicks memflags :=
    physBytes_nat (by push_cast; rfl) hclicks
  have hword : physBytes ((clicks + alignClicks memflags : ℕ) : ℤ) = clicks + alignClicks memflags :=
    physBytes_nat rfl hclicks
  have hlen : hasFlag memflags PAF_FIRSTBLOCK = true → false = true := by simp [hwhole]
  have halign : alignClicks memflags ≤ clicks + alignClicks memflags := Nat.le_add_left _ _
  rw [allocMem]
  dsimp only
  rw [hn]
  rcases FreePool.allocPages_returns h (clicks + alignClicks memflags : ℕ) _ _ hlen with
    ⟨res, u, hu⟩ | ⟨hpanic, hfailed⟩
  · rw [hu, ok_bind]
    rcases alloc_block h hword hu with ⟨hmem, rfl, -⟩ | ⟨htaken, -⟩
    · dsimp only
      rw [if_pos hmem]
      rcases FreePool.freeYielded_evicts (h.later (s.time + 1))
        (physBytes ((clicks + alignClicks memflags : ℕ) * CLICK_SIZE)) with
        ⟨u₁, hu₁, hevicted⟩ | ⟨hpanic, time, htime, hslab⟩ | ⟨-, hlong⟩
      · have hlater : s.time ≤ u₁.time := (Nat.le_succ _).trans hevicted.time
        rw [hu₁, ok_bind]
        rcases FreePool.allocPages_returns hevicted.sound (clicks + alignClicks memflags : ℕ) _ _ hlen
          with ⟨res', u₂, hu₂⟩ | ⟨hpanic, hfailed⟩
        · rw [hu₂, ok_bind]
          dsimp only
          rcases alloc_block hevicted.sound hword hu₂ with ⟨hmem', -, -⟩ | ⟨htaken, -⟩
          · rw [if_pos hmem']
            exact .inl ⟨_, _, rfl⟩
          · rw [if_neg htaken.mem]
            exact (alignMem_returns htaken halign).imp_right fun hp =>
              ⟨hp.1, hp.2.mono (hlater.trans htaken.time)⟩
        · rw [hpanic]
          exact .inr ⟨rfl, _, hlater, .inr hfailed⟩
      · rw [hpanic]
        exact .inr ⟨rfl, time, (Nat.le_succ _).trans htime, .inl hslab⟩
      · exact absurd hlong (not_le.mpr hfuel)
    · dsimp only
      rw [if_neg htaken.mem]
      rw [pure_bind]
      dsimp only
      rw [if_neg htaken.mem]
      exact (alignMem_returns htaken halign).imp_right fun hp => ⟨hp.1, hp.2.mono htaken.time⟩
  · rw [hpanic]
    exact .inr ⟨rfl, _, le_rfl, .inr hfailed⟩

end Exact

def freshEnv : VmEnv := ⟨id, 0, fun _ => true, fun _ => true, fun _ => true, 8⟩

def freshPool (t : AddrAvl) : FreePool := ⟨t, [], fun _ => ⟨0, false, []⟩, 0⟩

theorem fresh_sound {env : VmEnv} {t : AddrAvl} (h : Formed t) (hzero : ¬ covered t 0) :
    (freshPool t).Sound env :=
  ⟨h, by simp [freshPool], by simp [freshPool, yieldedPages], by simp [freshPool],
    by simp [freshPool], by simp [freshPool], by simpa [FreePool.Holds, freshPool, yieldedPages, noMem]⟩

def yieldingEnv : VmEnv := { freshEnv with nrProcs := 2 }

def yieldedBlock : Yielded := ⟨7, 417792, 8192, 1⟩

def yieldingPool : FreePool :=
  ⟨[⟨100, 2⟩], [yieldedBlock], fun p => ⟨p, true, [yieldedBlock]⟩, 0⟩

theorem yielding_sound : yieldingPool.Sound yieldingEnv := by
  have hcovers : ∀ m, yieldedBlock.block.Covers m ↔ 102 ≤ m ∧ m < 104 := fun m => Iff.rfl
  refine ⟨⟨⟨by simp [yieldingPool], by simp [yieldingPool]⟩, by simp [yieldingPool, maxPages]⟩,
    ?_, ?_, by simp [yieldingPool], ?_, by simp [yieldingPool], ?_⟩
  · intro y hy
    obtain rfl := List.mem_singleton.mp hy
    exact ⟨by decide, by decide, by decide, by decide⟩
  · rintro m ⟨b, hb, hm⟩ hfree
    obtain rfl := List.mem_singleton.mp hb
    have hyielded := (hcovers m).mp hm
    have hrange : 100 ≤ m ∧ m < 102 := by simpa [yieldingPool, Covers] using hfree
    omega
  · intro y hy
    obtain rfl := List.mem_singleton.mp hy
    exact ⟨1, by decide, List.mem_singleton_self _⟩
  · decide

theorem allocMem_returns_evicts :
    (∃ base s', allocMem yieldingEnv 3 PAF_CLEAR yieldingPool = .ok (base, s')) ∨
      allocMem yieldingEnv 3 PAF_CLEAR yieldingPool = .error .panic ∧ yieldingEnv.FailsFrom 0 :=
  allocMem_returns yielding_sound (by decide) (by decide) (by decide)

end Vm
