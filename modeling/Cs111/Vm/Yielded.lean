import Cs111.Vm.LowMemory
import Cs111.Vm.PhysBlock

namespace Vm
open Kernel (Fault kassert bind_ok kassert_bind_ok pure_ok)
open Span

def CLICK_SIZE : ℕ := 4096

def abs2click (a : ℕ) : ℕ := a / CLICK_SIZE

def click2abs (v : ℕ) : ℕ := physBytes (v * CLICK_SIZE)

structure Yielded where
  id : BitVec 64
  addr : ℕ
  len : ℕ
  owner : ℤ
  deriving DecidableEq

structure Vmproc where
  vmEndpoint : ℤ
  inuse : Bool
  yieldedBlocks : List Yielded

-- The macro _ENDPOINT_P, and how the calls of SLABALLOC and sys_memset go, by the time they are made.
structure VmEnv where
  endpointP : ℤ → ℤ
  nrProcs : ℤ
  slabPagerange : ℕ → Bool
  slabMemlist : ℕ → Bool
  sysMemset : ℕ → Bool
  -- the rounds that a loop may take
  fuel : ℕ

def VmEnv.FailsFrom (env : VmEnv) (start : ℕ) : Prop :=
  ∃ time, start ≤ time ∧ (env.slabPagerange time = false ∨ env.sysMemset time = false)

-- The free memory and the yielded blocks, from lru_oldest to lru_youngest.
structure FreePool where
  addravl : AddrAvl
  lru : List Yielded
  vmproc : ℤ → Vmproc
  time : ℕ

section Code
variable (env : VmEnv)

def vmIsokendpt (vmproc : ℤ → Vmproc) (endpoint : ℤ) : Option ℤ :=
  let proc := env.endpointP endpoint
  if proc < 0 ∨ proc ≥ env.nrProcs then none
  else if endpoint ≠ (vmproc proc).vmEndpoint then none
  else if (vmproc proc).inuse then some proc
  else none

namespace FreePool

def allocPages (pages : ℤ) (memflags : BitVec 32) (len : Bool) (s : FreePool) :
    Except Fault (AllocResult × FreePool) := do
  let (res, t) ← Vm.allocPages pages memflags len (env.sysMemset s.time) s.addravl
  pure (res, { s with addravl := t, time := s.time + 1 })

def freePages (pageno npages : ℤ) (s : FreePool) : Except Fault FreePool := do
  let t ← Vm.freePages (env.slabPagerange s.time) pageno npages s.addravl
  pure { s with addravl := t, time := s.time + 1 }

def freeMem (base clicks : ℕ) (s : FreePool) : Except Fault FreePool :=
  if clicks = 0 then pure s else freePages env base clicks s

def dropYielded (p : ℤ) (id : BitVec 64) (vmproc : ℤ → Vmproc) : ℤ → Vmproc :=
  Function.update vmproc p
    { vmproc p with yieldedBlocks := (vmproc p).yieldedBlocks.eraseP fun y => y.id == id }

def freeyieldednode (node : Yielded) (freemem : Bool) (s : FreePool) :
    Except Fault (ℕ × FreePool) :=
  match vmIsokendpt env s.vmproc node.owner with
  | none => .error .panic
  | some p => do
    let removed := (s.vmproc p).yieldedBlocks.find? fun y => y.id == node.id
    kassert (removed == some node)
    let s := { s with lru := s.lru.erase node, vmproc := dropYielded p node.id s.vmproc }
    let s ← if freemem then freeMem env (abs2click node.addr) (abs2click node.len) s else pure s
    pure (node.len, s)

def freeYieldedLoop (maxBytes : ℕ) : ℕ → ℕ → FreePool → Except Fault (ℕ × FreePool)
  | 0, _, _ => .error .hang
  | fuel + 1, freed, s =>
    match s.lru with
    | [] => pure (freed, s)
    | oldest :: _ =>
      if freed < maxBytes then do
        let (len, s) ← freeyieldednode env oldest true s
        freeYieldedLoop maxBytes fuel (physBytes (freed + len)) s
      else pure (freed, s)

def freeYielded (maxBytes : ℕ) (s : FreePool) : Except Fault (ℕ × FreePool) :=
  freeYieldedLoop env maxBytes env.fuel 0 s

end FreePool

end Code

def Yielded.block (y : Yielded) : PageRange := ⟨abs2click y.addr, abs2click y.len⟩

structure Yielded.Paged (y : Yielded) : Prop where
  addr : CLICK_SIZE ∣ y.addr
  len : CLICK_SIZE ∣ y.len
  nonempty : 0 < y.len
  inside : y.block.addr + y.block.size ≤ maxPages

def yieldedPages (ys : List Yielded) : List PageRange := ys.map Yielded.block

namespace FreePool

def Holds (s : FreePool) (m : ℕ) : Prop := covered s.addravl m ∨ covered (yieldedPages s.lru) m

instance (s : FreePool) (m : ℕ) : Decidable (s.Holds m) := inferInstanceAs (Decidable (_ ∨ _))

structure Sound (env : VmEnv) (s : FreePool) : Prop where
  formed : Formed s.addravl
  paged : ∀ y ∈ s.lru, y.Paged
  apart : ∀ m, covered (yieldedPages s.lru) m → ¬ covered s.addravl m
  disjoint : s.lru.Pairwise fun x y => ∀ m, ¬ (x.block.Covers m ∧ y.block.Covers m)
  owned : ∀ y ∈ s.lru, ∃ p, vmIsokendpt env s.vmproc y.owner = some p ∧
    y ∈ (s.vmproc p).yieldedBlocks
  keys : ∀ p, (s.vmproc p).yieldedBlocks.Pairwise fun x y => x.id ≠ y.id
  -- the number of page 0 is NO_MEM
  zero : ¬ s.Holds noMem

def evicts (maxBytes : ℕ) : ℕ → List Yielded → List Yielded
  | _, [] => []
  | freed, y :: ys => if freed < maxBytes then y :: evicts maxBytes (freed + y.len) ys else []

def bytes (ys : List Yielded) : ℕ := (ys.map Yielded.len).sum

structure Evicted (env : VmEnv) (s s' : FreePool) (gone : List Yielded) : Prop where
  sound : s'.Sound env
  lru : s.lru = gone ++ s'.lru
  free : ∀ m, covered s'.addravl m ↔ covered s.addravl m ∨ covered (yieldedPages gone) m
  time : s.time ≤ s'.time

end FreePool

section FreeTotal
variable {t lo hi : AddrAvl} {a n : ℕ} {slab : Bool} {pr : PageRange}

theorem addRange_total (slab : Bool) (a : ℕ) (t : AddrAvl) (hn : 0 < n) :
    (∃ pr t', addRange slab a n t = .ok (pr, t')) ∨ addRange slab a n t = .error .panic ∧ slab = false := by
  rw [addRange]
  split
  · exact .inl ⟨_, _, rfl⟩
  · cases slab with
    | false => exact .inr ⟨rfl, rfl⟩
    | true =>
      have hpos : (n : ℤ) > 0 := by omega
      rw [if_pos rfl, decide_eq_true hpos, kassert_true, ok_bind]
      exact .inl ⟨_, _, rfl⟩

theorem mergeLower_total (hlo : ∀ p ∈ lo, p.addr ≠ pr.addr) :
    ∃ t', mergeLower pr (lo ++ pr :: hi) = .ok t' := by
  rw [mergeLower, search_middle hlo rfl]
  simp only [BEq.rfl, kassert_true, ok_bind]
  split
  · exact ⟨_, rfl⟩
  · split <;> exact ⟨_, rfl⟩

theorem freePages_total (slab : Bool) (h : Formed t) (hn : 0 < n) (hmax : a + n ≤ maxPages)
    (hfree : ∀ m, a ≤ m → m < a + n → ¬ covered t m) :
    (∃ t', freePages slab a n t = .ok t') ∨ freePages slab a n t = .error .panic ∧ slab = false := by
  have hpages : maxPages = 1048576 := rfl
  have hphys : physBytes (a : ℤ) = a := physBytes_nat rfl (by omega)
  have hnone : addrSearch t a = none := by
    refine search_none fun p hp hkey => ?_
    have hpos := h.spread.nonempty p hp
    exact hfree a le_rfl (by omega) ⟨p, hp, by rw [hkey], by omega⟩
  rw [freePages, hphys, hnone]
  simp only [Option.isNone_none, kassert_true, ok_bind]
  rcases addRange_total slab a t hn with ⟨pr, u, hadd⟩ | ⟨hadd, hslab⟩
  · obtain ⟨lo, hi, rfl, hlo, hhi⟩ := h.spread.gap hn hfree
    obtain ⟨hi', rfl, rfl, -, -⟩ := addRange_joined h hlo hhi hn hmax hadd
    have hother : ∀ p ∈ lo, p.addr ≠ pr.addr := fun p hp => by
      have hpos := h.spread.nonempty p (List.mem_append_left hi hp)
      have := hlo p hp
      omega
    rw [hadd]
    exact .inl (mergeLower_total hother)
  · rw [hadd]
    exact .inr ⟨rfl, hslab⟩

end FreeTotal

section Yielded
variable {y : Yielded} {ys : List Yielded}

theorem Yielded.Paged.bytes (h : y.Paged) : y.len = CLICK_SIZE * y.block.size :=
  (Nat.mul_div_cancel' h.len).symm

theorem Yielded.Paged.pos (h : y.Paged) : 0 < y.block.size := by
  have hbytes := h.bytes
  have hpos := h.nonempty
  exact Nat.pos_of_ne_zero fun hzero => by simp [hzero] at hbytes; omega

theorem bytes_eq (h : ∀ y ∈ ys, y.Paged) :
    FreePool.bytes ys = CLICK_SIZE * ((yieldedPages ys).map Span.size).sum := by
  induction ys with
  | nil => rfl
  | cons y ys ih =>
    have hrest := ih fun z hz => h z (List.mem_cons_of_mem y hz)
    have hy := (h y List.mem_cons_self).bytes
    simp only [FreePool.bytes, yieldedPages, List.map_cons, List.sum_cons, mul_add] at hrest ⊢
    rw [hrest, hy]

end Yielded

namespace FreePool

section Evict
variable {env : VmEnv} {s s' s'' : FreePool} {y : Yielded} {ys gone gone' : List Yielded} {maxBytes : ℕ}

theorem Evicted.refl (h : s.Sound env) : Evicted env s s [] :=
  ⟨h, rfl, by simp [yieldedPages], le_rfl⟩

theorem Evicted.trans (h : Evicted env s s' gone) (h' : Evicted env s' s'' gone') :
    Evicted env s s'' (gone ++ gone') := by
  refine ⟨h'.sound, by rw [h.lru, h'.lru, List.append_assoc], fun m => ?_, h.time.trans h'.time⟩
  rw [h'.free, h.free, yieldedPages, yieldedPages, yieldedPages, List.map_append, covered_append,
    or_assoc]

theorem Evicted.holds (h : Evicted env s s' gone) (m : ℕ) : s'.Holds m ↔ s.Holds m := by
  rw [Holds, Holds, h.free, h.lru, yieldedPages, yieldedPages, yieldedPages, List.map_append,
    covered_append, or_assoc]

theorem Sound.bytes_fit (h : s.Sound env) : bytes s.lru < 4294967296 := by
  have hmax : maxPages = 1048576 := rfl
  have hclick : CLICK_SIZE = 4096 := rfl
  have hsizes : ((yieldedPages s.lru).map Span.size).sum < maxPages := by
    refine sizes_lt (List.pairwise_map.mpr h.disjoint) (fun p hp => ?_)
      (fun hzero => h.zero (.inr hzero)) (by omega)
    obtain ⟨y, hy, rfl⟩ := List.mem_map.mp hp
    exact (h.paged y hy).inside
  rw [bytes_eq h.paged, hclick]
  omega

theorem drop_other {p q : ℤ} {id : BitVec 64} {vmproc : ℤ → Vmproc}
    (hy : y ∈ (vmproc p).yieldedBlocks) (hid : p = q → y.id ≠ id) :
    y ∈ (dropYielded q id vmproc p).yieldedBlocks := by
  rw [dropYielded]
  by_cases hp : p = q
  · subst hp
    rw [Function.update_self]
    exact (List.mem_eraseP_of_neg (by simpa using hid rfl)).mpr hy
  · rwa [Function.update_of_ne hp]

theorem drop_sublist (p q : ℤ) (id : BitVec 64) (vmproc : ℤ → Vmproc) :
    (dropYielded q id vmproc p).yieldedBlocks.Sublist (vmproc p).yieldedBlocks := by
  rw [dropYielded]
  by_cases hp : p = q
  · subst hp
    rw [Function.update_self]
    exact List.eraseP_sublist ..
  · rw [Function.update_of_ne hp]

theorem drop_endpoints (p q : ℤ) (id : BitVec 64) (vmproc : ℤ → Vmproc) :
    (dropYielded q id vmproc p).vmEndpoint = (vmproc p).vmEndpoint ∧
      (dropYielded q id vmproc p).inuse = (vmproc p).inuse := by
  rw [dropYielded]
  by_cases hp : p = q
  · subst hp
    simp
  · rw [Function.update_of_ne hp]
    exact ⟨rfl, rfl⟩

theorem drop_isokendpt (q : ℤ) (id : BitVec 64) (vmproc : ℤ → Vmproc) (endpoint : ℤ) :
    vmIsokendpt env (dropYielded q id vmproc) endpoint = vmIsokendpt env vmproc endpoint := by
  simp only [vmIsokendpt, drop_endpoints]

structure Freed (env : VmEnv) (s s' : FreePool) (a n : ℕ) : Prop where
  sound : s'.Sound env
  lru : s'.lru = s.lru
  free : ∀ m, covered s'.addravl m ↔ covered s.addravl m ∨ a ≤ m ∧ m < a + n
  time : s.time ≤ s'.time

theorem freePages_frees {a n : ℕ} (h : s.Sound env) (ha : 0 < a) (hn : 0 < n)
    (hmax : a + n ≤ maxPages) (hout : ∀ m, a ≤ m → m < a + n → ¬ s.Holds m) :
    (∃ s', freePages env a n s = .ok s' ∧ Freed env s s' a n) ∨
      freePages env a n s = .error .panic ∧ env.slabPagerange s.time = false := by
  have hfree : ∀ m, a ≤ m → m < a + n → ¬ covered s.addravl m :=
    fun m hge hlt hm => hout m hge hlt (.inl hm)
  rw [freePages]
  rcases freePages_total (env.slabPagerange s.time) h.formed hn hmax hfree with
    ⟨t, ht⟩ | ⟨hpanic, hslab⟩
  · obtain ⟨hformed, hcovered⟩ := freePages_formed h.formed rfl rfl (fun _ => hmax) hfree ht
    rw [ht]
    refine .inl ⟨_, rfl, ⟨hformed, h.paged, fun m hm => ?_, h.disjoint, h.owned, h.keys, ?_⟩,
      rfl, hcovered, Nat.le_succ _⟩
    · rw [hcovered]
      rintro (hc | ⟨hge, hlt⟩)
      · exact h.apart m hm hc
      · exact hout m hge hlt (.inr hm)
    · rw [Holds, hcovered]
      have hzero := h.zero
      simp only [Holds, noMem, not_or, not_and] at hzero ⊢
      exact ⟨⟨hzero.1, by omega⟩, hzero.2⟩
  · rw [hpanic]
    exact .inr ⟨rfl, hslab⟩

theorem find_key {l : List Yielded} (hkeys : l.Pairwise fun x z => x.id ≠ z.id) (hmem : y ∈ l) :
    l.find? (fun z => z.id == y.id) = some y := by
  obtain ⟨lo, hi, rfl⟩ := List.append_of_mem hmem
  have hbefore : ∀ z ∈ lo, z.id ≠ y.id :=
    fun z hz => (List.pairwise_append.mp hkeys).2.2 z hz y List.mem_cons_self
  have hnone : lo.find? (fun z => z.id == y.id) = none :=
    List.find?_eq_none.mpr fun z hz => by simpa using hbefore z hz
  simp [List.find?_append, hnone]

theorem Sound.unlink {p : ℤ} (h : s.Sound env) (hlru : s.lru = y :: ys)
    (hp : vmIsokendpt env s.vmproc y.owner = some p) (hmem : y ∈ (s.vmproc p).yieldedBlocks) :
    Sound env { s with lru := ys, vmproc := dropYielded p y.id s.vmproc } := by
  obtain ⟨hfirst, hrest⟩ := List.pairwise_cons.mp (hlru ▸ h.disjoint)
  refine ⟨h.formed, fun z hz => h.paged z (by simp [hlru, hz]), fun m hm => ?_, hrest,
    fun z hz => ?_, fun q => ?_, fun hzero => ?_⟩
  · refine h.apart m ?_
    rw [hlru, yieldedPages, List.map_cons, covered_cons]
    exact .inr hm
  · obtain ⟨q, hq, hzmem⟩ := h.owned z (by simp [hlru, hz])
    refine ⟨q, by rw [drop_isokendpt, hq], drop_other hzmem ?_⟩
    rintro rfl hid
    have hzy : z = y := by
      have hz' := find_key (h.keys q) hzmem
      rw [hid, find_key (h.keys q) hmem] at hz'
      exact (Option.some.inj hz').symm
    subst hzy
    have hpos := (h.paged z (by simp [hlru])).pos
    exact hfirst z hz z.block.addr ⟨⟨le_rfl, by omega⟩, le_rfl, by omega⟩
  · exact (h.keys q).sublist (drop_sublist q p y.id s.vmproc)
  · refine h.zero ?_
    rw [Holds, hlru, yieldedPages, List.map_cons, covered_cons]
    exact hzero.imp_right .inr

theorem freeyieldednode_evicts (h : s.Sound env) (hlru : s.lru = y :: ys) :
    (∃ s', freeyieldednode env y true s = .ok (y.len, s') ∧ Evicted env s s' [y]) ∨
      freeyieldednode env y true s = .error .panic ∧ env.slabPagerange s.time = false := by
  obtain ⟨p, hp, hmem⟩ := h.owned y (by simp [hlru])
  have hpaged := h.paged y (by simp [hlru])
  have hcovers : ∀ m, y.block.Covers m → covered (yieldedPages s.lru) m :=
    fun m hm => ⟨y.block, by simp [hlru, yieldedPages], hm⟩
  have haddr : 0 < y.block.addr := by
    refine Nat.pos_of_ne_zero fun hzero => h.zero (.inr (hcovers noMem ⟨?_, ?_⟩))
    · rw [hzero]
      exact Nat.zero_le _
    · have hpos := hpaged.pos
      change 0 < y.block.addr + y.block.size
      omega
  have hfirst := h.disjoint
  rw [hlru, List.pairwise_cons] at hfirst
  have hout : ∀ m, y.block.addr ≤ m → m < y.block.addr + y.block.size →
      ¬ Holds { s with lru := ys, vmproc := dropYielded p y.id s.vmproc } m := by
    rintro m hge hlt (hfree | ⟨b, hb, hm⟩)
    · exact h.apart m (hcovers m ⟨hge, hlt⟩) hfree
    · obtain ⟨z, hz, rfl⟩ := List.mem_map.mp hb
      exact hfirst.1 z hz m ⟨⟨hge, hlt⟩, hm⟩
  have hstep := freePages_frees (h.unlink hlru hp hmem) haddr hpaged.pos hpaged.inside hout
  have herase : s.lru.erase y = ys := by rw [hlru, List.erase_cons_head]
  have hsize : y.block.size ≠ 0 := hpaged.pos.ne'
  have haddr' : abs2click y.addr = y.block.addr := rfl
  have hlen' : abs2click y.len = y.block.size := rfl
  simp only [freeyieldednode, hp, find_key (h.keys p) hmem, BEq.rfl, kassert_true, ok_bind, herase,
    if_true, freeMem, haddr', hlen', hsize, if_false]
  rcases hstep with ⟨s', hs', hfreed⟩ | ⟨hpanic, hslab⟩
  · rw [hs']
    refine .inl ⟨s', rfl, hfreed.sound, by rw [hlru, hfreed.lru]; rfl, fun m => ?_, hfreed.time⟩
    rw [hfreed.free]
    simp [yieldedPages, Covers]
  · rw [hpanic]
    exact .inr ⟨rfl, hslab⟩

@[simp] theorem bytes_cons : bytes (y :: ys) = y.len + bytes ys := by simp [bytes]

theorem freeYieldedLoop_evicts (maxBytes fuel freed : ℕ) (h : s.Sound env)
    (hword : freed + bytes s.lru < 4294967296) :
    (∃ s', freeYieldedLoop env maxBytes fuel freed s =
        .ok (freed + bytes (evicts maxBytes freed s.lru), s') ∧
        Evicted env s s' (evicts maxBytes freed s.lru)) ∨
      (freeYieldedLoop env maxBytes fuel freed s = .error .panic ∧
        ∃ time, s.time ≤ time ∧ env.slabPagerange time = false) ∨
      freeYieldedLoop env maxBytes fuel freed s = .error .hang ∧ fuel ≤ s.lru.length := by
  induction fuel generalizing freed s with
  | zero => exact .inr (.inr ⟨rfl, Nat.zero_le _⟩)
  | succ fuel ih =>
    rw [freeYieldedLoop]
    cases hlru : s.lru with
    | nil => exact .inl ⟨s, rfl, .refl h⟩
    | cons y ys =>
      dsimp only
      by_cases hmore : freed < maxBytes
      · rw [if_pos hmore]
        rcases freeyieldednode_evicts h hlru with ⟨u, hu, hevicted⟩ | ⟨hpanic, hslab⟩
        · rw [hlru, bytes_cons] at hword
          have hrest : u.lru = ys := by
            have hsame := hlru.symm.trans hevicted.lru
            simpa using hsame.symm
          have hfreed : physBytes (freed + y.len) = freed + y.len := physBytes_nat rfl (by omega)
          have hnext := ih (freed + y.len) hevicted.sound (by rw [hrest]; omega)
          rw [hrest] at hnext
          rw [hu, ok_bind]
          dsimp only
          rw [hfreed]
          simp only [evicts, if_pos hmore, bytes_cons]
          rcases hnext with ⟨s', hs', hlater⟩ | ⟨hpanic, time, htime, hslab⟩ | ⟨hhang, hlong⟩
          · refine .inl ⟨s', by rw [hs', add_assoc], ?_⟩
            exact hevicted.trans hlater
          · exact .inr (.inl ⟨hpanic, time, hevicted.time.trans htime, hslab⟩)
          · refine .inr (.inr ⟨hhang, ?_⟩)
            rw [List.length_cons]
            omega
        · rw [hpanic]
          exact .inr (.inl ⟨rfl, _, le_rfl, hslab⟩)
      · rw [if_neg hmore]
        simp only [evicts, if_neg hmore]
        exact .inl ⟨s, rfl, .refl h⟩

theorem freeYielded_evicts (h : s.Sound env) (maxBytes : ℕ) :
    (∃ s', freeYielded env maxBytes s = .ok (bytes (evicts maxBytes 0 s.lru), s') ∧
        Evicted env s s' (evicts maxBytes 0 s.lru)) ∨
      (freeYielded env maxBytes s = .error .panic ∧
        ∃ time, s.time ≤ time ∧ env.slabPagerange time = false) ∨
      freeYielded env maxBytes s = .error .hang ∧ env.fuel ≤ s.lru.length := by
  have hloop := freeYieldedLoop_evicts maxBytes env.fuel 0 h
    (by simpa using h.bytes_fit)
  rwa [zero_add] at hloop

theorem evicts_enough (maxBytes freed : ℕ) (ys : List Yielded) :
    maxBytes ≤ freed + bytes (evicts maxBytes freed ys) ∨ evicts maxBytes freed ys = ys := by
  induction ys generalizing freed with
  | nil => exact .inr rfl
  | cons y ys ih =>
    rw [evicts]
    split
    · rw [bytes_cons, ← Nat.add_assoc]
      exact (ih (freed + y.len)).imp_right (congrArg (y :: ·))
    · exact .inl (by omega)

theorem evicts_needed (maxBytes freed : ℕ) {ys lo : List Yielded} {y : Yielded}
    (h : evicts maxBytes freed ys = lo ++ [y]) : freed + bytes lo < maxBytes := by
  induction ys generalizing freed lo with
  | nil => simp [evicts] at h
  | cons z ys ih =>
    rw [evicts] at h
    split at h
    · rename_i hmore
      cases lo with
      | nil => simpa [bytes] using hmore
      | cons x lo =>
        rw [List.cons_append, List.cons.injEq] at h
        obtain ⟨rfl, hrest⟩ := h
        have hnext := ih (freed + z.len) hrest
        rw [bytes_cons]
        omega
    · simp at h

end Evict

section Take
variable {env : VmEnv} {s s' : FreePool} {a n : ℕ} {memflags : BitVec 32} {len : Bool}
  {pages : ℤ} {res : AllocResult}

structure Taken (env : VmEnv) (s s' : FreePool) (a n : ℕ) : Prop where
  sound : s'.Sound env
  lru : s'.lru = s.lru
  free : ∀ m, covered s.addravl m ↔ covered s'.addravl m ∨ a ≤ m ∧ m < a + n
  apart : ∀ m, a ≤ m → m < a + n → ¬ s'.Holds m
  inside : a + n ≤ maxPages
  mem : a ≠ noMem
  time : s.time ≤ s'.time

theorem Taken.holds (h : Taken env s s' a n) (m : ℕ) :
    s.Holds m ↔ s'.Holds m ∨ a ≤ m ∧ m < a + n := by
  rw [Holds, Holds, h.free, h.lru]
  exact or_right_comm

theorem Sound.later (h : s.Sound env) (time : ℕ) : Sound env { s with time := time } :=
  ⟨h.formed, h.paged, h.apart, h.disjoint, h.owned, h.keys, h.zero⟩

theorem Sound.inside (h : s.Sound env) {m : ℕ} (hm : s.Holds m) : m < maxPages := by
  rcases hm with ⟨p, hp, -, hlt⟩ | ⟨b, hb, -, hlt⟩
  · have := h.formed.inside p hp
    omega
  · obtain ⟨y, hy, rfl⟩ := List.mem_map.mp hb
    have := (h.paged y hy).inside
    omega

theorem Sound.taken (h : s.Sound env) {t : AddrAvl} (ht : Handed s.addravl t a n)
    (hmax : a + n ≤ maxPages) {time : ℕ} (htime : s.time ≤ time) :
    Taken env s { s with addravl := t, time := time } a n := by
  have hsub : ∀ m, covered t m → covered s.addravl m := fun m hm => (ht.covered m).mpr (.inl hm)
  have hzero : ¬ covered s.addravl noMem := fun hm => h.zero (.inl hm)
  refine ⟨⟨ht.formed, h.paged, fun m hm hc => h.apart m hm (hsub m hc), h.disjoint, h.owned, h.keys,
    fun hm => h.zero (hm.imp_left (hsub _))⟩, rfl, ht.covered, fun m hge hlt => ?_, hmax, ?_,
    htime⟩
  · rintro (hm | hm)
    · exact ht.apart m hge hlt hm
    · exact h.apart m hm ((ht.covered m).mpr (.inr ⟨hge, hlt⟩))
  · rintro rfl
    have hpos := ht.nonzero
    exact hzero ((ht.covered noMem).mpr (.inr ⟨le_rfl, hpos⟩))

theorem allocPages_takes (h : s.Sound env) (hs : allocPages env pages memflags len s = .ok (res, s')) :
    (res.mem = noMem ∧ s' = { s with time := s.time + 1 } ∧
      ∀ pr, chosen (physBytes pages) memflags s.addravl = some pr →
        aboveBoundary (physBytes pages) memflags pr = true) ∨
    ∃ pr, chosen (physBytes pages) memflags s.addravl = some pr ∧
      aboveBoundary (physBytes pages) memflags pr = false ∧
      res.pages pages = granted (physBytes pages) memflags pr ∧
      Taken env s s' res.mem (granted (physBytes pages) memflags pr) := by
  rw [allocPages] at hs
  obtain ⟨⟨r, t⟩, hr, hs⟩ := bind_ok.mp hs
  obtain ⟨rfl, rfl⟩ := Prod.mk.inj (pure_ok.mp hs)
  rcases allocPages_result h.formed hr with
    ⟨hmem, rfl, habove⟩ | ⟨pr, hchosen, hbelow, hend, hpages, hhanded⟩
  · exact .inl ⟨hmem, rfl, habove⟩
  · have hinside := h.formed.inside pr (chosen_mem hchosen)
    exact .inr ⟨pr, hchosen, hbelow, hpages, h.taken hhanded (by omega) (Nat.le_succ _)⟩

theorem allocPages_returns (h : s.Sound env) (pages : ℤ) (memflags : BitVec 32) (len : Bool)
    (hlen : hasFlag memflags PAF_FIRSTBLOCK = true → len = true) :
    (∃ res s', allocPages env pages memflags len s = .ok (res, s')) ∨
      allocPages env pages memflags len s = .error .panic ∧ env.sysMemset s.time = false := by
  rw [allocPages]
  rcases allocPages_total pages (env.sysMemset s.time) h.formed hlen with
    ⟨res, t, ht⟩ | ⟨hpanic, hfailed⟩
  · rw [ht]
    exact .inl ⟨_, _, rfl⟩
  · rw [hpanic]
    exact .inr ⟨rfl, hfailed⟩

end Take

end FreePool

end Vm
