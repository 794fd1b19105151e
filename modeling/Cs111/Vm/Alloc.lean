import Cs111.Kernel.Proc
import Cs111.Lib.Runs
import Cs111.Lib.Spans

namespace Vm
open Kernel (Fault kassert bind_ok kassert_bind_ok pure_ok)
open TransitionSystem Span

def PAF_CLEAR : BitVec 32 := 0x01
def PAF_LOWER16MB : BitVec 32 := 0x08
def PAF_LOWER1MB : BitVec 32 := 0x10
def PAF_FIRSTBLOCK : BitVec 32 := 0x20

def noMem : ℕ := 0

def boundary16 : ℕ := 4096
def boundary1 : ℕ := 256

def physBytes (x : ℤ) : ℕ := (x % 4294967296).toNat

abbrev PageRange := Span

-- The AVL tree as the sequence of its nodes; a node is known by its key.
abbrev AddrAvl := List PageRange

section Tree
variable (t : AddrAvl) (key : ℕ) (pr : PageRange)

def addrSearch : Option PageRange := t.find? fun p => p.addr == key

def addrInsert : AddrAvl :=
  t.takeWhile (fun p => decide (p.addr < pr.addr)) ++
    pr :: t.dropWhile fun p => decide (p.addr < pr.addr)

def addrRemove : AddrAvl := t.eraseP fun p => p.addr == key

def addrLess : Option PageRange := (t.takeWhile fun p => p.addr != key).getLast?

def addrChange : AddrAvl := t.map fun p => if p.addr = key then pr else p

end Tree

inductive Found where
  | range (pr : PageRange)
  | tooHigh
  | none

structure AllocResult where
  mem : ℕ
  -- what is written to *len
  len : Option ℕ

def hasFlag (memflags flag : BitVec 32) : Bool := memflags &&& flag != 0

section Alloc
variable (pages : ℕ) (memflags : BitVec 32) (len cleared : Bool)

def aboveBoundary (pr : PageRange) : Bool :=
  hasFlag memflags PAF_LOWER16MB && decide (physBytes (pr.addr + pages) > boundary16) ||
    hasFlag memflags PAF_LOWER1MB && decide (physBytes (pr.addr + pages) > boundary1)

def findRange : List PageRange → Except Fault Found
  | [] => .ok .none
  | pr :: rest => do
    kassert (decide (pr.size > 0))
    if pr.size ≥ pages ∨ hasFlag memflags PAF_FIRSTBLOCK then
      if aboveBoundary pages memflags pr then .ok .tooHigh else .ok (.range pr)
    else findRange rest

def unlinkRange (t : AddrAvl) (pr : PageRange) : Except Fault AddrAvl := do
  kassert (addrSearch t pr.addr == some pr)
  pure (addrRemove t pr.addr)

def cutRange (t : AddrAvl) (pr : PageRange) : Except Fault AddrAvl :=
  if pr.size = pages then unlinkRange t pr
  else pure (addrChange t pr.addr ⟨pr.addr, physBytes (pr.size - pages)⟩)

def takeRange (t : AddrAvl) (pr : PageRange) : Except Fault (AllocResult × AddrAvl) := do
  kassert (!hasFlag memflags PAF_FIRSTBLOCK || len)
  let pages := if hasFlag memflags PAF_FIRSTBLOCK && decide (pr.size < pages) then pr.size else pages
  kassert (decide (pr.size ≥ pages))
  let t ← cutRange pages t pr
  if hasFlag memflags PAF_CLEAR && !cleared then .error .panic
  else pure (⟨physBytes (pr.addr + pr.size - pages), if len then some pages else none⟩, t)

end Alloc

-- len tells whether the caller wants the length, cleared whether sys_memset succeeds.
def allocPages (pages : ℤ) (memflags : BitVec 32) (len cleared : Bool) (t : AddrAvl) :
    Except Fault (AllocResult × AddrAvl) := do
  let lowest := hasFlag memflags (PAF_LOWER16MB ||| PAF_LOWER1MB)
  match ← findRange (physBytes pages) memflags (if lowest then t else t.reverse) with
  | .none => pure (⟨noMem, if len then some 0 else none⟩, t)
  | .tooHigh => pure (⟨noMem, none⟩, t)
  | .range pr => takeRange (physBytes pages) memflags len cleared t pr

section Free
variable (slab : Bool) (pageno : ℕ) (npages : ℤ) (t : AddrAvl)

def addRange : Except Fault (PageRange × AddrAvl) :=
  match addrSearch t (physBytes (pageno + npages)) with
  | some pr =>
    let merged := ⟨physBytes (pr.addr - npages), physBytes (pr.size + npages)⟩
    pure (merged, addrChange t pr.addr merged)
  | none =>
    if slab then do
      kassert (decide (npages > 0))
      let pr := ⟨pageno, physBytes npages⟩
      pure (pr, addrInsert t pr)
    else .error .panic

def mergeLower (pr : PageRange) (t : AddrAvl) : Except Fault AddrAvl := do
  kassert (addrSearch t pr.addr == some pr)
  match addrLess t pr.addr with
  | none => pure t
  | some p =>
    if physBytes (p.addr + p.size) = pr.addr then
      pure (addrRemove (addrChange t p.addr ⟨p.addr, physBytes (p.size + pr.size)⟩) pr.addr)
    else pure t

end Free

def freePages (slab : Bool) (pageno npages : ℤ) (t : AddrAvl) : Except Fault AddrAvl := do
  kassert (addrSearch t (physBytes pageno)).isNone
  let (pr, t) ← addRange slab (physBytes pageno) npages t
  mergeLower pr t

section Tree
variable {lo hi t : AddrAvl} {pr m : PageRange} {key : ℕ}

theorem search_middle (hlo : ∀ p ∈ lo, p.addr ≠ key) (hm : m.addr = key) :
    addrSearch (lo ++ m :: hi) key = some m := by
  have hnone : lo.find? (fun p => p.addr == key) = none :=
    List.find?_eq_none.mpr fun p hp => by simpa using hlo p hp
  rw [addrSearch, List.find?_append, hnone, Option.none_or, List.find?_cons_of_pos]
  simpa using hm

theorem search_none (ht : ∀ p ∈ t, p.addr ≠ key) : addrSearch t key = none :=
  List.find?_eq_none.mpr fun p hp => by simpa using ht p hp

theorem remove_middle (hlo : ∀ p ∈ lo, p.addr ≠ key) (hm : m.addr = key) :
    addrRemove (lo ++ m :: hi) key = lo ++ hi := by
  rw [addrRemove, List.eraseP_append_right _ fun p hp => by simpa using hlo p hp,
    List.eraseP_cons_of_pos (by simpa using hm)]

theorem change_middle (hlo : ∀ p ∈ lo, p.addr ≠ key) (hm : m.addr = key)
    (hhi : ∀ p ∈ hi, p.addr ≠ key) : addrChange (lo ++ m :: hi) key pr = lo ++ pr :: hi := by
  have hsame : ∀ l : List PageRange, (∀ p ∈ l, p.addr ≠ key) →
      l.map (fun p => if p.addr = key then pr else p) = l := by
    intro l hl
    exact (List.map_congr_left fun p hp => if_neg (hl p hp)).trans (List.map_id' l)
  rw [addrChange, List.map_append, List.map_cons, hsame lo hlo, hsame hi hhi, if_pos hm]

theorem less_middle (hlo : ∀ p ∈ lo, p.addr ≠ key) (hm : m.addr = key) :
    addrLess (lo ++ m :: hi) key = lo.getLast? := by
  rw [addrLess, List.takeWhile_append_of_pos fun p hp => by simpa using hlo p hp,
    List.takeWhile_cons_of_neg (by simpa using hm), List.append_nil]

theorem insert_middle (hlo : ∀ p ∈ lo, p.addr < pr.addr) (hhi : ∀ p ∈ hi, pr.addr ≤ p.addr) :
    addrInsert (lo ++ hi) pr = lo ++ pr :: hi := by
  have hbelow : ∀ p ∈ lo, decide (p.addr < pr.addr) = true := fun p hp => decide_eq_true (hlo p hp)
  rw [addrInsert, List.takeWhile_append_of_pos hbelow, List.dropWhile_append_of_pos hbelow]
  cases hi with
  | nil => simp
  | cons p hi =>
    have habove : pr.addr ≤ p.addr := hhi p List.mem_cons_self
    simp [habove]

end Tree

theorem physBytes_nat {x : ℤ} {n : ℕ} (h : x = n) (hn : n < 4294967296) : physBytes x = n := by
  rw [physBytes]
  omega

def maxPages : ℕ := 1048576

structure Formed (t : AddrAvl) : Prop where
  spread : Spread t
  inside : ∀ p ∈ t, p.addr + p.size ≤ maxPages

section Formed
variable {lo hi t : AddrAvl} {pr p : PageRange} {a n : ℕ}

theorem Formed.others (h : Formed (lo ++ pr :: hi)) :
    (∀ p ∈ lo, p.addr ≠ pr.addr) ∧ ∀ p ∈ hi, p.addr ≠ pr.addr := by
  obtain ⟨-, -, hbefore, hafter⟩ := spread_middle.mp h.spread
  refine ⟨fun p hp => ?_, fun p hp => ?_⟩
  · have hlt : p.addr + p.size < pr.addr := hbefore p hp
    omega
  · have hlt : pr.addr + pr.size < p.addr := hafter p hp
    omega

theorem Formed.node (h : Formed (lo ++ pr :: hi)) :
    0 < pr.size ∧ pr.addr + pr.size ≤ maxPages :=
  ⟨h.spread.nonempty pr (by simp), h.inside pr (by simp)⟩

structure Handed (t t' : AddrAvl) (mem n : ℕ) : Prop where
  formed : Formed t'
  covered : ∀ m, covered t m ↔ covered t' m ∨ mem ≤ m ∧ m < mem + n
  apart : ∀ m, mem ≤ m → m < mem + n → ¬ Span.covered t' m
  nonzero : 0 < mem + n

theorem spread_apart (h : Spread (lo ++ pr :: hi)) {m : ℕ} (hm : pr.Covers m) :
    ¬ covered lo m ∧ ¬ covered hi m := by
  obtain ⟨-, -, hbefore, hafter⟩ := spread_middle.mp h
  obtain ⟨hge, hlt⟩ := hm
  refine ⟨?_, ?_⟩
  · rintro ⟨p, hp, hple, hplt⟩
    have hlt' : p.addr + p.size < pr.addr := hbefore p hp
    omega
  · rintro ⟨p, hp, hple, hplt⟩
    have hlt' : pr.addr + pr.size < p.addr := hafter p hp
    omega

theorem cutRange_handed (h : Formed (lo ++ pr :: hi)) (hn : n ≤ pr.size)
    (hs : cutRange n (lo ++ pr :: hi) pr = .ok t) :
    Handed (lo ++ pr :: hi) t (pr.addr + pr.size - n) n := by
  obtain ⟨hpos, hinside⟩ := h.node
  obtain ⟨hlo, hhi⟩ := h.others
  have hmax : maxPages = 1048576 := rfl
  rw [cutRange] at hs
  split at hs
  · rename_i hsize
    rw [unlinkRange] at hs
    obtain ⟨-, hs⟩ := kassert_bind_ok.mp hs
    obtain rfl := pure_ok.mp hs
    rw [remove_middle hlo rfl]
    have hrest := (spread_middle.mp h.spread).2.1
    have hmem : pr.addr + pr.size - n = pr.addr := by omega
    rw [hmem, ← hsize]
    refine ⟨⟨hrest, fun p hp => ?_⟩, fun m => ?_, fun m hm hm' => ?_, by omega⟩
    · rcases List.mem_append.mp hp with hp | hp
      · exact h.inside p (List.mem_append_left _ hp)
      · exact h.inside p (List.mem_append_right _ (List.mem_cons_of_mem pr hp))
    · simp only [covered_append, covered_cons, Covers]
      simp only [or_comm, or_left_comm]
    · obtain ⟨hnlo, hnhi⟩ := spread_apart h.spread ⟨hm, hm'⟩
      rw [covered_append]
      exact not_or.mpr ⟨hnlo, hnhi⟩
  · rename_i hsize
    obtain rfl := pure_ok.mp hs
    have hphys : physBytes (pr.size - n) = pr.size - n := physBytes_nat (by omega) (by omega)
    rw [change_middle hlo rfl hhi, hphys]
    refine ⟨⟨h.spread.carve (by omega), fun p hp => ?_⟩, fun m => ?_, fun m hm hm' => ?_, by omega⟩
    · rcases List.mem_append.mp hp with hp | hp
      · exact h.inside p (List.mem_append_left _ hp)
      · rcases List.mem_cons.mp hp with rfl | hp
        · change pr.addr + (pr.size - n) ≤ maxPages
          omega
        · exact h.inside p (List.mem_append_right _ (List.mem_cons_of_mem pr hp))
    · have hsplit : pr.Covers m ↔ Covers ⟨pr.addr, pr.size - n⟩ m ∨
          pr.addr + pr.size - n ≤ m ∧ m < pr.addr + pr.size - n + n := by
        simp only [Covers]
        omega
      simp only [covered_append, covered_cons, hsplit]
      simp only [or_comm, or_left_comm]
    · obtain ⟨hnlo, hnhi⟩ := spread_apart h.spread (m := m) ⟨by omega, by omega⟩
      rw [covered_append, covered_cons]
      rintro (hc | ⟨-, hc⟩ | hc)
      · exact hnlo hc
      · change m < pr.addr + (pr.size - n) at hc
        omega
      · exact hnhi hc

end Formed

section Calls
variable {lo hi t t' : AddrAvl} {pr : PageRange} {a n : ℕ} {memflags : BitVec 32}
  {len cleared slab : Bool} {res : AllocResult}

theorem findRange_mem {l : List PageRange}
    (h : findRange n memflags l = .ok (.range pr)) : pr ∈ l := by
  induction l with
  | nil => cases h
  | cons p l ih =>
    rw [findRange] at h
    obtain ⟨-, h⟩ := kassert_bind_ok.mp h
    split at h
    · split at h
      · cases h
      · cases h
        exact List.mem_cons_self
    · exact List.mem_cons_of_mem p (ih h)

def AllocResult.pages (res : AllocResult) (pages : ℤ) : ℕ := res.len.getD (physBytes pages)

theorem takeRange_handed (h : Formed (lo ++ pr :: hi))
    (hs : takeRange n memflags len cleared (lo ++ pr :: hi) pr = .ok (res, t')) :
    Handed (lo ++ pr :: hi) t' res.mem (res.len.getD n) := by
  obtain ⟨hpos, hinside⟩ := h.node
  have hmax : maxPages = 1048576 := rfl
  rw [takeRange] at hs
  obtain ⟨hlen, hs⟩ := kassert_bind_ok.mp hs
  dsimp only at hs
  have hwhole : len = false → (if hasFlag memflags PAF_FIRSTBLOCK && decide (pr.size < n)
      then pr.size else n) = n := by
    rintro rfl
    rw [Bool.or_false, Bool.not_eq_true'] at hlen
    rw [hlen, Bool.false_and, if_neg Bool.false_ne_true]
  generalize (if hasFlag memflags PAF_FIRSTBLOCK && decide (pr.size < n) then pr.size else n) = k
    at hs hwhole
  obtain ⟨hk, hs⟩ := kassert_bind_ok.mp hs
  obtain ⟨u, hu, hs⟩ := bind_ok.mp hs
  have hcut := cutRange_handed h (of_decide_eq_true hk) hu
  have hmem : physBytes (pr.addr + pr.size - k) = pr.addr + pr.size - k :=
    physBytes_nat (by have := of_decide_eq_true hk; omega) (by omega)
  split at hs
  · cases hs
  · obtain ⟨rfl, rfl⟩ := Prod.mk.inj (pure_ok.mp hs)
    change Handed _ u (physBytes (pr.addr + pr.size - k)) _
    rw [hmem]
    cases len with
    | true => exact hcut
    | false =>
      rw [hwhole rfl] at hcut ⊢
      exact hcut

theorem allocPages_handed {pages : ℤ} (h : Formed t)
    (hs : allocPages pages memflags len cleared t = .ok (res, t')) :
    res.mem = noMem ∧ t' = t ∨ Handed t t' res.mem (res.pages pages) := by
  rw [allocPages] at hs
  obtain ⟨found, hfound, hs⟩ := bind_ok.mp hs
  cases found with
  | none =>
    cases hs
    exact .inl ⟨rfl, rfl⟩
  | tooHigh =>
    cases hs
    exact .inl ⟨rfl, rfl⟩
  | range pr =>
    have hmem : pr ∈ t := by
      have hmem := findRange_mem hfound
      split at hmem
      · exact hmem
      · exact List.mem_reverse.mp hmem
    obtain ⟨lo, hi, rfl⟩ := List.append_of_mem hmem
    exact .inr (takeRange_handed h hs)

theorem addRange_joined (h : Formed (lo ++ hi)) (hlo : ∀ s ∈ lo, s.addr + s.size ≤ a)
    (hhi : ∀ s ∈ hi, a + n ≤ s.addr) (hn : 0 < n) (hmax : a + n ≤ maxPages)
    (hs : addRange slab a n (lo ++ hi) = .ok (pr, t)) : ∃ hi', t = lo ++ pr :: hi' ∧
      pr.addr = a ∧ Formed (pr :: hi') ∧
      ∀ m, covered (pr :: hi') m ↔ covered hi m ∨ a ≤ m ∧ m < a + n := by
  have hpages : maxPages = 1048576 := rfl
  obtain ⟨-, hspread, -⟩ := spread_append.mp h.spread
  have hinside : ∀ p ∈ hi, p.addr + p.size ≤ maxPages :=
    fun p hp => h.inside p (List.mem_append_right lo hp)
  have hupper : physBytes (a + n) = a + n := physBytes_nat (by omega) (by omega)
  have hlower : ∀ p ∈ lo, p.addr ≠ a + n := fun p hp => by
    have := hlo p hp
    omega
  rw [addRange, hupper] at hs
  by_cases htouch : ∃ p hi', hi = p :: hi' ∧ p.addr = a + n
  · obtain ⟨p, hi', rfl, hp⟩ := htouch
    rw [search_middle hlower hp] at hs
    obtain ⟨rfl, rfl⟩ := Prod.mk.inj (pure_ok.mp hs)
    obtain ⟨hpos, hrest, hbefore⟩ := spread_cons.mp hspread
    have hpinside := hinside p List.mem_cons_self
    have haddr : physBytes (p.addr - n) = a := physBytes_nat (by omega) (by omega)
    have hsize : physBytes (p.size + n) = p.size + n := physBytes_nat (by omega) (by omega)
    have hothers := h.others
    rw [change_middle hothers.1 rfl hothers.2, haddr, hsize]
    refine ⟨hi', rfl, rfl, ⟨spread_cons.mpr ⟨by change 0 < p.size + n; omega, hrest,
      fun q hq => ?_⟩, fun q hq => ?_⟩, fun m => ?_⟩
    · have hlt : p.addr + p.size < q.addr := hbefore q hq
      change a + (p.size + n) < q.addr
      omega
    · rcases List.mem_cons.mp hq with rfl | hq
      · change a + (p.size + n) ≤ maxPages
        omega
      · exact hinside q (List.mem_cons_of_mem p hq)
    · have hsplit : Covers ⟨a, p.size + n⟩ m ↔ p.Covers m ∨ a ≤ m ∧ m < a + n := by
        simp only [Covers]
        omega
      simp only [covered_cons, hsplit]
      exact or_right_comm
  · have habove : ∀ p ∈ hi, a + n < p.addr := by
      intro p hp
      have hle := hhi p hp
      refine lt_of_le_of_ne hle fun he => ?_
      cases hi with
      | nil => cases hp
      | cons q hi' =>
        obtain ⟨-, -, hbefore⟩ := spread_cons.mp hspread
        have hq := hhi q List.mem_cons_self
        rcases List.mem_cons.mp hp with rfl | hp
        · exact htouch ⟨p, hi', rfl, he.symm⟩
        · have hlt : q.addr + q.size < p.addr := hbefore p hp
          omega
    have hnone : addrSearch (lo ++ hi) (a + n) = none := by
      refine search_none fun p hp => ?_
      rcases List.mem_append.mp hp with hp | hp
      · exact hlower p hp
      · have := habove p hp
        omega
    rw [hnone] at hs
    dsimp only at hs
    split at hs
    · obtain ⟨-, hs⟩ := kassert_bind_ok.mp hs
      obtain ⟨rfl, rfl⟩ := Prod.mk.inj (pure_ok.mp hs)
      have hsize : physBytes n = n := physBytes_nat rfl (by omega)
      have hinsert : addrInsert (lo ++ hi) ⟨a, n⟩ = lo ++ ⟨a, n⟩ :: hi := by
        refine insert_middle (fun p hp => ?_) fun p hp => ?_
        · have hpos := h.spread.nonempty p (List.mem_append_left hi hp)
          have hle := hlo p hp
          change p.addr < a
          omega
        · have hlt := habove p hp
          change a ≤ p.addr
          omega
      rw [hsize, hinsert]
      refine ⟨hi, rfl, rfl, ⟨spread_cons.mpr ⟨hn, hspread, habove⟩, fun q hq => ?_⟩, fun m => ?_⟩
      · rcases List.mem_cons.mp hq with rfl | hq
        · exact hmax
        · exact hinside q hq
      · simp only [covered_cons, Covers]
        exact or_comm
    · cases hs

theorem mergeLower_formed (hlo : Formed lo) (hhi : Formed (pr :: hi))
    (hle : ∀ s ∈ lo, s.addr + s.size ≤ pr.addr)
    (hs : mergeLower pr (lo ++ pr :: hi) = .ok t') :
    Formed t' ∧ ∀ m, covered t' m ↔ covered lo m ∨ covered (pr :: hi) m := by
  have hpages : maxPages = 1048576 := rfl
  obtain ⟨hpos, hrest, hafter⟩ := spread_cons.mp hhi.spread
  have hinside := hhi.inside pr List.mem_cons_self
  have hother : ∀ p ∈ lo, p.addr ≠ pr.addr := fun p hp => by
    have hppos := hlo.spread.nonempty p hp
    have := hle p hp
    omega
  -- Below the highest node of lo everything ends before pr.
  have hjoin : (∀ s ∈ lo, s.addr + s.size < pr.addr) → Formed (lo ++ pr :: hi) := by
    intro hlt
    refine ⟨spread_append.mpr ⟨hlo.spread, hhi.spread, fun s hs q hq => ?_⟩, fun p hp => ?_⟩
    · have hsp := hlt s hs
      rcases List.mem_cons.mp hq with rfl | hq
      · exact hsp
      · have hlt' : pr.addr + pr.size < q.addr := hafter q hq
        change s.addr + s.size < q.addr
        omega
    · rcases List.mem_append.mp hp with hp | hp
      · exact hlo.inside p hp
      · exact hhi.inside p hp
  rw [mergeLower, search_middle hother rfl, less_middle hother rfl] at hs
  obtain ⟨-, hs⟩ := kassert_bind_ok.mp hs
  rcases List.eq_nil_or_concat lo with rfl | ⟨lo', q, rfl⟩
  · obtain rfl := pure_ok.mp hs
    exact ⟨hhi, fun m => by simp⟩
  · rw [List.concat_eq_append] at hs hlo hle hother hjoin ⊢
    rw [List.getLast?_concat] at hs
    dsimp only at hs
    obtain ⟨hqlo, -, hqbefore⟩ := spread_append.mp hlo.spread
    have hq := hle q (by simp)
    have hqpos := hlo.spread.nonempty q (by simp)
    have hqend : physBytes (q.addr + q.size) = q.addr + q.size := physBytes_nat (by omega) (by omega)
    have hbelow : ∀ s ∈ lo', s.addr + s.size < q.addr := fun s hs => hqbefore s hs q (by simp)
    rw [hqend] at hs
    split at hs
    · rename_i htouch
      obtain rfl := pure_ok.mp hs
      have hsize : physBytes (q.size + pr.size) = q.size + pr.size :=
        physBytes_nat (by omega) (by omega)
      have hchange : addrChange (lo' ++ [q] ++ pr :: hi) q.addr ⟨q.addr, q.size + pr.size⟩ =
          lo' ++ [⟨q.addr, q.size + pr.size⟩] ++ pr :: hi := by
        rw [List.append_assoc, List.append_assoc, List.singleton_append, List.singleton_append]
        refine change_middle (fun p hp => ?_) rfl fun p hp => ?_
        · have := hbelow p hp
          omega
        · rcases List.mem_cons.mp hp with rfl | hp
          · omega
          · have hlt : pr.addr + pr.size < p.addr := hafter p hp
            omega
      have hmerged : ∀ s ∈ lo' ++ [⟨q.addr, q.size + pr.size⟩], s.addr ≠ pr.addr := by
        intro s hs
        rcases List.mem_append.mp hs with hs | hs
        · have := hbelow s hs
          omega
        · obtain rfl := List.mem_singleton.mp hs
          change q.addr ≠ pr.addr
          omega
      rw [hsize, hchange, remove_middle hmerged rfl, List.append_assoc, List.singleton_append]
      refine ⟨⟨spread_middle.mpr ⟨by change 0 < q.size + pr.size; omega, ?_, hbelow, fun p hp => ?_⟩,
        fun p hp => ?_⟩, fun m => ?_⟩
      · refine spread_append.mpr ⟨hqlo, hrest, fun s hs p hp => ?_⟩
        have hsq := hbelow s hs
        have hlt : pr.addr + pr.size < p.addr := hafter p hp
        change s.addr + s.size < p.addr
        omega
      · have hlt : pr.addr + pr.size < p.addr := hafter p hp
        change q.addr + (q.size + pr.size) < p.addr
        omega
      · rcases List.mem_append.mp hp with hp | hp
        · exact hlo.inside p (List.mem_append_left _ hp)
        · rcases List.mem_cons.mp hp with rfl | hp
          · change q.addr + (q.size + pr.size) ≤ maxPages
            omega
          · exact hhi.inside p (List.mem_cons_of_mem pr hp)
      · have hsplit : Covers ⟨q.addr, q.size + pr.size⟩ m ↔ q.Covers m ∨ pr.Covers m := by
          simp only [Covers]
          omega
        simp only [covered_append, covered_cons, hsplit, covered_nil, or_false]
        simp only [or_assoc]
    · rename_i happart
      obtain rfl := pure_ok.mp hs
      refine ⟨hjoin fun s hs => ?_, fun m => covered_append⟩
      rcases List.mem_append.mp hs with hs | hs
      · have := hbelow s hs
        omega
      · obtain rfl := List.mem_singleton.mp hs
        omega

theorem freePages_formed {pageno npages : ℤ} (h : Formed t) (hpageno : pageno = a)
    (hnpages : npages = n) (hmax : 0 < n → a + n ≤ maxPages)
    (hfree : ∀ m, a ≤ m → m < a + n → ¬ covered t m)
    (hs : freePages slab pageno npages t = .ok t') :
    Formed t' ∧ ∀ m, covered t' m ↔ covered t m ∨ a ≤ m ∧ m < a + n := by
  have hpages : maxPages = 1048576 := rfl
  rw [freePages] at hs
  obtain ⟨hnone, hs⟩ := kassert_bind_ok.mp hs
  obtain ⟨⟨pr, u⟩, hadd, hmerge⟩ := bind_ok.mp hs
  clear hs
  subst hnpages
  rcases Nat.eq_zero_or_pos n with rfl | hn
  · -- an empty range is caught by the assertions
    have hword : physBytes pageno < 4294967296 := by
      rw [physBytes]
      omega
    have hsame : physBytes (physBytes pageno + ((0 : ℕ) : ℤ)) = physBytes pageno :=
      physBytes_nat (by omega) hword
    rw [addRange, hsame, Option.isNone_iff_eq_none.mp hnone] at hadd
    dsimp only at hadd
    split at hadd
    · obtain ⟨hpos, -⟩ := kassert_bind_ok.mp hadd
      exact absurd (of_decide_eq_true hpos) (by simp)
    · cases hadd
  · have hend := hmax hn
    rw [show physBytes pageno = a from physBytes_nat hpageno (by omega)] at hadd
    obtain ⟨lo, hi, rfl, hlo, hhi⟩ := h.spread.gap hn hfree
    obtain ⟨hi', rfl, rfl, hformed, hcovered⟩ := addRange_joined h hlo hhi hn hend hadd
    have hlower : Formed lo :=
      ⟨(spread_append.mp h.spread).1, fun p hp => h.inside p (List.mem_append_left hi hp)⟩
    obtain ⟨hformed', hcovered'⟩ := mergeLower_formed hlower hformed hlo hmerge
    refine ⟨hformed', fun m => ?_⟩
    rw [hcovered', hcovered, covered_append, or_assoc]

end Calls

section Init
variable {slab : Bool} {t t' : AddrAvl}

def freeMem (slab : Bool) (t : AddrAvl) (chunk : PageRange) : Except Fault AddrAvl :=
  if chunk.size = 0 then pure t else freePages slab chunk.addr chunk.size t

def memInit (slab : Bool) (chunks : List PageRange) : Except Fault AddrAvl :=
  chunks.reverse.foldlM (freeMem slab) []

theorem freeMem_formed {chunk : PageRange} (h : Formed t)
    (hmax : chunk.addr + chunk.size ≤ maxPages) (hfree : ∀ m, chunk.Covers m → ¬ covered t m)
    (hs : freeMem slab t chunk = .ok t') :
    Formed t' ∧ ∀ m, covered t' m ↔ covered t m ∨ chunk.Covers m := by
  rw [freeMem] at hs
  split at hs
  · rename_i hsize
    obtain rfl := pure_ok.mp hs
    refine ⟨h, fun m => ⟨.inl, ?_⟩⟩
    rintro (hm | ⟨hge, hlt⟩)
    · exact hm
    · omega
  · exact freePages_formed h rfl rfl (fun _ => hmax) (fun m hge hlt => hfree m ⟨hge, hlt⟩) hs

theorem memInit_formed {chunks : List PageRange} (hmax : ∀ c ∈ chunks, c.addr + c.size ≤ maxPages)
    (hapart : chunks.Pairwise fun c d => ∀ m, ¬ (c.Covers m ∧ d.Covers m))
    (hs : memInit slab chunks = .ok t) : Formed t ∧ ∀ m, covered t m ↔ covered chunks m := by
  induction chunks generalizing t with
  | nil =>
    obtain rfl := pure_ok.mp hs
    exact ⟨⟨⟨by simp, .nil⟩, by simp⟩, fun _ => Iff.rfl⟩
  | cons c chunks ih =>
    obtain ⟨hc, hrest⟩ := List.pairwise_cons.mp hapart
    rw [memInit, List.reverse_cons, List.foldlM_append] at hs
    obtain ⟨u, hu, hs⟩ := bind_ok.mp hs
    rw [List.foldlM_cons] at hs
    obtain ⟨v, hv, hs⟩ := bind_ok.mp hs
    obtain rfl := pure_ok.mp hs
    obtain ⟨hformed, hcovered⟩ := ih (fun d hd => hmax d (List.mem_cons_of_mem c hd)) hrest hu
    obtain ⟨hformed', hcovered'⟩ := freeMem_formed hformed (hmax c List.mem_cons_self)
      (fun m hm hmem => by
        obtain ⟨d, hd, hdm⟩ := (hcovered m).mp hmem
        exact hc d hd m ⟨hm, hdm⟩) hv
    refine ⟨hformed', fun m => ?_⟩
    rw [hcovered', hcovered, covered_cons, or_comm]

theorem memInit_formed_two : ∃ t, memInit true [⟨4, 4⟩, ⟨16, 2⟩] = .ok t ∧ Formed t := by
  obtain ⟨t, ht⟩ : ∃ t, memInit true [⟨4, 4⟩, ⟨16, 2⟩] = .ok t := ⟨_, rfl⟩
  refine ⟨t, ht, (memInit_formed (by decide) ?_ ht).1⟩
  simp [Span.Covers]
  omega

end Init

inductive AllocEvent where
  | allocPages (pages : ℤ) (memflags : BitVec 32) (len cleared : Bool) (res : AllocResult)
  | freePages (slab : Bool) (pageno npages : ℤ)

def AllocEvent.Happens (t t' : AddrAvl) : AllocEvent → Prop
  | .allocPages pages memflags len cleared res =>
    Vm.allocPages pages memflags len cleared t = .ok (res, t')
  | .freePages slab pageno npages => Vm.freePages slab pageno npages t = .ok t'

def allocSystem (t₀ : AddrAvl) : TransitionSystem AddrAvl AllocEvent where
  initial t := t = t₀
  step t e t' := e.Happens t t'

def outstanding : List (AddrAvl × AllocEvent) → ℕ → ℕ
  | [], _ => 0
  | (_, .allocPages pages _ _ _ res) :: past, m =>
    if res.mem ≠ noMem ∧ res.mem ≤ m ∧ m < res.mem + res.pages pages then outstanding past m + 1
    else outstanding past m
  | (_, .freePages _ pageno npages) :: past, m =>
    if pageno ≤ m ∧ m < pageno + npages then outstanding past m - 1 else outstanding past m

def returnsPages (past : List (AddrAvl × AllocEvent)) (_ : AddrAvl) : AllocEvent → Prop
  | .allocPages .. => True
  | .freePages _ pageno npages => 0 ≤ pageno ∧ 0 ≤ npages ∧
    ∀ m : ℕ, pageno ≤ m → m < pageno + npages → 0 < outstanding past m

section Runs
variable {t₀ t t' : AddrAvl} {past : List (AddrAvl × AllocEvent)} {e : AllocEvent}

structure Conserved (t₀ : AddrAvl) (past : List (AddrAvl × AllocEvent)) (t : AddrAvl) : Prop where
  formed : Formed t
  balance : ∀ m, (if covered t m then 1 else 0) + outstanding past m =
    if covered t₀ m then 1 else 0

theorem Conserved.step (hinside : Formed t₀) (hzero : ¬ covered t₀ 0) (h : Conserved t₀ past t)
    (hok : returnsPages past t e) (hs : e.Happens t t') : Conserved t₀ ((t, e) :: past) t' := by
  cases e with
  | allocPages pages memflags len cleared res =>
    rcases allocPages_handed h.formed hs with ⟨hmem, rfl⟩ | hhanded
    · refine ⟨h.formed, fun m => ?_⟩
      have hout : outstanding ((t', .allocPages pages memflags len cleared res) :: past) m =
          outstanding past m := if_neg fun hnot => hnot.1 hmem
      rw [hout]
      exact h.balance m
    · have hmem : res.mem ≠ noMem := by
        intro hnone
        have hnone' : res.mem = 0 := hnone
        have hpos := hhanded.nonzero
        have hcovered := (hhanded.covered 0).mpr (.inr (by omega))
        have hbalance := h.balance 0
        rw [if_pos hcovered, if_neg hzero] at hbalance
        omega
      refine ⟨hhanded.formed, fun m => ?_⟩
      have hbalance := h.balance m
      by_cases hm : res.mem ≤ m ∧ m < res.mem + res.pages pages
      · have hout : outstanding ((t, .allocPages pages memflags len cleared res) :: past) m =
            outstanding past m + 1 := if_pos ⟨hmem, hm⟩
        rw [if_pos ((hhanded.covered m).mpr (.inr hm))] at hbalance
        rw [if_neg (hhanded.apart m hm.1 hm.2), hout]
        omega
      · have hsame : covered t' m ↔ covered t m :=
          ⟨fun hc => (hhanded.covered m).mpr (.inl hc),
            fun hc => ((hhanded.covered m).mp hc).resolve_right hm⟩
        have hout : outstanding ((t, .allocPages pages memflags len cleared res) :: past) m =
            outstanding past m := if_neg fun hnot => hm hnot.2
        simp only [hsame, hout]
        exact hbalance
  | freePages slab pageno npages =>
    obtain ⟨hpageno, hnpages, hout⟩ := hok
    obtain ⟨a, rfl⟩ := Int.eq_ofNat_of_zero_le hpageno
    obtain ⟨n, rfl⟩ := Int.eq_ofNat_of_zero_le hnpages
    have hfree : ∀ m, a ≤ m → m < a + n → ¬ covered t m ∧ covered t₀ m := by
      intro m hge hlt
      have hpos := hout m (by omega) (by omega)
      have hbalance := h.balance m
      split at hbalance
      · split at hbalance <;> omega
      · rename_i hnot
        refine ⟨hnot, ?_⟩
        by_contra hnot₀
        rw [if_neg hnot₀] at hbalance
        omega
    have hmax : 0 < n → a + n ≤ maxPages := by
      intro hn
      obtain ⟨p, hp, -, hlt⟩ := (hfree (a + n - 1) (by omega) (by omega)).2
      have := hinside.inside p hp
      omega
    obtain ⟨hformed, hcovered⟩ := freePages_formed h.formed rfl rfl hmax
      (fun m hge hlt => (hfree m hge hlt).1) hs
    refine ⟨hformed, fun m => ?_⟩
    have hbalance := h.balance m
    by_cases hm : a ≤ m ∧ m < a + n
    · have hpos := hout m (by omega) (by omega)
      have hback : outstanding ((t, .freePages slab a n) :: past) m = outstanding past m - 1 :=
        if_pos (by omega)
      rw [if_neg (hfree m hm.1 hm.2).1] at hbalance
      rw [if_pos ((hcovered m).mpr (.inr hm)), hback]
      omega
    · have hsame : covered t' m ↔ covered t m :=
        ⟨fun hc => ((hcovered m).mp hc).resolve_right hm, fun hc => (hcovered m).mpr (.inl hc)⟩
      have hkept : outstanding ((t, .freePages slab a n) :: past) m = outstanding past m :=
        if_neg (by omega)
      simp only [hsame, hkept]
      exact hbalance

theorem pages_conserved (hformed : Formed t₀) (hzero : ¬ covered t₀ 0)
    (hrun : (allocSystem t₀).Run returnsPages past t) : Conserved t₀ past t := by
  refine hrun.trace_invariant (P := Conserved t₀) ?_ fun _ _ _ _ h hok hs =>
    h.step hformed hzero hok hs
  rintro t rfl
  exact ⟨hformed, fun m => Nat.add_zero _⟩

theorem pages_conserved_hole : ∃ past,
    (allocSystem [⟨1, 159⟩]).Run returnsPages past [⟨1, 149⟩, ⟨154, 3⟩] ∧
      Conserved [⟨1, 159⟩] past [⟨1, 149⟩, ⟨154, 3⟩] := by
  have hrun : (allocSystem [⟨1, 159⟩]).Run returnsPages
      [([⟨1, 149⟩], .freePages true 154 3),
        ([⟨1, 159⟩], .allocPages 10 0 false true ⟨150, none⟩)] [⟨1, 149⟩, ⟨154, 3⟩] := by
    refine .next (.next (.start rfl) trivial rfl) ⟨by decide, by decide, fun m hge hlt => ?_⟩ rfl
    rw [outstanding, if_pos ⟨by decide, by change 150 ≤ m; omega, by
      change m < 150 + 10
      omega⟩]
    exact Nat.succ_pos _
  exact ⟨_, hrun, pages_conserved ⟨⟨by simp, by simp⟩, by simp [maxPages]⟩ (by decide) hrun⟩

end Runs

end Vm
