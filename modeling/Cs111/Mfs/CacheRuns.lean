import Cs111.Mfs.CacheContents
import Cs111.Lib.Runs

namespace Mfs

open Deque Chain TransitionSystem

-- The cache, the buffers that PREFETCH left unread, and what each block was last written; none
-- for a block that was got with NO_READ and has not been written since.
structure CacheTraced (α : Type*) where
  cache : BufCache α
  pending : ℕ → Option ℕ
  last : ℕ → ℕ → Option α

inductive CacheCall (α : Type*) where
  | get (dev block : ℕ) (onlySearch : Search) (alloc : Bool)
  | put (bp : ℕ) (oneShot writeImmed : Bool)
  | modify (bp : ℕ) (data : α)
  | flush (dev : ℕ)
  | read (dev : ℕ) (bufq : List ℕ) (transferred : ℕ)
  | invalidate (device : ℕ)
  -- VM drops a block
  | forget (dev block : ℕ)

section System
variable {α : Type*} (C : CacheConfig)

def lastGot (dev block : ℕ) (onlySearch : Search) (last : ℕ → ℕ → Option α) : ℕ → ℕ → Option α :=
  if dev ≠ NO_DEV ∧ onlySearch = .NO_READ then
    Function.update last dev (Function.update (last dev) block none)
  else last

def pendingGot (dev : ℕ) (onlySearch : Search) (bp : ℕ) (c : BufCache α)
    (pending : ℕ → Option ℕ) : ℕ → Option ℕ :=
  if dev ≠ NO_DEV ∧ onlySearch = .PREFETCH ∧ (c.buf bp).bDev = NO_DEV then
    Function.update pending bp (some dev)
  else pending

def callCache (st : CacheTraced α) : CacheCall α → Except Fault (CacheTraced α)
  | .get dev block onlySearch alloc =>
    match getBlock C dev block onlySearch alloc st.cache with
    | .error f => .error f
    | .ok (bp, c) =>
      if (searchBlocks C dev block st.cache).isSome then .ok { st with cache := c }
      else .ok ⟨c, pendingGot dev onlySearch bp c st.pending, lastGot dev block onlySearch st.last⟩
  | .put bp oneShot writeImmed =>
    let c := putBlock C bp oneShot writeImmed st.cache
    .ok { st with
      cache := c
      pending := if (c.buf bp).bCount = 0 then Function.update st.pending bp none else st.pending }
  | .modify bp data =>
    let block := st.cache.buf bp
    .ok { st with
      cache := modifyBlock bp data st.cache
      last := if block.bDev = NO_DEV then st.last else Function.update st.last block.bDev
        (Function.update (st.last block.bDev) block.bBlocknr (some data)) }
  | .flush dev => .ok { st with cache := flushall C dev st.cache }
  | .read dev bufq transferred =>
    .ok { st with
      cache := rwScatteredRead C dev bufq transferred st.cache
      pending := fun i => if i ∈ bufq then none else st.pending i }
  | .invalidate device =>
    .ok { st with
      cache := invalidate C device st.cache
      last := fun d n => if d = device then some (st.cache.disk d n) else st.last d n }
  | .forget dev block =>
    .ok { st with cache := { st.cache with vm := forgetBlock dev block st.cache.vm } }

def CacheCall.Allowed (st : CacheTraced α) : CacheCall α → Prop
  | .get dev block _ _ => (∀ i, ¬ Waits st.cache st.pending i dev block) ∧
    ∀ i, searchBlocks C dev block st.cache = some i → (st.cache.buf i).bCount ≠ 255
  | .put bp _ _ => bp < C.nrBufs ∧ (st.cache.buf bp).bCount ≠ 0
  | .modify bp _ => bp < C.nrBufs ∧ (st.cache.buf bp).bCount ≠ 0
  | .flush _ => True
  | .read dev bufq _ => bufq.Nodup ∧ ∀ i ∈ bufq, st.pending i = some dev
  | .invalidate _ => True
  | .forget _ _ => True

def cacheSystem : TransitionSystem (CacheTraced α) (CacheCall α) where
  initial st := (∃ disk junk, st.cache = BufCache.fresh C disk junk) ∧ st.pending = (fun _ => none) ∧
    st.last = fun d n => some (st.cache.disk d n)
  step st call st' := callCache C st call = .ok st'

def Free (c : BufCache α) (i : ℕ) : Prop := i < C.nrBufs ∧ (c.buf i).bCount = 0

structure Sound (c : BufCache α) (last : ℕ → ℕ → Option α) (pending : ℕ → Option ℕ) : Prop where
  wired : Wired C c (Free C c) (· < C.nrBufs)
  content : Content C c last pending

end System

section Steps
variable {α : Type*} {C : CacheConfig} {c c' c₂ c₃ : BufCache α} {last : ℕ → ℕ → Option α}
  {pending pending' : ℕ → Option ℕ} {bp dev block : ℕ} {onlySearch : Search}

theorem Wired.still (h : Wired C c (Free C c) (· < C.nrBufs)) (hs : SameLinks c c')
    (hb : ∀ i, (c'.buf i).bBlocknr = (c.buf i).bBlocknr ∧ (c'.buf i).bCount = (c.buf i).bCount) :
    Wired C c' (Free C c') (· < C.nrBufs) :=
  (h.same hs fun i _ => (hb i).1).congr (fun i => by rw [Free, Free, (hb i).2]) fun _ => Iff.rfl

theorem Flushed.fields (h : Flushed c c') (i : ℕ) : (c'.buf i).bBlocknr = (c.buf i).bBlocknr ∧
    (c'.buf i).bCount = (c.buf i).bCount ∧ (c'.buf i).bDev = (c.buf i).bDev ∧
    (c'.buf i).data = (c.buf i).data := by
  rcases h.buf i with hi | hi <;> rw [hi] <;> exact ⟨rfl, rfl, rfl, rfl⟩

theorem Sound.fewer (h : Sound C c last pending) (hp : ∀ i d, pending' i = some d →
    pending i = some d) : Sound C c last pending' :=
  ⟨h.wired, h.content.fewer hp⟩

theorem Sound.flush (h : Sound C c last pending) (dev : ℕ) :
    Sound C (flushall C dev c) last pending := by
  obtain ⟨hkept, hflush, -⟩ := h.content.flushed dev
  exact ⟨h.wired.still hflush.links fun i => ⟨(hflush.fields i).1, (hflush.fields i).2.1⟩, hkept⟩

theorem Sound.modify (h : Sound C c last pending) (hbp : bp < C.nrBufs) (d : α) :
    Sound C (modifyBlock bp d c) (if (c.buf bp).bDev = NO_DEV then last else
      Function.update last (c.buf bp).bDev (Function.update (last (c.buf bp).bDev)
        (c.buf bp).bBlocknr (some d))) pending := by
  refine ⟨h.wired.still ⟨rfl, rfl, rfl, rfl, rfl, rfl, rfl⟩ fun i => ?_, h.content.modified hbp d⟩
  rw [show (modifyBlock bp d c).buf = Function.update c.buf bp _ from rfl]
  by_cases hi : i = bp
  · subst hi
    rw [Function.update_self]
    exact ⟨rfl, rfl⟩
  · rw [Function.update_of_ne hi]
    exact ⟨rfl, rfl⟩

theorem Sound.invalidate (h : Sound C c last pending) (device : ℕ) :
    Sound C (invalidate C device c)
      (fun d n => if d = device then some (c.disk d n) else last d n) pending := by
  refine ⟨h.wired.still ⟨rfl, rfl, rfl, rfl, rfl, rfl, rfl⟩ fun i => ?_, h.content.invalidated device⟩
  rw [show (Mfs.invalidate C device c).buf i = if i < C.nrBufs ∧ (c.buf i).bDev = device then
    { c.buf i with bDev := NO_DEV } else c.buf i from rfl]
  split <;> exact ⟨rfl, rfl⟩

theorem vm_forget (vm : ℕ → ℕ → Option α) (d n : ℕ) :
    forgetBlock dev block vm d n = if d = dev ∧ n = block then none else vm d n := by
  rw [forgetBlock]
  by_cases hd : d = dev
  · subst hd
    rw [Function.update_self]
    by_cases hn : n = block
    · subst hn
      rw [Function.update_self, if_pos ⟨rfl, rfl⟩]
    · rw [Function.update_of_ne hn, if_neg fun hand => hn hand.2]
  · rw [Function.update_of_ne hd, if_neg fun hand => hd hand.1]

theorem Content.forgotten (h : Content C c last pending) (dev block : ℕ) :
    Content C { c with vm := forgetBlock dev block c.vm } last pending := by
  refine h.vm rfl rfl fun d n => ?_
  dsimp only
  rw [vm_forget]
  split
  · exact .inl rfl
  · exact .inr (.inl rfl)

theorem Content.uses (h : Content C c last pending) {count : BitVec 8}
    (hcount : pending bp = none ∨ count ≠ 0) :
    Content C (c.setBuf bp { c.buf bp with bCount := count }) last pending := by
  have hbuf : (c.setBuf bp { c.buf bp with bCount := count }).buf =
      Function.update c.buf bp { c.buf bp with bCount := count } := rfl
  refine h.counted (fun i => ?_) rfl rfl fun i hp hused => ?_
  · rw [hbuf]
    by_cases hi : i = bp
    · subst hi
      rw [Function.update_self]
      exact ⟨rfl, rfl, rfl, rfl⟩
    · rw [Function.update_of_ne hi]
      exact ⟨rfl, rfl, rfl, rfl⟩
  · rw [hbuf]
    by_cases hi : i = bp
    · subst hi
      rw [Function.update_self]
      exact hcount.resolve_left hp
    · rwa [Function.update_of_ne hi]

theorem wired_count (h : Wired C c (Free C c) (· < C.nrBufs)) (hbp : (c.buf bp).bCount ≠ 0)
    (count : BitVec 8) : Wired C (c.setBuf bp { c.buf bp with bCount := count })
      (fun i => Free C c i) (· < C.nrBufs) := by
  refine h.same ⟨rfl, rfl, rfl, rfl, rfl, rfl, rfl⟩ fun i _ => ?_
  rw [show (c.setBuf bp { c.buf bp with bCount := count }).buf = Function.update c.buf bp _ from rfl]
  by_cases hi : i = bp
  · subst hi
    rw [Function.update_self]
  · rw [Function.update_of_ne hi]

theorem Sound.put (h : Sound C c last pending) (hbp : bp < C.nrBufs) (hcount : (c.buf bp).bCount ≠ 0)
    (oneShot writeImmed : Bool) :
    Sound C (putBlock C bp oneShot writeImmed c) last
      (if ((putBlock C bp oneShot writeImmed c).buf bp).bCount = 0 then
        Function.update pending bp none else pending) ∧
    (∀ i, i ≠ bp → (putBlock C bp oneShot writeImmed c).buf i = c.buf i) ∧
    (writeImmed = false → (putBlock C bp oneShot writeImmed c).disk = c.disk) := by
  have hbuf : ∀ count, (c.setBuf bp { c.buf bp with bCount := count }).buf =
      Function.update c.buf bp { c.buf bp with bCount := count } := fun _ => rfl
  have hfree : ∀ i, Free C (c.setBuf bp { c.buf bp with bCount := (c.buf bp).bCount - 1 }) i ↔
      Free C c i ∨ (i = bp ∧ (c.buf bp).bCount - 1 = 0) := by
    intro i
    rw [Free, Free, hbuf]
    by_cases hi : i = bp
    · subst hi
      rw [Function.update_self]
      exact ⟨fun hf => .inr ⟨rfl, hf.2⟩, fun hf => ⟨hbp, hf.elim (fun hf => absurd hf.2 hcount) (·.2)⟩⟩
    · rw [Function.update_of_ne hi]
      tauto
  have hwired := wired_count h.wired hcount ((c.buf bp).bCount - 1)
  rw [putBlock]
  dsimp only
  split
  · rename_i hne
    rw [hbuf, Function.update_self] at hne
    refine ⟨⟨hwired.congr (fun i => (hfree i).trans ?_) fun _ => Iff.rfl,
      h.content.uses (.inr hne)⟩, fun i hi => Function.update_of_ne hi .., fun _ => rfl⟩
    exact ⟨fun hf => hf.resolve_right fun hand => hne hand.2, .inl⟩
  · rename_i hzero
    rw [not_not] at hzero
    have hlast : (c.buf bp).bCount - 1 = 0 := by rwa [hbuf, Function.update_self] at hzero
    have hcontent : Content C (putLru C bp oneShot (c.setBuf bp
        { c.buf bp with bCount := (c.buf bp).bCount - 1 })) last (Function.update pending bp none) :=
      ((h.content.dropped bp).uses (.inl (Function.update_self ..))).same bufs_putLru.buf bufs_putLru.disk
        bufs_putLru.vm
    have hreleased := hwired.released oneShot (fun i hi => hi.1) hbp fun hf => hcount hf.2
    have hput : Sound C (putLru C bp oneShot (c.setBuf bp
        { c.buf bp with bCount := (c.buf bp).bCount - 1 })) last (Function.update pending bp none) := by
      refine ⟨hreleased.congr (fun i => ?_) fun _ => Iff.rfl, hcontent⟩
      rw [Free, bufs_putLru.buf]
      refine (hfree i).trans ?_
      rw [and_iff_left hlast]
    have hself : (putLru C bp oneShot (c.setBuf bp
        { c.buf bp with bCount := (c.buf bp).bCount - 1 })).buf =
        Function.update c.buf bp { c.buf bp with bCount := (c.buf bp).bCount - 1 } :=
      bufs_putLru.buf
    split
    · rename_i hw
      obtain ⟨hflush, -⟩ := flushed_write (putLru C bp oneShot (c.setBuf bp
        { c.buf bp with bCount := (c.buf bp).bCount - 1 })) bp
      rw [if_pos ((hflush.fields bp).2.1.trans (by rw [bufs_putLru.buf]; exact hzero))]
      refine ⟨⟨hput.wired.still hflush.links fun i => ⟨(hflush.fields i).1, (hflush.fields i).2.1⟩,
        hput.content.written hbp⟩, fun i hi => ?_, fun hf => ?_⟩
      · rw [write_buf, Function.update_of_ne hi, hself, Function.update_of_ne hi]
      · rw [hf] at hw
        cases hw.1
    · rw [if_pos (by rw [bufs_putLru.buf]; exact hzero)]
      exact ⟨hput, fun i hi => by rw [hself, Function.update_of_ne hi], fun _ => bufs_putLru.disk⟩

theorem Sound.readInto (h : Sound C c last pending) (hwait : pending bp = some dev) :
    (∀ pending', (∀ i d, pending' i = some d → i ≠ bp ∧ pending i = some d) →
      Sound C (readInto C dev c bp) last pending') ∧
    (∀ i, i ≠ bp → (readInto C dev c bp).buf i = c.buf i) := by
  obtain ⟨hbp, hdev, hold, hcount⟩ := h.content.waiting bp dev _ ⟨hwait, rfl⟩
  obtain ⟨hnone, hout, huniq⟩ := h.content.apart bp dev _ ⟨hwait, rfl⟩
  have hfree : ∀ i, ¬ Waits c (Function.update pending bp none) i dev (c.buf bp).bBlocknr := by
    rintro i ⟨hi, hn⟩
    obtain ⟨hib, hi⟩ := dropped_some hi
    exact hib (huniq i ⟨hi, hn⟩).symm
  have hbuf : (c.setBuf bp { c.buf bp with
      bDev := dev, data := c.disk dev (c.buf bp).bBlocknr }).buf = Function.update c.buf bp
      { c.buf bp with bDev := dev, data := c.disk dev (c.buf bp).bBlocknr } := rfl
  have hnamed : Content C (c.setBuf bp { c.buf bp with
      bDev := dev, data := c.disk dev (c.buf bp).bBlocknr }) last
      (Function.update pending bp none) :=
    (h.content.dropped bp).named hbuf rfl hbp hold hdev ⟨rfl, rfl⟩ hnone hfree (Function.update_self ..) (fun _ _ _ => rfl) hout
    (fun _ _ _ => rfl) fun d hl => by
      obtain ⟨heq, -⟩ := h.content.away dev _ d hdev hnone hl
      exact ⟨heq, fun _ => heq⟩
  have hread : Sound C (c.setBuf bp
      { c.buf bp with bDev := dev, data := c.disk dev (c.buf bp).bBlocknr }) last
      (Function.update pending bp none) := by
    refine ⟨h.wired.still ⟨rfl, rfl, rfl, rfl, rfl, rfl, rfl⟩ fun i => ?_, hnamed⟩
    rw [show (c.setBuf bp { c.buf bp with bDev := dev, data := c.disk dev (c.buf bp).bBlocknr }).buf =
      Function.update c.buf bp _ from rfl]
    by_cases hi : i = bp
    · subst hi
      rw [Function.update_self]
      exact ⟨rfl, rfl⟩
    · rw [Function.update_of_ne hi]
      exact ⟨rfl, rfl⟩
  obtain ⟨hput, hothers, -⟩ := hread.put hbp (by
    rw [show (c.setBuf bp { c.buf bp with
      bDev := dev, data := c.disk dev (c.buf bp).bBlocknr }).buf bp = _ from Function.update_self ..]
    exact hcount) false false
  refine ⟨fun pending' hp => hput.fewer fun i d hi => ?_, fun i hi => (hothers i hi).trans ?_⟩
  · obtain ⟨hib, hi⟩ := hp i d hi
    split
    · rwa [Function.update_of_ne hib, Function.update_of_ne hib]
    · rwa [Function.update_of_ne hib]
  · exact Function.update_of_ne hi ..

theorem Sound.each {f : BufCache α → ℕ → BufCache α} {q : List ℕ}
    (hstep : ∀ c pending j, Sound C c last pending → pending j = some dev →
      Sound C (f c j) last (Function.update pending j none))
    (h : Sound C c last pending) (hnodup : q.Nodup) (hq : ∀ i ∈ q, pending i = some dev) :
    Sound C (q.foldl f c) last (fun i => if i ∈ q then none else pending i) := by
  induction q generalizing c pending with
  | nil => exact h.fewer fun i d hi => by simpa using hi
  | cons j q ih =>
    obtain ⟨hj, hq'⟩ := List.nodup_cons.mp hnodup
    have hrest := ih (hstep c pending j h (hq j List.mem_cons_self)) hq' fun i hi => by
      have hne : i ≠ j := fun he => hj (he ▸ hi)
      rw [Function.update_of_ne hne]
      exact hq i (List.mem_cons_of_mem j hi)
    refine hrest.fewer fun i d hi => ?_
    split at hi
    · cases hi
    · rename_i hne
      rw [List.mem_cons, not_or] at hne
      rw [if_neg hne.2, Function.update_of_ne hne.1]
      exact hi

theorem Sound.reads {q : List ℕ} (h : Sound C c last pending) (hnodup : q.Nodup)
    (hq : ∀ i ∈ q, pending i = some dev) :
    Sound C (q.foldl (Mfs.readInto C dev) c) last (fun i => if i ∈ q then none else pending i) := by
  refine h.each (fun c pending j hs hj => ?_) hnodup hq
  obtain ⟨hread, -⟩ := hs.readInto hj
  exact hread _ fun i d hi => dropped_some hi

theorem Sound.puts {q : List ℕ} (h : Sound C c last pending) (hnodup : q.Nodup)
    (hq : ∀ i ∈ q, pending i = some dev) :
    Sound C (q.foldl (fun c bp => putBlock C bp false false c) c) last
      (fun i => if i ∈ q then none else pending i) := by
  refine h.each (fun c pending j hs hj => ?_) hnodup hq
  obtain ⟨hlt, -, -, hcount⟩ := hs.content.waiting j dev _ ⟨hj, rfl⟩
  obtain ⟨hput, -, -⟩ := hs.put hlt hcount false false
  refine hput.fewer fun i d hi => ?_
  split
  · exact hi
  · exact (dropped_some hi).2

theorem Sound.read (h : Sound C c last pending) {q : List ℕ} (hnodup : q.Nodup)
    (hq : ∀ i ∈ q, pending i = some dev) (transferred : ℕ) :
    Sound C (rwScatteredRead C dev q transferred c) last (fun i => if i ∈ q then none else pending i) := by
  rw [rwScatteredRead]
  have hperm : (shellSort (blocknrOf c) q).Perm q := shellSort_perm q
  generalize shellSort (blocknrOf c) q = q' at hperm
  generalize min (runLength C c q') transferred = k
  have hnodup' : (q'.take k ++ q'.drop k).Nodup := by
    rw [List.take_append_drop]
    exact hperm.nodup_iff.mpr hnodup
  obtain ⟨htake, hdrop, hapart⟩ := List.nodup_append.mp hnodup'
  have hread := h.reads htake fun i hi => hq i (hperm.mem_iff.mp (List.mem_of_mem_take hi))
  have hput := hread.puts hdrop fun i hi => by
    rw [if_neg fun hmem => hapart i hmem i hi rfl]
    exact hq i (hperm.mem_iff.mp (List.mem_of_mem_drop hi))
  refine hput.fewer fun i d hi => ?_
  split at hi
  · cases hi
  · rename_i hne
    rw [if_neg fun hmem => hne (hperm.mem_iff.mp (List.mem_of_mem_drop hmem)),
      if_neg fun hmem => hne (hperm.mem_iff.mp (List.mem_of_mem_take hmem))]
    exact hi

theorem takeOldest_spec {alloc : Bool} (h : Wired C c (Free C c) (· < C.nrBufs))
    (hok : takeOldest C alloc c = .ok (bp, c')) : Free C c bp ∧ SameLinks c c' ∧
    c'.disk = c.disk ∧ c'.vm = c.vm ∧ ∀ i, (c'.buf i).bDev = (c.buf i).bDev ∧
      (c'.buf i).bBlocknr = (c.buf i).bBlocknr ∧ (c'.buf i).bDirt = (c.buf i).bDirt ∧
      (c'.buf i).data = (c.buf i).data ∧ (c'.buf i).bCount = (c.buf i).bCount := by
  obtain ⟨l, hl, hmem, hlen⟩ := h.lru
  rw [takeOldest] at hok
  cases hfront : c.front with
  | none =>
    rw [hfront] at hok
    cases hok
  | some f =>
    rw [hfront] at hok
    dsimp only at hok
    have hf : Free C c f := (hmem f).mp (hl.forward.head_mem hfront)
    split at hok
    · split at hok
      · cases hok
        refine ⟨hf, ⟨rfl, rfl, rfl, rfl, rfl, rfl, rfl⟩, rfl, rfl, fun i => ?_⟩
        rw [show (c.setBuf bp { c.buf bp with bBytes := C.fsBlockSize }).buf =
          Function.update c.buf bp _ from rfl]
        by_cases hi : i = bp
        · subst hi
          rw [Function.update_self]
          exact ⟨rfl, rfl, rfl, rfl, rfl⟩
        · rw [Function.update_of_ne hi]
          exact ⟨rfl, rfl, rfl, rfl, rfl⟩
      · rw [← hfront, path_walk _ hl.forward.path (by omega)] at hok
        split at hok
        · cases hok
        · rename_i hfind
          cases hok
          exact ⟨(hmem bp).mp (List.mem_of_find?_eq_some hfind), SameLinks.refl c, rfl, rfl,
            fun _ => ⟨rfl, rfl, rfl, rfl, rfl⟩⟩
    · cases hok
      exact ⟨hf, SameLinks.refl c, rfl, rfl, fun _ => ⟨rfl, rfl, rfl, rfl, rfl⟩⟩

structure Yields (C : CacheConfig) (c : BufCache α) (last : ℕ → ℕ → Option α)
    (pending : ℕ → Option ℕ) (data : α) (dev block : ℕ) : Prop where
  gone : ∀ i, ¬ Holds C c i dev block
  quiet : ∀ i, ¬ Waits c pending i dev block
  data : ∀ e, last dev block = some e → data = e

theorem evict_spec (h : Sound C c last pending) (hbp : Free C c bp) :
    Wired C (evict C bp c).2 (fun i => Free C c i ∧ i ≠ bp) (fun i => i < C.nrBufs ∧ i ≠ bp) ∧
    Content C (evict C bp c).2 last pending ∧ ((evict C bp c).2.buf bp).bDev = NO_DEV ∧
    (∀ i, ((evict C bp c).2.buf i).bCount = (c.buf i).bCount ∧
      ((evict C bp c).2.buf i).bBlocknr = (c.buf i).bBlocknr) ∧
    (∀ i d n, Holds C (evict C bp c).2 i d n → Holds C c i d n) ∧
    ∀ d n, (evict C bp c).1 = some (d, n) → Holds C c bp d n ∧
      Yields C (evict C bp c).2 last pending ((evict C bp c).2.buf bp).data d n := by
  have hsame : SameBufs c (unhash C bp (rmLru bp c)) := bufs_rmLru.trans bufs_unhash
  have hwired := (h.wired.removed hbp).unhashed (fun i hi => hi) hbp.1
  have hcontent : Content C (unhash C bp (rmLru bp c)) last pending :=
    h.content.same hsame.buf hsame.disk hsame.vm
  generalize hc₁ : unhash C bp (rmLru bp c) = c₁ at hsame hwired hcontent
  rw [evict, hc₁]
  dsimp only
  have hquiet : pending bp = none := by
    cases hp : pending bp with
    | none => rfl
    | some d => exact absurd hbp.2 (h.content.waiting bp d _ ⟨hp, rfl⟩).2.2.2
  split
  · rename_i hdev
    refine ⟨hwired, hcontent, hdev, fun i => by rw [hsame.buf]; exact ⟨rfl, rfl⟩,
      fun i d n hi => ?_, fun d n he => by cases he⟩
    rwa [Holds, hsame.buf] at hi
  · rename_i hdev
    -- the block is on the device after the flush
    have hflush : ∃ c₂, (if (c₁.buf bp).bDirt = true then flushall C (c₁.buf bp).bDev c₁ else c₁) = c₂ ∧
        Content C c₂ last pending ∧ Flushed c₁ c₂ ∧ (c₂.buf bp).bDirt = false := by
      split
      · obtain ⟨hkept, hfl, hclean⟩ := hcontent.flushed (c₁.buf bp).bDev
        exact ⟨_, rfl, hkept, hfl, hclean bp hbp.1 rfl⟩
      · rename_i hdirt
        exact ⟨_, rfl, hcontent, ⟨SameLinks.refl c₁, rfl, fun _ => .inl rfl⟩, by simpa using hdirt⟩
    obtain ⟨c₂, hc₂, hkept, hfl, hclean⟩ := hflush
    rw [hc₂]
    have hbuf : (c₂.setBuf bp { c₂.buf bp with bDev := NO_DEV }).buf =
        Function.update c₂.buf bp { c₂.buf bp with bDev := NO_DEV } := rfl
    have hfields : ∀ i, ((c₂.setBuf bp { c₂.buf bp with bDev := NO_DEV }).buf i).bCount =
        (c.buf i).bCount ∧ ((c₂.setBuf bp { c₂.buf bp with bDev := NO_DEV }).buf i).bBlocknr =
        (c.buf i).bBlocknr := by
      intro i
      rw [hbuf, ← hsame.buf]
      by_cases hi : i = bp
      · subst hi
        rw [Function.update_self]
        exact ⟨(hfl.fields i).2.1, (hfl.fields i).1⟩
      · rw [Function.update_of_ne hi]
        exact ⟨(hfl.fields i).2.1, (hfl.fields i).1⟩
    have hholds : ∀ i d n, Holds C (c₂.setBuf bp { c₂.buf bp with bDev := NO_DEV }) i d n →
        i ≠ bp ∧ Holds C c i d n := by
      intro i d n hi
      rcases (holds_update hbuf).mp hi with ⟨-, -, hd, he, -⟩ | ⟨hne, hi⟩
      · exact absurd he.symm hd
      · rw [Holds, (hfl.fields i).1, (hfl.fields i).2.2.1, hsame.buf] at hi
        exact ⟨hne, hi⟩
    refine ⟨?_, ?_, ?_, hfields, fun i d n hi => (hholds i d n hi).2, fun d n he => ?_⟩
    · refine hwired.same (hfl.links.trans ⟨rfl, rfl, rfl, rfl, rfl, rfl, rfl⟩) fun i _ => ?_
      rw [(hfields i).2, hsame.buf]
    · exact hkept.unnamed hbuf rfl rfl rfl (fun _ => hclean) fun hp => absurd hquiet hp
    · rw [hbuf, Function.update_self]
    · cases he
      have hheld : Holds C c bp (c₂.buf bp).bDev (c₂.buf bp).bBlocknr := by
        rw [(hfl.fields bp).1, (hfl.fields bp).2.2.1, hsame.buf]
        rw [hsame.buf] at hdev
        exact ⟨hbp.1, hdev, rfl, rfl⟩
      refine ⟨hheld, fun i hi => ?_, fun i hi => ?_, fun e hl => ?_⟩
      · obtain ⟨hne, hi⟩ := hholds i _ _ hi
        exact hne (h.content.unique i bp _ _ hi hheld)
      · rw [Waits, (hfields i).2] at hi
        exact (h.content.apart i _ _ hi).1 bp hheld
      · rw [hbuf, Function.update_self]
        dsimp only
        rw [(hfl.fields bp).2.2.2, hsame.buf]
        exact h.content.content bp _ _ e hheld hl

theorem Content.yielded {yieldid : Option (ℕ × ℕ)} {data : α} (h : Content C c last pending)
    (hdata : (c.buf bp).data = data)
    (hy : ∀ d n, yieldid = some (d, n) → Yields C c last pending data d n) :
    Content C (c.yielded yieldid bp) last pending := by
  cases yieldid with
  | none => exact h
  | some id =>
    obtain ⟨d, n⟩ := id
    have hyields := hy d n rfl
    refine h.vm rfl rfl fun d' n' => ?_
    rw [show (c.yielded (some (d, n)) bp).vm = yieldBlock d n (c.buf bp).data c.vm from rfl, yieldBlock]
    split
    · exact .inr (.inl rfl)
    · by_cases hd : d' = d
      · subst hd
        rw [Function.update_self]
        by_cases hn : n' = n
        · subst hn
          rw [Function.update_self, hdata]
          exact .inr (.inr ⟨hyields.gone, hyields.quiet, fun e hl => by rw [hyields.data e hl]⟩)
        · rw [Function.update_of_ne hn]
          exact .inr (.inl rfl)
      · rw [Function.update_of_ne hd]
        exact .inr (.inl rfl)

theorem Content.waits (h : Content C c last pending) (hbp : bp < C.nrBufs) (hdev : dev ≠ NO_DEV)
    (hold : (c.buf bp).bDev = NO_DEV) (hcount : (c.buf bp).bCount ≠ 0)
    (hblock : (c.buf bp).bBlocknr = block) (hnone : ∀ j, ¬ Holds C c j dev block)
    (hfree : ∀ j, ¬ Waits c pending j dev block)
    (hout : C.vmcache dev = true → c.vm dev block = none) :
    Content C c last (Function.update pending bp (some dev)) := by
  have hcases : ∀ {i d n}, Waits c (Function.update pending bp (some dev)) i d n →
      (i = bp ∧ d = dev ∧ n = block) ∨ (i ≠ bp ∧ Waits c pending i d n) := by
    rintro i d n ⟨hi, hn⟩
    by_cases hib : i = bp
    · subst hib
      rw [Function.update_self] at hi
      cases hi
      exact .inl ⟨rfl, rfl, hn.symm.trans hblock⟩
    · rw [Function.update_of_ne hib] at hi
      exact .inr ⟨hib, hi, hn⟩
  refine { h with waiting := fun i d n hw => ?_, apart := fun i d n hw => ?_ }
  · rcases hcases hw with ⟨rfl, rfl, -⟩ | ⟨-, hw⟩
    · exact ⟨hbp, hdev, hold, hcount⟩
    · exact h.waiting i d n hw
  · rcases hcases hw with ⟨rfl, rfl, rfl⟩ | ⟨hib, hwait⟩
    · refine ⟨hnone, hout, fun j hj => ?_⟩
      rcases hcases hj with ⟨rfl, -, -⟩ | ⟨-, hj⟩
      · rfl
      · exact absurd hj (hfree j)
    · obtain ⟨hno, hvm, huniq⟩ := h.apart i d n hwait
      refine ⟨hno, hvm, fun j hj => ?_⟩
      rcases hcases hj with ⟨-, rfl, rfl⟩ | ⟨-, hj⟩
      · exact absurd hwait (hfree i)
      · exact huniq j hj

theorem yielded_same (yieldid : Option (ℕ × ℕ)) (bp : ℕ) (c : BufCache α) :
    (c.yielded yieldid bp).buf = c.buf ∧ (c.yielded yieldid bp).disk = c.disk ∧
    SameLinks c (c.yielded yieldid bp) := by
  cases yieldid <;> exact ⟨rfl, rfl, rfl, rfl, rfl, rfl, rfl, rfl, rfl⟩

theorem yielded_vm {yieldid : Option (ℕ × ℕ)} (hdata : (c₃.buf bp).data = (c₂.buf bp).data)
    (hvm : c₃.vm = c₂.vm) : (c₃.yielded yieldid bp).vm = (c₂.yielded yieldid bp).vm := by
  cases yieldid with
  | none => exact hvm
  | some id =>
    obtain ⟨d, n⟩ := id
    rw [show (c₃.yielded (some (d, n)) bp).vm = yieldBlock d n (c₃.buf bp).data c₃.vm from rfl,
      hdata, hvm]
    rfl

structure Filling (C : CacheConfig) (c₂ c₃ : BufCache α) (last : ℕ → ℕ → Option α)
    (pending : ℕ → Option ℕ) (bp dev block : ℕ) : Prop where
  content : Content C c₂ last pending
  buf : ∃ b, c₃.buf = Function.update c₂.buf bp b ∧ b.bDev = dev ∧ b.bBlocknr = block ∧
    b.data = (c₂.buf bp).data ∧ b.bCount ≠ 0
  disk : c₃.disk = c₂.disk
  vm : c₃.vm = c₂.vm
  lt : bp < C.nrBufs
  old : (c₂.buf bp).bDev = NO_DEV
  quiet : pending bp = none
  absent : ∀ i, ¬ Holds C c₂ i dev block
  free : ∀ i, ¬ Waits c₂ pending i dev block

theorem Filling.blank (h : Filling C c₂ c₃ last pending bp NO_DEV block) :
    Content C c₃ last pending := by
  obtain ⟨b, hbuf, hdev, -⟩ := h.buf
  exact h.content.unnamed hbuf h.disk h.vm hdev (fun hne => absurd h.old hne)
    fun hp => absurd h.quiet hp

theorem Filling.overwrite (h : Filling C c₂ c₃ last pending bp dev block) (hdev : dev ≠ NO_DEV) :
    Content C (if C.vmcache dev then { c₃ with vm := forgetBlock dev block c₃.vm } else c₃)
      (Function.update last dev (Function.update (last dev) block none)) pending := by
  obtain ⟨b, hbuf, hname⟩ := h.buf
  have hlast : ∀ d n, ¬ (d = dev ∧ n = block) →
      Function.update last dev (Function.update (last dev) block none) d n = last d n := by
    intro d n hne
    exact (vm_forget last d n).trans (if_neg hne)
  refine h.content.named (b := b) ?_ ?_ h.lt h.old hdev ⟨hname.1, hname.2.1⟩ h.absent
    h.free h.quiet (fun d n hne => ?_) (fun hcache => ?_) hlast fun d hl => ?_
  · split <;> exact hbuf
  · split <;> exact h.disk
  · split
    · exact ((vm_forget _ d n).trans (if_neg hne)).trans (by rw [h.vm])
    · rw [h.vm]
  · rw [if_pos hcache]
    exact (vm_forget _ dev block).trans (if_pos ⟨rfl, rfl⟩)
  · rw [Function.update_self, Function.update_self] at hl
    cases hl

theorem Filling.fill (h : Filling C c₂ c₃ last pending bp dev block) (hdev : dev ≠ NO_DEV)
    (hout : C.vmcache dev = true → c₃.vm dev block = none) :
    Content C (c₃.setBuf bp { c₃.buf bp with bDev := NO_DEV }) last
      (Function.update pending bp (some dev)) ∧
    Content C (readBlock c₃ bp) last pending := by
  obtain ⟨b, hbuf, hbdev, hblock, -, hcount⟩ := h.buf
  have hself : c₃.buf bp = b := by rw [hbuf, Function.update_self]
  have hset : ∀ b', (c₃.setBuf bp b').buf = Function.update c₂.buf bp b' := fun b' => by
    rw [show (c₃.setBuf bp b').buf = Function.update c₃.buf bp b' from rfl, hbuf,
      Function.update_idem]
  constructor
  · have hblank := h.content.unnamed (hset { c₃.buf bp with bDev := NO_DEV }) h.disk h.vm rfl
      (fun hne => absurd h.old hne) fun hp => absurd h.quiet hp
    have hone : (c₃.setBuf bp { c₃.buf bp with bDev := NO_DEV }).buf bp =
        { b with bDev := NO_DEV } := by
      rw [hset, Function.update_self, hself]
    refine hblank.waits h.lt hdev ?_ ?_ ?_ (fun j hj => ?_) (fun j hj => ?_) hout
    · rw [hone]
    · rw [hone]
      exact hcount
    · rw [hone]
      exact hblock
    · rcases (holds_update (hset _)).mp hj with ⟨-, -, hd, he, -⟩ | ⟨-, hj⟩
      · exact absurd he.symm hd
      · exact h.absent j hj
    · have hjb : j ≠ bp := by
        rintro rfl
        rw [Waits, h.quiet] at hj
        cases hj.1
      rw [Waits, hset, Function.update_of_ne hjb] at hj
      exact h.free j hj
  · rw [readBlock]
    have hread : (c₃.buf bp).bDev ≠ NO_DEV := by
      rw [hself, hbdev]
      exact hdev
    refine h.content.named (hset _) h.disk h.lt h.old hdev ?_ h.absent h.free h.quiet
      (fun d n _ => by rw [← h.vm]; rfl) hout (fun _ _ _ => rfl) fun d hl => ?_
    · rw [hself]
      exact ⟨hbdev, hblock⟩
    · obtain ⟨heq, -⟩ := h.content.away dev block d hdev h.absent hl
      refine ⟨?_, fun _ => heq⟩
      rw [if_neg hread, hself, hbdev, hblock, h.disk]
      exact heq

theorem Filling.got (h : Filling C c₂ c₃ last pending bp dev block) (hdev : dev ≠ NO_DEV)
    (hcache : C.vmcache dev = true) {data : α} (hvm : c₃.vm dev block = some data) :
    Content C (BufCache.setBuf bp { c₃.buf bp with data := data }
      { c₃ with vm := forgetBlock dev block c₃.vm }) last pending := by
  obtain ⟨b, hbuf, hbdev, hblock, -, hcount⟩ := h.buf
  have hself : c₃.buf bp = b := by rw [hbuf, Function.update_self]
  refine h.content.named (b := { c₃.buf bp with data := data }) ?_ h.disk h.lt h.old hdev
    ?_ h.absent h.free h.quiet (fun d n hne => ?_) (fun _ => ?_) (fun _ _ _ => rfl) fun d hl => ?_
  · rw [show (BufCache.setBuf bp { c₃.buf bp with data := data }
      { c₃ with vm := forgetBlock dev block c₃.vm }).buf = Function.update c₃.buf bp _ from rfl,
      hbuf, Function.update_idem]
  · rw [hself]
    exact ⟨hbdev, hblock⟩
  · exact ((vm_forget _ d n).trans (if_neg hne)).trans (by rw [h.vm])
  · exact (vm_forget _ dev block).trans (if_pos ⟨rfl, rfl⟩)
  · rw [h.vm] at hvm
    obtain ⟨heq, hsame⟩ := h.content.away dev block d hdev h.absent hl
    exact ⟨hsame data hcache hvm, fun _ => heq⟩

theorem Filling.yielded {yieldid : Option (ℕ × ℕ)}
    (h : Filling C c₂ c₃ last pending bp dev block)
    (hy : ∀ d n, yieldid = some (d, n) → Yields C c₂ last pending (c₂.buf bp).data d n) :
    Filling C (c₂.yielded yieldid bp) (c₃.yielded yieldid bp) last pending bp dev block := by
  obtain ⟨hbuf₂, hdisk₂, -⟩ := yielded_same yieldid bp c₂
  obtain ⟨hbuf₃, hdisk₃, -⟩ := yielded_same yieldid bp c₃
  obtain ⟨b, hbuf, hname⟩ := h.buf
  have hdata : (c₃.buf bp).data = (c₂.buf bp).data := by
    rw [hbuf, Function.update_self]
    exact hname.2.2.1
  refine ⟨h.content.yielded rfl hy, ⟨b, by rw [hbuf₃, hbuf₂, hbuf], by rw [hbuf₂]; exact hname⟩,
    by rw [hdisk₃, hdisk₂, h.disk], yielded_vm hdata h.vm, h.lt, by rw [hbuf₂]; exact h.old, h.quiet,
    fun i hi => h.absent i ?_, fun i hi => h.free i ?_⟩
  · rwa [Holds, hbuf₂] at hi
  · rwa [Waits, hbuf₂] at hi

theorem fetch_got {yieldid : Option (ℕ × ℕ)} (hdev : dev ≠ NO_DEV) (hread : onlySearch ≠ .NO_READ)
    (hcache : C.vmcache dev = true) {data : α}
    (hvm : (c.yielded yieldid bp).vm dev block = some data) :
    fetch C dev block onlySearch yieldid bp c =
      BufCache.setBuf bp { (c.yielded yieldid bp).buf bp with data := data }
        { c.yielded yieldid bp with vm := forgetBlock dev block (c.yielded yieldid bp).vm } := by
  have hget : yieldGet yieldid dev block bp c = (true,
      BufCache.setBuf bp { (c.yielded yieldid bp).buf bp with data := data }
        { c.yielded yieldid bp with vm := forgetBlock dev block (c.yielded yieldid bp).vm }) := by
    rw [yieldGet]
    dsimp only
    rw [hvm]
  cases onlySearch with
  | NO_READ => exact absurd rfl hread
  | PREFETCH => simp only [fetch, if_neg hdev, if_pos hcache, hget, if_true]
  | NORMAL => simp only [fetch, if_neg hdev, if_pos hcache, hget, if_true]

theorem fetch_missed {yieldid : Option (ℕ × ℕ)} (hdev : dev ≠ NO_DEV)
    (hmiss : (C.vmcache dev = true ∧ (c.yielded yieldid bp).vm dev block = none ∧
      c' = c.yielded yieldid bp) ∨ (C.vmcache dev ≠ true ∧ c' = c)) :
    fetch C dev block .PREFETCH yieldid bp c = c'.setBuf bp { c'.buf bp with bDev := NO_DEV } ∧
    fetch C dev block .NORMAL yieldid bp c = readBlock c' bp := by
  rcases hmiss with ⟨hcache, hvm, rfl⟩ | ⟨hcache, rfl⟩
  · have hget : yieldGet yieldid dev block bp c = (false, c.yielded yieldid bp) := by
      rw [yieldGet]
      dsimp only
      rw [hvm]
    constructor <;> simp only [fetch, if_neg hdev, if_pos hcache, hget, Bool.false_eq_true, if_false]
  · constructor <;> simp only [fetch, if_neg hdev, if_neg hcache, Bool.false_eq_true, if_false]

theorem fields_setBuf {b : Buf α} (hn : b.bBlocknr = (c.buf bp).bBlocknr)
    (hc : b.bCount = (c.buf bp).bCount) (i : ℕ) :
    ((c.setBuf bp b).buf i).bBlocknr = (c.buf i).bBlocknr ∧
    ((c.setBuf bp b).buf i).bCount = (c.buf i).bCount := by
  rw [show (c.setBuf bp b).buf = Function.update c.buf bp b from rfl]
  by_cases hi : i = bp
  · subst hi
    rw [Function.update_self]
    exact ⟨hn, hc⟩
  · rw [Function.update_of_ne hi]
    exact ⟨rfl, rfl⟩

structure Kept (c c' : BufCache α) (bp dev : ℕ) (onlySearch : Search) : Prop where
  links : SameLinks c c'
  fields : ∀ i, (c'.buf i).bBlocknr = (c.buf i).bBlocknr ∧ (c'.buf i).bCount = (c.buf i).bCount
  dev : onlySearch = .NORMAL → dev ≠ NO_DEV → (c'.buf bp).bDev = dev

theorem Filling.fetch {yieldid : Option (ℕ × ℕ)} (h : Filling C c₂ c₃ last pending bp dev block)
    (onlySearch : Search) (hy : ∀ d n, yieldid = some (d, n) → Yields C c₂ last pending (c₂.buf bp).data d n) :
    Content C (fetch C dev block onlySearch yieldid bp c₃) (lastGot dev block onlySearch last)
      (pendingGot dev onlySearch bp (fetch C dev block onlySearch yieldid bp c₃) pending) ∧
    Kept c₃ (fetch C dev block onlySearch yieldid bp c₃) bp dev onlySearch := by
  have hbufdev : (c₃.buf bp).bDev = dev := by
    obtain ⟨b, hbuf, hbdev, -⟩ := h.buf
    rw [hbuf, Function.update_self, hbdev]
  obtain ⟨hybuf, hydisk, hylinks⟩ := yielded_same yieldid bp c₃
  by_cases hdev : dev = NO_DEV
  · subst hdev
    have hfetch : Mfs.fetch C NO_DEV block onlySearch yieldid bp c₃ =
        if C.vmcache NO_DEV then c₃.yielded yieldid bp else c₃ := by
      simp only [Mfs.fetch, if_true]
    have hghost : ∀ c : BufCache α, pendingGot NO_DEV onlySearch bp c pending = pending := fun c => by
      simp only [pendingGot, ne_eq, not_true_eq_false, false_and, if_false]
    have hlast : lastGot NO_DEV block onlySearch last = last := by
      rw [lastGot, if_neg fun hand => hand.1 rfl]
    rw [hghost, hfetch, hlast]
    split
    · exact ⟨(h.yielded hy).blank, hylinks, fun i => by rw [hybuf]; exact ⟨rfl, rfl⟩,
        fun _ hne => absurd rfl hne⟩
    · exact ⟨h.blank, SameLinks.refl c₃, fun _ => ⟨rfl, rfl⟩, fun _ hne => absurd rfl hne⟩
  by_cases hread : onlySearch = .NO_READ
  · subst hread
    have hfetch : Mfs.fetch C dev block .NO_READ yieldid bp c₃ =
        if C.vmcache dev then { c₃ with vm := forgetBlock dev block c₃.vm } else c₃ := by
      simp only [Mfs.fetch, if_neg hdev]
    have hlast : lastGot dev block .NO_READ last =
        Function.update last dev (Function.update (last dev) block none) := by
      rw [lastGot, if_pos ⟨hdev, rfl⟩]
    have hghost : ∀ c : BufCache α, pendingGot dev .NO_READ bp c pending = pending := fun c => by
      rw [pendingGot, if_neg fun hand => by cases hand.2.1]
    rw [hghost, hfetch, hlast]
    refine ⟨h.overwrite hdev, ?_, fun i => ?_, fun he => by cases he⟩
    · split <;> exact ⟨rfl, rfl, rfl, rfl, rfl, rfl, rfl⟩
    · split <;> exact ⟨rfl, rfl⟩
  have hlast : lastGot dev block onlySearch last = last := by
    rw [lastGot, if_neg fun hand => hread hand.2]
  rw [hlast]
  by_cases hgot : C.vmcache dev = true ∧ (c₃.yielded yieldid bp).vm dev block ≠ none
  · obtain ⟨hcache, hsome⟩ := hgot
    obtain ⟨data, hvm⟩ := Option.ne_none_iff_exists'.mp hsome
    have hname : (BufCache.setBuf bp { (c₃.yielded yieldid bp).buf bp with data := data }
        { c₃.yielded yieldid bp with
          vm := forgetBlock dev block (c₃.yielded yieldid bp).vm }).buf bp =
        { c₃.buf bp with data := data } := by
      rw [← hybuf]
      exact Function.update_self ..
    rw [fetch_got hdev hread hcache hvm, pendingGot, if_neg fun hand => hdev ?_]
    · refine ⟨(h.yielded hy).got hdev hcache hvm, hylinks.trans ⟨rfl, rfl, rfl, rfl, rfl, rfl, rfl⟩,
        fun i => ?_, fun _ _ => by rw [hname]; exact hbufdev⟩
      rw [← hybuf]
      refine fields_setBuf (c := { c₃.yielded yieldid bp with
        vm := forgetBlock dev block (c₃.yielded yieldid bp).vm }) ?_ ?_ i <;> rfl
    · have hb := hand.2.2
      rw [hname] at hb
      exact hbufdev.symm.trans hb
  · obtain ⟨c₂', c₃', hfill, hout, hbuf, hlinks, hmiss⟩ : ∃ c₂' c₃',
        Filling C c₂' c₃' last pending bp dev block ∧
        (C.vmcache dev = true → c₃'.vm dev block = none) ∧ c₃'.buf = c₃.buf ∧ SameLinks c₃ c₃' ∧
        ((C.vmcache dev = true ∧ (c₃.yielded yieldid bp).vm dev block = none ∧
          c₃' = c₃.yielded yieldid bp) ∨ (C.vmcache dev ≠ true ∧ c₃' = c₃)) := by
      by_cases hcache : C.vmcache dev = true
      · have hvm : (c₃.yielded yieldid bp).vm dev block = none :=
          not_not.mp fun hne => hgot ⟨hcache, hne⟩
        exact ⟨_, _, h.yielded hy, fun _ => hvm, hybuf, hylinks, .inl ⟨hcache, hvm, rfl⟩⟩
      · exact ⟨_, _, h, fun hc => absurd hc hcache, rfl, SameLinks.refl c₃, .inr ⟨hcache, rfl⟩⟩
    obtain ⟨hprefetch, hnormal⟩ := fetch_missed hdev hmiss
    obtain ⟨hwaits, hfilled⟩ := hfill.fill hdev hout
    cases onlySearch with
    | NO_READ => exact absurd rfl hread
    | PREFETCH =>
      have hdev' : ((c₃'.setBuf bp { c₃'.buf bp with bDev := NO_DEV }).buf bp).bDev = NO_DEV := by
        rw [show (c₃'.setBuf bp { c₃'.buf bp with bDev := NO_DEV }).buf bp = _ from
          Function.update_self ..]
      rw [hprefetch, pendingGot, if_pos ⟨hdev, rfl, hdev'⟩]
      refine ⟨hwaits, hlinks.trans ⟨rfl, rfl, rfl, rfl, rfl, rfl, rfl⟩, fun i => ?_,
        fun he => by cases he⟩
      rw [← hbuf]
      refine fields_setBuf ?_ ?_ i <;> rfl
    | NORMAL =>
      rw [hnormal, pendingGot, if_neg fun hand => by cases hand.2.1]
      refine ⟨hfilled, hlinks.trans ⟨rfl, rfl, rfl, rfl, rfl, rfl, rfl⟩, fun i => ?_, fun _ _ => ?_⟩
      · rw [← hbuf, readBlock]
        refine fields_setBuf ?_ ?_ i <;> rfl
      · rw [readBlock, show (BufCache.setBuf bp _ c₃').buf bp = _ from Function.update_self .., hbuf]
        exact hbufdev

theorem use_ne {count : BitVec 8} (h : count ≠ 255) : count + 1 ≠ 0 := fun he => h (by bv_omega)

theorem free_useBlock {i : ℕ} (h : (c.buf bp).bCount ≠ 255) :
    Free C (useBlock bp c) i ↔ Free C c i ∧ i ≠ bp := by
  rw [Free, Free, show (useBlock bp c).buf = Function.update c.buf bp _ from rfl]
  by_cases hi : i = bp
  · subst hi
    rw [Function.update_self]
    exact iff_of_false (fun hf => use_ne h hf.2) fun hf => hf.2 rfl
  · rw [Function.update_of_ne hi]
    exact ⟨fun hf => ⟨hf, hi⟩, fun hf => hf.1⟩

theorem Sound.hit (h : Sound C c last pending) (hbp : bp < C.nrBufs)
    (huse : (c.buf bp).bCount ≠ 255) :
    Sound C (useBlock bp (if (c.buf bp).bCount = 0 then rmLru bp c else c)) last pending := by
  have hsame : ∀ (c₁ : BufCache α), c₁.buf = c.buf → ∀ i, i < C.nrBufs →
      ((useBlock bp c₁).buf i).bBlocknr = (c₁.buf i).bBlocknr := by
    intro c₁ _ i _
    rw [show (useBlock bp c₁).buf = Function.update c₁.buf bp _ from rfl]
    by_cases hi : i = bp
    · subst hi
      rw [Function.update_self]
    · rw [Function.update_of_ne hi]
  by_cases hzero : (c.buf bp).bCount = 0
  · rw [if_pos hzero]
    have hbuf : (rmLru bp c).buf = c.buf := bufs_rmLru.buf
    have huse' : ((rmLru bp c).buf bp).bCount ≠ 255 := by rwa [hbuf]
    refine ⟨?_, ?_⟩
    · have hlinks : SameLinks (rmLru bp c) (useBlock bp (rmLru bp c)) :=
        ⟨rfl, rfl, rfl, rfl, rfl, rfl, rfl⟩
      refine ((h.wired.removed ⟨hbp, hzero⟩).same hlinks (hsame _ hbuf)).congr (fun i => ?_) fun _ => Iff.rfl
      rw [free_useBlock huse', Free, Free, hbuf]
    · exact (h.content.same hbuf bufs_rmLru.disk bufs_rmLru.vm).uses (.inr (use_ne huse'))
  · rw [if_neg hzero]
    have hlinks : SameLinks c (useBlock bp c) := ⟨rfl, rfl, rfl, rfl, rfl, rfl, rfl⟩
    refine ⟨(h.wired.same hlinks (hsame _ rfl)).congr (fun i => ?_) fun _ => Iff.rfl, h.content.uses (.inr (use_ne huse))⟩
    rw [free_useBlock huse]
    exact and_iff_left_of_imp fun hf he => hzero (he ▸ hf.2)

theorem Sound.miss {yieldid : Option (ℕ × ℕ)} (h : Sound C c last pending) (hbp : Free C c bp)
    (hwaits : ∀ i, ¬ Waits c pending i dev block) (hnone : ∀ i, ¬ Holds C c i dev block)
    (hevict : evict C bp c = (yieldid, c₂)) (hc₃ : c₃ = addHash C bp (useBlock bp
      (c₂.setBuf bp { c₂.buf bp with bDev := dev, bBlocknr := block }))) :
    Sound C (fetch C dev block onlySearch yieldid bp c₃) (lastGot dev block onlySearch last)
      (pendingGot dev onlySearch bp (fetch C dev block onlySearch yieldid bp c₃) pending) ∧
    (onlySearch = .NORMAL → dev ≠ NO_DEV →
      Holds C (fetch C dev block onlySearch yieldid bp c₃) bp dev block) := by
  obtain ⟨hwired, hcontent, hold, hfields, hholds, hyields⟩ := evict_spec h hbp
  rw [hevict] at hwired hcontent hold hfields hholds hyields
  dsimp only at hwired hcontent hold hfields hholds hyields
  have hcount : (c₂.buf bp).bCount = 0 := (hfields bp).1.trans hbp.2
  have hbuf : c₃.buf = Function.update c₂.buf bp { c₂.buf bp with
      bDev := dev, bBlocknr := block, bCount := (c₂.buf bp).bCount + 1 } := by
    rw [hc₃, show (addHash C bp (useBlock bp (c₂.setBuf bp _))).buf = Function.update
      (Function.update c₂.buf bp { c₂.buf bp with bDev := dev, bBlocknr := block }) bp
      { Function.update c₂.buf bp { c₂.buf bp with bDev := dev, bBlocknr := block } bp with
        bCount := (Function.update c₂.buf bp
          { c₂.buf bp with bDev := dev, bBlocknr := block } bp).bCount + 1 } from rfl,
      Function.update_idem, Function.update_self]
  have hself : c₃.buf bp = { c₂.buf bp with
      bDev := dev, bBlocknr := block, bCount := (c₂.buf bp).bCount + 1 } := by
    rw [hbuf, Function.update_self]
  have hquiet : pending bp = none := by
    cases hp : pending bp with
    | none => rfl
    | some d => exact absurd hbp.2 (h.content.waiting bp d _ ⟨hp, rfl⟩).2.2.2
  have hused : (c₂.buf bp).bCount + 1 ≠ 0 := by
    rw [hcount]
    decide
  have hfilling : Filling C c₂ c₃ last pending bp dev block :=
    ⟨hcontent, ⟨_, hbuf, rfl, rfl, rfl, hused⟩, by rw [hc₃]; rfl, by rw [hc₃]; rfl, hbp.1, hold,
      hquiet, fun i hi => hnone i (hholds i dev block hi), fun i hi => hwaits i (by
        rwa [Waits, (hfields i).2] at hi)⟩
  obtain ⟨hkept, hlinks⟩ := hfilling.fetch onlySearch fun d n hy => (hyields d n hy).2
  have hwired₃ : Wired C c₃ (Free C c₃) (· < C.nrBufs) := by
    have hsame : SameLinks c₂ (useBlock bp (c₂.setBuf bp
        { c₂.buf bp with bDev := dev, bBlocknr := block })) := ⟨rfl, rfl, rfl, rfl, rfl, rfl, rfl⟩
    have hadd := (hwired.same hsame fun i hi => by
        rw [show (useBlock bp (c₂.setBuf bp _)).buf = Function.update
          (Function.update c₂.buf bp { c₂.buf bp with bDev := dev, bBlocknr := block }) bp _ from rfl,
          Function.update_of_ne hi.2, Function.update_of_ne hi.2]).added fun hi => hi.2 rfl
    rw [← hc₃] at hadd
    refine hadd.congr (fun i => ?_) fun i => ?_
    · rw [Free, Free]
      by_cases hi : i = bp
      · subst hi
        rw [hself]
        exact iff_of_false (fun hf => hused hf.2) fun hf => hf.2 rfl
      · rw [hbuf, Function.update_of_ne hi, (hfields i).1]
        exact (and_iff_left hi).symm
    · by_cases hi : i = bp
      · subst hi
        exact iff_of_true hbp.1 (.inr rfl)
      · exact ⟨fun hlt => .inl ⟨hlt, hi⟩, fun hor => (hor.resolve_right hi).1⟩
  refine ⟨⟨hwired₃.still hlinks.links hlinks.fields, hkept⟩, fun hmode hdev => ?_⟩
  refine ⟨hbp.1, hdev, hlinks.dev hmode hdev, ?_⟩
  rw [(hlinks.fields bp).1, hself]

theorem Sound.get {alloc : Bool} (h : Sound C c last pending)
    (hwaits : ∀ i, ¬ Waits c pending i dev block)
    (huse : ∀ i, searchBlocks C dev block c = some i → (c.buf i).bCount ≠ 255)
    (hok : getBlock C dev block onlySearch alloc c = .ok (bp, c')) :
    (if (searchBlocks C dev block c).isSome then Sound C c' last pending else
      Sound C c' (lastGot dev block onlySearch last) (pendingGot dev onlySearch bp c' pending)) ∧
    (onlySearch = .NORMAL → dev ≠ NO_DEV → Holds C c' bp dev block) := by
  rw [getBlock] at hok
  cases hsearch : searchBlocks C dev block c with
  | some i =>
    rw [hsearch] at hok
    cases hok
    have hdev : dev ≠ NO_DEV := by
      rintro rfl
      rw [searchBlocks, if_pos rfl] at hsearch
      cases hsearch
    obtain ⟨hlt, hblock, hname⟩ := (h.wired.search (fun i hi => hi) hdev).1 bp hsearch
    have hhit := h.hit hlt (huse bp hsearch)
    rw [Option.isSome_some, if_pos rfl]
    refine ⟨hhit, fun _ _ => ⟨hlt, hdev, ?_⟩⟩
    rw [show (useBlock bp (if (c.buf bp).bCount = 0 then rmLru bp c else c)).buf bp = _ from
      Function.update_self ..]
    have hbuf : (if (c.buf bp).bCount = 0 then rmLru bp c else c).buf = c.buf := by
      split
      · exact bufs_rmLru.buf
      · rfl
    rw [hbuf]
    exact ⟨hname, hblock⟩
  | none =>
    rw [hsearch] at hok
    dsimp only at hok
    split at hok
    · cases hok
    · rename_i bp' c₁ htake
      obtain ⟨hfree, hlinks, hdisk, hvm, hfields⟩ := takeOldest_spec h.wired htake
      cases hok
      have hcontent : Content C c₁ last pending := h.content.counted
        (fun i => ⟨(hfields i).1, (hfields i).2.1, (hfields i).2.2.1, (hfields i).2.2.2.1⟩) hdisk hvm
        fun i _ hne => by rw [(hfields i).2.2.2.2]; exact hne
      have hsound : Sound C c₁ last pending :=
        ⟨h.wired.still hlinks fun i => ⟨(hfields i).2.1, (hfields i).2.2.2.2⟩, hcontent⟩
      have hnone : ∀ i, ¬ Holds C c₁ i dev block := by
        rintro i ⟨hi, hdev, hd, hn⟩
        rw [(hfields i).1] at hd
        rw [(hfields i).2.1] at hn
        exact (h.wired.search (fun i hi => hi) hdev).2 hsearch i hi ⟨hn, hd⟩
      rw [if_neg (by simp)]
      exact hsound.miss ⟨hfree.1, by rw [(hfields bp).2.2.2.2]; exact hfree.2⟩
        (fun i hi => hwaits i (by rwa [Waits, (hfields i).2.1] at hi)) hnone rfl rfl

end Steps

section Runs
variable {α : Type*} {C : CacheConfig} {st st' : CacheTraced α} {call : CacheCall α}
  {past : List (CacheTraced α × CacheCall α)}

theorem sound_initially (h : (cacheSystem C).initial st) :
    Sound C st.cache st.last st.pending := by
  obtain ⟨⟨disk, junk, hcache⟩, hpending, hlast⟩ := h
  have hheld : ∀ i d n, ¬ Holds C st.cache i d n := by
    rintro i d n ⟨-, hd, hdev, -⟩
    rw [hcache] at hdev
    exact hd hdev.symm
  have hwait : ∀ i d n, ¬ Waits st.cache st.pending i d n := by
    rintro i d n ⟨hp, -⟩
    rw [hpending] at hp
    cases hp
  refine ⟨?_, fun i _ d n hi => absurd hi (hheld i d n), fun i d n _ hi => absurd hi (hheld i d n),
    fun i d n _ hi => absurd hi (hheld i d n), fun d n e _ _ hl => ?_,
    fun i d n hi => absurd hi (hheld i d n), fun i d n hw => absurd hw (hwait i d n),
    fun i d n hw => absurd hw (hwait i d n)⟩
  · rw [hcache]
    exact (wired_fresh disk junk).congr (fun i => and_iff_left rfl) fun _ => Iff.rfl
  · rw [hlast] at hl
    rw [hcache] at hl ⊢
    exact ⟨Option.some.inj hl, fun e' _ hvm => by cases hvm⟩

theorem Sound.step (h : Sound C st.cache st.last st.pending) (hallowed : call.Allowed C st)
    (hstep : (cacheSystem C).step st call st') : Sound C st'.cache st'.last st'.pending := by
  have hok : callCache C st call = .ok st' := hstep
  cases call with
  | get dev block onlySearch alloc =>
    rw [callCache] at hok
    split at hok
    · cases hok
    · rename_i hget
      obtain ⟨hsound, -⟩ := h.get hallowed.1 hallowed.2 hget
      split at hok
      · rename_i hhit
        cases hok
        rwa [if_pos hhit] at hsound
      · rename_i hmiss
        cases hok
        rwa [if_neg hmiss] at hsound
  | put bp oneShot writeImmed =>
    cases hok
    exact (h.put hallowed.1 hallowed.2 oneShot writeImmed).1
  | modify bp data =>
    cases hok
    exact h.modify hallowed.1 data
  | flush dev =>
    cases hok
    exact h.flush dev
  | read dev bufq transferred =>
    cases hok
    exact h.read hallowed.1 hallowed.2 transferred
  | invalidate device =>
    cases hok
    exact h.invalidate device
  | forget dev block =>
    cases hok
    exact ⟨h.wired.still ⟨rfl, rfl, rfl, rfl, rfl, rfl, rfl⟩ fun _ => ⟨rfl, rfl⟩,
      h.content.forgotten dev block⟩

theorem Sound.in_use (h : Sound C st.cache st.last st.pending) : st.cache.bufsInUse =
    ((Finset.range C.nrBufs).filter fun i => (st.cache.buf i).bCount ≠ 0).card := by
  obtain ⟨l, hl, hmem, hlen⟩ := h.wired.lru
  have hfree : (Finset.range C.nrBufs).filter (fun i => (st.cache.buf i).bCount = 0) = l.toFinset := by
    ext i
    rw [Finset.mem_filter, Finset.mem_range, List.mem_toFinset, hmem]
    rfl
  have hsum := Finset.card_filter_add_card_filter_not (s := Finset.range C.nrBufs)
    (fun i => (st.cache.buf i).bCount = 0)
  rw [hfree, List.toFinset_card_of_nodup hl.nodup, Finset.card_range] at hsum
  have hne : ((Finset.range C.nrBufs).filter fun i => ¬ (st.cache.buf i).bCount = 0).card =
    ((Finset.range C.nrBufs).filter fun i => (st.cache.buf i).bCount ≠ 0).card := rfl
  omega

theorem buffer_cache_kept
    (h : Run (cacheSystem C) (fun _ st call => call.Allowed C st) past st) :
    (∀ i j dev block, Holds C st.cache i dev block → Holds C st.cache j dev block → i = j) ∧
    (∀ b, ∃ l, Path st.cache.bHash (st.cache.bufHash b) l ∧
      ∀ i, i ∈ l ↔ i < C.nrBufs ∧ bufhash C (st.cache.buf i).bBlocknr = b) ∧
    (∃ l, Linked st.cache.bNext st.cache.bPrev st.cache.front st.cache.rear l ∧
      ∀ i, i ∈ l ↔ i < C.nrBufs ∧ (st.cache.buf i).bCount = 0) ∧
    st.cache.bufsInUse =
      ((Finset.range C.nrBufs).filter fun i => (st.cache.buf i).bCount ≠ 0).card ∧
    ∀ dev block alloc bp c, dev ≠ NO_DEV → (CacheCall.get dev block .NORMAL alloc).Allowed C st →
      getBlock C dev block .NORMAL alloc st.cache = .ok (bp, c) → Holds C c bp dev block ∧
      ∀ data, st.last dev block = some data → (c.buf bp).data = data := by
  have hsound : Sound C st.cache st.last st.pending :=
    h.invariant (P := fun st => Sound C st.cache st.last st.pending) (fun _ => sound_initially)
      fun _ _ _ _ hsound hallowed hstep => hsound.step hallowed hstep
  obtain ⟨l, hl, hmem, -⟩ := hsound.wired.lru
  refine ⟨hsound.content.unique, hsound.wired.chain, ⟨l, hl, hmem⟩, hsound.in_use,
    fun dev block alloc bp c hdev hallowed hget => ?_⟩
  obtain ⟨hafter, hheld⟩ := hsound.get hallowed.1 hallowed.2 hget
  refine ⟨hheld rfl hdev, fun data hl => ?_⟩
  have hlast : lastGot dev block .NORMAL st.last = st.last := by
    rw [lastGot, if_neg fun hand => by cases hand.2]
  split at hafter
  · exact hafter.content.content bp dev block data (hheld rfl hdev) hl
  · rw [hlast] at hafter
    exact hafter.content.content bp dev block data (hheld rfl hdev) hl

def twoBuffers : CacheConfig := ⟨2, 1024, 9, fun _ => false, 64, by decide, by decide, by decide⟩

def freshTraced : CacheTraced Bool :=
  ⟨BufCache.fresh twoBuffers (fun _ _ => true) false, fun _ => none, fun _ _ => some true⟩

theorem freshTraced_initial : (cacheSystem twoBuffers).initial freshTraced :=
  ⟨⟨_, _, rfl⟩, rfl, rfl⟩

theorem get_allowed {st : CacheTraced α} {dev block : ℕ} (onlySearch : Search) (alloc : Bool)
    (hquiet : ∀ i, st.pending i = none) (hmiss : searchBlocks C dev block st.cache = none) :
    (CacheCall.get dev block onlySearch alloc).Allowed C st := by
  refine ⟨fun i hi => ?_, fun i hi => ?_⟩
  · rw [Waits, hquiet i] at hi
    cases hi.1
  · rw [hmiss] at hi
    cases hi

theorem put_quiet {ok : List (CacheTraced α × CacheCall α) → CacheTraced α → CacheCall α → Prop}
    {past : List (CacheTraced α × CacheCall α)} {st st' : CacheTraced α} {oneShot writeImmed : Bool}
    (h : Run (cacheSystem C) ok ((st, .put bp oneShot writeImmed) :: past) st')
    (hquiet : ∀ i, st.pending i = none) (i : ℕ) : st'.pending i = none := by
  cases h with
  | next _ _ hstep =>
  cases hstep
  dsimp only
  split
  · by_cases hi : i = bp
    · rw [hi, Function.update_self]
    · rw [Function.update_of_ne hi, hquiet]
  · exact hquiet i

theorem cache_next {past : List (CacheTraced α × CacheCall α)} {st st' : CacheTraced α}
    (h : Run (cacheSystem C) (fun _ st call => call.Allowed C st) past st) (call : CacheCall α)
    (hallowed : call.Allowed C st) (hstep : callCache C st call = .ok st') :
    Run (cacheSystem C) (fun _ st call => call.Allowed C st) ((st, call) :: past) st' :=
  h.next hallowed hstep

theorem buffer_cache_kept_evicts : ∃ past, ∃ st : CacheTraced Bool, ∃ bp c,
    Run (cacheSystem twoBuffers) (fun _ st call => call.Allowed twoBuffers st) past st ∧
    (∃ e ∈ past, e.2 = CacheCall.modify 0 false) ∧
    searchBlocks twoBuffers 1 3 st.cache = none ∧
    getBlock twoBuffers 1 3 .NORMAL true st.cache = .ok (bp, c) ∧ Holds twoBuffers c bp 1 3 ∧
    (c.buf bp).data = false := by
  have hgot := cache_next (.start freshTraced_initial) (.get 1 3 .NORMAL true)
    (get_allowed .NORMAL true (fun _ => rfl) rfl) rfl
  have hwritten := cache_next hgot (.modify 0 false) ⟨by decide, by decide⟩ rfl
  have hput := cache_next hwritten (.put 0 false false) ⟨by decide, by decide⟩ rfl
  have hquiet := put_quiet hput fun _ => rfl
  have hfour := cache_next hput (.get 1 4 .NORMAL true) (get_allowed .NORMAL true hquiet rfl) rfl
  have hfive := cache_next hfour (.get 1 5 .NORMAL true) (get_allowed .NORMAL true hquiet rfl) rfl
  have hback := cache_next hfive (.put 1 false false) ⟨by decide, by decide⟩ rfl
  have hlast := (buffer_cache_kept hback).2.2.2.2 1 3 true 1 _ (by decide)
    (get_allowed .NORMAL true (put_quiet hback hquiet) rfl) rfl
  exact ⟨_, _, 1, _, hback, ⟨_, .tail _ (.tail _ (.tail _ (.tail _ (.head _)))), rfl⟩, rfl, rfl, hlast.1, hlast.2 false rfl⟩

theorem cache_misused :
    (∃ past, ∃ st : CacheTraced Bool, ∃ bp c, Run (cacheSystem twoBuffers) always past st ∧
      (∀ e ∈ past, ∀ bp data, e.2 ≠ CacheCall.modify bp data) ∧
      getBlock twoBuffers 1 0 .NORMAL true st.cache = .ok (bp, c) ∧
      (c.buf bp).data ≠ st.cache.disk 1 0) ∧
    ∃ past, ∃ st : CacheTraced Bool, Run (cacheSystem twoBuffers) always past st ∧
      Holds twoBuffers st.cache 0 1 0 ∧ Holds twoBuffers st.cache 1 1 0 := by
  constructor
  · refine ⟨_, _, _, _, .next (.next (.start freshTraced_initial) trivial
      (show callCache twoBuffers _ (.get 1 0 .NO_READ true) = _ from rfl)) trivial
      (show callCache twoBuffers _ (.put 0 false false) = _ from rfl), ?_, rfl, by decide⟩
    intro e he bp data
    rcases List.mem_cons.mp he with rfl | he
    · exact nofun
    · rw [List.mem_singleton.mp he]
      exact nofun
  · exact ⟨_, _, .next (.next (.next (.next (.start freshTraced_initial) trivial
      (show callCache twoBuffers _ (.get 1 0 .PREFETCH true) = _ from rfl)) trivial
      (show callCache twoBuffers _ (.get 1 0 .PREFETCH true) = _ from rfl)) trivial
      (show callCache twoBuffers _ (.read 1 [0] 1) = _ from rfl)) trivial
      (show callCache twoBuffers _ (.read 1 [1] 1) = _ from rfl),
      ⟨by decide, by decide, by decide, by decide⟩, ⟨by decide, by decide, by decide, by decide⟩⟩

end Runs

end Mfs
