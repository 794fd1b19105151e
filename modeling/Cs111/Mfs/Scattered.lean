import Cs111.Mfs.ShellSort

-- rw_scattered(): the buffers go to the device in runs, and it does as much of each as it likes.
namespace Mfs

inductive RwFlag where
  | READING | WRITING
  deriving DecidableEq, Repr

-- The device leaves iov_size 0 where it has transferred a block, and gives r as its answer.
structure DevResult where
  transferred : ℕ
  ok : Bool

inductive ScatterEvent where
  | devIo (pos : ℕ) (iovec : List ℕ) (transferred : ℕ)
  | put (bp : ℕ)

structure Scatter (α : Type*) where
  cache : BufCache α
  events : List ScatterEvent

section Code
variable {α : Type*} (C : CacheConfig) (rwFlag : RwFlag) (dev : ℕ)

def transferBlock (c : BufCache α) (block bp : ℕ) : BufCache α :=
  match rwFlag with
  | .READING => c.setBuf bp { c.buf bp with data := c.disk dev block }
  | .WRITING =>
    let device := Function.update (c.disk dev) block (c.buf bp).data
    { c with disk := Function.update c.disk dev device }

def blockDevIo (pos : ℕ) (iovec : List ℕ) (transferred : ℕ) (s : Scatter α) : Scatter α where
  cache := (iovec.take transferred).zipIdx.foldl (fun c iop =>
    transferBlock rwFlag dev c ((pos + iop.2 * C.fsBlockSize) / C.fsBlockSize) iop.1) s.cache
  events := s.events ++ [.devIo pos iovec transferred]

def putBack (bp : ℕ) (s : Scatter α) : Scatter α where
  cache := putBlock C bp false false s.cache
  events := s.events ++ [.put bp]

-- for (j = 0; j < NR_IOREQS && j < bufqsize; j++); block_t has 32 bits
def runFrom (c : BufCache α) (first : ℕ) : ℕ → List ℕ → ℕ
  | j, [] => j
  | j, bp :: q =>
    if j < C.nrIoreqs ∧ blocknrOf c bp = (first + j) % 2 ^ 32 then runFrom c first (j + 1) q
    else j

def harvest (res : DevResult) : ℕ → List ℕ → Scatter α → ℕ × Scatter α
  | i, [], s => (i, s)
  | i, bp :: iovec, s =>
    if i < res.transferred then
      match rwFlag with
      | .READING =>
        let c := s.cache.setBuf bp { s.cache.buf bp with bDev := dev }
        harvest res (i + 1) iovec (putBack C bp { s with cache := c })
      | .WRITING =>
        let c := s.cache.setBuf bp { s.cache.buf bp with bDirt := false }
        harvest res (i + 1) iovec { s with cache := c }
    else if res.ok = false ∧ i = 0 then
      let c := s.cache.setBuf bp { s.cache.buf bp with bDev := NO_DEV }
      (i, { s with cache := { c with vm := fun _ _ => none } })
    else (i, s)

def scatterLoop (results : ℕ → DevResult) : ℕ → ℕ → List ℕ → Scatter α → Option (Scatter α)
  | 0, _, _, _ => none
  | _ + 1, _, [], s => some s
  | fuel + 1, n, first :: rest, s =>
    let q := first :: rest
    let blocknr := blocknrOf s.cache first
    let iovec := q.take (runFrom C s.cache blocknr 0 q)
    let s := blockDevIo C rwFlag dev (blocknr * C.fsBlockSize) iovec (results n).transferred s
    let (i, s) := harvest C rwFlag dev (results n) 0 iovec s
    match rwFlag with
    | .READING =>
      let s := (q.drop i).foldl (fun s bp => putBack C bp s) s
      scatterLoop results fuel (n + 1) [] s
    | .WRITING => if i = 0 then some s else scatterLoop results fuel (n + 1) (q.drop i) s

-- results n is what the device makes of the n-th request; none if a loop goes on too long.
def rwScattered (results : ℕ → DevResult) (fuel : ℕ) (bufq : List ℕ) (c : BufCache α) :
    Option (Scatter α) :=
  (shellSortWithin (blocknrOf c) fuel bufq).bind fun q =>
    scatterLoop C rwFlag dev results fuel 0 q ⟨c, []⟩

end Code

section Events

def ScatterEvent.transfers : ScatterEvent → List ℕ
  | .devIo _ iovec transferred => iovec.take transferred
  | .put _ => []

def ScatterEvent.puts : ScatterEvent → List ℕ
  | .devIo .. => []
  | .put bp => [bp]

def transfers (events : List ScatterEvent) : List ℕ := events.flatMap ScatterEvent.transfers

def puts (events : List ScatterEvent) : List ℕ := events.flatMap ScatterEvent.puts

def ScatterEvent.Placed (blockSize : ℕ) (blocknr : ℕ → ℕ) : ScatterEvent → Prop
  | .devIo pos iovec transferred => ∀ k bp, k < transferred → iovec[k]? = some bp →
      pos + k * blockSize = blocknr bp * blockSize
  | .put _ => True

variable {events : List ScatterEvent} {q : List ℕ}

@[simp]
theorem transfers_append (events' : List ScatterEvent) :
    transfers (events ++ events') = transfers events ++ transfers events' :=
  List.flatMap_append

@[simp]
theorem puts_append (events' : List ScatterEvent) :
    puts (events ++ events') = puts events ++ puts events' :=
  List.flatMap_append

@[simp]
theorem puts_map_put : puts (q.map .put) = q := by
  induction q with
  | nil => rfl
  | cons bp q ih => exact congrArg (bp :: ·) ih

@[simp]
theorem transfers_map_put : transfers (q.map .put) = [] := by
  induction q with
  | nil => rfl
  | cons bp q ih => exact ih

end Events

section Steps
variable {α : Type*} {C : CacheConfig} {rwFlag : RwFlag} {dev i j first : ℕ} {q iovec : List ℕ}
  {c c' : BufCache α} {s s' : Scatter α} {res : DevResult}

structure Named (c c' : BufCache α) : Prop where
  blocknr : ∀ b, (c'.buf b).bBlocknr = (c.buf b).bBlocknr
  dirt : ∀ b, (c'.buf b).bDirt = (c.buf b).bDirt

theorem Named.refl (c : BufCache α) : Named c c := ⟨fun _ => rfl, fun _ => rfl⟩

theorem Named.trans {c'' : BufCache α} (h : Named c c') (h' : Named c' c'') : Named c c'' where
  blocknr b := (h'.blocknr b).trans (h.blocknr b)
  dirt b := (h'.dirt b).trans (h.dirt b)

theorem named_set {bp : Buf α} (hblocknr : bp.bBlocknr = (c.buf i).bBlocknr)
    (hdirt : bp.bDirt = (c.buf i).bDirt) : Named c (c.setBuf i bp) := by
  constructor <;> intro b <;> rw [BufCache.setBuf] <;> dsimp only <;>
    rcases eq_or_ne b i with rfl | hne
  · rw [Function.update_self, hblocknr]
  · rw [Function.update_of_ne hne]
  · rw [Function.update_self, hdirt]
  · rw [Function.update_of_ne hne]

theorem put_named (bp : ℕ) : Named c (putBlock C bp false false c) := by
  have hset : Named c (c.setBuf bp { c.buf bp with bCount := (c.buf bp).bCount - 1 }) :=
    named_set rfl rfl
  rw [putBlock]
  dsimp only
  split
  · exact hset
  · rw [if_neg (by simp)]
    refine ⟨fun b => ?_, fun b => ?_⟩ <;> rw [bufs_putLru.buf]
    · exact hset.blocknr b
    · exact hset.dirt b

theorem transfer_named (block bp : ℕ) : Named c (transferBlock rwFlag dev c block bp) := by
  cases rwFlag with
  | READING => exact named_set rfl rfl
  | WRITING => exact ⟨fun _ => rfl, fun _ => rfl⟩

theorem devIo_named (pos transferred : ℕ) :
    Named s.cache (blockDevIo C rwFlag dev pos iovec transferred s).cache := by
  have hloop : ∀ (iops : List (ℕ × ℕ)) (c : BufCache α), Named c (iops.foldl (fun c iop =>
      transferBlock rwFlag dev c ((pos + iop.2 * C.fsBlockSize) / C.fsBlockSize) iop.1) c) := by
    intro iops
    induction iops with
    | nil => exact fun c => .refl c
    | cons iop iops ih => exact fun c => (transfer_named _ _).trans (ih _)
  exact hloop _ s.cache

theorem runFrom_spec : j ≤ runFrom C c first j q ∧ runFrom C c first j q ≤ j + q.length ∧
    ∀ k bp, j + k < runFrom C c first j q → q[k]? = some bp →
      blocknrOf c bp = (first + (j + k)) % 2 ^ 32 := by
  induction q generalizing j with
  | nil => exact ⟨le_rfl, le_rfl, fun k bp _ hbp => by cases hbp⟩
  | cons bp q ih =>
    rw [runFrom]
    split
    · rename_i hnext
      obtain ⟨hge, hle, hrun⟩ := ih (j := j + 1)
      refine ⟨by omega, by rw [List.length_cons]; omega, fun k b hk hb => ?_⟩
      cases k with
      | zero =>
        cases hb
        exact hnext.2
      | succ k =>
        rw [show j + (k + 1) = j + 1 + k by omega] at hk ⊢
        exact hrun k b hk hb
    · exact ⟨le_rfl, Nat.le_add_right j _, fun k b hk => absurd hk (by omega)⟩

structure Harvested (rwFlag : RwFlag) (res : DevResult) (i : ℕ) (iovec : List ℕ)
    (s : Scatter α) (i' : ℕ) (s' : Scatter α) : Prop where
  ge : i ≤ i'
  le : i' ≤ i + iovec.length
  transferred : i' ≤ max i res.transferred
  blocknr : ∀ b, (s'.cache.buf b).bBlocknr = (s.cache.buf b).bBlocknr
  events : s'.events = s.events ++
    if rwFlag = .READING then (iovec.take (i' - i)).map .put else []
  dirt : ∀ b, (s'.cache.buf b).bDirt = (s.cache.buf b).bDirt ∨
    rwFlag = .WRITING ∧ b ∈ iovec.take (i' - i)

theorem Harvested.cons {i' bp : ℕ} {s₁ : Scatter α}
    (h : Harvested rwFlag res (i + 1) iovec s₁ i' s') (hi : i < res.transferred)
    (hblocknr : ∀ b, (s₁.cache.buf b).bBlocknr = (s.cache.buf b).bBlocknr)
    (hevents : s₁.events = s.events ++ if rwFlag = .READING then [.put bp] else [])
    (hdirt : ∀ b, (s₁.cache.buf b).bDirt = (s.cache.buf b).bDirt ∨ rwFlag = .WRITING ∧ b = bp) :
    Harvested rwFlag res i (bp :: iovec) s i' s' := by
  have hge := h.ge
  have hle := h.le
  have htransferred := h.transferred
  have htake : (bp :: iovec).take (i' - i) = bp :: iovec.take (i' - (i + 1)) := by
    rw [show i' - i = i' - (i + 1) + 1 by omega, List.take_succ_cons]
  refine ⟨by omega, ?_, by omega, fun b => (h.blocknr b).trans (hblocknr b), ?_, fun b => ?_⟩
  · rw [List.length_cons]
    omega
  · rw [h.events, hevents, htake, List.append_assoc]
    split
    · rfl
    · rfl
  · rw [htake]
    rcases h.dirt b with heq | ⟨hwriting, hmem⟩
    · rw [heq]
      exact (hdirt b).imp_right fun ⟨hwriting, hb⟩ => ⟨hwriting, hb ▸ List.mem_cons_self⟩
    · exact .inr ⟨hwriting, List.mem_cons_of_mem _ hmem⟩

theorem harvested_none {n : ℕ} (h : Named s.cache c) :
    Harvested rwFlag res n iovec s n { s with cache := c } := by
  refine ⟨le_rfl, Nat.le_add_right n _, le_max_left _ _, h.blocknr, ?_, fun b => .inl (h.dirt b)⟩
  simp

variable (C dev) in
theorem harvest_spec : Harvested rwFlag res i iovec s (harvest C rwFlag dev res i iovec s).1
    (harvest C rwFlag dev res i iovec s).2 := by
  induction iovec generalizing i s with
  | nil => exact harvested_none (.refl s.cache)
  | cons bp iovec ih =>
    rw [harvest.eq_def]
    dsimp only
    split
    · rename_i htransferred
      cases rwFlag with
      | READING =>
        have hset : Named s.cache (s.cache.setBuf bp { s.cache.buf bp with bDev := dev }) :=
          named_set rfl rfl
        have hput := hset.trans (put_named (C := C) bp)
        exact ih.cons htransferred hput.blocknr rfl fun b => .inl (hput.dirt b)
      | WRITING =>
        refine ih.cons htransferred (fun b => ?_) (List.append_nil _).symm fun b => ?_
        · rw [BufCache.setBuf]
          dsimp only
          rcases eq_or_ne b bp with rfl | hne
          · rw [Function.update_self]
          · rw [Function.update_of_ne hne]
        · rw [BufCache.setBuf]
          dsimp only
          rcases eq_or_ne b bp with rfl | hne
          · exact .inr ⟨rfl, rfl⟩
          · rw [Function.update_of_ne hne]
            exact .inl rfl
    · split
      · have hset : Named s.cache (s.cache.setBuf bp { s.cache.buf bp with bDev := NO_DEV }) :=
          named_set rfl rfl
        exact harvested_none ⟨hset.blocknr, hset.dirt⟩
      · exact harvested_none (.refl s.cache)

theorem release_events (q : List ℕ) :
    (q.foldl (fun s bp => putBack C bp s) s).events = s.events ++ q.map .put := by
  induction q generalizing s with
  | nil => exact (List.append_nil _).symm
  | cons bp q ih =>
    rw [List.foldl_cons, ih, putBack, List.append_assoc]
    rfl

end Steps

section Runs
variable {α : Type*} {C : CacheConfig} {rwFlag : RwFlag} {dev : ℕ} {results : ℕ → DevResult}
  {fuel n bp : ℕ} {q : List ℕ} {c : BufCache α} {s s' s'' : Scatter α}
  {ext ext' : List ScatterEvent}

structure InOrder (c : BufCache α) (q : List ℕ) : Prop where
  sorted : q.Pairwise fun a b => blocknrOf c a < blocknrOf c b
  range : ∀ bp ∈ q, blocknrOf c bp < 2 ^ 32

theorem InOrder.drop (h : InOrder c q) (n : ℕ) : InOrder c (q.drop n) where
  sorted := h.sorted.sublist (List.drop_sublist n q)
  range bp hbp := h.range bp (List.mem_of_mem_drop hbp)

theorem InOrder.ge {k : ℕ} (h : InOrder c (bp :: q)) {b : ℕ} (hb : (bp :: q)[k]? = some b) :
    blocknrOf c bp + k ≤ blocknrOf c b := by
  induction k generalizing bp q with
  | zero =>
    cases hb
    exact le_rfl
  | succ k ih =>
    cases q with
    | nil => cases hb
    | cons next q =>
      obtain ⟨hfirst, hrest⟩ := List.pairwise_cons.mp h.sorted
      have hlt := hfirst next List.mem_cons_self
      have hle := ih (h.drop 1) hb
      omega

-- A request: the k-th block after the first is the k-th buffer of the run.
variable (C) in
theorem run_placed (h : InOrder c (bp :: q)) (hblocknr : ∀ b, blocknrOf s.cache b = blocknrOf c b)
    (transferred : ℕ) :
    ScatterEvent.Placed C.fsBlockSize (blocknrOf c) (.devIo (blocknrOf s.cache bp * C.fsBlockSize)
      ((bp :: q).take (runFrom C s.cache (blocknrOf s.cache bp) 0 (bp :: q))) transferred) := by
  intro k b _ hb
  rw [List.getElem?_take, Option.ite_none_right_eq_some] at hb
  obtain ⟨hk, hb⟩ := hb
  have hspec : 0 ≤ runFrom C s.cache (blocknrOf s.cache bp) 0 (bp :: q) ∧ _ := runFrom_spec
  obtain ⟨-, -, hrun⟩ := hspec
  have hat := hrun k b (by omega) hb
  have hge := h.ge hb
  have hlt := h.range b (List.mem_of_getElem? hb)
  rw [hblocknr, hblocknr, Nat.zero_add, Nat.mod_eq_of_lt (by omega)] at hat
  rw [hblocknr, hat, Nat.add_mul]

structure Wrote (C : CacheConfig) (c : BufCache α) (q : List ℕ) (s s' : Scatter α) : Prop where
  blocknr : ∀ b, blocknrOf s'.cache b = blocknrOf s.cache b
  events : ∃ ext, s'.events = s.events ++ ext ∧
    (∀ e ∈ ext, e.Placed C.fsBlockSize (blocknrOf c)) ∧ puts ext = [] ∧
    (∀ bp ∈ transfers ext, bp ∈ q) ∧
    ∀ b, (s'.cache.buf b).bDirt = (s.cache.buf b).bDirt ∨ b ∈ transfers ext

theorem Wrote.nothing (s : Scatter α) : Wrote C c q s s :=
  ⟨fun _ => rfl, [], (List.append_nil _).symm, by simp, rfl, by simp [transfers],
    fun _ => .inl rfl⟩

theorem Wrote.trans (h : Wrote C c q s s') (h' : Wrote C c (q.drop n) s' s'') :
    Wrote C c q s s'' := by
  obtain ⟨ext, hevents, hplaced, hputs, hwithin, hdirt⟩ := h.events
  obtain ⟨ext', hevents', hplaced', hputs', hwithin', hdirt'⟩ := h'.events
  refine ⟨fun b => (h'.blocknr b).trans (h.blocknr b), ext ++ ext', ?_, ?_, ?_, ?_, fun b => ?_⟩
  · rw [hevents', hevents, List.append_assoc]
  · intro e he
    exact (List.mem_append.mp he).elim (hplaced e) (hplaced' e)
  · rw [puts_append, hputs, hputs', List.append_nil]
  · intro bp hbp
    rw [transfers_append] at hbp
    exact (List.mem_append.mp hbp).elim (hwithin bp) fun h => List.mem_of_mem_drop (hwithin' bp h)
  · rw [transfers_append, List.mem_append]
    rcases hdirt' b with heq | hmem
    · rw [heq]
      exact (hdirt b).imp_right .inl
    · exact .inr (.inr hmem)

-- One request and its harvest.
variable (C dev) in
theorem write_round (h : InOrder c (bp :: q)) (hblocknr : ∀ b, blocknrOf s.cache b = blocknrOf c b)
    (res : DevResult) :
    Wrote C c (bp :: q) s (harvest C .WRITING dev res 0
      ((bp :: q).take (runFrom C s.cache (blocknrOf s.cache bp) 0 (bp :: q)))
      (blockDevIo C .WRITING dev (blocknrOf s.cache bp * C.fsBlockSize)
        ((bp :: q).take (runFrom C s.cache (blocknrOf s.cache bp) 0 (bp :: q)))
        res.transferred s)).2 := by
  have hplaced := run_placed C h hblocknr res.transferred
  have hwithin : ∀ b ∈ (bp :: q).take (runFrom C s.cache (blocknrOf s.cache bp) 0 (bp :: q)),
      b ∈ bp :: q := fun b hb => List.mem_of_mem_take hb
  generalize (bp :: q).take (runFrom C s.cache (blocknrOf s.cache bp) 0 (bp :: q)) = iovec
    at hplaced hwithin ⊢
  generalize blocknrOf s.cache bp * C.fsBlockSize = pos at hplaced ⊢
  have hnamed : Named s.cache (blockDevIo C .WRITING dev pos iovec res.transferred s).cache :=
    devIo_named pos res.transferred
  have hspec : Harvested .WRITING res 0 iovec
      (blockDevIo C .WRITING dev pos iovec res.transferred s) _ _ :=
    harvest_spec C dev
  have htransfers : transfers [.devIo pos iovec res.transferred] =
      iovec.take res.transferred := List.append_nil _
  refine ⟨fun b => (hspec.blocknr b).trans (hnamed.blocknr b),
    [.devIo pos iovec res.transferred], ?_, ?_, rfl, ?_, fun b => ?_⟩
  · rw [hspec.events, if_neg (by rintro ⟨⟩), List.append_nil, blockDevIo]
  · simpa using hplaced
  · rw [htransfers]
    exact fun b hb => hwithin b (List.mem_of_mem_take hb)
  · rw [htransfers]
    have hle := hspec.transferred
    refine (hspec.dirt b).imp (fun heq => heq.trans (hnamed.dirt b)) fun ⟨_, hmem⟩ => ?_
    exact (List.take_subset_take_left iovec (by omega)) hmem

theorem write_loop (hfuel : q.length < fuel) (h : InOrder c q)
    (hblocknr : ∀ b, blocknrOf s.cache b = blocknrOf c b) :
    ∃ s', scatterLoop C .WRITING dev results fuel n q s = some s' ∧ Wrote C c q s s' := by
  induction fuel generalizing n q s with
  | zero => exact absurd hfuel (Nat.not_lt_zero _)
  | succ fuel ih =>
    cases q with
    | nil => exact ⟨s, rfl, .nothing s⟩
    | cons bp q =>
      have hround := write_round C dev h hblocknr (results n)
      rw [scatterLoop]
      dsimp only
      generalize harvest C .WRITING dev (results n) 0 _ _ = r at hround ⊢
      split
      · exact ⟨_, rfl, hround⟩
      · rename_i hmoved
        have hless : ((bp :: q).drop r.1).length < fuel := by
          rw [List.length_cons] at hfuel
          rw [List.length_drop, List.length_cons]
          omega
        obtain ⟨s', hs', hrest⟩ := ih (n := n + 1) hless (h.drop r.1)
          fun b => (hround.blocknr b).trans (hblocknr b)
        exact ⟨s', hs', hround.trans hrest⟩

theorem scatterLoop_more {m : ℕ} (h : scatterLoop C rwFlag dev results fuel n q s = some s')
    (hm : fuel ≤ m) : scatterLoop C rwFlag dev results m n q s = some s' := by
  induction fuel generalizing m n q s with
  | zero => cases h
  | succ fuel ih =>
    obtain ⟨m, rfl⟩ : ∃ k, m = k + 1 := ⟨m - 1, by omega⟩
    cases q with
    | nil => exact h
    | cons bp q =>
      cases rwFlag with
      | READING =>
        rw [scatterLoop] at h ⊢
        exact ih h (by omega)
      | WRITING =>
        rw [scatterLoop] at h ⊢
        dsimp only at h ⊢
        split at h
        · rename_i hstuck
          rwa [if_pos hstuck]
        · rename_i hmoved
          rw [if_neg hmoved]
          exact ih h (by omega)

structure Scattered (C : CacheConfig) (rwFlag : RwFlag) (bufq : List ℕ) (c : BufCache α)
    (s : Scatter α) : Prop where
  placed : ∀ e ∈ s.events, e.Placed C.fsBlockSize (blocknrOf c)
  within : ∀ bp ∈ transfers s.events, bp ∈ bufq
  once : (puts s.events).Nodup
  clean : rwFlag = .WRITING → ∀ b, (c.buf b).bDirt = true → (s.cache.buf b).bDirt = false →
    b ∈ transfers s.events
  released : rwFlag = .READING → (puts s.events).Perm bufq

theorem wrote_scattered (h : Wrote C c q ⟨c, []⟩ s) : Scattered C .WRITING q c s := by
  obtain ⟨ext, hevents, hplaced, hputs, hwithin, hdirt⟩ := h.events
  rw [List.nil_append] at hevents
  refine ⟨?_, ?_, ?_, fun _ b hdirty hclean => ?_, by rintro ⟨⟩⟩
  · rwa [hevents]
  · rwa [hevents]
  · rw [hevents, hputs]
    exact List.nodup_nil
  · rw [hevents]
    refine (hdirt b).resolve_left fun heq => ?_
    rw [heq, hdirty] at hclean
    cases hclean

theorem read_loop (hfuel : q.length < fuel) (h : InOrder c q) :
    ∃ s', scatterLoop C .READING dev results fuel n q ⟨c, []⟩ = some s' ∧
      puts s'.events = q ∧ (∀ e ∈ s'.events, e.Placed C.fsBlockSize (blocknrOf c)) ∧
      ∀ bp ∈ transfers s'.events, bp ∈ q := by
  obtain ⟨fuel, rfl⟩ : ∃ m, fuel = m + 1 := ⟨fuel - 1, by omega⟩
  cases q with
  | nil => exact ⟨_, rfl, rfl, by simp, by simp [transfers]⟩
  | cons bp q =>
    rw [List.length_cons] at hfuel
    obtain ⟨fuel, rfl⟩ : ∃ m, fuel = m + 1 := ⟨fuel - 1, by omega⟩
    have hplaced := run_placed (C := C) (s := ⟨c, []⟩) h (fun _ => rfl) (results n).transferred
    rw [scatterLoop]
    dsimp only
    refine ⟨_, rfl, ?_⟩
    generalize runFrom C c (blocknrOf c bp) 0 (bp :: q) = j at hplaced ⊢
    generalize blocknrOf c bp * C.fsBlockSize = pos at hplaced ⊢
    have hspec : Harvested .READING (results n) 0 ((bp :: q).take j)
        (blockDevIo C .READING dev pos ((bp :: q).take j) (results n).transferred ⟨c, []⟩) _ _ :=
      harvest_spec C dev
    have hle := hspec.le
    rw [release_events, hspec.events, if_pos rfl]
    generalize (harvest C .READING dev (results n) 0 _ _).1 = i at hle ⊢
    rw [List.length_take] at hle
    have htake : ((bp :: q).take j).take (i - 0) = (bp :: q).take i := by
      rw [List.take_take]
      congr 1
      omega
    rw [htake]
    have hevents : (blockDevIo C .READING dev pos ((bp :: q).take j) (results n).transferred
        ⟨c, []⟩).events = [.devIo pos ((bp :: q).take j) (results n).transferred] := rfl
    rw [hevents, List.append_assoc, ← List.map_append, List.take_append_drop]
    refine ⟨?_, ?_, fun b hb => ?_⟩
    · rw [puts_append, puts_map_put]
      rfl
    · intro e he
      rcases List.mem_append.mp he with he | he
      · rwa [List.mem_singleton.mp he]
      · obtain ⟨b, -, rfl⟩ := List.mem_map.mp he
        trivial
    · rw [transfers_append, transfers_map_put, List.append_nil] at hb
      have hmem : b ∈ ((bp :: q).take j).take (results n).transferred := by
        simpa [transfers, ScatterEvent.transfers] using hb
      exact List.mem_of_mem_take (List.mem_of_mem_take hmem)

theorem shellSort_inOrder {bufq : List ℕ} (hdistinct : (bufq.map (blocknrOf c)).Nodup)
    (hrange : ∀ bp ∈ bufq, blocknrOf c bp < 2 ^ 32) :
    InOrder c (shellSort (blocknrOf c) bufq) := by
  have hperm : (shellSort (blocknrOf c) bufq).Perm bufq := shellSort_perm bufq
  refine ⟨?_, fun bp hbp => hrange bp (hperm.mem_iff.mp hbp)⟩
  have hne : ((shellSort (blocknrOf c) bufq).map (blocknrOf c)).Nodup :=
    (hperm.map _).nodup_iff.mpr hdistinct
  refine (shellSort_sorted bufq).imp₂ (fun a b hle hne => ?_) (List.pairwise_map.mp hne)
  exact lt_of_le_of_ne hle hne

theorem scattered (C : CacheConfig) (rwFlag : RwFlag) (dev : ℕ) (results : ℕ → DevResult)
    (bufq : List ℕ) (c : BufCache α) (hdistinct : (bufq.map (blocknrOf c)).Nodup)
    (hrange : ∀ bp ∈ bufq, blocknrOf c bp < 2 ^ 32) :
    ∃ s, (∀ fuel, 3 * bufq.length + 4 ≤ fuel →
      rwScattered C rwFlag dev results fuel bufq c = some s) ∧ Scattered C rwFlag bufq c s := by
  have horder := shellSort_inOrder hdistinct hrange
  have hperm : (shellSort (blocknrOf c) bufq).Perm bufq := shellSort_perm bufq
  have hlen : (shellSort (blocknrOf c) bufq).length < bufq.length + 1 := by
    rw [hperm.length_eq]
    exact Nat.lt_succ_self _
  have hrun : ∀ {s}, scatterLoop C rwFlag dev results (bufq.length + 1) 0
      (shellSort (blocknrOf c) bufq) ⟨c, []⟩ = some s → ∀ fuel, 3 * bufq.length + 4 ≤ fuel →
        rwScattered C rwFlag dev results fuel bufq c = some s := by
    intro s hs fuel hfuel
    rw [rwScattered, shellSortWithin_eq hfuel, Option.bind_some]
    exact scatterLoop_more hs (by omega)
  cases rwFlag with
  | READING =>
    obtain ⟨s, hs, hputs, hplaced, hwithin⟩ := read_loop hlen horder
    refine ⟨s, hrun hs, hplaced, fun bp hbp => hperm.mem_iff.mp (hwithin bp hbp), ?_,
      by rintro ⟨⟩, fun _ => hputs ▸ hperm⟩
    rw [hputs]
    exact hperm.nodup_iff.mpr hdistinct.of_map
  | WRITING =>
    obtain ⟨s, hs, hwrote⟩ := write_loop (s := ⟨c, []⟩) hlen horder fun _ => rfl
    have hscattered := wrote_scattered hwrote
    exact ⟨s, hrun hs, hscattered.placed, fun bp hbp => hperm.mem_iff.mp (hscattered.within bp hbp),
      hscattered.once, hscattered.clean, by rintro ⟨⟩⟩

end Runs

-- Three dirty buffers, two of them with blocks that follow each other.
section Sample

theorem sample_bufs : 0 < 3 := by decide

theorem sample_block : 0 < 4096 := by decide

theorem sample_ioreqs : 0 < 64 := by decide

def sampleScatterConfig : CacheConfig where
  nrBufs := 3
  fsBlockSize := 4096
  devRam := 0
  vmcache _ := false
  nrIoreqs := 64
  nr_pos := sample_bufs
  size_pos := sample_block
  ioreqs_pos := sample_ioreqs

def sampleDirty : BufCache ℕ :=
  { BufCache.fresh sampleScatterConfig (fun _ _ => 0) 0 with
    buf := fun i => ⟨if i = 0 then 9 else 3 + i, 1, true, 1, 4096, i⟩ }

theorem scattered_three : ∃ s, (∀ fuel, 3 * 3 + 4 ≤ fuel →
    rwScattered sampleScatterConfig .WRITING 1 (fun n => ⟨if n = 2 then 0 else 1, false⟩) fuel
      [0, 1, 2] sampleDirty = some s) ∧
    Scattered sampleScatterConfig .WRITING [0, 1, 2] sampleDirty s :=
  scattered sampleScatterConfig .WRITING 1 (fun n => ⟨if n = 2 then 0 else 1, false⟩) [0, 1, 2]
    sampleDirty (by decide) (by decide)

end Sample

end Mfs
