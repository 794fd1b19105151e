import Cs111.Lib.RingScan
import Cs111.Mfs.InodeTable
import Mathlib.Data.Finset.Option
import Mathlib.Data.List.Find

-- The bit maps of MFS, word by word.
namespace Mfs.Bitmap
open RingScan

inductive MapKind where
  | IMAP | ZMAP
  deriving DecidableEq, Repr

structure SuperMaps where
  sRdOnly : Bool
  sNative : Bool
  sBlockSize : ℕ
  sImapBlocks : ℕ
  sZmapBlocks : ℕ
  sNinodes : ℕ
  sZones : ℕ
  sFirstdatazone : ℕ

-- The words of the blocks of the device; bitchunk_t has the 16 bits that conv2 swaps.
abbrev Device := ℕ → ℕ → BitVec 16

def FS_BITCHUNK_BITS : ℕ := 16

def NO_BIT : ℕ := 0

section Source
variable (sp : SuperMaps) (map : MapKind)

def chunks : ℕ := sp.sBlockSize / 2

def bitsPerBlock : ℕ := chunks sp * FS_BITCHUNK_BITS

def startBlock : ℕ :=
  match map with
  | .IMAP => START_BLOCK
  | .ZMAP => START_BLOCK + sp.sImapBlocks

def mapBits : ℕ :=
  match map with
  | .IMAP => sp.sNinodes + 1
  | .ZMAP => sp.sZones - (sp.sFirstdatazone - 1)

def bitBlocks : ℕ :=
  match map with
  | .IMAP => sp.sImapBlocks
  | .ZMAP => sp.sZmapBlocks

def firstClear (k : BitVec 16) : ℕ := ((List.range 16).find? fun i => !k.getLsbD i).getD 16

structure Place where
  block : ℕ
  word : ℕ
  bit : ℕ

def Place.number (p : Place) : ℕ := p.block * bitsPerBlock sp + p.word * FS_BITCHUNK_BITS + p.bit

def scanWords (d : Device) (block : ℕ) : ℕ → ℕ → Option Place
  | 0, _ => none
  | n + 1, word =>
    let w := d (startBlock sp map + block) word
    if w = BitVec.allOnes 16 then scanWords d block n (word + 1)
    else
      let p := ⟨block, word, firstClear (swap2 sp.sNative w)⟩
      if p.number sp ≥ mapBits sp map then none else some p

def scanBlocks (d : Device) : ℕ → ℕ → ℕ → Option Place
  | 0, _, _ => none
  | bcount + 1, block, word =>
    match scanWords sp map d block (chunks sp - word) word with
    | some p => some p
    | none =>
      scanBlocks d bcount (if block + 1 ≥ bitBlocks sp map then 0 else block + 1) 0

def store (d : Device) (block word : ℕ) (k : BitVec 16) : Device := fun n w =>
  if n = startBlock sp map + block ∧ w = word then swap2 sp.sNative k else d n w

def load (d : Device) (block word : ℕ) : BitVec 16 :=
  swap2 sp.sNative (d (startBlock sp map + block) word)

def allocBit (origin : ℕ) (d : Device) : Except Fault (ℕ × Device) :=
  if sp.sRdOnly then .error .panic
  else
    let origin := if origin ≥ mapBits sp map then 0 else origin
    match scanBlocks sp map d (bitBlocks sp map + 1) (origin / bitsPerBlock sp)
        (origin % bitsPerBlock sp / FS_BITCHUNK_BITS) with
    | none => .ok (NO_BIT, d)
    | some p =>
      let k := load sp map d p.block p.word ||| (1#16 <<< p.bit)
      .ok (p.number sp, store sp map d p.block p.word k)

def freeBit (bitReturned : ℕ) (d : Device) : Except Fault Device :=
  if sp.sRdOnly then .error .panic
  else
    let block := bitReturned / bitsPerBlock sp
    let word := bitReturned % bitsPerBlock sp / FS_BITCHUNK_BITS
    let mask := 1#16 <<< (bitReturned % FS_BITCHUNK_BITS)
    let k := load sp map d block word
    if k &&& mask = 0 then .error .panic
    else .ok (store sp map d block word (k &&& ~~~mask))

end Source

def isSet (sp : SuperMaps) (map : MapKind) (d : Device) (c : ℕ) : Bool :=
  (load sp map d (c / bitsPerBlock sp) (c % bitsPerBlock sp / FS_BITCHUNK_BITS)).getLsbD
    (c % FS_BITCHUNK_BITS)

section Places
variable {sp : SuperMaps} {map : MapKind} {d : Device} {p : Place} {k : BitVec 16}

theorem firstClear_spec (h : k ≠ BitVec.allOnes 16) :
    firstClear k < 16 ∧ k.getLsbD (firstClear k) = false ∧
      ∀ j < firstClear k, k.getLsbD j = true := by
  cases hfind : (List.range 16).find? fun i => !k.getLsbD i with
  | none =>
    rw [List.find?_range_eq_none] at hfind
    refine absurd (BitVec.eq_of_getLsbD_eq fun i hi => ?_) h
    rw [BitVec.getLsbD_allOnes, decide_eq_true hi]
    simpa using hfind i hi
  | some i =>
    rw [firstClear, hfind]
    rw [List.find?_range_eq_some] at hfind
    obtain ⟨hclear, hi, hless⟩ := hfind
    exact ⟨List.mem_range.1 hi, by simpa using hclear, fun j hj => by simpa using hless j hj⟩

theorem swap2_allOnes (norm : Bool) : swap2 norm (BitVec.allOnes 16) = BitVec.allOnes 16 := by
  cases norm <;> decide

theorem swap2_full {norm : Bool} {w : BitVec 16} (h : w ≠ BitVec.allOnes 16) :
    swap2 norm w ≠ BitVec.allOnes 16 := by
  intro hswap
  rw [← swap2_swap2 norm w, hswap, swap2_allOnes] at h
  exact h rfl

structure Place.Ok (sp : SuperMaps) (p : Place) : Prop where
  word : p.word < chunks sp
  bit : p.bit < 16

theorem Place.Ok.number_lt (h : p.Ok sp) :
    p.word * FS_BITCHUNK_BITS + p.bit < bitsPerBlock sp := by
  have hword := h.word
  have hbit := h.bit
  unfold bitsPerBlock FS_BITCHUNK_BITS
  omega

theorem Place.Ok.parts (h : p.Ok sp) :
    p.number sp / bitsPerBlock sp = p.block ∧
      p.number sp % bitsPerBlock sp / FS_BITCHUNK_BITS = p.word ∧
      p.number sp % FS_BITCHUNK_BITS = p.bit := by
  have hlt := h.number_lt
  have hbit := h.bit
  have hpos : 0 < bitsPerBlock sp := by omega
  rw [Place.number, Nat.add_assoc]
  refine ⟨?_, ?_, ?_⟩
  · rw [Nat.mul_comm, Nat.mul_add_div hpos, Nat.div_eq_of_lt hlt, Nat.add_zero]
  · rw [Nat.mul_comm, Nat.mul_add_mod, Nat.mod_eq_of_lt hlt]
    unfold FS_BITCHUNK_BITS
    omega
  · rw [bitsPerBlock, ← Nat.mul_assoc, ← Nat.add_assoc, ← Nat.add_mul, Nat.mul_add_mod_self_right]
    exact Nat.mod_eq_of_lt hbit

theorem Place.Ok.isSet (h : p.Ok sp) :
    isSet sp map d (p.number sp) = (load sp map d p.block p.word).getLsbD p.bit := by
  obtain ⟨hblock, hword, hbit⟩ := h.parts
  rw [Bitmap.isSet, hblock, hword, hbit]

theorem place_of {c : ℕ} (hpos : 0 < bitsPerBlock sp) :
    ∃ p : Place, p.Ok sp ∧ p.number sp = c ∧ p.block = c / bitsPerBlock sp := by
  have hlt := Nat.mod_lt c hpos
  have hdvd : c % bitsPerBlock sp % FS_BITCHUNK_BITS = c % FS_BITCHUNK_BITS :=
    Nat.mod_mod_of_dvd _ (Nat.dvd_mul_left _ _)
  refine ⟨⟨c / bitsPerBlock sp, c % bitsPerBlock sp / FS_BITCHUNK_BITS, c % FS_BITCHUNK_BITS⟩,
    ⟨?_, ?_⟩, ?_, rfl⟩
  · exact Nat.div_lt_of_lt_mul (by rwa [Nat.mul_comm, ← bitsPerBlock])
  · exact Nat.mod_lt c (by decide)
  · have hsplit := Nat.div_add_mod' c (bitsPerBlock sp)
    have hword := Nat.div_add_mod' (c % bitsPerBlock sp) FS_BITCHUNK_BITS
    simp only [Place.number]
    omega

end Places

section Scan
variable {sp : SuperMaps} {map : MapKind} {d : Device} {p : Place} {n block word : ℕ}

structure Free (sp : SuperMaps) (map : MapKind) (d : Device) (p : Place) : Prop extends p.Ok sp where
  inMap : p.number sp < mapBits sp map
  clear : (load sp map d p.block p.word).getLsbD p.bit = false

theorem scanWords_some (hn : word + n ≤ chunks sp)
    (h : scanWords sp map d block n word = some p) : Free sp map d p ∧ p.block = block := by
  induction n generalizing word with
  | zero => cases h
  | succ n ih =>
    simp only [scanWords] at h
    split_ifs at h with hfull hend
    · exact ih (by omega) h
    · cases h
      obtain ⟨hlt, hclear, -⟩ := firstClear_spec (swap2_full hfull : swap2 sp.sNative _ ≠ _)
      exact ⟨⟨⟨by simp only; omega, hlt⟩, Nat.lt_of_not_le hend, hclear⟩, rfl⟩

theorem scanWords_none (hn : word + n ≤ chunks sp)
    (h : scanWords sp map d block n word = none) (hok : p.Ok sp) (hblock : p.block = block)
    (hword : word ≤ p.word) (hword' : p.word < word + n) (hmap : p.number sp < mapBits sp map) :
    (load sp map d p.block p.word).getLsbD p.bit = true := by
  induction n generalizing word with
  | zero => omega
  | succ n ih =>
    simp only [scanWords] at h
    split_ifs at h with hfull hend
    · rcases hword.eq_or_lt with heq | hlt
      · rw [load, hblock, ← heq, hfull, swap2_allOnes, BitVec.getLsbD_allOnes]
        exact decide_eq_true hok.bit
      · exact ih (by omega) h (by omega) (by omega)
    · -- all bits from here on are beyond the end of the map
      have hbit := hok.bit
      obtain ⟨h16, -, hless⟩ := firstClear_spec (swap2_full hfull : swap2 sp.sNative _ ≠ _)
      simp only [Place.number, FS_BITCHUNK_BITS] at hend hmap
      rw [hblock] at hmap
      rcases hword.eq_or_lt with heq | hlt
      · rw [load, hblock, ← heq]
        exact hless _ (by omega)
      · omega

theorem scanBlocks_eq (hpos : 0 < bitBlocks sp map) (n : ℕ) (hblock : block < bitBlocks sp map) :
    scanBlocks sp map d n block 0 =
      scan 0 (bitBlocks sp map - 1) (fun block => scanWords sp map d block (chunks sp) 0) n block := by
  induction n generalizing block with
  | zero => rfl
  | succ n ih =>
    have hnext : (if block + 1 ≥ bitBlocks sp map then 0 else block + 1) =
        next 0 (bitBlocks sp map - 1) block := by
      unfold next
      split_ifs <;> omega
    have hlt : next 0 (bitBlocks sp map - 1) block ≤ _ :=
      (next_within (Nat.zero_le _) (Nat.zero_le block)).2
    rw [scanBlocks, scan, Nat.sub_zero, hnext, ih (by omega)]
    cases scanWords sp map d block (chunks sp) 0 <;> rfl

theorem scanBlocks_some (hword : word ≤ chunks sp)
    (h : scanBlocks sp map d n block word = some p) : Free sp map d p := by
  induction n generalizing block word with
  | zero => cases h
  | succ n ih =>
    rw [scanBlocks] at h
    split at h
    · rename_i hfound
      cases h
      exact (scanWords_some (by omega) hfound).1
    · exact ih (Nat.zero_le _) h

theorem scanBlocks_none (hpos : 0 < bitBlocks sp map)
    (h : scanBlocks sp map d (bitBlocks sp map + 1) block word = none) (hok : p.Ok sp)
    (hp : p.block < bitBlocks sp map) (hmap : p.number sp < mapBits sp map) :
    (load sp map d p.block p.word).getLsbD p.bit = true := by
  rw [scanBlocks] at h
  split at h
  · cases h
  · have hstart : (if block + 1 ≥ bitBlocks sp map then 0 else block + 1) < bitBlocks sp map := by
      split_ifs <;> omega
    rw [scanBlocks_eq hpos _ hstart] at h
    have hnone := scan_turn (y := p.block) ⟨Nat.zero_le _, by omega⟩ (by omega) h
      ⟨Nat.zero_le _, by omega⟩
    exact scanWords_none (by omega) hnone hok rfl (Nat.zero_le _)
      (by have := hok.word; omega) hmap

end Scan

section Search
variable {sp : SuperMaps} {map : MapKind} {d : Device} {p : Place} {origin : ℕ}

def Covers (sp : SuperMaps) (map : MapKind) : Prop :=
  mapBits sp map ≤ bitBlocks sp map * bitsPerBlock sp

def search (sp : SuperMaps) (map : MapKind) (d : Device) (origin : ℕ) : Option Place :=
  let origin := if origin ≥ mapBits sp map then 0 else origin
  scanBlocks sp map d (bitBlocks sp map + 1) (origin / bitsPerBlock sp)
    (origin % bitsPerBlock sp / FS_BITCHUNK_BITS)

theorem allocBit_eq (origin : ℕ) (d : Device) (hrd : sp.sRdOnly = false) :
    allocBit sp map origin d = .ok (match search sp map d origin with
      | none => (NO_BIT, d)
      | some p => (p.number sp,
        store sp map d p.block p.word (load sp map d p.block p.word ||| (1#16 <<< p.bit)))) := by
  simp only [allocBit, hrd, Bool.false_eq_true, if_false, search]
  split <;> rfl

theorem search_some (hcovers : Covers sp map) (h : search sp map d origin = some p) :
    Free sp map d p := by
  refine scanBlocks_some ?_ h
  have hword (n : ℕ) (hpos : 0 < bitsPerBlock sp) :
      n % bitsPerBlock sp / FS_BITCHUNK_BITS ≤ chunks sp :=
    Nat.div_le_of_le_mul (by rw [Nat.mul_comm]; exact (Nat.mod_lt n hpos).le)
  rcases Nat.eq_zero_or_pos (bitsPerBlock sp) with h0 | hpos
  · have hnone : mapBits sp map = 0 := by
      rw [Covers, h0, Nat.mul_zero] at hcovers
      omega
    simp [hnone]
  · exact hword _ hpos

theorem search_none (hcovers : Covers sp map) (h : search sp map d origin = none) {c : ℕ}
    (hc : c < mapBits sp map) : isSet sp map d c = true := by
  have hbits : 0 < bitBlocks sp map * bitsPerBlock sp := by
    unfold Covers at hcovers
    omega
  have hblocks := Nat.pos_of_mul_pos_right hbits
  have hpos := Nat.pos_of_mul_pos_left hbits
  have hlt {n : ℕ} (hn : n < mapBits sp map) : n / bitsPerBlock sp < bitBlocks sp map :=
    Nat.div_lt_of_lt_mul (by rw [Nat.mul_comm]; exact hn.trans_le hcovers)
  obtain ⟨p, hok, hnumber, hblock⟩ := place_of (c := c) hpos
  rw [← hnumber, hok.isSet]
  exact scanBlocks_none hblocks h hok (hblock ▸ hlt hc) (hnumber ▸ hc)

end Search

section Writes
variable {sp : SuperMaps} {map : MapKind} {d : Device} {p : Place}

theorem load_store (block word : ℕ) (k : BitVec 16) (n w : ℕ) :
    load sp map (store sp map d block word k) n w =
      if n = block ∧ w = word then k else load sp map d n w := by
  simp only [load, store, Nat.add_left_cancel_iff]
  split_ifs
  · exact swap2_swap2 _ _
  · rfl

theorem store_load (block word : ℕ) :
    store sp map d block word (load sp map d block word) = d := by
  funext n w
  simp only [load, store]
  split_ifs with h
  · rw [h.1, h.2, swap2_swap2]
  · rfl

theorem store_store (block word : ℕ) (k k' : BitVec 16) :
    store sp map (store sp map d block word k) block word k' = store sp map d block word k' := by
  funext n w
  simp only [store]
  split_ifs <;> rfl

theorem mask_getLsbD {i : ℕ} (hi : i < 16) (j : ℕ) :
    (1#16 <<< i).getLsbD j = decide (i = j) := by
  have h := BitVec.getLsbD_twoPow (w := 16) i j
  rwa [BitVec.twoPow_eq, decide_eq_true hi, Bool.true_and] at h

theorem clear_set {k : BitVec 16} {i : ℕ} (hi : i < 16) (hclear : k.getLsbD i = false) :
    (k ||| (1#16 <<< i)) &&& ~~~(1#16 <<< i) = k := by
  refine BitVec.eq_of_getLsbD_eq fun j hj => ?_
  rw [BitVec.getLsbD_and, BitVec.getLsbD_or, BitVec.getLsbD_not, mask_getLsbD hi]
  by_cases h : i = j
  · subst h
    simp [hclear]
  · simp [h, hj]

theorem set_ne_zero {k : BitVec 16} {i : ℕ} (hi : i < 16) :
    (k ||| (1#16 <<< i)) &&& (1#16 <<< i) ≠ 0 := by
  intro h
  have hbit := congrArg (BitVec.getLsbD · i) h
  simp only [BitVec.getLsbD_and, BitVec.getLsbD_or, mask_getLsbD hi] at hbit
  simp at hbit

def taken (sp : SuperMaps) (map : MapKind) (d : Device) (p : Place) : Device :=
  store sp map d p.block p.word (load sp map d p.block p.word ||| (1#16 <<< p.bit))

theorem isSet_taken (h : p.Ok sp) (c : ℕ) :
    isSet sp map (taken sp map d p) c = (isSet sp map d c || decide (c = p.number sp)) := by
  have hpos : 0 < bitsPerBlock sp := by
    have := h.number_lt
    omega
  obtain ⟨q, hq, rfl, -⟩ := place_of (c := c) hpos
  rw [hq.isSet, hq.isSet, taken, load_store]
  by_cases hword : q.block = p.block ∧ q.word = p.word
  · rw [if_pos hword, BitVec.getLsbD_or, mask_getLsbD h.bit, hword.1, hword.2]
    congr 2
    simp only [Place.number, hword.1, hword.2, eq_iff_iff]
    omega
  · rw [if_neg hword]
    have hne : q.number sp ≠ p.number sp := by
      intro heq
      refine hword ⟨?_, ?_⟩
      · rw [← hq.parts.1, ← h.parts.1, heq]
      · rw [← hq.parts.2.1, ← h.parts.2.1, heq]
    simp [hne]

theorem freeBit_taken (hrd : sp.sRdOnly = false) (h : p.Ok sp)
    (hclear : (load sp map d p.block p.word).getLsbD p.bit = false) :
    freeBit sp map (p.number sp) (taken sp map d p) = .ok d := by
  obtain ⟨hblock, hword, hbit⟩ := h.parts
  simp only [freeBit, hrd, Bool.false_eq_true, if_false, hblock, hword, hbit, taken, load_store,
    and_self, if_true, set_ne_zero h.bit, clear_set h.bit hclear, store_store, store_load]

end Writes

def Elsewhere (sp : SuperMaps) (map : MapKind) (b block word : ℕ) : Prop :=
  ¬ (block = startBlock sp map + b / bitsPerBlock sp ∧
    word = b % bitsPerBlock sp / FS_BITCHUNK_BITS)

def Allocates (sp : SuperMaps) (map : MapKind) (origin : ℕ) (d : Device) : Prop :=
  ∃ b d', allocBit sp map origin d = .ok (b, d') ∧
    (b = NO_BIT ↔ ∀ c < mapBits sp map, isSet sp map d c = true) ∧
    (b = NO_BIT → d' = d) ∧
    (b ≠ NO_BIT → b < mapBits sp map ∧ isSet sp map d b = false ∧
      (∀ c, isSet sp map d' c = (isSet sp map d c || decide (c = b))) ∧
      (∀ block word, Elsewhere sp map b block word → d' block word = d block word) ∧
      freeBit sp map b d' = .ok d)

theorem allocBit_spec {sp : SuperMaps} {map : MapKind} {d : Device} (hrd : sp.sRdOnly = false)
    (hcovers : Covers sp map) (hzero : isSet sp map d 0 = true) (origin : ℕ) :
    Allocates sp map origin d := by
  unfold Allocates
  rw [allocBit_eq origin d hrd]
  cases hsearch : search sp map d origin with
  | none =>
    refine ⟨NO_BIT, d, rfl, ?_, fun _ => rfl, fun h => absurd rfl h⟩
    exact iff_of_true rfl fun c hc => search_none hcovers hsearch hc
  | some p =>
    have hfree := search_some hcovers hsearch
    have hok := hfree.toOk
    have hclear : isSet sp map d (p.number sp) = false := hok.isSet.trans hfree.clear
    have hne : p.number sp ≠ NO_BIT := by
      intro h0
      rw [h0, NO_BIT, hzero] at hclear
      cases hclear
    refine ⟨p.number sp, taken sp map d p, rfl, ?_, fun h => absurd h hne, fun _ => ?_⟩
    · refine iff_of_false hne fun hall => ?_
      rw [hall _ hfree.inMap] at hclear
      cases hclear
    · refine ⟨hfree.inMap, hclear, isSet_taken hok, ?_, freeBit_taken hrd hok hfree.clear⟩
      intro block word helse
      rw [Elsewhere, hok.parts.1, hok.parts.2.1] at helse
      simp only [taken, store, helse, if_false]

section Sets
variable {sp : SuperMaps} {map : MapKind} {d : Device} {H : MfsHeaders} {sb : SuperBlock H}
  {S : Finset ℕ} {n block word origin : ℕ}

structure Shows (sp : SuperMaps) (map : MapKind) (d : Device) (sb : SuperBlock H) (S : Finset ℕ) :
    Prop where
  word : H.bitchunkBits = FS_BITCHUNK_BITS
  size : sb.sBlockSize = sp.sBlockSize
  bits : ∀ c < bitBlocks sp map * bitsPerBlock sp, c ∈ S ↔ isSet sp map d c = true

theorem Shows.chunks (h : Shows sp map d sb S) : fsBitmapChunks sb = chunks sp := by
  rw [fsBitmapChunks, h.word, h.size, Bitmap.chunks, FS_BITCHUNK_BITS]
  omega

theorem Shows.perBlock (h : Shows sp map d sb S) : fsBitsPerBlock sb = bitsPerBlock sp := by
  rw [fsBitsPerBlock, h.chunks, h.word, bitsPerBlock]

theorem block_end (hblock : block < bitBlocks sp map) :
    block * bitsPerBlock sp + bitsPerBlock sp ≤ bitBlocks sp map * bitsPerBlock sp := by
  rw [← Nat.succ_mul]
  exact Nat.mul_le_mul_right _ hblock

theorem find_clear {k : BitVec 16} :
    ((List.range 16).find? fun i => !k.getLsbD i) =
      if k = BitVec.allOnes 16 then none else some (firstClear k) := by
  split
  · rename_i hfull
    rw [List.find?_range_eq_none]
    intro i hi
    rw [hfull, BitVec.getLsbD_allOnes, decide_eq_true hi]
    rfl
  · rename_i hfree
    obtain ⟨hlt, hclear, hless⟩ := firstClear_spec hfree
    rw [List.find?_range_eq_some]
    exact ⟨by rw [hclear]; rfl, List.mem_range.mpr hlt, fun j hj => by rw [hless j hj]; rfl⟩

theorem Shows.wordFree (h : Shows sp map d sb S) (hblock : block < bitBlocks sp map)
    (hword : word < Bitmap.chunks sp) :
    wordFree S H (block * fsBitsPerBlock sb + word * H.bitchunkBits) =
      if d (startBlock sp map + block) word = BitVec.allOnes 16 then none
      else some (Place.number sp
        ⟨block, word, firstClear (swap2 sp.sNative (d (startBlock sp map + block) word))⟩) := by
  have hmem : ∀ i ∈ List.range 16,
      decide (block * bitsPerBlock sp + word * FS_BITCHUNK_BITS + i ∉ S) =
        !(load sp map d block word).getLsbD i := by
    intro i hi
    have hok : Place.Ok sp ⟨block, word, i⟩ := ⟨hword, List.mem_range.mp hi⟩
    have hlt := hok.number_lt
    have hend := block_end hblock
    have hbit := h.bits (Place.number sp ⟨block, word, i⟩) (by simp only [Place.number] at *; omega)
    rw [hok.isSet] at hbit
    change decide (Place.number sp ⟨block, word, i⟩ ∉ S) = _
    rw [Bool.eq_iff_iff, decide_eq_true_iff, hbit]
    simp
  have hfind : (List.range 16).find? (fun i =>
      block * bitsPerBlock sp + word * FS_BITCHUNK_BITS + i ∉ S) = _ :=
    (List.find?_congr hmem).trans find_clear
  rw [Mfs.wordFree, h.perBlock, h.word]
  change Option.map _ ((List.range 16).find? _) = _
  rw [hfind, load]
  by_cases hfull : d (startBlock sp map + block) word = BitVec.allOnes 16
  · rw [if_pos hfull, hfull, swap2_allOnes, if_pos rfl]
    rfl
  · rw [if_neg hfull, if_neg (swap2_full hfull)]
    rfl

theorem Shows.searchWords (h : Shows sp map d sb S) (hblock : block < bitBlocks sp map)
    (hn : word + n ≤ Bitmap.chunks sp) :
    ((List.range' word n).findSome? fun w =>
      Mfs.wordFree S H (block * fsBitsPerBlock sb + w * H.bitchunkBits)).filter
        (· < mapBits sp map) = (scanWords sp map d block n word).map (Place.number sp) := by
  induction n generalizing word with
  | zero => rfl
  | succ n ih =>
    rw [List.range'_succ, List.findSome?_cons, h.wordFree hblock (by omega)]
    simp only [scanWords]
    by_cases hfull : d (startBlock sp map + block) word = BitVec.allOnes 16
    · rw [if_pos hfull, if_pos hfull]
      exact ih (by omega)
    · rw [if_neg hfull, if_neg hfull]
      by_cases hend : Place.number sp ⟨block, word,
          firstClear (swap2 sp.sNative (d (startBlock sp map + block) word))⟩ < mapBits sp map
      · rw [if_neg (Nat.not_le.mpr hend)]
        exact Option.filter_some_pos (decide_eq_true hend)
      · rw [if_pos (Nat.not_lt.mp hend)]
        exact Option.filter_some_neg (by simpa using hend)

theorem Shows.searchBlock (h : Shows sp map d sb S) (hblock : block < bitBlocks sp map)
    (hword : word ≤ Bitmap.chunks sp) :
    searchBlock sb S (mapBits sp map) block word =
      (scanWords sp map d block (Bitmap.chunks sp - word) word).map (Place.number sp) := by
  rw [Mfs.searchBlock, h.chunks]
  exact h.searchWords hblock (by omega)

theorem Shows.searchMap (h : Shows sp map d sb S) (hblock : block < bitBlocks sp map)
    (hword : word ≤ Bitmap.chunks sp) :
    searchMap sb S (mapBits sp map) (bitBlocks sp map) n block word =
      (scanBlocks sp map d n block word).map (Place.number sp) := by
  induction n generalizing block word with
  | zero => rfl
  | succ n ih =>
    have hnext : (if block + 1 ≥ bitBlocks sp map then 0 else block + 1) < bitBlocks sp map := by
      split <;> omega
    rw [Mfs.searchMap, scanBlocks, h.searchBlock hblock hword]
    cases scanWords sp map d block (Bitmap.chunks sp - word) word with
    | none => exact ih hnext (Nat.zero_le _)
    | some p => rfl

theorem Shows.alloc (h : Shows sp map d sb S) (hrd : sp.sRdOnly = false) (hcovers : Covers sp map)
    (hmap : 0 < mapBits sp map) (origin : ℕ) :
    ∃ d', allocBit sp map origin d = .ok
        ((Mfs.allocBit sb S (mapBits sp map) (bitBlocks sp map) origin).getD NO_BIT, d') ∧
      Shows sp map d' sb (S ∪
        (Mfs.allocBit sb S (mapBits sp map) (bitBlocks sp map) origin).toFinset) := by
  have hbits : 0 < bitBlocks sp map * bitsPerBlock sp := hmap.trans_le hcovers
  have hpos := Nat.pos_of_mul_pos_left hbits
  have hstart : (if origin ≥ mapBits sp map then 0 else origin) < mapBits sp map := by
    split <;> omega
  have hsearch : Mfs.allocBit sb S (mapBits sp map) (bitBlocks sp map) origin =
      (search sp map d origin).map (Place.number sp) := by
    rw [Mfs.allocBit, h.perBlock, h.word]
    refine h.searchMap ?_ ?_
    · exact Nat.div_lt_of_lt_mul (by rw [Nat.mul_comm]; exact hstart.trans_le hcovers)
    · exact Nat.div_le_of_le_mul (by rw [Nat.mul_comm]; exact (Nat.mod_lt _ hpos).le)
  rw [hsearch, allocBit_eq origin d hrd]
  cases hfound : search sp map d origin with
  | none => exact ⟨d, rfl, by simpa using h⟩
  | some p =>
    have hok := (search_some hcovers hfound).toOk
    refine ⟨taken sp map d p, rfl, h.word, h.size, fun c hc => ?_⟩
    rw [isSet_taken hok, Bool.or_eq_true, decide_eq_true_iff, ← h.bits c hc, Option.map_some,
      Option.toFinset_some, Finset.mem_union, Finset.mem_singleton]

end Sets

def swappedMap : SuperMaps where
  sRdOnly := false
  sNative := false
  sBlockSize := 4
  sImapBlocks := 2
  sZmapBlocks := 1
  sNinodes := 50
  sZones := 20
  sFirstdatazone := 5

def swappedDevice : Device := fun block _ => if block ≤ 2 then 0xFFFF else 0x0100

theorem allocBit_swapped : Allocates swappedMap .IMAP 7 swappedDevice :=
  allocBit_spec rfl (by unfold Covers; decide) (by decide) 7

end Mfs.Bitmap
