import Cs111.Lib.LinearProbing
import Mathlib.Algebra.Order.BigOperators.Group.Multiset

namespace SlugMem
open LinearProbing

structure Allocation where
  loc : ℕ
  where' : String
  when : ℕ
  size : ℕ
  active : Bool
  deriving DecidableEq, Repr

structure Hashtable where
  size : ℕ
  load : ℕ
  table : ℕ → Option Allocation
  activeEntries : ℤ

def initHashtable : Hashtable where
  size := 2049
  load := 0
  table := fun _ => none
  activeEntries := 0

def rehashCell (insertIntoHashtable : Hashtable → Allocation → Option Hashtable)
    (oldtable : ℕ → Option Allocation) (ht : Hashtable) (i : ℕ) : Option Hashtable :=
  match oldtable i with
  | none => some ht
  | some a => insertIntoHashtable ht a

def doubleHashtable (insertIntoHashtable : Hashtable → Allocation → Option Hashtable)
    (ht : Hashtable) : Option Hashtable :=
  -- the new size is oldsize * oldsize, as the source has it, and load is not reset
  (List.range ht.size).foldlM (rehashCell insertIntoHashtable ht.table)
    { ht with size := ht.size * ht.size, table := fun _ => none }

def Hashtable.place (ht : Hashtable) (pos : ℕ) (a : Allocation) : Hashtable :=
  { ht with
    table := Function.update ht.table pos (some a)
    load := ht.load + 1
    activeEntries := ht.activeEntries + 1 }

def probeAndPlace (ht : Hashtable) (a : Allocation) : Option Hashtable :=
  (scan (fun p => (ht.table p).isNone) ht.size ht.size (a.loc % ht.size)).map
    fun pos => ht.place pos a

-- The first argument bounds how deep an insert may nest inside the rehash of another one.
def insertIntoHashtable : ℕ → Hashtable → Allocation → Option Hashtable
  | 0, _, _ => none
  | depth + 1, ht, a =>
    if ht.load * 4 > ht.size then
      (doubleHashtable (insertIntoHashtable depth) ht).bind fun ht => probeAndPlace ht a
    else probeAndPlace ht a

-- none: the probe loop never ends; some none: NULL; some (some (p, a)): a, found in cell p.
def isInHashtable (ht : Hashtable) (loc : ℕ) : Option (Option (ℕ × Allocation)) :=
  (scan (fun p => hit Allocation.loc loc (ht.table p)) ht.size ht.size (loc % ht.size)).map
    fun p => (ht.table p).map fun a => (p, a)

def Hashtable.stored (ht : Hashtable) : Multiset Allocation := records ht.table ht.size

structure Hashtable.Valid (ht : Hashtable) : Prop where
  initial_le : 2049 ≤ ht.size
  load_le : ht.load * 4 ≤ ht.size + 4
  stored_le : ht.stored.card ≤ ht.load
  linked : Linked Allocation.loc ht.table ht.size

namespace Hashtable.Valid

variable {ht : Hashtable}

theorem size_pos (h : ht.Valid) : 0 < ht.size := by have := h.initial_le; omega

theorem exists_empty (h : ht.Valid) : ∃ q < ht.size, ht.table q = none := by
  have := h.initial_le
  have := h.load_le
  have := h.stored_le
  exact LinearProbing.exists_empty (by unfold Hashtable.stored at *; omega)

end Hashtable.Valid

theorem valid_init : initHashtable.Valid where
  initial_le := le_refl _
  load_le := by simp [initHashtable]
  stored_le := by simp [Hashtable.stored, initHashtable]
  linked := linked_empty _

theorem stored_init : initHashtable.stored = 0 := by simp [Hashtable.stored, initHashtable]

theorem probeAndPlace_spec {ht : Hashtable} (a : Allocation) (hpos : 0 < ht.size)
    (hempty : ∃ q < ht.size, ht.table q = none) :
    ∃ k < ht.size, probeAndPlace ht a = some (ht.place ((a.loc + k) % ht.size) a) ∧
      ht.table ((a.loc + k) % ht.size) = none ∧
      ∀ j < k, ht.table ((a.loc + j) % ht.size) ≠ none := by
  obtain ⟨q, hq, hnone⟩ := hempty
  obtain ⟨k, hk, hscan, hstop, hbefore⟩ :=
    scan_stops (fun p => (ht.table p).isNone) (Nat.mod_lt a.loc hpos)
      ⟨q, hq, by simp [hnone]⟩
  simp only [Nat.mod_add_mod, Option.isNone_iff_eq_none, Option.isNone_eq_false_iff]
    at hscan hstop hbefore
  exact ⟨k, hk, by simp [probeAndPlace, hscan], hstop,
    fun j hj => Option.ne_none_iff_isSome.mpr (hbefore j hj)⟩

theorem stored_place {ht : Hashtable} {pos : ℕ} (a : Allocation) (hpos : pos < ht.size)
    (hfree : ht.table pos = none) : (ht.place pos a).stored = a ::ₘ ht.stored :=
  records_insert hpos hfree

structure Rehashed (old : Hashtable) (i : ℕ) (new : Hashtable) : Prop where
  size_eq : new.size = old.size * old.size
  stored_eq : new.stored = records old.table i
  load_eq : new.load = old.load + new.stored.card
  linked : Linked Allocation.loc new.table new.size

theorem rehashed_zero (old : Hashtable) :
    Rehashed old 0 { old with size := old.size * old.size, table := fun _ => none } where
  size_eq := rfl
  stored_eq := records_empty _
  load_eq := by simp [Hashtable.stored]
  linked := linked_empty _

theorem records_succ {t : ℕ → Option Allocation} (i : ℕ) :
    records t (i + 1) = (t i).toList + records t i := by
  rw [records, Multiset.range_succ, Multiset.filterMap_cons]
  cases t i <;> rfl

theorem card_records_le {old : Hashtable} {i : ℕ} (hi : i ≤ old.size) :
    (records old.table i).card ≤ old.stored.card :=
  Multiset.card_le_card (Multiset.filterMap_le_filterMap _ (Multiset.range_le.mpr hi))

theorem Rehashed.step (depth : ℕ) {i : ℕ} {old new : Hashtable} (hv : old.Valid) (hi : i < old.size)
    (h : Rehashed old i new) :
    ∃ new', rehashCell (insertIntoHashtable (depth + 1)) old.table new i = some new' ∧
      Rehashed old (i + 1) new' := by
  have hrec := records_succ (t := old.table) i
  cases hcell : old.table i with
  | none =>
    refine ⟨new, by simp [rehashCell, hcell], h.size_eq, ?_, h.load_eq, h.linked⟩
    rw [hrec, hcell]
    simpa using h.stored_eq
  | some a =>
    have hmoved : (records old.table i).card ≤ old.stored.card := card_records_le (by omega)
    have hsq : old.size * 2049 ≤ old.size * old.size := Nat.mul_le_mul_left _ hv.initial_le
    have := hv.initial_le
    have := hv.load_le
    have := hv.stored_le
    have hload : new.load = old.load + (records old.table i).card := by
      rw [h.load_eq, h.stored_eq]
    have hsize := h.size_eq
    have hcard : new.stored.card < new.size := by rw [h.stored_eq]; omega
    obtain ⟨k, hk, hins, hfree, hbefore⟩ := probeAndPlace_spec a
      (by omega) (LinearProbing.exists_empty hcard)
    have hroom : ¬ new.load * 4 > new.size := by omega
    have hplace := stored_place a (Nat.mod_lt _ (by omega)) hfree
    refine ⟨new.place ((a.loc + k) % new.size) a, ?_, hsize, ?_, ?_,
      h.linked.insert hk hfree hbefore⟩
    · simpa [rehashCell, hcell, insertIntoHashtable, hroom] using hins
    · rw [hplace, hrec, hcell, h.stored_eq]; rfl
    · rw [hplace]; simp [Hashtable.place, h.load_eq, Nat.add_assoc]

theorem rehash_loop {depth : ℕ} {old : Hashtable} (hv : old.Valid) :
    ∀ i ≤ old.size, ∃ new,
      (List.range i).foldlM (rehashCell (insertIntoHashtable (depth + 1)) old.table)
        { old with size := old.size * old.size, table := fun _ => none } = some new ∧
      Rehashed old i new := by
  intro i
  induction i with
  | zero => intro _; exact ⟨_, rfl, rehashed_zero old⟩
  | succ i ih =>
    intro hi
    obtain ⟨new, hfold, h⟩ := ih (by omega)
    obtain ⟨new', hcell, h'⟩ := h.step depth hv (by omega)
    exact ⟨new', by simp [List.range_succ, List.foldlM_append, hfold, hcell], h'⟩

theorem double_spec (depth : ℕ) {old : Hashtable} (hv : old.Valid) :
    ∃ new, doubleHashtable (insertIntoHashtable (depth + 1)) old = some new ∧
      Rehashed old old.size new :=
  rehash_loop hv old.size (le_refl _)

theorem Valid.place {ht : Hashtable} {a : Allocation} {k : ℕ} (hinit : 2049 ≤ ht.size)
    (hload : ht.load * 4 ≤ ht.size) (hstored : ht.stored.card ≤ ht.load)
    (hlink : Linked Allocation.loc ht.table ht.size) (hk : k < ht.size)
    (hfree : ht.table ((a.loc + k) % ht.size) = none)
    (hbefore : ∀ j < k, ht.table ((a.loc + j) % ht.size) ≠ none) :
    (ht.place ((a.loc + k) % ht.size) a).Valid where
  initial_le := hinit
  load_le := by simp [Hashtable.place]; omega
  stored_le := by
    rw [stored_place a (Nat.mod_lt _ (by omega)) hfree]
    simpa [Hashtable.place] using hstored
  linked := hlink.insert hk hfree hbefore

theorem insert_spec (depth : ℕ) {ht : Hashtable} (hv : ht.Valid) (a : Allocation) :
    ∃ ht', insertIntoHashtable (depth + 2) ht a = some ht' ∧ ht'.Valid ∧
      ht'.stored = a ::ₘ ht.stored := by
  have := hv.initial_le
  by_cases hfull : ht.load * 4 > ht.size
  · obtain ⟨new, hdouble, hnew⟩ := double_spec depth hv
    have hsq : ht.size * 2049 ≤ ht.size * ht.size := Nat.mul_le_mul_left _ hv.initial_le
    have := hv.load_le
    have := hv.stored_le
    have hstored : new.stored = ht.stored := hnew.stored_eq
    have hload : new.load = ht.load + ht.stored.card := by rw [hnew.load_eq, hstored]
    have hsize := hnew.size_eq
    have hroom : new.load * 4 ≤ new.size := by omega
    have hcard : new.stored.card < new.size := by rw [hstored]; omega
    obtain ⟨k, hk, hins, hfree, hbefore⟩ := probeAndPlace_spec a
      (by omega) (LinearProbing.exists_empty hcard)
    refine ⟨new.place ((a.loc + k) % new.size) a, ?_,
      Valid.place (by omega) hroom (by rw [hstored]; omega) hnew.linked hk hfree hbefore, ?_⟩
    · rw [insertIntoHashtable, if_pos hfull, hdouble]
      exact hins
    · rw [stored_place a (Nat.mod_lt _ (by omega)) hfree, hstored]
  · have hroom : ht.load * 4 ≤ ht.size := by omega
    obtain ⟨k, hk, hins, hfree, hbefore⟩ := probeAndPlace_spec a hv.size_pos hv.exists_empty
    refine ⟨ht.place ((a.loc + k) % ht.size) a, ?_,
      Valid.place (by omega) hroom hv.stored_le hv.linked hk hfree hbefore,
      stored_place a (Nat.mod_lt _ hv.size_pos) hfree⟩
    rw [insertIntoHashtable, if_neg hfull]
    exact hins

theorem foldlM_mono {σ : Type} {f g : σ → ℕ → Option σ}
    (h : ∀ s i r, f s i = some r → g s i = some r) :
    ∀ (l : List ℕ) {s r : σ}, l.foldlM f s = some r → l.foldlM g s = some r := by
  intro l
  induction l with
  | nil => intro s r hr; exact hr
  | cons i l ih =>
    intro s r hr
    rw [List.foldlM_cons] at hr ⊢
    obtain ⟨m, hm, hrest⟩ := Option.bind_eq_some_iff.mp hr
    rw [h s i m hm]
    exact ih hrest

theorem insert_mono {depth : ℕ} {ht ht' : Hashtable} {a : Allocation}
    (h : insertIntoHashtable depth ht a = some ht') :
    insertIntoHashtable (depth + 1) ht a = some ht' := by
  induction depth generalizing ht ht' a with
  | zero => cases h
  | succ depth ih =>
    rw [insertIntoHashtable] at h ⊢
    split at h
    · rename_i hfull
      obtain ⟨new, hdouble, hplace⟩ := Option.bind_eq_some_iff.mp h
      have hdouble' : doubleHashtable (insertIntoHashtable (depth + 1)) ht = some new := by
        refine foldlM_mono (fun s i r hr => ?_) _ hdouble
        rw [rehashCell] at hr ⊢
        split at hr
        · exact hr
        · exact ih hr
      rw [if_pos hfull, hdouble']
      exact hplace
    · rename_i hroom
      rw [if_neg hroom]
      exact h

theorem isInHashtable_spec {ht : Hashtable} (hv : ht.Valid) (loc : ℕ) :
    ∃ k < ht.size, (∀ j < k, hit Allocation.loc loc (ht.table ((loc + j) % ht.size)) = false) ∧
      ((isInHashtable ht loc = some none ∧ ht.table ((loc + k) % ht.size) = none ∧
          ∀ a ∈ ht.stored, a.loc ≠ loc) ∨
        ∃ a, isInHashtable ht loc = some (some ((loc + k) % ht.size, a)) ∧
          ht.table ((loc + k) % ht.size) = some a ∧ a.loc = loc) := by
  obtain ⟨k, hk, hscan, hstop, hbefore⟩ :=
    lookup_spec Allocation.loc loc hv.size_pos hv.exists_empty
  refine ⟨k, hk, hbefore, ?_⟩
  cases hcell : ht.table ((loc + k) % ht.size) with
  | none =>
    refine .inl ⟨by simp [isInHashtable, hscan, hcell], rfl, fun a ha hloc => ?_⟩
    obtain ⟨b, hb, _⟩ := lookup_finds hv.linked hstop hbefore ha hloc
    rw [hcell] at hb
    cases hb
  | some a =>
    refine .inr ⟨a, by simp [isInHashtable, hscan, hcell], rfl, ?_⟩
    simpa [hcell, hit] using hstop

end SlugMem
