import Cs111.SlugMem.Slug

namespace SlugMem
open LinearProbing

section Inserts

theorem insert_deep {ht ht' : Hashtable} {a : Allocation} (depth : ℕ)
    (h : insertIntoHashtable 2 ht a = some ht') :
    insertIntoHashtable (depth + 2) ht a = some ht' := by
  induction depth with
  | zero => exact h
  | succ depth ih => exact insert_mono ih

def insertAll (depth : ℕ) (as : List Allocation) (ht : Hashtable) : Option Hashtable :=
  as.foldlM (insertIntoHashtable depth) ht

theorem insertAll_spec (as : List Allocation) {ht : Hashtable} (hv : ht.Valid) :
    ∃ ht', (∀ depth, insertAll (depth + 2) as ht = some ht') ∧ ht'.Valid ∧
      ∀ b, b ∈ ht'.stored ↔ b ∈ as ∨ b ∈ ht.stored := by
  induction as generalizing ht with
  | nil => exact ⟨ht, fun _ => rfl, hv, fun b => by simp⟩
  | cons a as ih =>
    obtain ⟨mid, hins, hmid, hstored⟩ := insert_spec 0 hv a
    obtain ⟨ht', hall, hv', hmem⟩ := ih hmid
    refine ⟨ht', fun depth => ?_, hv', fun b => ?_⟩
    · rw [insertAll, List.foldlM_cons, insert_deep depth hins]
      exact hall depth
    · rw [hmem, hstored, Multiset.mem_cons, List.mem_cons]
      tauto

theorem inserted_found (as : List Allocation) (hdistinct : (as.map Allocation.loc).Nodup) :
    ∃ ht, (∀ depth, insertAll (depth + 2) as initHashtable = some ht) ∧
      (∀ a ∈ as, ∃ p, isInHashtable ht a.loc = some (some (p, a))) ∧
      ∀ loc, loc ∉ as.map Allocation.loc → isInHashtable ht loc = some none := by
  obtain ⟨ht, hall, hv, hmem⟩ := insertAll_spec as valid_init
  simp only [stored_init, Multiset.notMem_zero, or_false] at hmem
  refine ⟨ht, hall, fun a ha => ?_, fun loc hloc => ?_⟩
  · obtain ⟨k, -, -, ⟨-, -, hnone⟩ | ⟨b, hfound, hcell, hsame⟩⟩ :=
      isInHashtable_spec hv a.loc
    · exact absurd rfl (hnone a ((hmem a).mpr ha))
    · have hb : b ∈ as :=
        (hmem b).mp (mem_records.mpr ⟨_, Nat.mod_lt _ hv.size_pos, hcell⟩)
      obtain rfl := List.inj_on_of_nodup_map hdistinct hb ha hsame
      exact ⟨_, hfound⟩
  · obtain ⟨k, -, -, ⟨hnull, -⟩ | ⟨b, -, hcell, hsame⟩⟩ := isInHashtable_spec hv loc
    · exact hnull
    · have hb : b ∈ as :=
        (hmem b).mp (mem_records.mpr ⟨_, Nat.mod_lt _ hv.size_pos, hcell⟩)
      exact absurd (List.mem_map.mpr ⟨b, hb, hsame⟩) hloc

theorem inserted_found_wrapped : ∃ ht,
    (∀ depth, insertAll (depth + 2)
      [⟨2048, "a", 0, 1, true⟩, ⟨4097, "b", 0, 1, true⟩] initHashtable = some ht) ∧
    (∃ p, isInHashtable ht 4097 = some (some (p, ⟨4097, "b", 0, 1, true⟩))) ∧
    isInHashtable ht 6146 = some none := by
  obtain ⟨ht, hall, hfound, hnull⟩ :=
    inserted_found [⟨2048, "a", 0, 1, true⟩, ⟨4097, "b", 0, 1, true⟩] (by decide)
  exact ⟨ht, hall, hfound ⟨4097, "b", 0, 1, true⟩ (by simp), hnull 6146 (by decide)⟩

end Inserts

section Inversion
variable {s s' : State}

theorem slugMalloc_returns {size now loc loc' : ℕ} {where' : String}
    (h : slugMalloc s size where' now loc = .returns s' loc') :
    ∃ ht', insertIntoHashtable 2 (s.ht.getD initHashtable) ⟨loc, where', now, size, true⟩ =
      some ht' ∧ s'.ht = some ht' := by
  simp only [slugMalloc, State.fail] at h
  split at h
  · cases h
  · split at h
    · cases h
    · rename_i ht' hins
      cases h
      exact ⟨ht', hins, rfl⟩

theorem slugFree_returns {addr : ℕ} {where' : String}
    (h : slugFree s addr where' = .returns s' ()) :
    ∃ ht pos a, s.ht = some ht ∧ isInHashtable ht addr = some (some (pos, a)) ∧
      a.active = true ∧ s'.ht = some (ht.markInactive pos a) := by
  simp only [slugFree, State.fail] at h
  split at h
  · cases h
  · rename_i ht hs
    split at h
    · cases h
    · cases h
    · rename_i pos a hfound
      split at h
      · cases h
      · rename_i hactive
        cases h
        exact ⟨ht, pos, a, hs, hfound, by simpa using hactive, rfl⟩

theorem found_cell {ht : Hashtable} (hv : ht.Valid) {addr pos : ℕ} {a : Allocation}
    (h : isInHashtable ht addr = some (some (pos, a))) :
    pos < ht.size ∧ ht.table pos = some a ∧ a.loc = addr := by
  obtain ⟨k, -, -, ⟨hnull, -⟩ | ⟨b, hfound, hcell, hloc⟩⟩ := isInHashtable_spec hv addr
  · rw [hnull] at h
    cases h
  · rw [hfound] at h
    cases h
    exact ⟨Nat.mod_lt _ hv.size_pos, hcell, hloc⟩

end Inversion

theorem fold_drift {insert : Hashtable → Allocation → Option Hashtable}
    {oldtable : ℕ → Option Allocation}
    (hins : ∀ {ht a ht'}, insert ht a = some ht' → ht'.activeEntries - ht'.load =
      ht.activeEntries - ht.load) (cells : List ℕ) {ht ht' : Hashtable}
    (h : cells.foldlM (rehashCell insert oldtable) ht = some ht') :
    ht'.activeEntries - ht'.load = ht.activeEntries - ht.load := by
  induction cells generalizing ht with
  | nil =>
    cases h
    rfl
  | cons i cells ih =>
    rw [List.foldlM_cons] at h
    obtain ⟨mid, hmid, hrest⟩ := Option.bind_eq_some_iff.mp h
    refine (ih hrest).trans ?_
    rw [rehashCell] at hmid
    split at hmid
    · cases hmid
      rfl
    · exact hins hmid

theorem probe_drift {ht ht' : Hashtable} {a : Allocation} (h : probeAndPlace ht a = some ht') :
    ht'.activeEntries - ht'.load = ht.activeEntries - ht.load := by
  obtain ⟨pos, -, rfl⟩ := Option.map_eq_some_iff.mp h
  simp only [Hashtable.place]
  omega

theorem insert_drift {depth : ℕ} {ht ht' : Hashtable} {a : Allocation}
    (h : insertIntoHashtable depth ht a = some ht') :
    ht'.activeEntries - ht'.load = ht.activeEntries - ht.load := by
  induction depth generalizing ht ht' a with
  | zero => cases h
  | succ depth ih =>
    rw [insertIntoHashtable] at h
    split at h
    · obtain ⟨mid, hdouble, hplace⟩ := Option.bind_eq_some_iff.mp h
      have hmoved := fold_drift ih _ hdouble
      exact (probe_drift hplace).trans hmoved
    · exact probe_drift h

theorem insert_load {ht ht' : Hashtable} {a : Allocation} (hv : ht.Valid)
    (h : insertIntoHashtable 2 ht a = some ht') :
    (ht.load * 4 ≤ ht.size ∧ ht'.load = ht.load + 1 ∧ ht'.size = ht.size) ∨
    (ht.size < ht.load * 4 ∧ ht'.load = ht.load + ht.stored.card + 1) := by
  rw [insertIntoHashtable] at h
  split at h
  · rename_i hfull
    obtain ⟨new, hdouble, hnew⟩ := double_spec 0 hv
    rw [hdouble] at h
    obtain ⟨pos, -, rfl⟩ := Option.map_eq_some_iff.mp h
    refine .inr ⟨hfull, ?_⟩
    have hmoved : new.stored = ht.stored := hnew.stored_eq
    have hload := hnew.load_eq
    rw [hmoved] at hload
    rw [Hashtable.place, hload]
  · rename_i hroom
    obtain ⟨pos, -, rfl⟩ := Option.map_eq_some_iff.mp h
    exact .inl ⟨by omega, rfl, rfl⟩

def mallocs : List Call → ℕ
  | [] => 0
  | .malloc .. :: calls => mallocs calls + 1
  | .free .. :: calls => mallocs calls

def frees : List Call → ℕ
  | [] => 0
  | .malloc .. :: calls => frees calls
  | .free .. :: calls => frees calls + 1

inductive Accepted : List Call → State → Prop
  | nil : Accepted [] .initial
  | malloc {calls s s'} (size : ℕ) (where' : String) (now loc : ℕ) : Accepted calls s →
      slugMalloc s size where' now loc = .returns s' loc →
      Accepted (.malloc size where' now loc :: calls) s'
  | free {calls s s'} (addr : ℕ) (where' : String) : Accepted calls s →
      slugFree s addr where' = .returns s' () → Accepted (.free addr where' :: calls) s'

def Hashtable.activeRecords (ht : Hashtable) : ℕ := ht.stored.countP fun a => a.active = true

structure Counted (calls : List Call) (ht : Hashtable) : Prop where
  valid : ht.Valid
  stored : ht.stored.card = mallocs calls
  active : ht.activeRecords + frees calls = mallocs calls
  entries : ht.activeEntries = ht.load
  small : mallocs calls ≤ 513 → ht.load = mallocs calls ∧ ht.size = 2049
  grown : 513 < mallocs calls → mallocs calls < ht.load

theorem counted_init : Counted [] initHashtable where
  valid := valid_init
  stored := by simp [stored_init, mallocs]
  active := by simp [Hashtable.activeRecords, stored_init, mallocs, frees]
  entries := rfl
  small _ := ⟨rfl, rfl⟩
  grown h := absurd h (by simp [mallocs])

theorem Counted.malloc {calls : List Call} {ht ht' : Hashtable} (h : Counted calls ht)
    (size : ℕ) (where' : String) (now loc : ℕ)
    (hins : insertIntoHashtable 2 ht ⟨loc, where', now, size, true⟩ = some ht') :
    Counted (.malloc size where' now loc :: calls) ht' := by
  obtain ⟨new, hnew, hv, hstored⟩ := insert_spec 0 h.valid ⟨loc, where', now, size, true⟩
  rw [hins] at hnew
  obtain rfl := Option.some.inj hnew
  have hdrift := insert_drift hins
  have hentries := h.entries
  have hcard := h.stored
  have hactive := h.active
  refine ⟨hv, ?_, ?_, by omega, fun hm => ?_, fun hm => ?_⟩
  · rw [hstored, Multiset.card_cons, hcard, mallocs]
  · rw [Hashtable.activeRecords] at hactive ⊢
    rw [hstored, Multiset.countP_cons_of_pos (p := fun a : Allocation => a.active = true) _ rfl,
      mallocs, frees]
    omega
  · rw [mallocs] at hm ⊢
    obtain ⟨hload, hsize⟩ := h.small (by omega)
    rcases insert_load h.valid hins with ⟨-, hload', hsize'⟩ | ⟨hfull, -⟩
    · exact ⟨by omega, hsize'.trans hsize⟩
    · omega
  · rw [mallocs] at hm ⊢
    rcases insert_load h.valid hins with ⟨hroom, hload', -⟩ | ⟨-, hload'⟩
    · by_cases hsmall : mallocs calls ≤ 513
      · obtain ⟨hload, hsize⟩ := h.small hsmall
        omega
      · have := h.grown (by omega)
        omega
    · by_cases hsmall : mallocs calls ≤ 513
      · obtain ⟨hload, -⟩ := h.small hsmall
        omega
      · have := h.grown (by omega)
        omega

theorem Counted.free {calls : List Call} {ht : Hashtable} {pos : ℕ} {a : Allocation}
    (h : Counted calls ht) (hpos : pos < ht.size) (hcell : ht.table pos = some a)
    (hactive : a.active = true) (addr : ℕ) (where' : String) :
    Counted (.free addr where' :: calls) (ht.markInactive pos a) := by
  have hrep : a ::ₘ (ht.markInactive pos a).stored = { a with active := false } ::ₘ ht.stored :=
    records_replace hpos hcell
  refine ⟨valid_markInactive h.valid hpos hcell, ?_, ?_, h.entries, h.small, h.grown⟩
  · have hcard := congrArg Multiset.card hrep
    rw [Multiset.card_cons, Multiset.card_cons] at hcard
    rw [mallocs]
    exact (Nat.add_right_cancel hcard).trans h.stored
  · have hcount := congrArg (Multiset.countP fun a => a.active = true) hrep
    rw [Multiset.countP_cons_of_pos (p := fun a : Allocation => a.active = true) _ hactive,
      Multiset.countP_cons_of_neg _ (by simp)] at hcount
    have hbefore := h.active
    rw [Hashtable.activeRecords] at hbefore ⊢
    rw [frees, mallocs]
    omega

theorem accepted_counted {calls : List Call} {s : State} (h : Accepted calls s) :
    (s.ht = none ∧ calls = []) ∨ ∃ ht, s.ht = some ht ∧ Counted calls ht := by
  induction h with
  | nil => exact .inl ⟨rfl, rfl⟩
  | @malloc calls s s' size where' now loc _ hcall ih =>
    have hcounted : Counted calls (s.ht.getD initHashtable) := by
      rcases ih with ⟨hnone, rfl⟩ | ⟨ht, hsome, hcounted⟩
      · rw [hnone]
        exact counted_init
      · rw [hsome]
        exact hcounted
    obtain ⟨ht', hins, hs'⟩ := slugMalloc_returns hcall
    exact .inr ⟨ht', hs', hcounted.malloc size where' now loc hins⟩
  | @free calls s s' addr where' _ hcall ih =>
    obtain ⟨ht, pos, a, hs, hfound, hactive, hs'⟩ := slugFree_returns hcall
    rcases ih with ⟨hnone, rfl⟩ | ⟨ht', hsome, hcounted⟩
    · rw [hnone] at hs
      cases hs
    · obtain rfl := Option.some.inj (hsome.symm.trans hs)
      obtain ⟨hpos, hcell, -⟩ := found_cell hcounted.valid hfound
      exact .inr ⟨_, hs', hcounted.free hpos hcell hactive addr where'⟩

def CountersExact (ht : Hashtable) : Prop :=
  ht.load = ht.stored.card ∧ ht.activeEntries = ht.activeRecords

theorem countersExact_iff {calls : List Call} {s : State} {ht : Hashtable}
    (h : Accepted calls s) (hs : s.ht = some ht) :
    CountersExact ht ↔ mallocs calls ≤ 513 ∧ frees calls = 0 := by
  rcases accepted_counted h with ⟨hnone, -⟩ | ⟨ht', hsome, hcounted⟩
  · rw [hnone] at hs
    cases hs
  · obtain rfl := Option.some.inj (hsome.symm.trans hs)
    have hstored := hcounted.stored
    have hactive := hcounted.active
    have hentries := hcounted.entries
    constructor
    · rintro ⟨hload, hrecords⟩
      have hsmall : mallocs calls ≤ 513 := by
        by_contra hbig
        have := hcounted.grown (by omega)
        omega
      exact ⟨hsmall, by omega⟩
    · rintro ⟨hsmall, hfrees⟩
      obtain ⟨hload, -⟩ := hcounted.small hsmall
      exact ⟨by omega, by omega⟩

theorem countersExact_first : ∃ s ht, Accepted [.malloc 1 "a" 0 8] s ∧ s.ht = some ht ∧
    CountersExact ht := by
  have hrun : Accepted [.malloc 1 "a" 0 8] _ := .malloc 1 "a" 0 8 .nil rfl
  exact ⟨_, _, hrun, rfl, (countersExact_iff hrun rfl).mpr ⟨by decide, rfl⟩⟩

theorem freed_still_counted : ∃ s ht, Accepted [.free 8 "b", .malloc 1 "a" 0 8] s ∧
    s.ht = some ht ∧ ¬ CountersExact ht := by
  have hrun : Accepted [.free 8 "b", .malloc 1 "a" 0 8] _ :=
    .free 8 "b" (.malloc 1 "a" 0 8 .nil rfl) rfl
  obtain ⟨hnone, -⟩ | ⟨ht, hs, hcounted⟩ := accepted_counted hrun
  · cases hnone
  · refine ⟨_, ht, hrun, hs, fun hexact => ?_⟩
    have hload : ht.load = 1 := (hcounted.small (by decide)).1
    have hactive : ht.activeRecords + 1 = 1 := hcounted.active
    have hentries := hcounted.entries
    have hrecords := hexact.2
    omega

end SlugMem
