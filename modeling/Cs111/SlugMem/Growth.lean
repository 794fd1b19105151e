import Cs111.SlugMem.TableRuns

namespace SlugMem
open LinearProbing

section Suffixes

theorem mallocs_suffix {earlier calls : List Call} (h : earlier <:+ calls) :
    mallocs earlier ≤ mallocs calls := by
  induction calls with
  | nil => simp [List.suffix_nil.mp h]
  | cons call calls ih =>
    rcases List.suffix_cons_iff.mp h with rfl | h
    · exact le_refl _
    · have hle := ih h
      cases call with
      | malloc => exact Nat.le_succ_of_le hle
      | free => exact hle

theorem malloc_after {calls : List Call} {n : ℕ} (h : n < mallocs calls) :
    ∃ size where' now loc earlier,
      Call.malloc size where' now loc :: earlier <:+ calls ∧ mallocs earlier = n := by
  induction calls with
  | nil => simp [mallocs] at h
  | cons call calls ih =>
    cases call with
    | malloc size where' now loc =>
      by_cases hlast : mallocs calls = n
      · exact ⟨size, where', now, loc, calls, List.suffix_refl _, hlast⟩
      · simp only [mallocs] at h
        obtain ⟨size', w, now', loc', earlier, hsuffix, hn⟩ := ih (by omega)
        exact ⟨size', w, now', loc', earlier, hsuffix.trans (List.suffix_cons _ _), hn⟩
    | free =>
      obtain ⟨size', w, now', loc', earlier, hsuffix, hn⟩ := ih h
      exact ⟨size', w, now', loc', earlier, hsuffix.trans (List.suffix_cons _ _), hn⟩

theorem accepted_earlier {earlier calls : List Call} {s : State} (h : Accepted calls s)
    (hsuffix : earlier <:+ calls) : ∃ s', Accepted earlier s' := by
  induction h with
  | nil =>
    obtain rfl := List.suffix_nil.mp hsuffix
    exact ⟨_, .nil⟩
  | malloc size where' now loc hrun hcall ih =>
    rcases List.suffix_cons_iff.mp hsuffix with rfl | hsuffix
    · exact ⟨_, .malloc size where' now loc hrun hcall⟩
    · exact ih hsuffix
  | free addr where' hrun hcall ih =>
    rcases List.suffix_cons_iff.mp hsuffix with rfl | hsuffix
    · exact ⟨_, .free addr where' hrun hcall⟩
    · exact ih hsuffix

end Suffixes

def Hashtable.Full (ht : Hashtable) : Prop := ht.load * 4 > ht.size

def DoublesExactly (ht : Hashtable) : Prop :=
  ∀ new, ht.Full → doubleHashtable (insertIntoHashtable 1) ht = some new →
    new.size = 2 * ht.size

def Hashtable.InProportion (ht : Hashtable) : Prop :=
  ht.size ≤ max 2049 (8 * ht.stored.card + 8)

def GrowsInProportion (calls : List Call) : Prop :=
  ∀ earlier s, earlier <:+ calls → Accepted earlier s →
    (∀ ht, s.ht = some ht → ht.InProportion) ∧
    ∀ size where' now loc, Call.malloc size where' now loc :: earlier <:+ calls →
      DoublesExactly (s.ht.getD initHashtable)

section Growth
variable {ht ht' : Hashtable}

theorem doubled_size (hv : ht.Valid) {new : Hashtable}
    (h : doubleHashtable (insertIntoHashtable 1) ht = some new) :
    new.size = ht.size * ht.size := by
  obtain ⟨new', hdouble, hnew⟩ := double_spec 0 hv
  obtain rfl := Option.some.inj (hdouble.symm.trans h)
  exact hnew.size_eq

theorem full_not_doubled (hv : ht.Valid) (hfull : ht.Full) : ¬ DoublesExactly ht := by
  intro hexact
  obtain ⟨new, hdouble, -⟩ := double_spec 0 hv
  have htwice : ht.size * ht.size = 2 * ht.size :=
    (doubled_size hv hdouble).symm.trans (hexact new hfull hdouble)
  have hsize : ht.size = 2 := Nat.eq_of_mul_eq_mul_right hv.size_pos htwice
  have hinitial := hv.initial_le
  omega

theorem full_insert_size {a : Allocation} (hv : ht.Valid) (hfull : ht.Full)
    (h : insertIntoHashtable 2 ht a = some ht') : ht'.size = ht.size * ht.size := by
  have hload : ht.load * 4 > ht.size := hfull
  rw [insertIntoHashtable, if_pos hload] at h
  obtain ⟨new, hdouble, hplace⟩ := Option.bind_eq_some_iff.mp h
  obtain ⟨pos, -, rfl⟩ := Option.map_eq_some_iff.mp hplace
  have hsize := doubled_size hv hdouble
  simpa [Hashtable.place] using hsize

theorem table_counted {calls : List Call} {s : State} (h : Accepted calls s) :
    Counted calls (s.ht.getD initHashtable) := by
  rcases accepted_counted h with ⟨hnone, rfl⟩ | ⟨ht, hs, hcounted⟩
  · simpa [hnone] using counted_init
  · simpa [hs] using hcounted

theorem Counted.inProportion {calls : List Call} (h : Counted calls ht)
    (hsmall : mallocs calls ≤ 513) : ht.InProportion := by
  have hsize := (h.small hsmall).2
  simp [Hashtable.InProportion, hsize]

theorem Counted.full_iff {calls : List Call} (h : Counted calls ht)
    (hsmall : mallocs calls ≤ 513) : ht.Full ↔ mallocs calls = 513 := by
  obtain ⟨hload, hsize⟩ := h.small hsmall
  simp only [Hashtable.Full, hload, hsize]
  omega

end Growth

theorem growsInProportion_iff {calls : List Call} {s : State} (h : Accepted calls s) :
    GrowsInProportion calls ↔ mallocs calls ≤ 513 := by
  constructor
  · intro hgrows
    by_contra hmany
    obtain ⟨size, where', now, loc, earlier, hsuffix, hn⟩ := malloc_after (not_le.mp hmany)
    have hearlier := (List.suffix_cons _ earlier).trans hsuffix
    obtain ⟨t, ht⟩ := accepted_earlier h hearlier
    have hcounted := table_counted ht
    have hfull := (hcounted.full_iff (by omega)).mpr hn
    exact full_not_doubled hcounted.valid hfull
      ((hgrows earlier t hearlier ht).2 size where' now loc hsuffix)
  · intro hfew earlier t hsuffix ht
    have hcounted := table_counted ht
    have hle := mallocs_suffix hsuffix
    refine ⟨fun table hs => ?_, fun size where' now loc hnext new hfull _ => ?_⟩
    · rw [hs] at hcounted
      exact hcounted.inProportion (by omega)
    · have hmore := mallocs_suffix hnext
      simp only [mallocs] at hmore
      have hlast := (hcounted.full_iff (by omega)).mp hfull
      omega

theorem growsInProportion_first : ∃ s, Accepted [.malloc 1 "a" 0 8] s ∧
    (GrowsInProportion [.malloc 1 "a" 0 8] ↔ mallocs [.malloc 1 "a" 0 8] ≤ 513) := by
  have hrun : Accepted [.malloc 1 "a" 0 8] _ := .malloc 1 "a" 0 8 .nil rfl
  exact ⟨_, hrun, growsInProportion_iff hrun⟩

theorem malloc_accepted {calls : List Call} {s : State} (h : Accepted calls s) (loc : ℕ) :
    ∃ s' ht', Accepted (.malloc 1 "a" 0 loc :: calls) s' ∧ s'.ht = some ht' ∧
      insertIntoHashtable 2 (s.ht.getD initHashtable) ⟨loc, "a", 0, 1, true⟩ = some ht' := by
  obtain ⟨ht', hins, -⟩ := insert_spec 0 (table_counted h).valid ⟨loc, "a", 0, 1, true⟩
  have hcall : slugMalloc s 1 "a" 0 loc = .returns { s with ht := some ht' } loc := by
    simp [slugMalloc, hins]
  exact ⟨_, ht', .malloc 1 "a" 0 loc h hcall, rfl, hins⟩

theorem mallocs_accepted (n : ℕ) : ∃ calls s, Accepted calls s ∧ mallocs calls = n := by
  induction n with
  | zero => exact ⟨[], _, .nil, rfl⟩
  | succ n ih =>
    obtain ⟨calls, s, hrun, hn⟩ := ih
    obtain ⟨s', -, hnext, -⟩ := malloc_accepted hrun (16 * (n + 1))
    exact ⟨_, s', hnext, by simp [mallocs, hn]⟩

theorem grown_out_of_proportion : ∃ calls s ht, Accepted calls s ∧ s.ht = some ht ∧
    ht.stored.card = 514 ∧ ht.size = 4198401 ∧ ¬ ht.InProportion ∧ ¬ GrowsInProportion calls := by
  obtain ⟨calls, s, hrun, hn⟩ := mallocs_accepted 513
  have hcounted := table_counted hrun
  have hfull := (hcounted.full_iff (by omega)).mpr hn
  obtain ⟨s', ht', hnext, hs', hins⟩ := malloc_accepted hrun (16 * 514)
  have hsize := full_insert_size hcounted.valid hfull hins
  rw [(hcounted.small (by omega)).2] at hsize
  have hgrown := table_counted hnext
  rw [hs'] at hgrown
  have hstored := hgrown.stored
  simp only [Option.getD_some, mallocs, hn] at hstored
  have hout : ¬ ht'.InProportion := by
    simp [Hashtable.InProportion, hsize, hstored]
  exact ⟨_, s', ht', hnext, hs', hstored, hsize, hout,
    fun hgrows => hout ((hgrows _ s' (List.suffix_refl _) hnext).1 ht' hs')⟩

def memLeakLoc (ht : Hashtable) : Option String :=
  (List.range ht.size).foldl
    (fun memLeakLoc i =>
      match ht.table i with
      | none => memLeakLoc
      | some a => if a.active = true then some a.where' else memLeakLoc) none

def leakDetection (s : State) : Option (State × Option String) :=
  s.ht.map fun ht =>
    match memLeakLoc ht with
    | none => (s, none)
    | some memLeakLoc => ({ s with exitStatus := 1 }, some memLeakLoc)

def NeverFreed : List Call → ℕ → String → Prop
  | [], _, _ => False
  | .malloc _ w _ l :: calls, loc, where' => l = loc ∧ w = where' ∨ NeverFreed calls loc where'
  | .free addr _ :: calls, loc, where' => addr ≠ loc ∧ NeverFreed calls loc where'

section Scan
variable {ht : Hashtable}

theorem memLeakLoc_spec (ht : Hashtable) :
    (memLeakLoc ht = none ∧ ∀ a ∈ ht.stored, a.active = false) ∨
    ∃ a ∈ ht.stored, a.active = true ∧ memLeakLoc ht = some a.where' := by
  rw [memLeakLoc, Hashtable.stored]
  generalize hstep : (fun (memLeakLoc : Option String) i =>
    match ht.table i with
    | none => memLeakLoc
    | some a => if a.active = true then some a.where' else memLeakLoc) = step
  induction ht.size with
  | zero => exact .inl ⟨rfl, by simp [records]⟩
  | succ n ih =>
    rw [List.range_succ, List.foldl_append, List.foldl_cons, List.foldl_nil, records_succ]
    generalize (List.range n).foldl step none = found at ih
    cases hcell : ht.table n with
    | none =>
      have hsame : step found n = found := by
        rw [← hstep]
        simp [hcell]
      rw [hsame]
      simpa using ih
    | some a =>
      cases hactive : a.active with
      | true =>
        have hfound : step found n = some a.where' := by
          rw [← hstep]
          simp [hcell, hactive]
        exact .inr ⟨a, by simp, hactive, hfound⟩
      | false =>
        have hsame : step found n = found := by
          rw [← hstep]
          simp [hcell, hactive]
        rw [hsame, Option.toList_some]
        rcases ih with ⟨hnone, hall⟩ | ⟨b, hb, hbactive, hfound⟩
        · refine .inl ⟨hnone, fun b hb => ?_⟩
          rcases Multiset.mem_add.mp hb with hhere | hbefore
          · rw [Multiset.coe_singleton, Multiset.mem_singleton] at hhere
            rw [hhere]
            exact hactive
          · exact hall b hbefore
        · exact .inr ⟨b, Multiset.mem_add.mpr (.inr hb), hbactive, hfound⟩

end Scan

structure Remembers (calls : List Call) (ht : Hashtable) : Prop where
  tracks : Tracks calls ht
  never : ∀ loc where', NeverFreed calls loc where' ↔
    ∃ a ∈ ht.stored, a.active = true ∧ a.loc = loc ∧ a.where' = where'

theorem remembers_init : Remembers [] initHashtable where
  tracks := tracks_init
  never loc where' := by simp [NeverFreed, stored_init]

theorem Remembers.malloc {calls : List Call} {ht ht' : Hashtable} (h : Remembers calls ht)
    {size now loc : ℕ} {where' : String} (hnew : Live calls loc = false)
    (hins : insertIntoHashtable 2 ht ⟨loc, where', now, size, true⟩ = some ht') :
    Remembers (.malloc size where' now loc :: calls) ht' := by
  obtain ⟨new, hnewtable, hv, hstored⟩ :=
    insert_spec 0 h.tracks.valid ⟨loc, where', now, size, true⟩
  rw [hins] at hnewtable
  obtain rfl := Option.some.inj hnewtable
  refine ⟨h.tracks.malloc hv hstored rfl hnew size where' now, fun loc' w => ?_⟩
  rw [NeverFreed, h.never, hstored]
  constructor
  · rintro (⟨rfl, rfl⟩ | ⟨a, ha, hall⟩)
    · exact ⟨_, Multiset.mem_cons_self _ _, rfl, rfl, rfl⟩
    · exact ⟨a, Multiset.mem_cons_of_mem ha, hall⟩
  · rintro ⟨a, ha, hactive, hloc, hw⟩
    rcases Multiset.mem_cons.mp ha with rfl | ha
    · exact .inl ⟨hloc, hw⟩
    · exact .inr ⟨a, ha, hactive, hloc, hw⟩

theorem Remembers.free {calls : List Call} {ht : Hashtable} {pos : ℕ} {a : Allocation}
    (h : Remembers calls ht) (hpos : pos < ht.size) (hcell : ht.table pos = some a)
    (hactive : a.active = true) (where' : String) :
    Remembers (.free a.loc where' :: calls) (ht.markInactive pos a) := by
  have htracks := h.tracks.free hpos hcell hactive where'
  have hrep : a ::ₘ (ht.markInactive pos a).stored = { a with active := false } ::ₘ ht.stored :=
    records_replace hpos hcell
  have hgone : ∀ b ∈ (ht.markInactive pos a).stored, b.active = true → b.loc ≠ a.loc := by
    intro b hb hbactive hloc
    have hone := (Multiset.countP_pos (p := ActiveAt a.loc)).mpr ⟨b, hb, hloc, hbactive⟩
    rw [htracks.count_active] at hone
    simp [Live] at hone
  refine ⟨htracks, fun loc w => ?_⟩
  rw [NeverFreed, h.never]
  constructor
  · rintro ⟨hne, b, hb, hbactive, rfl, rfl⟩
    have hmem : b ∈ a ::ₘ (ht.markInactive pos a).stored := by
      rw [hrep]
      exact Multiset.mem_cons_of_mem hb
    rcases Multiset.mem_cons.mp hmem with rfl | hmem
    · exact absurd rfl hne
    · exact ⟨b, hmem, hbactive, rfl, rfl⟩
  · rintro ⟨b, hb, hbactive, rfl, rfl⟩
    refine ⟨(hgone b hb hbactive).symm, b, ?_, hbactive, rfl, rfl⟩
    have hmem : b ∈ { a with active := false } ::ₘ ht.stored := by
      rw [← hrep]
      exact Multiset.mem_cons_of_mem hb
    rcases Multiset.mem_cons.mp hmem with rfl | hmem
    · cases hbactive
    · exact hmem

theorem run_remembers {calls : List Call} {s : State} (h : Run calls s) :
    (s.ht = none ∧ calls = []) ∨ ∃ ht, s.ht = some ht ∧ Remembers calls ht := by
  induction h with
  | nil => exact .inl ⟨rfl, rfl⟩
  | @malloc calls s s' size where' now loc _ _ hnew hcall ih =>
    have hremembers : Remembers calls (s.ht.getD initHashtable) := by
      rcases ih with ⟨hnone, rfl⟩ | ⟨ht, hsome, hremembers⟩
      · rw [hnone]
        exact remembers_init
      · rw [hsome]
        exact hremembers
    obtain ⟨ht', hins, hs'⟩ := slugMalloc_returns hcall
    exact .inr ⟨ht', hs', hremembers.malloc hnew hins⟩
  | @free calls s s' addr where' _ hcall ih =>
    obtain ⟨ht, pos, a, hs, hfound, hactive, hs'⟩ := slugFree_returns hcall
    rcases ih with ⟨hnone, rfl⟩ | ⟨ht', hsome, hremembers⟩
    · rw [hnone] at hs
      cases hs
    · obtain rfl := Option.some.inj (hsome.symm.trans hs)
      obtain ⟨hpos, hcell, rfl⟩ := found_cell hremembers.tracks.valid hfound
      exact .inr ⟨_, hs', hremembers.free hpos hcell hactive where'⟩

theorem leaks_reported_exactly {calls : List Call} {s : State} (h : Run calls s) :
    (leakDetection s = none → ∀ loc where', ¬ NeverFreed calls loc where') ∧
    ∀ s' report, leakDetection s = some (s', report) →
      (report.isSome = true ↔ ∃ loc where', NeverFreed calls loc where') ∧
      ∀ where', report = some where' → ∃ loc, NeverFreed calls loc where' := by
  rcases run_remembers h with ⟨hnone, rfl⟩ | ⟨ht, hs, hremembers⟩
  · refine ⟨fun _ _ _ hnever => hnever, fun s' report hreport => ?_⟩
    rw [leakDetection, hnone] at hreport
    cases hreport
  · refine ⟨fun hnone => ?_, fun s' report hreport => ?_⟩
    · rw [leakDetection, hs] at hnone
      cases hnone
    · have hloc : report = memLeakLoc ht := by
        rw [leakDetection, hs, Option.map_some] at hreport
        cases hfound : memLeakLoc ht with
        | none =>
          rw [hfound] at hreport
          exact (Prod.mk.inj (Option.some.inj hreport)).2.symm
        | some where' =>
          rw [hfound] at hreport
          exact (Prod.mk.inj (Option.some.inj hreport)).2.symm
      rw [hloc]
      rcases memLeakLoc_spec ht with ⟨hnone, hall⟩ | ⟨a, ha, hactive, hfound⟩
      · rw [hnone]
        refine ⟨⟨nofun, ?_⟩, nofun⟩
        rintro ⟨loc, where', hnever⟩
        obtain ⟨a, ha, hactive, -⟩ := (hremembers.never loc where').mp hnever
        rw [hall a ha] at hactive
        cases hactive
      · rw [hfound]
        have hnever : NeverFreed calls a.loc a.where' :=
          (hremembers.never _ _).mpr ⟨a, ha, hactive, rfl, rfl⟩
        refine ⟨⟨fun _ => ⟨_, _, hnever⟩, fun _ => rfl⟩, fun where' hsome => ?_⟩
        cases hsome
        exact ⟨_, hnever⟩

theorem leaks_reported_reused : ∃ s,
    Run [.malloc 1 "c" 0 8, .free 8 "b", .malloc 1 "a" 0 8] s ∧
    (leakDetection s = none → ∀ loc where',
      ¬ NeverFreed [.malloc 1 "c" 0 8, .free 8 "b", .malloc 1 "a" 0 8] loc where') ∧
    ∀ s' report, leakDetection s = some (s', report) →
      (report.isSome = true ↔ ∃ loc where',
        NeverFreed [.malloc 1 "c" 0 8, .free 8 "b", .malloc 1 "a" 0 8] loc where') ∧
      ∀ where', report = some where' → ∃ loc,
        NeverFreed [.malloc 1 "c" 0 8, .free 8 "b", .malloc 1 "a" 0 8] loc where' := by
  have hrun : Run [.malloc 1 "c" 0 8, .free 8 "b", .malloc 1 "a" 0 8] _ :=
    .malloc 1 "c" 0 8 (.free 8 "b" (.malloc 1 "a" 0 8 .nil (by decide) rfl rfl) rfl)
      (by decide) rfl rfl
  exact ⟨_, hrun, leaks_reported_exactly hrun⟩

end SlugMem
