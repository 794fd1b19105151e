import Cs111.SlugMem.Hashtable
import Mathlib.Data.Nat.ModEq

namespace SlugMem
open LinearProbing

structure State where
  ht : Option Hashtable
  exitStatus : ℕ

def State.initial : State := ⟨none, 0⟩

inductive ErrorMessage where
  | notAllocated (where' : String) (targetMemory : ℕ)
  | alreadyFreed (where' : String)
  | over128MB (where' : String) (size : ℕ)
  deriving DecidableEq, Repr

inductive Outcome (α : Type) where
  | returns (s : State) (value : α)
  | exits (s : State) (message : ErrorMessage)
  | diverges

def State.fail (s : State) (message : ErrorMessage) {α : Type} : Outcome α :=
  .exits { s with exitStatus := 1 } message

-- `loc` is what the underlying malloc returns and `now` what time() stores.
def slugMalloc (s : State) (size : ℕ) (where' : String) (now loc : ℕ) : Outcome ℕ :=
  let ht := s.ht.getD initHashtable
  let s := { s with ht := some ht }
  if size ≥ 128000000 then s.fail (.over128MB where' size)
  else
    match insertIntoHashtable 2 ht ⟨loc, where', now, size, true⟩ with
    | none => .diverges
    | some ht => .returns { s with ht := some ht } loc

def Hashtable.markInactive (ht : Hashtable) (pos : ℕ) (a : Allocation) : Hashtable :=
  { ht with table := Function.update ht.table pos (some { a with active := false }) }

def slugFree (s : State) (addr : ℕ) (where' : String) : Outcome Unit :=
  match s.ht with
  | none => s.fail (.notAllocated where' addr)
  | some ht =>
    match isInHashtable ht addr with
    | none => .diverges
    | some none => s.fail (.notAllocated where' addr)
    | some (some (pos, a)) =>
      if a.active = false then s.fail (.alreadyFreed where')
      else .returns { s with ht := some (ht.markInactive pos a) } ()

inductive Call where
  | malloc (size : ℕ) (where' : String) (now loc : ℕ)
  | free (addr : ℕ) (where' : String)

def Live : List Call → ℕ → Bool
  | [], _ => false
  | .malloc _ _ _ loc :: calls, addr => loc == addr || Live calls addr
  | .free freed _ :: calls, addr => freed != addr && Live calls addr

inductive Run : List Call → State → Prop
  | nil : Run [] .initial
  | malloc {calls s s'} (size : ℕ) (where' : String) (now loc : ℕ) :
      Run calls s → loc ≠ 0 → Live calls loc = false →
      slugMalloc s size where' now loc = .returns s' loc →
      Run (.malloc size where' now loc :: calls) s'
  | free {calls s s'} (addr : ℕ) (where' : String) :
      Run calls s → slugFree s addr where' = .returns s' () →
      Run (.free addr where' :: calls) s'

def timesReturned : List Call → ℕ → ℕ
  | [], _ => 0
  | .malloc _ _ _ loc :: calls, addr =>
    (if loc = addr then 1 else 0) + timesReturned calls addr
  | .free _ _ :: calls, addr => timesReturned calls addr

def ActiveAt (addr : ℕ) (a : Allocation) : Prop := a.loc = addr ∧ a.active = true

instance (addr : ℕ) : DecidablePred (ActiveAt addr) :=
  fun a => inferInstanceAs (Decidable (a.loc = addr ∧ a.active = true))

structure Tracks (calls : List Call) (ht : Hashtable) : Prop where
  valid : ht.Valid
  count_active : ∀ addr, ht.stored.countP (ActiveAt addr) = if Live calls addr then 1 else 0
  count_loc : ∀ addr, ht.stored.countP (·.loc = addr) = timesReturned calls addr

theorem tracks_init : Tracks [] initHashtable where
  valid := valid_init
  count_active := by simp [stored_init, Live]
  count_loc := by simp [stored_init, timesReturned]

theorem Tracks.malloc {calls : List Call} {ht ht' : Hashtable} {a : Allocation}
    (h : Tracks calls ht) (hv : ht'.Valid) (hstored : ht'.stored = a ::ₘ ht.stored)
    (hactive : a.active = true) (hnew : Live calls a.loc = false) (size : ℕ) (where' : String)
    (now : ℕ) : Tracks (.malloc size where' now a.loc :: calls) ht' where
  valid := hv
  count_active addr := by
    rw [hstored]
    by_cases haddr : a.loc = addr
    · have hcount := h.count_active addr
      rw [← haddr, hnew] at hcount
      rw [Multiset.countP_cons_of_pos _ ⟨haddr, hactive⟩, ← haddr, hcount]
      simp [Live]
    · rw [Multiset.countP_cons_of_neg _ (fun hp => haddr hp.1), h.count_active addr]
      simp [Live, haddr]
  count_loc addr := by
    rw [hstored, Multiset.countP_cons, h.count_loc addr, timesReturned, Nat.add_comm]

theorem valid_markInactive {ht : Hashtable} {pos : ℕ} {a : Allocation} (hv : ht.Valid)
    (hpos : pos < ht.size) (hcell : ht.table pos = some a) : (ht.markInactive pos a).Valid where
  initial_le := hv.initial_le
  load_le := hv.load_le
  stored_le := by
    have := congrArg Multiset.card (records_replace (b := { a with active := false }) hpos hcell)
    have hle := hv.stored_le
    simp only [Multiset.card_cons] at this
    simp only [Hashtable.stored, Hashtable.markInactive] at hle ⊢
    omega
  linked := hv.linked.replace hcell rfl

theorem Tracks.free {calls : List Call} {ht : Hashtable} {pos : ℕ} {a : Allocation}
    (h : Tracks calls ht) (hpos : pos < ht.size) (hcell : ht.table pos = some a)
    (hactive : a.active = true) (where' : String) :
    Tracks (.free a.loc where' :: calls) (ht.markInactive pos a) where
  valid := valid_markInactive h.valid hpos hcell
  count_active addr := by
    have hrep := congrArg (Multiset.countP (ActiveAt addr))
      (records_replace (b := { a with active := false }) hpos hcell)
    have hcount := h.count_active addr
    change Multiset.countP _ (a ::ₘ (ht.markInactive pos a).stored) =
      Multiset.countP _ (_ ::ₘ ht.stored) at hrep
    have hinactive : ¬ ActiveAt addr { a with active := false } := fun hp => by
      simpa using hp.2
    rw [Multiset.countP_cons_of_neg _ hinactive, hcount] at hrep
    by_cases haddr : a.loc = addr
    · have hlive : Live calls addr = true := by
        by_contra hdead
        rw [Multiset.countP_cons_of_pos _ ⟨haddr, hactive⟩] at hrep
        simp [hdead] at hrep
      rw [Multiset.countP_cons_of_pos _ ⟨haddr, hactive⟩, hlive] at hrep
      simpa [Live, haddr] using hrep
    · rw [Multiset.countP_cons_of_neg _ (fun hp => haddr hp.1)] at hrep
      simpa [Live, haddr] using hrep
  count_loc addr := by
    have hrep := congrArg (Multiset.countP (·.loc = addr))
      (records_replace (b := { a with active := false }) hpos hcell)
    have hcount := h.count_loc addr
    rw [Multiset.countP_cons, Multiset.countP_cons] at hrep
    exact (Nat.add_right_cancel hrep).trans hcount

theorem run_tracks {calls : List Call} {s : State} (h : Run calls s) :
    (s.ht = none ∧ calls = []) ∨ ∃ ht, s.ht = some ht ∧ Tracks calls ht := by
  induction h with
  | nil => exact .inl ⟨rfl, rfl⟩
  | @malloc calls s s' size where' now loc hrun hloc hnew hcall ih =>
    have htracks : Tracks calls (s.ht.getD initHashtable) := by
      rcases ih with ⟨hnone, rfl⟩ | ⟨ht, hsome, htracks⟩
      · simpa [hnone] using tracks_init
      · simpa [hsome] using htracks
    obtain ⟨ht', hins, hv, hstored⟩ :=
      insert_spec 0 htracks.valid ⟨loc, where', now, size, true⟩
    simp only [slugMalloc, hins, State.fail] at hcall
    split at hcall
    · cases hcall
    · cases hcall
      exact .inr ⟨ht', rfl, htracks.malloc hv hstored rfl hnew size where' now⟩
  | @free calls s s' addr where' hrun hcall ih =>
    rcases ih with ⟨hnone, rfl⟩ | ⟨ht, hsome, htracks⟩
    · simp [slugFree, hnone, State.fail] at hcall
    · obtain ⟨k, hk, hbefore, ⟨hnull, _⟩ | ⟨a, hfound, hcell, rfl⟩⟩ :=
        isInHashtable_spec htracks.valid addr
      · simp [slugFree, hsome, hnull, State.fail] at hcall
      · simp only [slugFree, hsome, hfound, State.fail] at hcall
        split at hcall
        · cases hcall
        · rename_i hactive
          cases hcall
          exact .inr ⟨_, rfl, htracks.free (Nat.mod_lt _ htracks.valid.size_pos) hcell
            (by simpa using hactive) where'⟩

def Shadowed (s : State) (addr : ℕ) : Prop :=
  ∃ ht, s.ht = some ht ∧ ∃ j k, j < k ∧ k < ht.size ∧
    (∃ a, ht.table ((addr + j) % ht.size) = some a ∧ a.loc = addr ∧ a.active = false) ∧
    ∃ b, ht.table ((addr + k) % ht.size) = some b ∧ ActiveAt addr b

def FreesExactly (calls : List Call) (s : State) (addr : ℕ) (where' : String) : Prop :=
  (Live calls addr = true ↔ ∃ s', slugFree s addr where' = .returns s' ()) ∧
  (Live calls addr = false ↔ ∃ s' e, slugFree s addr where' = .exits s' e)

theorem Tracks.live_of_active {calls : List Call} {ht : Hashtable} {p : ℕ} {a : Allocation}
    (h : Tracks calls ht) (hp : p < ht.size) (hcell : ht.table p = some a)
    (hactive : a.active = true) : Live calls a.loc = true := by
  have hmem : a ∈ ht.stored := mem_records.mpr ⟨p, hp, hcell⟩
  have hpos := (Multiset.countP_pos (p := ActiveAt a.loc)).mpr ⟨a, hmem, rfl, hactive⟩
  by_contra hdead
  rw [h.count_active a.loc, if_neg hdead] at hpos
  omega

theorem Tracks.active_of_live {calls : List Call} {ht : Hashtable} {addr : ℕ}
    (h : Tracks calls ht) (hlive : Live calls addr = true) :
    ∃ p < ht.size, ∃ a, ht.table p = some a ∧ ActiveAt addr a := by
  have hcount := h.count_active addr
  rw [if_pos hlive] at hcount
  obtain ⟨a, ha, hactive⟩ := Multiset.countP_pos.mp (by rw [hcount]; exact Nat.one_pos)
  obtain ⟨p, hp, hcell⟩ := mem_records.mp ha
  exact ⟨p, hp, a, hcell, hactive⟩

theorem Tracks.active_unique {calls : List Call} {ht : Hashtable} {addr p q : ℕ}
    {a b : Allocation} (h : Tracks calls ht) (hp : p < ht.size) (hq : q < ht.size)
    (ha : ht.table p = some a) (hb : ht.table q = some b) (hpa : ActiveAt addr a)
    (hqb : ActiveAt addr b) : q = p := by
  by_contra hne
  have htwo := two_le_countP (ActiveAt addr) hp hq hne ha hb hpa hqb
  have hcount := h.count_active addr
  unfold Hashtable.stored at hcount
  split at hcount <;> omega

theorem mod_add_inj {n x j k : ℕ} (hj : j < n) (hk : k < n) (h : (x + j) % n = (x + k) % n) :
    j = k := by
  have := Nat.ModEq.add_left_cancel' x h
  rwa [Nat.ModEq, Nat.mod_eq_of_lt hj, Nat.mod_eq_of_lt hk] at this

theorem first_active_not_shadowed {calls : List Call} {ht : Hashtable} {addr k : ℕ}
    {s : State} {a : Allocation} (h : Tracks calls ht) (hs : s.ht = some ht) (hk : k < ht.size)
    (hbefore : ∀ j < k, hit Allocation.loc addr (ht.table ((addr + j) % ht.size)) = false)
    (hcell : ht.table ((addr + k) % ht.size) = some a) (hactive : ActiveAt addr a) :
    ¬ Shadowed s addr := by
  rintro ⟨ht', hs', j, m, hjm, hm, ⟨c, hc, hcloc, _⟩, b, hb, hbactive⟩
  obtain rfl : ht = ht' := Option.some.inj (hs.symm.trans hs')
  have hpos := h.valid.size_pos
  have hmk := h.active_unique (Nat.mod_lt _ hpos) (Nat.mod_lt _ hpos) hcell hb hactive hbactive
  obtain rfl := mod_add_inj hm hk hmk
  simpa [hc, hit, hcloc] using hbefore j hjm

theorem shadowed_of_first_freed {calls : List Call} {ht : Hashtable} {addr k : ℕ} {s : State}
    {a : Allocation} (h : Tracks calls ht) (hs : s.ht = some ht)
    (hbefore : ∀ j < k, hit Allocation.loc addr (ht.table ((addr + j) % ht.size)) = false)
    (hcell : ht.table ((addr + k) % ht.size) = some a) (hloc : a.loc = addr)
    (hfreed : a.active = false) (hlive : Live calls addr = true) : Shadowed s addr := by
  obtain ⟨q, hq, b, hb, hbactive⟩ := h.active_of_live hlive
  have hpos := h.valid.size_pos
  obtain ⟨m, hm, hmq⟩ := exists_offset (Nat.mod_lt addr hpos) hq
  rw [Nat.mod_add_mod] at hmq
  subst hmq
  refine ⟨ht, hs, k, m, ?_, hm, ⟨a, hcell, hloc, hfreed⟩, b, hb, hbactive⟩
  rcases lt_trichotomy k m with hlt | rfl | hgt
  · exact hlt
  · rw [hcell, Option.some.injEq] at hb
    subst hb
    rw [hbactive.2] at hfreed
    cases hfreed
  · simpa [hb, hit, hbactive.1] using hbefore m hgt

theorem slugFree_exact_iff {calls : List Call} {s : State} (h : Run calls s) (addr : ℕ)
    (where' : String) : FreesExactly calls s addr where' ↔ ¬ Shadowed s addr := by
  rcases run_tracks h with ⟨hnone, rfl⟩ | ⟨ht, hs, htracks⟩
  · have hfail : slugFree s addr where' = s.fail (.notAllocated where' addr) := by
      simp [slugFree, hnone]
    have hno : ¬ Shadowed s addr := fun ⟨ht, hsome, _⟩ => by simp [hnone] at hsome
    simp [FreesExactly, hfail, Live, State.fail, hno]
  · obtain ⟨k, hk, hbefore, ⟨hnull, _, hall⟩ | ⟨a, hfound, hcell, hloc⟩⟩ :=
      isInHashtable_spec htracks.valid addr
    · have hdead : Live calls addr = false := by
        by_contra hlive
        obtain ⟨p, hp, a, ha, hactive⟩ := htracks.active_of_live (by simpa using hlive)
        exact hall a (mem_records.mpr ⟨p, hp, ha⟩) hactive.1
      have hno : ¬ Shadowed s addr := by
        rintro ⟨ht', hs', j, m, _, _, _, b, hb, hbactive⟩
        obtain rfl : ht = ht' := Option.some.inj (hs.symm.trans hs')
        exact hall b (mem_records.mpr ⟨_, Nat.mod_lt _ htracks.valid.size_pos, hb⟩) hbactive.1
      simp [FreesExactly, slugFree, hs, hnull, State.fail, hdead, hno]
    · cases hactive : a.active with
      | true =>
        have hlive := htracks.live_of_active (Nat.mod_lt _ htracks.valid.size_pos) hcell hactive
        have hno := first_active_not_shadowed htracks hs hk hbefore hcell ⟨hloc, hactive⟩
        rw [hloc] at hlive
        simp [FreesExactly, slugFree, hs, hfound, hactive, hlive, hno]
      | false =>
        have hshadow : Live calls addr = true ↔ Shadowed s addr := by
          refine ⟨shadowed_of_first_freed htracks hs hbefore hcell hloc hactive, ?_⟩
          rintro ⟨ht', hs', j, m, _, _, _, b, hb, hbactive⟩
          obtain rfl : ht = ht' := Option.some.inj (hs.symm.trans hs')
          have hlive := htracks.live_of_active (Nat.mod_lt _ htracks.valid.size_pos) hb hbactive.2
          rwa [hbactive.1] at hlive
        rw [← hshadow]
        simp [FreesExactly, slugFree, hs, hfound, hactive, State.fail]

theorem once_returned_not_shadowed {calls : List Call} {s : State} {addr : ℕ}
    (h : Run calls s) (honce : timesReturned calls addr ≤ 1) : ¬ Shadowed s addr := by
  rintro ⟨ht, hs, j, k, hjk, hk, ⟨a, ha, haloc, _⟩, b, hb, hbactive⟩
  rcases run_tracks h with ⟨hnone, _⟩ | ⟨ht', hs', htracks⟩
  · rw [hnone] at hs
    cases hs
  · obtain rfl : ht = ht' := Option.some.inj (hs.symm.trans hs')
    have hpos := htracks.valid.size_pos
    have hne : (addr + k) % ht.size ≠ (addr + j) % ht.size := fun he =>
      absurd (mod_add_inj hk (by omega) he) (by omega)
    have htwo := two_le_countP (·.loc = addr) (Nat.mod_lt _ hpos) (Nat.mod_lt _ hpos) hne ha hb
      haloc hbactive.1
    have hcount := htracks.count_loc addr
    unfold Hashtable.stored at hcount
    omega

theorem slugFree_first_exact :
    ∃ s, Run [.malloc 1 "a" 0 8] s ∧ FreesExactly [.malloc 1 "a" 0 8] s 8 "b" := by
  have hrun : Run [.malloc 1 "a" 0 8] _ := .malloc 1 "a" 0 8 .nil (by decide) rfl rfl
  exact ⟨_, hrun, (slugFree_exact_iff hrun 8 "b").mpr (once_returned_not_shadowed hrun (by decide))⟩

theorem slugFree_reused_refused :
    ¬ ∀ calls s addr where', Run calls s → FreesExactly calls s addr where' := by
  intro hall
  have hrun : Run [.malloc 1 "c" 0 8, .free 8 "b", .malloc 1 "a" 0 8] _ :=
    .malloc 1 "c" 0 8 (.free 8 "b" (.malloc 1 "a" 0 8 .nil (by decide) rfl rfl) rfl)
      (by decide) rfl rfl
  obtain ⟨s', hfreed⟩ := (hall _ _ 8 "d" hrun).1.mp rfl
  cases hfreed

end SlugMem
