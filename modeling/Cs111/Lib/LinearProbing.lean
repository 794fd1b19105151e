import Mathlib.Data.Multiset.Range
import Mathlib.Tactic.Ring
import Mathlib.Tactic.Linarith

namespace LinearProbing

def scan (stop : ℕ → Bool) (n : ℕ) : ℕ → ℕ → Option ℕ
  | 0, _ => none
  | fuel + 1, pos => if stop pos then some pos else scan stop n fuel ((pos + 1) % n)

theorem scan_spec (stop : ℕ → Bool) {n : ℕ} :
    ∀ (fuel : ℕ) {pos : ℕ}, pos < n →
      (∃ k < fuel, scan stop n fuel pos = some ((pos + k) % n) ∧
        stop ((pos + k) % n) = true ∧ ∀ j < k, stop ((pos + j) % n) = false) ∨
      (scan stop n fuel pos = none ∧ ∀ j < fuel, stop ((pos + j) % n) = false) := by
  intro fuel
  induction fuel with
  | zero => intro pos _; exact .inr ⟨rfl, by simp⟩
  | succ fuel ih =>
    intro pos hpos
    have hself : (pos + 0) % n = pos := Nat.mod_eq_of_lt (by simpa using hpos)
    have hn : 0 < n := by omega
    have shiftPos (k : ℕ) : ((pos + 1) % n + k) % n = (pos + (k + 1)) % n := by
      rw [Nat.mod_add_mod]; congr 1; ring
    cases hs : stop pos with
    | true =>
      refine .inl ⟨0, by omega, ?_, ?_, by simp⟩
      · rw [hself]; simp [scan, hs]
      · rw [hself]; exact hs
    | false =>
      have hscan : scan stop n (fuel + 1) pos = scan stop n fuel ((pos + 1) % n) := by
        simp [scan, hs]
      have lift {m : ℕ} (h : ∀ j < m, stop (((pos + 1) % n + j) % n) = false) :
          ∀ j < m + 1, stop ((pos + j) % n) = false := by
        intro j hj
        cases j with
        | zero => rw [hself]; exact hs
        | succ j => rw [← shiftPos]; exact h j (by omega)
      rcases ih (Nat.mod_lt (pos + 1) hn) with ⟨k, hk, hfound, hstop, hbefore⟩ | ⟨hnone, hall⟩
      · refine .inl ⟨k + 1, by omega, ?_, ?_, lift hbefore⟩
        · rw [hscan, hfound, shiftPos]
        · rw [← shiftPos]; exact hstop
      · exact .inr ⟨hscan.trans hnone, lift hall⟩

theorem exists_offset {n pos q : ℕ} (hpos : pos < n) (hq : q < n) :
    ∃ k < n, (pos + k) % n = q := by
  rcases le_or_gt pos q with h | h
  · exact ⟨q - pos, by omega, by rw [Nat.add_sub_cancel' h]; exact Nat.mod_eq_of_lt hq⟩
  · refine ⟨q + n - pos, by omega, ?_⟩
    have : pos + (q + n - pos) = q + n := by omega
    rw [this, Nat.add_mod_right]
    exact Nat.mod_eq_of_lt hq

theorem scan_stops (stop : ℕ → Bool) {n pos : ℕ} (hpos : pos < n)
    (h : ∃ q < n, stop q = true) :
    ∃ k < n, scan stop n n pos = some ((pos + k) % n) ∧
      stop ((pos + k) % n) = true ∧ ∀ j < k, stop ((pos + j) % n) = false := by
  rcases scan_spec stop n hpos with hfound | ⟨_, hall⟩
  · exact hfound
  · obtain ⟨q, hq, hstop⟩ := h
    obtain ⟨k, hk, rfl⟩ := exists_offset hpos hq
    rw [hall k hk] at hstop
    cases hstop

section Records

variable {α : Type} {t : ℕ → Option α} {n p : ℕ}

def records (t : ℕ → Option α) (n : ℕ) : Multiset α := (Multiset.range n).filterMap t

theorem mem_records {a : α} : a ∈ records t n ↔ ∃ q < n, t q = some a := by
  simp [records, Multiset.mem_filterMap]

@[simp] theorem records_empty (n : ℕ) : records (fun _ => (none : Option α)) n = 0 := by
  refine Multiset.eq_zero_of_forall_notMem fun a ha => ?_
  obtain ⟨q, _, hq⟩ := mem_records.mp ha
  cases hq

theorem filterMap_update_of_notMem (v : Option α) {s : Multiset ℕ} (hp : p ∉ s) :
    s.filterMap (Function.update t p v) = s.filterMap t := by
  induction s using Multiset.induction with
  | empty => rfl
  | cons q s ih =>
    obtain ⟨hne, hs⟩ := not_or.mp (mt Multiset.mem_cons.mpr hp)
    rw [Multiset.filterMap_cons, Multiset.filterMap_cons, ih hs,
      Function.update_of_ne (Ne.symm hne)]

theorem records_update (v : Option α) (hp : p < n) :
    records (Function.update t p v) n =
      v.toList + ((Multiset.range n).erase p).filterMap t := by
  have hmem : p ∈ Multiset.range n := Multiset.mem_range.mpr hp
  have hnot : p ∉ (Multiset.range n).erase p := (Multiset.nodup_range n).notMem_erase
  rw [records, ← Multiset.cons_erase hmem, Multiset.filterMap_cons, Function.update_self,
    filterMap_update_of_notMem v hnot, Multiset.erase_cons_head]
  cases v <;> rfl

theorem records_split (hp : p < n) :
    records t n = (t p).toList + ((Multiset.range n).erase p).filterMap t := by
  simpa using records_update (t := t) (t p) hp

theorem records_insert {a : α} (hp : p < n) (h : t p = none) :
    records (Function.update t p (some a)) n = a ::ₘ records t n := by
  rw [records_update _ hp, records_split hp, h]
  simp [← Multiset.singleton_add]

theorem records_replace {a b : α} (hp : p < n) (h : t p = some a) :
    a ::ₘ records (Function.update t p (some b)) n = b ::ₘ records t n := by
  rw [records_update _ hp, records_split (t := t) hp, h]
  simp only [Option.toList_some, Multiset.coe_singleton, Multiset.singleton_add]
  exact Multiset.cons_swap ..

theorem card_records_of_full (h : ∀ q < n, t q ≠ none) : (records t n).card = n := by
  induction n with
  | zero => rfl
  | succ n ih =>
    obtain ⟨a, ha⟩ := Option.ne_none_iff_exists'.mp (h n (by omega))
    have := ih fun q hq => h q (by omega)
    simpa [records, Multiset.range_succ, Multiset.filterMap_cons_some _ _ _ ha] using this

theorem exists_empty (h : (records t n).card < n) : ∃ q < n, t q = none := by
  by_contra hfull
  push Not at hfull
  exact absurd (card_records_of_full hfull) (by omega)

theorem two_le_countP {q : ℕ} {a b : α} (P : α → Prop) [DecidablePred P] (hp : p < n)
    (hq : q < n) (hne : q ≠ p) (ha : t p = some a) (hb : t q = some b) (hPa : P a) (hPb : P b) :
    2 ≤ (records t n).countP P := by
  have hmem : b ∈ ((Multiset.range n).erase p).filterMap t :=
    (Multiset.mem_filterMap ..).mpr
      ⟨q, (Multiset.mem_erase_of_ne hne).mpr (Multiset.mem_range.mpr hq), hb⟩
  have hpos := Multiset.countP_pos.mpr ⟨b, hmem, hPb⟩
  rw [records_split hp, ha, Option.toList_some, Multiset.coe_singleton, Multiset.singleton_add,
    Multiset.countP_cons_of_pos _ hPa]
  omega

end Records

section Keyed

variable {α : Type} {key : α → ℕ} {t : ℕ → Option α} {n p x : ℕ}

def Linked (key : α → ℕ) (t : ℕ → Option α) (n : ℕ) : Prop :=
  ∀ p < n, ∀ a, t p = some a →
    ∃ k < n, (key a + k) % n = p ∧ ∀ j < k, t ((key a + j) % n) ≠ none

theorem linked_empty (n : ℕ) : Linked key (fun _ => none) n := by
  intro p _ a ha
  cases ha

theorem Linked.replace {a b : α} (h : Linked key t n) (hpa : t p = some a)
    (hkey : key b = key a) : Linked key (Function.update t p (some b)) n := by
  have hsome (q : ℕ) (hq : t q ≠ none) : Function.update t p (some b) q ≠ none := by
    by_cases hqp : q = p
    · subst hqp; simp
    · rwa [Function.update_of_ne hqp]
  intro q hq c hc
  by_cases hqp : q = p
  · subst hqp
    rw [Function.update_self, Option.some.injEq] at hc
    subst hc
    obtain ⟨k, hk, hpos, hbefore⟩ := h q hq a hpa
    exact ⟨k, hk, by rw [hkey]; exact hpos, fun j hj => hsome _ (by rw [hkey]; exact hbefore j hj)⟩
  · rw [Function.update_of_ne hqp] at hc
    obtain ⟨k, hk, hpos, hbefore⟩ := h q hq c hc
    exact ⟨k, hk, hpos, fun j hj => hsome _ (hbefore j hj)⟩

theorem Linked.insert {a : α} {k : ℕ} (h : Linked key t n) (hk : k < n)
    (hfree : t ((key a + k) % n) = none) (hbefore : ∀ j < k, t ((key a + j) % n) ≠ none) :
    Linked key (Function.update t ((key a + k) % n) (some a)) n := by
  have hsome (q : ℕ) (hq : t q ≠ none) :
      Function.update t ((key a + k) % n) (some a) q ≠ none := by
    have hne : q ≠ (key a + k) % n := fun he => hq (by rw [he]; exact hfree)
    rwa [Function.update_of_ne hne]
  intro q hq c hc
  by_cases hqp : q = (key a + k) % n
  · subst hqp
    rw [Function.update_self, Option.some.injEq] at hc
    subst hc
    exact ⟨k, hk, rfl, fun j hj => hsome _ (hbefore j hj)⟩
  · rw [Function.update_of_ne hqp] at hc
    obtain ⟨m, hm, hpos, hb⟩ := h q hq c hc
    exact ⟨m, hm, hpos, fun j hj => hsome _ (hb j hj)⟩

def hit (key : α → ℕ) (x : ℕ) : Option α → Bool
  | none => true
  | some a => key a == x

theorem lookup_spec (key : α → ℕ) (x : ℕ) (hn : 0 < n) (hempty : ∃ q < n, t q = none) :
    ∃ k < n, scan (fun q => hit key x (t q)) n n (x % n) = some ((x + k) % n) ∧
      hit key x (t ((x + k) % n)) = true ∧
      ∀ j < k, hit key x (t ((x + j) % n)) = false := by
  obtain ⟨q, hq, hnone⟩ := hempty
  obtain ⟨k, hk, hscan, hstop, hbefore⟩ :=
    scan_stops (fun q => hit key x (t q)) (Nat.mod_lt x hn) ⟨q, hq, by simp [hnone, hit]⟩
  simp only [Nat.mod_add_mod] at hscan hstop hbefore
  exact ⟨k, hk, hscan, hstop, hbefore⟩

theorem lookup_finds (hlink : Linked key t n) {k : ℕ}
    (hstop : hit key x (t ((x + k) % n)) = true)
    (hbefore : ∀ j < k, hit key x (t ((x + j) % n)) = false)
    {a : α} (ha : a ∈ records t n) (hkey : key a = x) :
    ∃ b, t ((x + k) % n) = some b ∧ key b = x := by
  obtain ⟨q, hq, hqa⟩ := mem_records.mp ha
  obtain ⟨m, hm, rfl, hb⟩ := hlink q hq a hqa
  cases hcell : t ((x + k) % n) with
  | some b => exact ⟨b, rfl, by simpa [hcell, hit] using hstop⟩
  | none =>
    exfalso
    rw [hkey] at hqa hb
    rcases lt_trichotomy k m with h | h | h
    · exact hb k h hcell
    · subst h; rw [hcell] at hqa; cases hqa
    · simpa [hqa, hit, hkey] using hbefore m h

end Keyed

end LinearProbing
