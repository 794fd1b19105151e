import Cs111.Lib.Chain

-- Lists linked both ways: each node knows the next one and the one before.
namespace Doubly
variable {ι : Type*}

def Holds (next prev : ι → Option ι) : Option ι → Option ι → List ι → Prop
  | h, _, [] => h = none
  | h, b, i :: l => h = some i ∧ prev i = b ∧ Holds next prev (next i) (some i) l

def bypass [DecidableEq ι] (f : ι → Option ι) (n i : ι) : Option ι :=
  if f i = some n then f n else f i

def detach [DecidableEq ι] (f g : ι → Option ι) (n : ι) : ι → Option ι :=
  match g n with
  | none => f
  | some p => Function.update f p (f n)

section Rules
variable {next prev next' prev' : ι → Option ι} {h b : Option ι} {l : List ι} {n : ι}

theorem Holds.path (hl : Holds next prev h b l) : Chain.Path next h l := by
  induction l generalizing h b with
  | nil => exact hl
  | cons i l ih => exact ⟨hl.1, ih hl.2.2⟩

theorem Holds.nodup (hl : Holds next prev h b l) : l.Nodup := Chain.path_nodup hl.path

theorem Holds.unique {l' : List ι} {b' : Option ι} (hl : Holds next prev h b l)
    (hl' : Holds next prev h b' l') : l = l' := Chain.path_unique hl.path hl'.path

theorem Holds.congr (hl : Holds next prev h b l) (hnext : ∀ i ∈ l, next' i = next i)
    (hprev : ∀ i ∈ l, prev' i = prev i) : Holds next' prev' h b l := by
  induction l generalizing h b with
  | nil => exact hl
  | cons i l ih =>
    refine ⟨hl.1, (hprev i List.mem_cons_self).trans hl.2.1, ?_⟩
    rw [hnext i List.mem_cons_self]
    exact ih hl.2.2 (fun j hj => hnext j (List.mem_cons_of_mem i hj))
      fun j hj => hprev j (List.mem_cons_of_mem i hj)

theorem Holds.next_mem (hl : Holds next prev h b l) (hn : n ∈ l) {m : ι} (hm : next n = some m) :
    m ∈ l ∧ prev m = some n := by
  induction l generalizing h b with
  | nil => exact absurd hn List.not_mem_nil
  | cons i l ih =>
    rcases List.mem_cons.mp hn with rfl | hn
    · have htail := hl.2.2
      rw [hm] at htail
      cases l with
      | nil => cases htail
      | cons j l =>
        obtain ⟨hj, hback, -⟩ := htail
        cases hj
        exact ⟨List.mem_cons_of_mem _ List.mem_cons_self, hback⟩
    · obtain ⟨hmem, hback⟩ := ih hl.2.2 hn
      exact ⟨List.mem_cons_of_mem i hmem, hback⟩

theorem Holds.prev_mem (hl : Holds next prev h none l) (hn : n ∈ l) {m : ι}
    (hm : prev n = some m) : m ∈ l ∧ next m = some n := by
  have hgen : ∀ h b l, Holds next prev h b l → n ∈ l →
      (b = some m ∧ h = some n) ∨ (m ∈ l ∧ next m = some n) := by
    intro h b l hl hn
    induction l generalizing h b with
    | nil => exact absurd hn List.not_mem_nil
    | cons i l ih =>
      rcases List.mem_cons.mp hn with rfl | hn
      · exact .inl ⟨hl.2.1.symm.trans hm, hl.1⟩
      · rcases ih _ _ hl.2.2 hn with ⟨hb, hh⟩ | ⟨hmem, hnext⟩
        · cases hb
          exact .inr ⟨List.mem_cons_self, hh⟩
        · exact .inr ⟨List.mem_cons_of_mem i hmem, hnext⟩
  rcases hgen _ _ _ hl hn with ⟨hb, -⟩ | hmem
  · cases hb
  · exact hmem

theorem Holds.head_mem (hl : Holds next prev h b l) (hn : h = some n) : n ∈ l := by
  cases l with
  | nil => rw [show h = none from hl] at hn; cases hn
  | cons i l =>
    rw [hl.1] at hn
    cases hn
    exact List.mem_cons_self

theorem Holds.prev_some (hl : Holds next prev h b l) (hb : b ≠ none) (hn : n ∈ l) :
    prev n ≠ none := by
  induction l generalizing h b with
  | nil => cases hn
  | cons i l ih =>
    rcases List.mem_cons.mp hn with rfl | hn
    · rw [hl.2.1]
      exact hb
    · exact ih hl.2.2 (by simp) hn

theorem Holds.head_iff (hl : Holds next prev h none l) (hn : n ∈ l) : h = some n ↔ prev n = none := by
  cases l with
  | nil => cases hn
  | cons i l =>
    obtain ⟨rfl, hback, hrest⟩ := hl
    rcases List.mem_cons.mp hn with rfl | hn'
    · exact iff_of_true rfl hback
    · refine iff_of_false (fun hin => ?_) (hrest.prev_some (by simp) hn')
      cases hin
      exact hrest.prev_some (by simp) hn' hback

theorem Holds.prev_ne (hl : Holds next prev h b l) (hb : b ≠ some n) (hn : n ∉ l) :
    ∀ i ∈ l, prev i ≠ some n := by
  induction l generalizing h b with
  | nil => exact fun i hi => absurd hi List.not_mem_nil
  | cons j l ih =>
    intro i hi
    rcases List.mem_cons.mp hi with rfl | hi
    · rw [hl.2.1]
      exact hb
    · refine ih hl.2.2 (fun hj => hn ?_) (fun hmem => hn (List.mem_cons_of_mem j hmem)) i hi
      cases hj
      exact List.mem_cons_self

theorem Holds.push (hl : Holds next prev h none l) (hn : n ∉ l) (hnext : ∀ i ∈ l, next' i = next i)
    (hfirst : next' n = h) (hback : prev' n = none) (hprev : ∀ i ∈ l, h ≠ some i → prev' i = prev i)
    (hhead : ∀ i, h = some i → prev' i = some n) : Holds next' prev' (some n) none (n :: l) := by
  refine ⟨rfl, hback, ?_⟩
  rw [hfirst]
  cases l with
  | nil => exact hl
  | cons j l =>
    have hnodup := List.nodup_cons.mp hl.nodup
    obtain ⟨rfl, -, hrest⟩ := hl
    refine ⟨rfl, hhead j rfl, ?_⟩
    rw [hnext j List.mem_cons_self]
    refine hrest.congr (fun i hi => hnext i (List.mem_cons_of_mem j hi)) fun i hi =>
      hprev i (List.mem_cons_of_mem j hi) fun he => ?_
    cases he
    exact hnodup.1 hi

variable [DecidableEq ι]

theorem Holds.skip (hl : Holds next prev h (some n) l) (hn : n ∉ l) (hnext : next' = bypass next n)
    (hprev : prev' = bypass prev n) : Holds next' prev' h (prev n) l := by
  subst hnext hprev
  have hsame : ∀ i ∈ l, bypass next n i = next i := by
    intro i hi
    rw [bypass, if_neg]
    intro hin
    obtain ⟨hmem, -⟩ := hl.next_mem hi hin
    exact hn hmem
  cases l with
  | nil => exact hl
  | cons j l =>
    obtain ⟨hh, hback, hrest⟩ := hl
    refine ⟨hh, by rw [bypass, if_pos hback], ?_⟩
    rw [hsame j List.mem_cons_self]
    refine hrest.congr (fun i hi => hsame i (List.mem_cons_of_mem j hi)) fun i hi => ?_
    rw [bypass, if_neg]
    intro hin
    refine hrest.prev_ne (fun hj => hn ?_) (fun hmem => hn (List.mem_cons_of_mem j hmem)) i hi hin
    cases hj
    exact List.mem_cons_self

theorem Holds.unlink (hl : Holds next prev h b l) (hn : n ∈ l) (hb : b ≠ some n) :
    Holds (bypass next n) (bypass prev n) (if h = some n then next n else h) b (l.erase n) := by
  induction l generalizing h b with
  | nil => exact absurd hn List.not_mem_nil
  | cons i l ih =>
    have hnodup := List.nodup_cons.mp hl.nodup
    obtain ⟨hh, hback, hrest⟩ := hl
    by_cases hin : i = n
    · subst hin
      rw [List.erase_cons_head, if_pos hh, ← hback]
      exact hrest.skip hnodup.1 rfl rfl
    · have hne : ¬ (some i : Option ι) = some n := fun he => hin (Option.some.inj he)
      rw [List.erase_cons_tail (by simpa using hin), hh, if_neg hne]
      refine ⟨rfl, ?_, ?_⟩
      · rw [bypass, if_neg (by rw [hback]; exact hb), hback]
      · exact ih hrest ((List.mem_cons.mp hn).resolve_left fun he => hin he.symm) hne

theorem detach_eq {f g : ι → Option ι} (hback : ∀ m, g n = some m → f m = some n)
    {i : ι} (hi : f i = some n → g n = some i) : detach f g n i = bypass f n i := by
  rw [detach, bypass]
  cases hm : g n with
  | none => rw [if_neg fun hin => by rw [hi hin] at hm; cases hm]
  | some m =>
    by_cases him : i = m
    · subst him
      rw [if_pos (hback i hm)]
      exact Function.update_self ..
    · rw [if_neg fun hin => him (Option.some.inj ((hi hin).symm.trans hm))]
      exact Function.update_of_ne him ..

theorem Holds.detach (hl : Holds next prev h none l) (hn : n ∈ l) :
    Holds (detach next prev n) (detach prev next n) (if h = some n then next n else h) none
      (l.erase n) := by
  refine (hl.unlink hn (by simp)).congr (fun i hi => ?_) fun i hi => ?_
  · exact detach_eq (fun m hm => (hl.prev_mem hn hm).2)
      fun hin => (hl.next_mem (List.mem_of_mem_erase hi) hin).2
  · exact detach_eq (fun m hm => (hl.next_mem hn hm).2)
      fun hin => (hl.prev_mem (List.mem_of_mem_erase hi) hin).2

theorem Holds.detach_other {h' : Option ι} {l' : List ι} (hl : Holds next prev h none l) (hn : n ∈ l)
    (hl' : Holds next prev h' none l') (hdisjoint : ∀ i ∈ l', i ∉ l) :
    Holds (Doubly.detach next prev n) (Doubly.detach prev next n) h' none l' := by
  have hsame : ∀ {f g : ι → Option ι} {i : ι}, (∀ m, g n = some m → m ∈ l) → i ∈ l' →
      Doubly.detach f g n i = f i := by
    intro f g i hg hi
    rw [Doubly.detach]
    cases hm : g n with
    | none => rfl
    | some m => exact Function.update_of_ne (fun him => hdisjoint i hi (by rw [him]; exact hg m hm)) ..
  exact hl'.congr (fun i hi => hsame (fun m hm => (hl.prev_mem hn hm).1) hi)
    fun i hi => hsame (fun m hm => (hl.next_mem hn hm).1) hi

end Rules

end Doubly

-- Lists linked both ways with a front and a rear, and walks along intrusive lists.
namespace Deque
variable {ι : Type*}

structure Linked (next prev : ι → Option ι) (front rear : Option ι) (l : List ι) : Prop where
  forward : Doubly.Holds next prev front none l
  rear_eq : rear = l.getLast?

section Ends
variable {next prev next' prev' : ι → Option ι} {front rear h b : Option ι} {l acc : List ι} {n : ι}

theorem holds_head (hl : Doubly.Holds next prev h b l) : h = l.head? := by
  cases l with
  | nil => exact hl
  | cons i l => exact hl.1

theorem holds_turn (hl : Doubly.Holds next prev h b l) (hacc : Doubly.Holds prev next b h acc) :
    Doubly.Holds prev next (l.getLast?.or b) none (l.reverse ++ acc) := by
  induction l generalizing h b acc with
  | nil =>
    rw [show h = none from hl] at hacc
    exact hacc
  | cons i l ih =>
    obtain ⟨rfl, rfl, hrest⟩ := hl
    have hacc' : Doubly.Holds prev next (some i) (next i) (i :: acc) := ⟨rfl, rfl, hacc⟩
    have hturn := ih hrest hacc'
    rw [List.reverse_cons, List.append_assoc, List.getLast?_cons]
    cases hlast : l.getLast? with
    | none => rwa [hlast] at hturn
    | some j => rwa [hlast] at hturn

theorem Linked.symm (hl : Linked next prev front rear l) : Linked prev next rear front l.reverse := by
  refine ⟨?_, ?_⟩
  · have hnil : Doubly.Holds prev next none front [] := rfl
    have hturn := holds_turn hl.forward hnil
    rwa [List.append_nil, Option.or_none, ← hl.rear_eq] at hturn
  · rw [List.getLast?_reverse]
    exact holds_head hl.forward

theorem Linked.nodup (hl : Linked next prev front rear l) : l.Nodup := hl.forward.nodup

theorem Linked.push (hl : Linked next prev front rear l) (hn : n ∉ l)
    (hnext : ∀ i ∈ l, next' i = next i) (hfirst : next' n = front) (hback : prev' n = none)
    (hprev : ∀ i ∈ l, front ≠ some i → prev' i = prev i)
    (hhead : ∀ i, front = some i → prev' i = some n) :
    Linked next' prev' (some n) (if front = none then some n else rear) (n :: l) := by
  refine ⟨hl.forward.push hn hnext hfirst hback hprev hhead, ?_⟩
  rw [List.getLast?_cons, hl.rear_eq, holds_head hl.forward]
  cases l with
  | nil => rfl
  | cons i l => simp [List.getLast?_cons]

theorem Linked.append (hl : Linked next prev front rear l) (hn : n ∉ l)
    (hprev : ∀ i ∈ l, prev' i = prev i) (hlast : prev' n = rear) (hnone : next' n = none)
    (hnext : ∀ i ∈ l, rear ≠ some i → next' i = next i)
    (hrear : ∀ i, rear = some i → next' i = some n) :
    Linked next' prev' (if rear = none then some n else front) (some n) (l ++ [n]) := by
  have hpush : Linked prev' next' (some n) (if rear = none then some n else front)
      (n :: l.reverse) := hl.symm.push (by simpa using hn) (fun i hi => hprev i (List.mem_reverse.mp hi)) hlast hnone
    (fun i hi => hnext i (List.mem_reverse.mp hi)) hrear
  have hback := hpush.symm
  rwa [List.reverse_cons, List.reverse_reverse] at hback

theorem erase_reverse [DecidableEq ι] (hl : l.Nodup) : (l.erase n).reverse = l.reverse.erase n := by
  rw [hl.erase_eq_filter, (List.nodup_reverse.mpr hl).erase_eq_filter, List.filter_reverse]

theorem Linked.detach [DecidableEq ι] (hl : Linked next prev front rear l) (hn : n ∈ l) :
    Linked (Doubly.detach next prev n) (Doubly.detach prev next n)
      (if prev n = none then next n else front) (if next n = none then prev n else rear)
      (l.erase n) := by
  have hforward := hl.forward.detach hn
  have hbackward := hl.symm.forward.detach (List.mem_reverse.mpr hn)
  refine ⟨?_, ?_⟩
  · simp only [← hl.forward.head_iff hn]
    exact hforward
  · rw [← List.head?_reverse, erase_reverse hl.nodup, ← holds_head hbackward]
    simp only [hl.symm.forward.head_iff (List.mem_reverse.mpr hn)]

end Ends

section Range
variable {next prev : ℕ → Option ℕ} {m : ℕ}

theorem holds_range' (hnext : ∀ i, next i = if i + 1 < m then some (i + 1) else none)
    (hprev : ∀ i, prev i = if i = 0 then none else some (i - 1)) (k a : ℕ) (h : a + k = m)
    (ha : 0 < k) : Doubly.Holds next prev (some a) (if a = 0 then none else some (a - 1))
      (List.range' a k) := by
  induction k generalizing a with
  | zero => exact absurd ha (lt_irrefl 0)
  | succ k ih =>
    refine ⟨rfl, hprev a, ?_⟩
    rw [hnext]
    by_cases hk : k = 0
    · subst hk
      rw [if_neg (by omega)]
      rfl
    · have hrest := ih (a + 1) (by omega) (by omega)
      rw [if_neg (Nat.succ_ne_zero a), Nat.add_sub_cancel] at hrest
      rw [if_pos (by omega)]
      exact hrest

theorem linked_range (hm : 0 < m) (hnext : ∀ i, next i = if i + 1 < m then some (i + 1) else none)
    (hprev : ∀ i, prev i = if i = 0 then none else some (i - 1)) :
    Linked next prev (some 0) (some (m - 1)) (List.range m) := by
  rw [List.range_eq_range']
  refine ⟨holds_range' hnext hprev m 0 (Nat.zero_add m) hm, ?_⟩
  rw [List.getLast?_range', if_neg (by omega)]
  simp

end Range

section Walk
variable {next : ι → Option ι} {h : Option ι} {l : List ι} {i j : ι} {fuel : ℕ}

def walk (next : ι → Option ι) (stop : ι → Bool) : ℕ → Option ι → Option ι
  | 0, _ => none
  | _ + 1, none => none
  | fuel + 1, some i => if stop i then some i else walk next stop fuel (next i)

def before [DecidableEq ι] (next : ι → Option ι) (j : ι) : ℕ → ι → Option ι
  | 0, _ => none
  | fuel + 1, i =>
    match next i with
    | none => none
    | some k => if k = j then some i else before next j fuel k

theorem path_walk (stop : ι → Bool) (hl : Chain.Path next h l) (hfuel : l.length ≤ fuel) :
    walk next stop fuel h = l.find? stop := by
  induction l generalizing h fuel with
  | nil =>
    rw [show h = none from hl]
    cases fuel <;> rfl
  | cons i l ih =>
    obtain ⟨fuel, rfl⟩ : ∃ k, fuel = k + 1 := ⟨fuel - 1, by simp at hfuel; omega⟩
    rw [hl.1, walk, List.find?_cons]
    cases stop i with
    | true => rfl
    | false => exact ih hl.2 (by simpa using hfuel)

theorem path_before [DecidableEq ι] (hl : Chain.Path next (next i) l) (hj : j ∈ l)
    (hfuel : l.length ≤ fuel) : ∃ k ∈ i :: l, before next j fuel i = some k ∧ next k = some j := by
  induction l generalizing i fuel with
  | nil => cases hj
  | cons k l ih =>
    obtain ⟨fuel, rfl⟩ : ∃ m, fuel = m + 1 := ⟨fuel - 1, by simp at hfuel; omega⟩
    rw [before, hl.1]
    by_cases hk : k = j
    · exact ⟨i, List.mem_cons_self, if_pos hk, by rw [hl.1, hk]⟩
    · obtain ⟨m, hm, hbefore, hnext⟩ := ih hl.2 ((List.mem_cons.mp hj).resolve_left (Ne.symm hk))
        (by simpa using hfuel)
      exact ⟨m, List.mem_cons_of_mem i hm, (if_neg hk).trans hbefore, hnext⟩

end Walk

end Deque
