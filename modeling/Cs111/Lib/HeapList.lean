import Mathlib.Data.List.ReduceOption

-- A list in an array from the heap, whose length is counted by hand beside the pointer; none is
-- NULL, and a cell that was never written holds none.
structure HeapList (α : Type*) where
  cnt : ℕ
  cells : Option (List (Option α))

namespace HeapList
variable {α : Type*}

inductive Fault where
  | nullPointer | outOfBounds | uninitialised
  deriving DecidableEq, Repr

def empty : HeapList α := ⟨0, none⟩

def get (x : HeapList α) (k : ℕ) : Except Fault α :=
  match x.cells with
  | none => .error .nullPointer
  | some l =>
    match l[k]? with
    | none => .error .outOfBounds
    | some none => .error .uninitialised
    | some (some a) => .ok a

def find (x : HeapList α) (p : α → Bool) : ℕ → ℕ → Except Fault (Option (ℕ × α))
  | 0, _ => .ok none
  | left + 1, k => do
    let a ← x.get k
    if p a then pure (some (k, a)) else find x p left (k + 1)

def removeAt (x : HeapList α) (k : ℕ) : Except Fault (HeapList α) :=
  match x.cells with
  | none => .error .nullPointer
  | some l =>
    if k < x.cnt ∧ x.cnt ≤ l.length then
      .ok ⟨x.cnt - 1, some (l.take k ++ (l.take x.cnt).drop (k + 1) ++ l.drop (x.cnt - 1))⟩
    else .error .outOfBounds

def push (wrap : ℕ) (x : HeapList α) (grows : Bool) (a : α) : Except Fault (Bool × HeapList α) :=
  let cnt := (x.cnt + 1) % wrap
  if !grows then .ok (false, ⟨cnt, none⟩)
  else if cnt = 0 then .error .outOfBounds
  else
    let old := (x.cells.getD []).take cnt
    let l := old ++ List.replicate (cnt - old.length) none
    .ok (true, ⟨cnt, some (l.set (cnt - 1) (some a))⟩)

structure Holds (x : HeapList α) (as : List α) : Prop where
  cnt : x.cnt = as.length
  cells : as.map some <+: x.cells.getD []

def entries (x : HeapList α) : List α := ((x.cells.getD []).take x.cnt).reduceOption

def Sound (x : HeapList α) : Prop := x.Holds x.entries

def Stores (x : HeapList α) (a : α) : Prop := ∃ l, x.cells = some l ∧ some a ∈ l

section Stored
variable {x y : HeapList α} {a b : α} {p : α → Bool} {k n : ℕ}

theorem get_stores (h : x.get k = .ok a) : x.Stores a ∧ (k < x.cnt → a ∈ x.entries) := by
  rw [HeapList.get] at h
  split at h
  · cases h
  · rename_i l hl
    split at h <;> cases h
    rename_i hk
    refine ⟨⟨l, hl, List.mem_of_getElem? hk⟩, fun hcnt => ?_⟩
    rw [entries, hl, Option.getD_some, List.reduceOption_mem_iff]
    exact List.mem_of_getElem? (i := k) (by rw [List.getElem?_take_of_lt hcnt, hk])

theorem find_get {j : ℕ} (h : x.find p n k = .ok (some (j, a))) :
    x.get j = .ok a ∧ p a = true ∧ j < k + n := by
  induction n generalizing k with
  | zero => cases h
  | succ n ih =>
    rw [find] at h
    cases hget : x.get k with
    | error e => simp [hget, bind, Except.bind] at h
    | ok b =>
      simp only [hget, bind, Except.bind] at h
      split at h
      · rename_i hb
        cases h
        exact ⟨hget, hb, by omega⟩
      · obtain ⟨hj, ha, hlt⟩ := ih h
        exact ⟨hj, ha, by omega⟩

theorem removeAt_stores (h : x.removeAt k = .ok y) (ha : y.Stores a) : x.Stores a := by
  obtain ⟨l', hl', hmem⟩ := ha
  rw [removeAt] at h
  split at h
  · cases h
  · rename_i l hl
    split at h <;> cases h
    cases hl'
    refine ⟨l, hl, ?_⟩
    rcases List.mem_append.mp hmem with hmem | hmem
    · rcases List.mem_append.mp hmem with hmem | hmem
      · exact List.mem_of_mem_take hmem
      · exact List.mem_of_mem_take (List.mem_of_mem_drop hmem)
    · exact List.mem_of_mem_drop hmem

theorem push_stores {wrap : ℕ} {grows r : Bool} (h : x.push wrap grows b = .ok (r, y))
    (ha : y.Stores a) : x.Stores a ∨ a = b := by
  obtain ⟨l', hl', hmem⟩ := ha
  rw [push] at h
  split_ifs at h
  · cases h
    cases hl'
  · cases h
    cases hl'
    rcases List.mem_or_eq_of_mem_set hmem with hmem | hmem
    · rcases List.mem_append.mp hmem with hmem | hmem
      · have hold := List.mem_of_mem_take hmem
        cases hl : x.cells with
        | none => simp [hl] at hold
        | some l =>
          rw [hl] at hold
          exact .inl ⟨l, hl, hold⟩
      · cases List.eq_of_mem_replicate hmem
    · exact .inr (Option.some.inj hmem)

end Stored

section Rules
variable {x : HeapList α} {as pre post : List α} {a : α}

theorem holds_empty : (empty : HeapList α).Holds [] := ⟨rfl, List.nil_prefix⟩

theorem Holds.cells_eq (h : x.Holds as) (hne : as ≠ []) :
    ∃ rest, x.cells = some (as.map some ++ rest) := by
  obtain ⟨rest, hrest⟩ := h.cells
  cases hc : x.cells with
  | none =>
    rw [hc] at hrest
    simp [hne] at hrest
  | some l =>
    rw [hc, Option.getD_some] at hrest
    exact ⟨rest, by rw [hrest]⟩

theorem Holds.entries_eq (h : x.Holds as) : x.entries = as := by
  obtain ⟨rest, hrest⟩ := h.cells
  rw [entries, ← hrest, List.take_append_of_le_length (by simp [h.cnt]),
    List.take_of_length_le (by simp [h.cnt])]
  simp [List.reduceOption]

theorem Holds.sound (h : x.Holds as) : x.Sound := by
  rw [Sound, h.entries_eq]
  exact h

theorem Holds.get (h : x.Holds (pre ++ a :: post)) : x.get pre.length = .ok a := by
  obtain ⟨rest, hrest⟩ := h.cells_eq (by simp)
  rw [HeapList.get, hrest]
  simp

theorem Holds.find_from {p : α → Bool} (h : x.Holds (pre ++ as)) :
    (∀ a ∈ as, p a = false) ∧ x.find p as.length pre.length = .ok none ∨
    ∃ mid a post, as = mid ++ a :: post ∧ (∀ b ∈ mid, p b = false) ∧ p a = true ∧
      x.find p as.length pre.length = .ok (some ((pre ++ mid).length, a)) := by
  induction as generalizing pre with
  | nil => exact .inl ⟨by simp, rfl⟩
  | cons a as ih =>
    have hget := h.get
    rw [List.length_cons]
    by_cases ha : p a = true
    · refine .inr ⟨[], a, as, rfl, by simp, ha, ?_⟩
      simp [find, hget, ha, bind, Except.bind, pure, Except.pure]
    · have hstep : x.find p (as.length + 1) pre.length = x.find p as.length (pre ++ [a]).length := by
        simp [find, hget, ha, bind, Except.bind]
      rw [Bool.not_eq_true] at ha
      rw [hstep]
      have htail : x.Holds ((pre ++ [a]) ++ as) := by simpa using h
      rcases ih htail with
        ⟨hnone, hfind⟩ | ⟨mid, b, post, rfl, hmid, hb, hfind⟩
      · exact .inl ⟨List.forall_mem_cons.mpr ⟨ha, hnone⟩, hfind⟩
      · refine .inr ⟨a :: mid, b, post, rfl, List.forall_mem_cons.mpr ⟨ha, hmid⟩, hb, ?_⟩
        simpa using hfind

theorem Holds.find (h : x.Holds as) (p : α → Bool) :
    (∀ a ∈ as, p a = false) ∧ x.find p x.cnt 0 = .ok none ∨
    ∃ pre a post, as = pre ++ a :: post ∧ (∀ b ∈ pre, p b = false) ∧ p a = true ∧
      x.find p x.cnt 0 = .ok (some (pre.length, a)) := by
  rw [h.cnt]
  exact find_from (show x.Holds ([] ++ as) from h)

theorem Holds.removeAt (h : x.Holds (pre ++ a :: post)) :
    ∃ x', x.removeAt pre.length = .ok x' ∧ x'.Holds (pre ++ post) := by
  obtain ⟨rest, hrest⟩ := h.cells_eq (by simp)
  have hcnt : x.cnt = pre.length + (post.length + 1) := by simpa using h.cnt
  have hlen : ((pre ++ a :: post).map some ++ rest).length =
      pre.length + (post.length + 1) + rest.length := by
    simp
    omega
  have hhead : ((pre ++ a :: post).map some ++ rest).take pre.length = pre.map some := by simp
  have htail : (((pre ++ a :: post).map some ++ rest).take x.cnt).drop (pre.length + 1) =
      post.map some := by
    rw [hcnt, List.take_append_of_le_length (by simp), List.take_of_length_le (by simp)]
    simp [List.drop_append]
  rw [HeapList.removeAt, hrest]
  refine ⟨_, if_pos ⟨by omega, by omega⟩, ?_, ?_⟩
  · simp only [hcnt, List.length_append]
    omega
  · rw [hhead, htail, List.map_append]
    exact List.prefix_append ..

theorem Holds.push {wrap : ℕ} (h : x.Holds as) (hlt : as.length + 1 < wrap) (a : α) :
    ∃ x', x.push wrap true a = .ok (true, x') ∧ x'.Holds (as ++ [a]) := by
  obtain ⟨rest, hrest⟩ := h.cells
  have hcnt : (x.cnt + 1) % wrap = as.length + 1 := by rw [h.cnt, Nat.mod_eq_of_lt hlt]
  have hold : (as.map some ++ rest).take (as.length + 1) = as.map some ++ rest.take 1 := by
    rw [List.take_append, List.take_of_length_le (by simp)]
    simp
  have hset : ∀ l : List (Option α), l ≠ [] →
      (as ++ [a]).map some <+: (as.map some ++ l).set as.length (some a) := by
    intro l hl
    cases l with
    | nil => exact absurd rfl hl
    | cons b l => exact ⟨l, by simp [List.set_append_right]⟩
  rw [HeapList.push, hcnt, ← hrest, hold]
  simp only [Bool.not_true, Bool.false_eq_true, if_false, Nat.add_one_ne_zero, List.append_assoc]
  refine ⟨_, rfl, by simp, hset _ ?_⟩
  cases rest <;> simp

end Rules

end HeapList
