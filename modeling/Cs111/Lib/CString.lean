import Mathlib.Data.List.TakeWhile

-- Strings that a zero byte ends, in a buffer of which nothing outside is read or written.
namespace CString

abbrev Byte := BitVec 8

section Defs
variable (buf : List Byte) (p : ℕ)

def strAt : List Byte := (buf.drop p).takeWhile (· ≠ 0)

def Terminated : Prop := 0 ∈ buf.drop p

def skipWhile (test : Byte → Bool) (p : ℕ) : Option ℕ :=
  match _h : buf[p]? with
  | none => none
  | some c => if test c then skipWhile test (p + 1) else some p
termination_by buf.length - p
decreasing_by
  have := (List.getElem?_eq_some_iff.mp _h).1
  omega

def strlen : Option ℕ := (skipWhile buf (· ≠ 0) p).map (· - p)

def overwrite (bytes : List Byte) : Option (List Byte) :=
  if p + bytes.length ≤ buf.length then some (buf.take p ++ bytes ++ buf.drop (p + bytes.length))
  else none

def memmove (dst src n : ℕ) : Option (List Byte) :=
  if src + n ≤ buf.length then overwrite buf dst ((buf.drop src).take n) else none

end Defs

section Strings
variable {buf : List Byte} {p q : ℕ} {c : Byte}

theorem drop_of_get (h : buf[p]? = some c) : buf.drop p = c :: buf.drop (p + 1) := by
  obtain ⟨hlt, rfl⟩ := List.getElem?_eq_some_iff.mp h
  exact List.drop_eq_getElem_cons hlt

theorem strAt_zero (h : buf[p]? = some 0) : strAt buf p = [] := by
  rw [strAt, drop_of_get h]
  rfl

theorem strAt_cons (h : buf[p]? = some c) (hc : c ≠ 0) : strAt buf p = c :: strAt buf (p + 1) := by
  rw [strAt, drop_of_get h, List.takeWhile_cons, if_pos (decide_eq_true hc)]
  rfl

theorem skipWhile_of_get {test : Byte → Bool} (h : buf[p]? = some c) :
    skipWhile buf test p = if test c then skipWhile buf test (p + 1) else some p := by
  rw [skipWhile]
  split
  · rename_i hnone
    rw [h] at hnone
    cases hnone
  · rename_i hsome
    rw [h] at hsome
    cases hsome
    rfl

theorem Terminated.get (h : Terminated buf p) : ∃ c, buf[p]? = some c := by
  have hlt : p < buf.length := by
    by_contra hge
    rw [Terminated, List.drop_eq_nil_of_le (not_lt.mp hge)] at h
    cases h
  exact ⟨buf[p], List.getElem?_eq_getElem hlt⟩

theorem Terminated.next (h : Terminated buf p) (hget : buf[p]? = some c) (hc : c ≠ 0) :
    Terminated buf (p + 1) := by
  rw [Terminated, drop_of_get hget] at h
  rcases List.mem_cons.mp h with h0 | hmem
  · exact absurd h0.symm hc
  · exact hmem

theorem Terminated.split (h : Terminated buf p) :
    ∃ rest, buf.drop p = strAt buf p ++ 0 :: rest := by
  induction hn : buf.length - p generalizing p with
  | zero =>
    obtain ⟨c, hget⟩ := h.get
    have := (List.getElem?_eq_some_iff.mp hget).1
    omega
  | succ n ih =>
    obtain ⟨c, hget⟩ := h.get
    by_cases hc : c = 0
    · subst hc
      exact ⟨buf.drop (p + 1), by rw [strAt_zero hget, drop_of_get hget]; rfl⟩
    · obtain ⟨rest, hrest⟩ := ih (h.next hget hc) (by omega)
      exact ⟨rest, by rw [strAt_cons hget hc, drop_of_get hget, hrest]; rfl⟩

theorem Terminated.lt (h : Terminated buf p) : p + (strAt buf p).length < buf.length := by
  obtain ⟨rest, hrest⟩ := h.split
  have hlen := congrArg List.length hrest
  rw [List.length_drop, List.length_append, List.length_cons] at hlen
  omega

theorem skipWhile_at (test : Byte → Bool) (hz : test 0 = false) (h : Terminated buf p) :
    ∃ q, skipWhile buf test p = some q ∧ Terminated buf q ∧
      q = p + ((strAt buf p).takeWhile test).length ∧
      strAt buf q = (strAt buf p).dropWhile test ∧
      (buf.drop p).take (q - p) = (strAt buf p).takeWhile test := by
  induction hn : buf.length - p generalizing p with
  | zero =>
    have := h.lt
    omega
  | succ n ih =>
    obtain ⟨c, hget⟩ := h.get
    rw [skipWhile_of_get hget]
    by_cases hc : test c = true
    · have hne : c ≠ 0 := by
        rintro rfl
        rw [hz] at hc
        cases hc
      obtain ⟨q, hskip, hq, hlen, hstr, htake⟩ := ih (h.next hget hne) (by omega)
      rw [if_pos hc, strAt_cons hget hne, List.takeWhile_cons_of_pos hc,
        List.dropWhile_cons_of_pos hc, drop_of_get hget]
      refine ⟨q, hskip, hq, by rw [List.length_cons]; omega, hstr, ?_⟩
      rw [show q - p = q - (p + 1) + 1 by omega, List.take_succ_cons, htake]
    · have hnone : (strAt buf p).takeWhile test = [] := by
        by_cases h0 : c = 0
        · subst h0
          rw [strAt_zero hget]
          rfl
        · rw [strAt_cons hget h0, List.takeWhile_cons_of_neg hc]
      have hall : (strAt buf p).dropWhile test = strAt buf p := by
        have hparts := List.takeWhile_append_dropWhile (p := test) (l := strAt buf p)
        rwa [hnone] at hparts
      rw [if_neg hc, hnone, hall]
      exact ⟨p, rfl, h, rfl, rfl, by rw [Nat.sub_self]; rfl⟩

theorem strAt_ne (hmem : c ∈ strAt buf p) : c ≠ 0 := by
  rw [strAt] at hmem
  have htest := List.mem_takeWhile_imp (p := fun c : Byte => decide (c ≠ 0)) hmem
  exact of_decide_eq_true htest

theorem strlen_at (h : Terminated buf p) : strlen buf p = some (strAt buf p).length := by
  have hall : (strAt buf p).takeWhile (· ≠ 0) = strAt buf p :=
    List.takeWhile_eq_self_iff.mpr fun c hc => decide_eq_true (strAt_ne hc)
  obtain ⟨q, hskip, -, hlen, -⟩ := skipWhile_at (fun c => decide (c ≠ 0)) rfl h
  rw [hall] at hlen
  rw [strlen, hskip, hlen, Option.map_some, Nat.add_sub_cancel_left]

end Strings

-- What is read after a write.
section Writes
variable {buf bytes text str rest : List Byte} {p : ℕ}

theorem overwrite_none (h : buf.length < p + bytes.length) : overwrite buf p bytes = none :=
  if_neg (not_le.mpr h)

variable (buf p bytes) in
theorem overwrite_some (h : p + bytes.length ≤ buf.length) :
    ∃ buf', overwrite buf p bytes = some buf' ∧ buf'.length = buf.length ∧
      buf'.drop p = bytes ++ buf.drop (p + bytes.length) := by
  refine ⟨_, if_pos h, ?_, ?_⟩
  · simp only [List.length_append, List.length_take, List.length_drop]
    omega
  · rw [List.append_assoc, List.drop_left' (List.length_take_of_le (by omega))]

theorem overwrite_front (h : buf.drop text.length = str ++ 0 :: rest)
    (hstr : ∀ c ∈ str, c ≠ 0) :
    ∃ buf', overwrite buf 0 text = some buf' ∧ buf'.length = buf.length ∧ Terminated buf' 0 ∧
      strAt buf' 0 = (text ++ str).takeWhile (· ≠ 0) := by
  have hlen := congrArg List.length h
  rw [List.length_drop, List.length_append, List.length_cons] at hlen
  obtain ⟨buf', hsome, hlength, hdrop⟩ := overwrite_some buf text 0 (by omega)
  rw [Nat.zero_add, h, List.drop_zero] at hdrop
  refine ⟨buf', hsome, hlength, ?_, ?_⟩
  · rw [Terminated, List.drop_zero, hdrop]
    simp
  · rw [strAt, List.drop_zero, hdrop]
    clear hdrop hlen h hsome
    induction text with
    | nil =>
      rw [List.nil_append, List.nil_append,
        List.takeWhile_append_of_pos fun c hc => decide_eq_true (hstr c hc),
        List.takeWhile_eq_self_iff.mpr fun c hc => decide_eq_true (hstr c hc)]
      exact List.append_nil str
    | cons c text ih =>
      rw [List.cons_append, List.cons_append, List.takeWhile_cons, List.takeWhile_cons, ih]

end Writes

end CString
