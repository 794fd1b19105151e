import Cs111.Lib.Chain

namespace Chain
variable {ι : Type*} {next next' : ι → Option ι} {v : Option ι} {l : List ι} {i j p : ι}

def Grounded (next : ι → Option ι) : Prop := ∀ i, ∃ l, Path next (next i) l

theorem Grounded.path (h : Grounded next) (v : Option ι) : ∃ l, Path next v l := by
  cases v with
  | none => exact ⟨[], rfl⟩
  | some i =>
    obtain ⟨l, hl⟩ := h i
    exact ⟨i :: l, rfl, hl⟩

theorem path_cut (hcut : ∀ i, next' i = next i ∨ next' i = none) (hl : Path next v l) :
    ∃ l', Path next' v l' := by
  induction l generalizing v with
  | nil => exact ⟨[], hl⟩
  | cons i l ih =>
    rcases hcut i with hsame | hnone
    · obtain ⟨l', hl'⟩ := ih hl.2
      exact ⟨i :: l', hl.1, by rwa [hsame]⟩
    · exact ⟨[i], hl.1, hnone⟩

theorem Grounded.cut (h : Grounded next) (hcut : ∀ i, next' i = next i ∨ next' i = none) :
    Grounded next' := by
  intro i
  obtain ⟨l, hl⟩ := h.path (next' i)
  exact path_cut hcut hl

section Link
variable [DecidableEq ι]

theorem path_link {r : List ι} {w : Option ι} (hr : Path next w r) (hp : p ∉ r)
    (hl : Path next v l) : ∃ l', Path (Function.update next p w) v l' := by
  induction l generalizing v with
  | nil => exact ⟨[], hl⟩
  | cons i l ih =>
    by_cases hi : i = p
    · subst hi
      refine ⟨i :: r, hl.1, ?_⟩
      rw [Function.update_self]
      exact path_update hp hr
    · obtain ⟨l', hl'⟩ := ih hl.2
      refine ⟨i :: l', hl.1, ?_⟩
      rwa [Function.update_of_ne hi]

theorem Grounded.link (h : Grounded next) {r : List ι} (hr : Path next v r) (hp : p ∉ r) :
    Grounded (Function.update next p v) := by
  intro i
  obtain ⟨l, hl⟩ := h.path (Function.update next p v i)
  exact path_link hr hp hl

end Link

section Walks
open Relation

theorem path_of_walk (hwalk : TransGen (fun i j => next i = some j) i j)
    (hl : Path next (next i) l) : ∃ l', Path next (next j) l' ∧ l'.length < l.length := by
  induction hwalk with
  | single hij =>
    rw [hij] at hl
    cases l with
    | nil => cases hl
    | cons k l =>
      obtain rfl := Option.some.inj hl.1
      exact ⟨l, hl.2, by simp⟩
  | tail _ hjk ih =>
    obtain ⟨l', hl', hlen⟩ := ih
    rw [hjk] at hl'
    cases l' with
    | nil => cases hl'
    | cons k l' =>
      obtain rfl := Option.some.inj hl'.1
      exact ⟨l', hl'.2, by simp at hlen; omega⟩

theorem Grounded.no_cycle (h : Grounded next) (i : ι) :
    ¬ TransGen (fun i j => next i = some j) i i := by
  intro hwalk
  obtain ⟨l, hl⟩ := h i
  obtain ⟨l', hl', hlen⟩ := path_of_walk hwalk hl
  rw [path_unique hl' hl] at hlen
  exact lt_irrefl _ hlen

end Walks

end Chain
