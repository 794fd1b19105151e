import Mathlib.Algebra.BigOperators.Group.List.Basic

-- A pass over a list that rewrites each element in turn and collects what it notes on the way.
section Each
variable {ε α β δ : Type*}

theorem bind_eq_ok {ε : Type*} {α β : Type} {x : Except ε α} {f : α → Except ε β} {b : β} :
    (x >>= f) = .ok b ↔ ∃ a, x = .ok a ∧ f a = .ok b := by
  cases x <;> simp [bind, Except.bind]

def eachM (f : ℕ → α → Except ε (α × List δ)) : ℕ → List α → Except ε (List α × List δ)
  | _, [] => .ok ([], [])
  | i, x :: xs =>
    match f i x with
    | .error e => .error e
    | .ok (y, d) =>
      match eachM f (i + 1) xs with
      | .error e => .error e
      | .ok (ys, ds) => .ok (y :: ys, d ++ ds)

inductive Each (R : ℕ → α → β → List δ → Prop) : ℕ → List α → List β → List δ → Prop
  | nil {i} : Each R i [] [] []
  | cons {i x y d xs ys ds} : R i x y d → Each R (i + 1) xs ys ds →
      Each R i (x :: xs) (y :: ys) (d ++ ds)

theorem eachM_refines {f : ℕ → α → Except ε (α × List δ)} {v : α → β}
    {R : ℕ → β → β → List δ → Prop} {P : α → Prop} {xs ys : List α} {i : ℕ} {ds : List δ}
    (hf : ∀ i, ∀ x ∈ xs, ∀ y d, f i x = .ok (y, d) → R i (v x) (v y) d ∧ P y)
    (h : eachM f i xs = .ok (ys, ds)) : Each R i (xs.map v) (ys.map v) ds ∧ ∀ y ∈ ys, P y := by
  induction xs generalizing i ys ds with
  | nil =>
    cases h
    exact ⟨.nil, by simp⟩
  | cons x xs ih =>
    rw [eachM] at h
    split at h
    · cases h
    · rename_i y d hx
      split at h
      · cases h
      · rename_i hxs
        cases h
        obtain ⟨hR, hP⟩ := hf i x List.mem_cons_self y d hx
        obtain ⟨hrest, hall⟩ := ih (fun i x hx => hf i x (List.mem_cons_of_mem _ hx)) hxs
        exact ⟨.cons hR hrest, List.forall_mem_cons.mpr ⟨hP, hall⟩⟩

theorem eachM_total {f : ℕ → α → Except ε (α × List δ)} {xs : List α}
    (h : ∀ i, ∀ x ∈ xs, ∃ y d, f i x = .ok (y, d)) (i : ℕ) :
    ∃ ys ds, eachM f i xs = .ok (ys, ds) := by
  induction xs generalizing i with
  | nil => exact ⟨_, _, rfl⟩
  | cons x xs ih =>
    obtain ⟨y, d, hy⟩ := h i x List.mem_cons_self
    obtain ⟨ys, ds, hys⟩ := ih (fun i x hx => h i x (List.mem_cons_of_mem _ hx)) (i + 1)
    refine ⟨y :: ys, d ++ ds, ?_⟩
    rw [eachM, hy]
    dsimp only
    rw [hys]

theorem eachM_graph {f : ℕ → α → Except ε (α × List δ)} {xs ys : List α} {i : ℕ} {ds : List δ}
    (h : eachM f i xs = .ok (ys, ds)) : Each (fun i x y d => f i x = .ok (y, d)) i xs ys ds := by
  obtain ⟨heach, -⟩ := eachM_refines (v := id) (P := fun _ => True)
    (R := fun i x y d => f i x = .ok (y, d)) (fun _ _ _ _ _ hx => ⟨hx, trivial⟩) h
  simpa using heach

namespace Each
variable {R : ℕ → α → β → List δ → Prop} {i : ℕ} {xs : List α} {ys : List β} {ds : List δ}

theorem mono {R' : ℕ → α → β → List δ → Prop} (h : Each R i xs ys ds)
    (hR : ∀ i x y d, R i x y d → R' i x y d) : Each R' i xs ys ds := by
  induction h with
  | nil => exact .nil
  | cons hx _ ih => exact .cons (hR _ _ _ _ hx) ih

theorem length_eq (h : Each R i xs ys ds) : ys.length = xs.length := by
  induction h with
  | nil => rfl
  | cons _ _ ih => simp [ih]

theorem map_eq {γ : Type*} {f : β → γ} {g : α → γ} (h : Each R i xs ys ds)
    (hR : ∀ i, ∀ x ∈ xs, ∀ y d, R i x y d → f y = g x) : ys.map f = xs.map g := by
  induction h with
  | nil => rfl
  | cons hx _ ih =>
    rw [List.map_cons, List.map_cons, hR _ _ List.mem_cons_self _ _ hx,
      ih fun i x hx => hR i x (List.mem_cons_of_mem _ hx)]

theorem eq_of_same {R : ℕ → α → α → List δ → Prop} {ys : List α} (h : Each R i xs ys ds)
    (hR : ∀ i x y d, R i x y d → y = x) : ys = xs := by
  simpa using h.map_eq (f := id) (g := id) fun i x _ => hR i x

theorem origin (h : Each R i xs ys ds) {k : ℕ} {y : β} (hy : ys[k]? = some y) :
    ∃ x d, xs[k]? = some x ∧ R (i + k) x y d := by
  induction h generalizing k with
  | nil => simp at hy
  | @cons i x _ d _ _ _ hx _ ih =>
    cases k with
    | zero =>
      cases hy
      exact ⟨x, d, rfl, hx⟩
    | succ k =>
      obtain ⟨x', d', hx', hR⟩ := ih hy
      exact ⟨x', d', hx', by rwa [Nat.add_assoc, Nat.add_comm 1 k] at hR⟩

theorem forall_mem {P : β → Prop} (h : Each R i xs ys ds)
    (hR : ∀ i, ∀ x ∈ xs, ∀ y d, R i x y d → P y) : ∀ y ∈ ys, P y := by
  intro y hy
  obtain ⟨k, hk⟩ := List.mem_iff_getElem?.mp hy
  obtain ⟨x, d, hx, hxy⟩ := h.origin hk
  exact hR _ x (List.mem_of_getElem? hx) _ _ hxy

theorem forall_notes {P : δ → Prop} (h : Each R i xs ys ds)
    (hR : ∀ i, ∀ x ∈ xs, ∀ y d, R i x y d → ∀ n ∈ d, P n) : ∀ n ∈ ds, P n := by
  induction h with
  | nil => simp
  | cons hx _ ih =>
    intro n hn
    rcases List.mem_append.mp hn with hn | hn
    · exact hR _ _ List.mem_cons_self _ _ hx n hn
    · exact ih (fun i x hx => hR i x (List.mem_cons_of_mem _ hx)) n hn

end Each

section Balance
variable {A : Type*} [AddCommMonoid A]

def weigh (μ : ℕ → α → A) : ℕ → List α → A
  | _, [] => 0
  | i, x :: xs => μ i x + weigh μ (i + 1) xs

def tally (φ : δ → A) (ds : List δ) : A := (ds.map φ).sum

@[simp] theorem tally_nil (φ : δ → A) : tally φ [] = 0 := rfl

@[simp] theorem tally_append (φ : δ → A) (ds es : List δ) :
    tally φ (ds ++ es) = tally φ ds + tally φ es := by simp [tally]

@[simp] theorem tally_cons (φ : δ → A) (d : δ) (ds : List δ) :
    tally φ (d :: ds) = φ d + tally φ ds := by simp [tally]

theorem Each.balance {R : ℕ → α → β → List δ → Prop} {i : ℕ} {xs : List α} {ys : List β}
    {ds : List δ} {μ : ℕ → α → A} {ν : ℕ → β → A} {φ ψ : δ → A} (h : Each R i xs ys ds)
    (hR : ∀ i, ∀ x ∈ xs, ∀ y d, R i x y d → ν i y + tally φ d = μ i x + tally ψ d) :
    weigh ν i ys + tally φ ds = weigh μ i xs + tally ψ ds := by
  induction h with
  | nil => rfl
  | @cons i x y d xs ys ds hx _ ih =>
    have hxs := ih fun i x hx => hR i x (List.mem_cons_of_mem _ hx)
    have hone := hR i x List.mem_cons_self y d hx
    rw [weigh, weigh, tally_append, tally_append, add_add_add_comm, hone, hxs, add_add_add_comm]

variable {μ : ℕ → α → A} {i k : ℕ} {xs ys : List α} {x y : α}

theorem weigh_set (hx : xs[k]? = some x) :
    weigh μ i (xs.set k y) + μ (i + k) x = weigh μ i xs + μ (i + k) y := by
  induction xs generalizing i k with
  | nil => simp at hx
  | cons a xs ih =>
    cases k with
    | zero =>
      cases hx
      change μ i y + weigh μ (i + 1) xs + μ i x = μ i x + weigh μ (i + 1) xs + μ i y
      rw [add_comm (μ i y), add_right_comm, add_comm (weigh μ (i + 1) xs)]
    | succ k =>
      have hrest := ih (i := i + 1) hx
      rw [Nat.add_assoc, Nat.add_comm 1 k] at hrest
      rw [List.set_cons_succ, weigh, weigh, add_assoc, hrest, add_assoc]

theorem weigh_zero (i : ℕ) (xs : List α) (h : ∀ k x, xs[k]? = some x → μ (i + k) x = 0) :
    weigh μ i xs = 0 := by
  induction xs generalizing i with
  | nil => rfl
  | cons x xs ih =>
    have hrest : weigh μ (i + 1) xs = 0 := ih (i + 1) fun k y hy => by
      have hnext := h (k + 1) y hy
      rwa [Nat.add_comm k 1, ← Nat.add_assoc] at hnext
    rw [weigh, hrest, add_zero]
    exact h 0 x rfl

theorem weigh_single (hx : xs[k]? = some x)
    (h : ∀ j y, xs[j]? = some y → j ≠ k → μ (i + j) y = 0) : weigh μ i xs = μ (i + k) x := by
  induction xs generalizing i k with
  | nil => simp at hx
  | cons a xs ih =>
    cases k with
    | zero =>
      cases hx
      rw [weigh, weigh_zero (i + 1) xs fun j y hy => ?_, add_zero]
      · rfl
      · have hnext := h (j + 1) y hy (Nat.succ_ne_zero j)
        rwa [Nat.add_comm j 1, ← Nat.add_assoc] at hnext
    | succ k =>
      have hfirst : μ i a = 0 := h 0 a rfl (Nat.succ_ne_zero k).symm
      rw [weigh, hfirst, zero_add, ih hx fun j y hy hj => ?_, Nat.add_assoc, Nat.add_comm 1 k]
      have hnext := h (j + 1) y hy (by omega)
      rwa [Nat.add_comm j 1, ← Nat.add_assoc] at hnext

theorem weigh_hom {B : Type*} [AddCommMonoid B] (f : A →+ B) (i : ℕ) (xs : List α) :
    f (weigh μ i xs) = weigh (fun i x => f (μ i x)) i xs := by
  induction xs generalizing i with
  | nil => exact map_zero f
  | cons x xs ih => rw [weigh, weigh, map_add, ih]

theorem weigh_const (g : α → A) : weigh (fun _ => g) i xs = (xs.map g).sum := by
  induction xs generalizing i with
  | nil => rfl
  | cons x xs ih => rw [weigh, List.map_cons, List.sum_cons, ih]

end Balance

end Each
