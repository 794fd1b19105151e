import Mathlib.Data.List.MinMax
import Mathlib.Data.Nat.Find

-- Maximal munch: the longest match of any rule, and the first rule among equals.
namespace Munch
variable {α τ σ ρ : Type}

structure Rule (α τ : Type) where
  accepts : List α → Bool
  action : τ

def Rule.longest (r : Rule α τ) (input : List α) : ℕ :=
  Nat.findGreatest (fun n => r.accepts (input.take n) = true) input.length

def lexeme (rules : List (Rule α τ)) (input : List α) : Option (τ × ℕ) :=
  match rules.argmax (Rule.longest · input) with
  | none => none
  | some r => if r.longest input = 0 then none else some (r.action, r.longest input)

theorem lexeme_pos {rules : List (Rule α τ)} {input : List α} {a : τ} {n : ℕ}
    (h : lexeme rules input = some (a, n)) : 0 < n ∧ n ≤ input.length := by
  unfold lexeme at h
  split at h
  · cases h
  · split_ifs at h with h0
    cases h
    exact ⟨Nat.pos_of_ne_zero h0, Nat.findGreatest_le _⟩

def run (rules : List (Rule α τ)) (act : τ → List α → σ → σ ⊕ ρ) (s : σ) (input : List α) :
    Option (ρ × List α) :=
  match _h : lexeme rules input with
  | none => none
  | some (a, n) =>
    match act a (input.take n) s with
    | .inl s => run rules act s (input.drop n)
    | .inr answer => some (answer, input.drop n)
termination_by input.length
decreasing_by
  have := lexeme_pos _h
  rw [List.length_drop]
  omega

section Choice
variable {rules before after : List (Rule α τ)} {r : Rule α τ} {input : List α}

theorem argmax_head (h : ∀ r' ∈ after, r'.longest input ≤ r.longest input) :
    (r :: after).argmax (Rule.longest · input) = some r := by
  rw [List.argmax_cons]
  cases hmax : after.argmax (Rule.longest · input) with
  | none => rfl
  | some r' => simp [(h r' (List.argmax_mem hmax)).not_gt]

theorem argmax_skip (hbefore : ∀ r' ∈ before, r'.longest input < r.longest input)
    (hafter : ∀ r' ∈ after, r'.longest input ≤ r.longest input) :
    (before ++ r :: after).argmax (Rule.longest · input) = some r := by
  induction before with
  | nil => exact argmax_head hafter
  | cons b before ih =>
    rw [List.cons_append, List.argmax_cons, ih fun r' hr' => hbefore r' (.tail b hr')]
    simp [hbefore b (.head before)]

theorem lexeme_first {n : ℕ} (before after : List (Rule α τ)) (hn : r.longest input = n)
    (hpos : 0 < n) (hbefore : ∀ r' ∈ before, r'.longest input < n)
    (hafter : ∀ r' ∈ after, r'.longest input ≤ n) :
    lexeme (before ++ r :: after) input = some (r.action, n) := by
  subst hn
  rw [lexeme, argmax_skip hbefore hafter]
  simp [hpos.ne']

theorem lexeme_nil : lexeme rules ([] : List α) = none := by
  cases h : lexeme rules ([] : List α) with
  | none => rfl
  | some l =>
    have := lexeme_pos (a := l.1) (n := l.2) h
    simp at this
    omega

end Choice

section Run
variable {rules : List (Rule α τ)} {act : τ → List α → σ → σ ⊕ ρ} {s s' : σ} {input : List α}
  {a : τ} {n : ℕ} {answer : ρ}

theorem run_nil : run rules act s [] = none := by
  rw [run]
  split
  · rfl
  · rename_i h
    rw [lexeme_nil] at h
    cases h

theorem run_goes (h : lexeme rules input = some (a, n))
    (hact : act a (input.take n) s = .inl s') :
    run rules act s input = run rules act s' (input.drop n) := by
  rw [run]
  split
  · rename_i h'
    rw [h] at h'
    cases h'
  · rename_i h'
    rw [h] at h'
    cases h'
    rw [hact]

theorem run_stops (h : lexeme rules input = some (a, n))
    (hact : act a (input.take n) s = .inr answer) :
    run rules act s input = some (answer, input.drop n) := by
  rw [run]
  split
  · rename_i h'
    rw [h] at h'
    cases h'
  · rename_i h'
    rw [h] at h'
    cases h'
    rw [hact]

end Run

section Patterns
variable {p q : α → Bool} {f g : List α → Bool} {a : τ} {input : List α}

def plus (p : α → Bool) (text : List α) : Bool := !text.isEmpty && text.all p

def one (p : α → Bool) (text : List α) : Bool :=
  match text with
  | [b] => p b
  | _ => false

def either (f g : List α → Bool) (text : List α) : Bool := f text || g text

theorem take_all_iff {n : ℕ} (h : n ≤ input.length) :
    (input.take n).all p = true ↔ n ≤ (input.takeWhile p).length := by
  induction input generalizing n with
  | nil => simp_all
  | cons b rest ih =>
    cases n with
    | zero => simp
    | succ n =>
      rw [List.take_succ_cons, List.all_cons, List.takeWhile_cons]
      by_cases hp : p b = true
      · simp [hp, ih (Nat.le_of_succ_le_succ h)]
      · simp [hp]

theorem split_run (p : α → Bool) (input : List α) :
    ∃ text rest, input = text ++ rest ∧ (input.takeWhile p).length = text.length ∧
      (∀ b ∈ text, p b = true) ∧ ∀ b ∈ rest.head?, ¬ p b = true := by
  refine ⟨input.takeWhile p, input.dropWhile p, List.takeWhile_append_dropWhile.symm, rfl, ?_, ?_⟩
  · exact List.all_eq_true.1 List.all_takeWhile
  · intro b hb
    have h := List.head?_dropWhile_not p input
    rw [hb] at h
    simpa using h

theorem longest_plus : (Rule.mk (plus p) a).longest input = (input.takeWhile p).length := by
  rw [Rule.longest, Nat.findGreatest_eq_iff]
  have hle : (input.takeWhile p).length ≤ input.length := (List.takeWhile_sublist p).length_le
  refine ⟨hle, fun h0 => ?_, fun n hlt hn => ?_⟩
  · have hne : input.take (input.takeWhile p).length ≠ [] := by
      rw [ne_eq, List.take_eq_nil_iff]
      rintro (h | h)
      · exact h0 h
      · simp [h] at h0
    simp [plus, hne, -List.all_eq_true, (take_all_iff hle).2 (le_refl _)]
  · have hall : (input.take n).all p = false := by
      rw [Bool.eq_false_iff, ne_eq, take_all_iff hn]
      omega
    simp only [plus, hall, Bool.and_false]
    exact Bool.false_ne_true

theorem longest_one {b : α} {rest : List α} :
    (Rule.mk (one p) a).longest (b :: rest) = if p b then 1 else 0 := by
  rw [Rule.longest, Nat.findGreatest_eq_iff]
  have hlong : ∀ n, 1 < n → n ≤ (b :: rest).length → one p ((b :: rest).take n) = false := by
    intro n hlt hn
    match n, rest with
    | n + 2, c :: rest => rfl
    | n + 2, [] => simp at hn
  split_ifs with hp
  · exact ⟨by simp, fun _ => by simpa [one] using hp, fun n hlt hn => by simp [hlong n hlt hn]⟩
  · refine ⟨by simp, fun h => absurd rfl h, fun n hlt hn => ?_⟩
    rcases (show 1 ≤ n from hlt).eq_or_lt with rfl | hlt
    · simpa [one] using hp
    · simp [hlong n hlt hn]

theorem longest_either : (Rule.mk (either f g) a).longest input =
    max ((Rule.mk f a).longest input) ((Rule.mk g a).longest input) := by
  simp only [Rule.longest, either, Bool.or_eq_true]
  apply le_antisymm
  · by_contra hlt
    rw [not_le, max_lt_iff] at hlt
    have hle : Nat.findGreatest (fun n => f (input.take n) = true ∨ g (input.take n) = true)
        input.length ≤ _ := Nat.findGreatest_le _
    rcases Nat.findGreatest_of_ne_zero rfl (Nat.ne_of_gt (Nat.zero_lt_of_lt hlt.1)) with h | h
    · exact Nat.findGreatest_is_greatest hlt.1 hle h
    · exact Nat.findGreatest_is_greatest hlt.2 hle h
  · exact max_le (Nat.findGreatest_mono_left (fun _ => .inl) _)
      (Nat.findGreatest_mono_left (fun _ => .inr) _)

end Patterns

end Munch
