import Mathlib.Data.List.Basic

-- Extended regular expressions: what they match in a string, and how they are read.
namespace Ere

inductive Re where
  | eps
  | sym (p : Char → Bool)
  | bol
  | eol
  | seq (a b : Re)
  | alt (a b : Re)
  | rep (a : Re) (lo : ℕ) (hi : Option ℕ)

def Times (R : ℕ → ℕ → Prop) : ℕ → ℕ → ℕ → Prop
  | 0, i, j => i = j
  | n + 1, i, j => ∃ k, R i k ∧ Times R n k j

def Re.Matches (K : List Char) : Re → ℕ → ℕ → Prop
  | .eps, i, j => i = j
  | .sym p, i, j => j = i + 1 ∧ ∃ c, K[i]? = some c ∧ p c = true
  | .bol, i, j => i = 0 ∧ j = i
  | .eol, i, j => i = K.length ∧ j = i
  | .seq a b, i, j => ∃ k, a.Matches K i k ∧ b.Matches K k j
  | .alt a b, i, j => a.Matches K i j ∨ b.Matches K i j
  | .rep a lo hi, i, j => ∃ n, lo ≤ n ∧ (∀ h ∈ hi, n ≤ h) ∧ Times (a.Matches K) n i j

structure Pattern where
  alts : List Re
  last : Re

namespace Pattern
variable (P : Pattern) (K : List Char)

def all : List Re := P.alts ++ [P.last]

def re : Re := P.alts.foldr Re.alt P.last

def Search : Prop :=
  ∃ a ∈ P.all, ∃ i j, i ≤ K.length ∧ j ≤ K.length ∧ a.Matches K i j

def Whole : Prop := ∃ a ∈ P.all, a.Matches K 0 K.length

def dollar : Pattern := { P with last := .seq P.last .eol }

def Loose : Prop :=
  (∃ a ∈ P.alts, ∃ i j, i ≤ K.length ∧ j ≤ K.length ∧ a.Matches K i j) ∨
    ∃ i, i ≤ K.length ∧ P.last.Matches K i K.length

end Pattern

section Dollar
variable {P : Pattern} {K : List Char}

theorem Pattern.search_dollar : P.dollar.Search K ↔ P.Loose K := by
  constructor
  · rintro ⟨a, ha, i, j, hi, hj, hmatch⟩
    rcases List.mem_append.mp ha with ha | ha
    · exact .inl ⟨a, ha, i, j, hi, hj, hmatch⟩
    · obtain rfl := List.mem_singleton.mp ha
      obtain ⟨k, hlast, rfl, -⟩ := hmatch
      exact .inr ⟨i, hi, hlast⟩
  · rintro (⟨a, ha, hmatch⟩ | ⟨i, hi, hlast⟩)
    · exact ⟨a, List.mem_append_left _ ha, hmatch⟩
    · refine ⟨_, List.mem_append_right _ (List.mem_singleton_self _), i, K.length, hi, Nat.le_refl _, ?_⟩
      exact ⟨K.length, hlast, rfl, rfl⟩

theorem Pattern.Whole.loose (h : P.Whole K) : P.Loose K := by
  obtain ⟨a, ha, hmatch⟩ := h
  rcases List.mem_append.mp ha with ha | ha
  · exact .inl ⟨a, ha, 0, K.length, Nat.zero_le _, Nat.le_refl _, hmatch⟩
  · obtain rfl := List.mem_singleton.mp ha
    exact .inr ⟨0, Nat.zero_le _, hmatch⟩

end Dollar

inductive Scan where
  | first (negatable : Bool)
  | body
  | opened
  | within (d : Char)
  | closing (d : Char)

def scanStep : Scan → Char → Option Scan
  | .first true, c =>
    if c = '^' then some (.first false) else if c = '[' then some .opened else some .body
  | .first false, c => if c = '[' then some .opened else some .body
  | .body, c => if c = ']' then none else if c = '[' then some .opened else some .body
  | .opened, c =>
    if c = '.' ∨ c = '=' ∨ c = ':' then some (.within c)
    else if c = ']' then none
    else if c = '[' then some .opened
    else some .body
  | .within d, c => if c = d then some (.closing d) else some (.within d)
  | .closing d, c =>
    if c = ']' then some .body else if c = d then some (.closing d) else some (.within d)

inductive Mode where
  | normal
  | escape
  | interval (text : List Char)
  | bracket (scan : Scan) (text : List Char)

structure Frame where
  alts : List Re
  branch : List (Re × Bool)

structure Reading where
  mode : Mode
  outer : List Frame
  cur : Frame

def special (c : Char) : Bool := "^.[$()|*+?\x7b\\".toList.contains c

def dupMax : ℕ := 255

def branchRe : List (Re × Bool) → Re
  | [] => .eps
  | piece :: rest => .seq (branchRe rest) piece.1

def Frame.close (f : Frame) : Option Pattern :=
  if f.branch.isEmpty then none else some ⟨f.alts, branchRe f.branch⟩

def number (text : List Char) : Option ℕ :=
  if text.isEmpty || !text.all Char.isDigit then none
  else some (text.foldl (fun n c => 10 * n + (c.toNat - '0'.toNat)) 0)

def bounds (lo hi : Option ℕ) : Option (ℕ × Option ℕ) :=
  match lo, hi with
  | some lo, some hi => if lo ≤ hi ∧ hi ≤ dupMax then some (lo, some hi) else none
  | _, _ => none

def intervalOf (text : List Char) : Option (ℕ × Option ℕ) :=
  match text.splitOn ',' with
  | [lo] => bounds (number lo) (number lo)
  | [lo, []] => (bounds (number lo) (some dupMax)).map fun b => (b.1, none)
  | [lo, hi] => bounds (number lo) (number hi)
  | _ => none

section Read
-- What a bracket expression with this text stands for.
variable (locale : List Char → Option (Char → Bool))

def Reading.push (r : Reading) (piece : Re) (again : Bool) : Reading :=
  { r with mode := .normal, cur := { r.cur with branch := (piece, again) :: r.cur.branch } }

def Reading.repeat (r : Reading) (lo : ℕ) (hi : Option ℕ) : Option Reading :=
  match r.cur.branch with
  | (piece, true) :: rest =>
    some { r with mode := .normal, cur := { r.cur with branch := (.rep piece lo hi, false) :: rest } }
  | _ => none

def Reading.normalStep (r : Reading) (c : Char) : Option Reading :=
  match c with
  | '\\' => some { r with mode := .escape }
  | '[' => some { r with mode := .bracket (.first true) [] }
  | '.' => some (r.push (.sym fun _ => true) true)
  | '^' => some (r.push .bol false)
  | '$' => some (r.push .eol true)
  | '(' => some ⟨.normal, r.cur :: r.outer, ⟨[], []⟩⟩
  | ')' =>
    match r.outer with
    | [] => some (r.push (.sym fun c => c == ')') true)
    | f :: outer => r.cur.close.map fun p => (Reading.mk .normal outer f).push p.re true
  | '|' =>
    r.cur.close.map fun p => { r with cur := ⟨p.all, []⟩ }
  | '*' => r.repeat 0 none
  | '+' => r.repeat 1 none
  | '?' => r.repeat 0 (some 1)
  | '{' => (r.repeat 0 none).map fun _ => { r with mode := .interval [] }
  | c => some (r.push (.sym fun c' => c' == c) true)

def Reading.step (r : Reading) (c : Char) : Option Reading :=
  match r.mode with
  | .normal => r.normalStep c
  | .escape => if special c then some (r.push (.sym fun c' => c' == c) true) else none
  | .interval text =>
    if c = '}' then (intervalOf text).bind fun b => r.repeat b.1 b.2
    else if c.isDigit || c = ',' then some { r with mode := .interval (text ++ [c]) }
    else none
  | .bracket scan text =>
    match scanStep scan c with
    | none => (locale text).map fun p => r.push (.sym p) true
    | some scan => some { r with mode := .bracket scan (text ++ [c]) }

def start : Reading := ⟨.normal, [], ⟨[], []⟩⟩

def Reading.finish (r : Reading) : Option Pattern :=
  match r.mode, r.outer with
  | .normal, [] => r.cur.close
  | _, _ => none

def parse (text : List Char) : Option Pattern :=
  (text.foldlM (Reading.step locale) start).bind Reading.finish

variable {locale}

theorem parse_dollar {text : List Char} {P : Pattern} (h : parse locale text = some P) :
    parse locale (text ++ ['$']) = some P.dollar := by
  obtain ⟨r, hrun, hfinish⟩ := Option.bind_eq_some_iff.mp h
  obtain ⟨mode, outer, cur⟩ := r
  cases mode <;> cases outer <;> try cases hfinish
  change cur.close = some P at hfinish
  unfold Frame.close at hfinish
  split at hfinish <;> cases hfinish
  rw [parse, List.foldlM_append, hrun]
  rfl

end Read

end Ere
