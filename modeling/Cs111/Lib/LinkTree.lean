import Mathlib.Data.Set.Insert
import Mathlib.Tactic.Common

namespace LinkTree

inductive Path (ι : Type*) where
  | root (i : ι)
  | child (p : Path ι) (e : ℕ)
  deriving DecidableEq

structure Links (ι Z : Type*) where
  root : ι → Z
  cell : Z → ℕ → Z

structure Shape (ι : Type*) where
  places : Set (Path ι)
  closed : ∀ {p e}, Path.child p e ∈ places → p ∈ places

variable {ι Z : Type*}

section Node
variable [Zero Z] [DecidableEq Z]

def Links.node (l : Links ι Z) : Path ι → Z
  | .root i => l.root i
  | .child p e => if l.node p = 0 then 0 else l.cell (l.node p) e

variable {l : Links ι Z} {p : Path ι} {e : ℕ}

@[simp] theorem Links.node_root (l : Links ι Z) (i : ι) : l.node (.root i) = l.root i := rfl

theorem Links.node_child (h : l.node p ≠ 0) : l.node (.child p e) = l.cell (l.node p) e :=
  if_neg h

theorem Links.node_below (h : l.node p = 0) : l.node (.child p e) = 0 := if_pos h

end Node

section Below
variable {p q d : Path ι} {e k : ℕ}

inductive Below (d : Path ι) : Path ι → Prop
  | self : Below d d
  | up {p : Path ι} {e : ℕ} : Below d (.child p e) → Below d p

def Path.depth : Path ι → ℕ
  | .root _ => 0
  | .child p _ => p.depth + 1

theorem Path.ne_child (p : Path ι) (e : ℕ) : p ≠ .child p e := fun h =>
  absurd (congrArg Path.depth h) (Nat.ne_of_lt (Nat.lt_succ_self _))

theorem Below.depth_le (h : Below d q) : q.depth ≤ d.depth := by
  induction h with
  | self => exact Nat.le_refl _
  | up _ ih => exact Nat.le_of_succ_le ih

theorem Below.not_child : ¬ Below d (.child d e) := fun h =>
  absurd h.depth_le (Nat.not_succ_le_self _)

theorem Below.mem {V : Shape ι} (h : Below d q) (hd : d ∈ V.places) : q ∈ V.places := by
  induction h with
  | self => exact hd
  | up _ ih => exact V.closed ih

theorem below_root {i : ι} : Below (.root i) q ↔ q = .root i := by
  constructor
  · intro h
    generalize hd : Path.root i = d at h
    induction h with
    | self => rfl
    | up _ ih => exact absurd ih (by simp [← hd])
  · rintro rfl
    exact .self

theorem below_child : Below (.child p e) q ↔ q = .child p e ∨ Below p q := by
  constructor
  · intro h
    induction h with
    | self => exact .inl rfl
    | up _ ih =>
      cases ih with
      | inl he =>
        cases he
        exact .inr .self
      | inr h => exact .inr h.up
  · rintro (rfl | h)
    · exact .self
    · induction h with
      | self => exact .up .self
      | up _ ih => exact .up ih

theorem Below.antisymm (h : Below p q) (h' : Below q p) : p = q := by
  cases h with
  | self => rfl
  | up hup => exact absurd (hup.depth_le.trans h'.depth_le) (Nat.not_succ_le_self _)

theorem Below.child_unique (h : Below d (.child p e)) (h' : Below d (.child p k)) : e = k := by
  induction d with
  | root i => cases below_root.mp h
  | child q j ih =>
    rw [below_child] at h h'
    cases h with
    | inl he =>
      cases he
      cases h' with
      | inl he' => exact (Path.child.inj he').2.symm
      | inr h' => exact absurd h' Below.not_child
    | inr h =>
      cases h' with
      | inl he' =>
        cases he'
        exact absurd h Below.not_child
      | inr h' => exact ih h h'

theorem Below.comparable (hp : Below d p) (hq : Below d q) : Below p q ∨ Below q p := by
  induction d with
  | root i =>
    rw [below_root.mp hp, below_root.mp hq]
    exact .inl .self
  | child t j ih =>
    rw [below_child] at hp hq
    cases hp with
    | inl he =>
      subst he
      exact .inl (below_child.mpr hq)
    | inr hp =>
      cases hq with
      | inl he =>
        subst he
        exact .inr (below_child.mpr (.inr hp))
      | inr hq => exact ih hp hq

end Below

section Relink
variable [Zero Z] [DecidableEq Z] {l l' : Links ι Z} {V : Shape ι} {p q t : Path ι} {e : ℕ} {z : Z}

def Unshared (V : Shape ι) (l : Links ι Z) : Prop :=
  ∀ p ∈ V.places, ∀ q ∈ V.places, l.node p ≠ 0 → l.node p = l.node q → p = q

structure Relinked (V : Shape ι) (l l' : Links ι Z) (t : Path ι) (z : Z) : Prop where
  mem : t ∈ V.places
  self_root : ∀ i, t = .root i → l'.root i = z
  self_cell : ∀ p e, t = .child p e → l.node p ≠ 0 ∧ l'.cell (l.node p) e = z
  root : ∀ i, .root i ∈ V.places → .root i ≠ t → l'.root i = l.root i
  cell : ∀ p e, .child p e ∈ V.places → .child p e ≠ t → p ≠ t → l.node p ≠ 0 →
    l'.cell (l.node p) e = l.cell (l.node p) e
  before : ∀ e, .child t e ∈ V.places → l.node (.child t e) = 0
  after : ∀ e, .child t e ∈ V.places → z ≠ 0 → l'.cell z e = 0

theorem Relinked.node_off (h : Relinked V l l' t z) (hq : q ∈ V.places) (hoff : ¬ Below q t) :
    l'.node q = l.node q := by
  induction q with
  | root i => exact h.root i hq fun he => hoff (he ▸ .self)
  | child p e ih =>
    have hne : .child p e ≠ t := fun he => hoff (he ▸ .self)
    have hup : ¬ Below p t := fun hb => hoff (below_child.mpr (.inr hb))
    have hp : p ≠ t := fun he => hup (he ▸ .self)
    have hnode := ih (V.closed hq) hup
    by_cases h0 : l.node p = 0
    · rw [Links.node_below h0, Links.node_below (hnode.trans h0)]
    · have h0' : l'.node p ≠ 0 := by rwa [hnode]
      rw [Links.node_child h0, Links.node_child h0', hnode]
      exact h.cell p e hq hne hp h0

theorem Relinked.self (h : Relinked V l l' t z) : l'.node t = z := by
  cases t with
  | root i => exact h.self_root i rfl
  | child p e =>
    obtain ⟨h0, hcell⟩ := h.self_cell p e rfl
    have hnode : l'.node p = l.node p := h.node_off (V.closed h.mem) Below.not_child
    have h0' : l'.node p ≠ 0 := by rwa [hnode]
    rw [Links.node_child h0', hnode, hcell]

theorem Relinked.node_ne (h : Relinked V l l' t z) (hq : q ∈ V.places) (hne : q ≠ t) :
    l'.node q = l.node q := by
  induction q with
  | root i => exact h.root i hq hne
  | child p e ih =>
    by_cases hp : p = t
    · subst hp
      rw [h.before e hq]
      by_cases hz : z = 0
      · exact Links.node_below (h.self.trans hz)
      · have hp0 : l'.node p ≠ 0 := by rwa [h.self]
        rw [Links.node_child hp0, h.self]
        exact h.after e hq hz
    · have hnode := ih (V.closed hq) hp
      by_cases h0 : l.node p = 0
      · rw [Links.node_below h0, Links.node_below (hnode.trans h0)]
      · have h0' : l'.node p ≠ 0 := by rwa [hnode]
        rw [Links.node_child h0, Links.node_child h0', hnode]
        exact h.cell p e hq hne hp h0

theorem Relinked.unshared (h : Relinked V l l' t z) (hl : Unshared V l)
    (hz : z = 0 ∨ ∀ q ∈ V.places, l.node q ≠ z) : Unshared V l' := by
  intro p hp q hq hp0 heq
  by_cases hpt : p = t <;> by_cases hqt : q = t
  · exact hpt.trans hqt.symm
  · subst hpt
    rw [h.self] at hp0 heq
    rw [h.node_ne hq hqt] at heq
    exact absurd heq.symm ((hz.resolve_left hp0) q hq)
  · subst hqt
    rw [h.node_ne hp hpt] at hp0 heq
    rw [h.self] at heq
    have hz0 : z ≠ 0 := by rwa [← heq]
    exact absurd heq ((hz.resolve_left hz0) p hp)
  · rw [h.node_ne hp hpt, h.node_ne hq hqt] at heq
    rw [h.node_ne hp hpt] at hp0
    exact hl p hp q hq hp0 heq

end Relink

section Gone
variable [Zero Z] [DecidableEq Z] {V : Shape ι} {l l' : Links ι Z} {d p q : Path ι} {e k : ℕ}

inductive Gone (V : Shape ι) (l : Links ι Z) (d : Path ι) : Path ι → Prop
  | data : Gone V l d d
  | inner {p : Path ι} {e : ℕ} : Below d (.child p e) →
      (∀ e, .child p e ∈ V.places → l.node (.child p e) ≠ 0 → Gone V l d (.child p e)) →
      Gone V l d p

theorem Gone.is_below (h : Gone V l d q) : Below d q := by
  cases h with
  | data => exact .self
  | inner h _ => exact h.up

theorem gone_inner (hk : Below d (.child p k)) :
    Gone V l d p ↔ ∀ e, .child p e ∈ V.places → l.node (.child p e) ≠ 0 →
      e = k ∧ Gone V l d (.child p k) := by
  constructor
  · intro h e he h0
    cases h with
    | data => exact absurd hk Below.not_child
    | inner _ hall =>
      have hgone := hall e he h0
      have hek : e = k := hgone.is_below.child_unique hk
      exact ⟨hek, hek ▸ hgone⟩
  · intro h
    refine .inner hk fun e he h0 => ?_
    obtain ⟨rfl, hgone⟩ := h e he h0
    exact hgone

def ClearedTo (V : Shape ι) (l l' : Links ι Z) (d c : Path ι) : Prop :=
  ∀ q ∈ V.places, (Gone V l d q ∧ Below q c → l'.node q = 0) ∧
    (¬ (Gone V l d q ∧ Below q c) → l'.node q = l.node q)

theorem cleared_data (hself : l'.node d = 0) (hne : ∀ q ∈ V.places, q ≠ d → l'.node q = l.node q) :
    ClearedTo V l l' d d := by
  intro q hq
  by_cases hqd : q = d
  · subst hqd
    exact ⟨fun _ => hself, fun h => absurd ⟨.data, .self⟩ h⟩
  · refine ⟨fun h => ?_, fun _ => hne q hq hqd⟩
    exact absurd (h.2.antisymm h.1.is_below) hqd

theorem ClearedTo.gone_iff (h : ClearedTo V l l' d (.child p k)) (hk : Below d (.child p k)) :
    Gone V l d p ↔ ∀ e, .child p e ∈ V.places → l'.node (.child p e) = 0 := by
  rw [gone_inner hk]
  constructor
  · intro hall e he
    by_cases h0 : l.node (.child p e) = 0
    · by_cases hg : Gone V l d (.child p e) ∧ Below (.child p e) (.child p k)
      · exact (h _ he).1 hg
      · rw [(h _ he).2 hg, h0]
    · obtain ⟨rfl, hg⟩ := hall e he h0
      exact (h _ he).1 ⟨hg, .self⟩
  · intro hall e he h0
    have hg : Gone V l d (.child p e) ∧ Below (.child p e) (.child p k) := by
      by_contra hg
      exact h0 (((h _ he).2 hg).symm.trans (hall e he))
    have hek : e = k := hg.1.is_below.child_unique hk
    exact ⟨hek, hek ▸ hg.1⟩

theorem gone_to (hk : Below d (.child p k)) :
    Gone V l d q ∧ Below q p ↔ (q = p ∧ Gone V l d p) ∨ (Gone V l d q ∧ Below q (.child p k)) := by
  constructor
  · rintro ⟨hg, hb⟩
    by_cases hqp : q = p
    · exact .inl ⟨hqp, hqp ▸ hg⟩
    · cases hg.is_below.comparable hk with
      | inl h => exact .inr ⟨hg, h⟩
      | inr h =>
        rw [below_child] at h
        cases h with
        | inl he => exact .inr ⟨hg, he ▸ .self⟩
        | inr h => exact absurd (hb.antisymm h) hqp
  · rintro (⟨rfl, hg⟩ | ⟨hg, hb⟩)
    · exact ⟨hg, .self⟩
    · exact ⟨hg, hb.up⟩

theorem ClearedTo.kept (h : ClearedTo V l l' d (.child p k)) (hk : Below d (.child p k))
    (hno : ¬ Gone V l d p) : ClearedTo V l l' d p := by
  intro q hq
  have hiff : Gone V l d q ∧ Below q p ↔ Gone V l d q ∧ Below q (.child p k) := by
    rw [gone_to hk, or_iff_right fun h => hno h.2]
  rw [hiff]
  exact h q hq

theorem ClearedTo.cleared {l₁ : Links ι Z} (h : ClearedTo V l l₁ d (.child p k))
    (hk : Below d (.child p k)) (hg : Gone V l d p) (hself : l'.node p = 0)
    (hne : ∀ q ∈ V.places, q ≠ p → l'.node q = l₁.node q) : ClearedTo V l l' d p := by
  intro q hq
  rw [gone_to hk]
  by_cases hqp : q = p
  · subst hqp
    exact ⟨fun _ => hself, fun hno => absurd (.inl ⟨rfl, hg⟩) hno⟩
  · rw [hne q hq hqp, or_iff_right fun h => hqp h.1]
    exact h q hq

end Gone

end LinkTree
