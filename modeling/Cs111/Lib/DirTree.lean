import Mathlib.Tactic.Common
import Mathlib.Order.Basic

-- Trees of directories, by the entries of each: a name refers to a node, the directories among
-- the nodes hold themselves and their parents under two names of their own.
namespace DirTree
variable {ν α : Type*}

structure Dots (α : Type*) where
  dot : α
  dotdot : α
  ne : dot ≠ dotdot

def Dots.Plain (D : Dots α) (name : α) : Prop := name ≠ D.dot ∧ name ≠ D.dotdot

inductive Depth (D : Dots α) (root : ν) (e : ν → α → Option ν) : ν → ℕ → Prop
  | root : Depth D root e root 0
  | up {d p k} : d ≠ root → e d D.dotdot = some p → Depth D root e p k → Depth D root e d (k + 1)

inductive Avoids (D : Dots α) (root : ν) (e : ν → α → Option ν) (n : ν) : ν → Prop
  | root : root ≠ n → Avoids D root e n root
  | up {d p} : d ≠ n → d ≠ root → e d D.dotdot = some p → Avoids D root e n p →
      Avoids D root e n d

structure IsTree (D : Dots α) (root : ν) (e : ν → α → Option ν) (dir : ν → Prop) : Prop where
  dirs : ∀ d name n, e d name = some n → dir d
  dots : ∀ d name n, e d name = some n → e d D.dot = some d ∧ e d D.dotdot ≠ none
  top : e root D.dot = some root ∧ e root D.dotdot = some root
  child : ∀ d name n, e d name = some n → D.Plain name → dir n →
    e n D.dot = some n ∧ e n D.dotdot = some d ∧ n ≠ root
  once : ∀ d d' name name' n, e d name = some n → e d' name' = some n → D.Plain name →
    D.Plain name' → dir n → d = d' ∧ name = name'
  held : ∀ d p, e d D.dotdot = some p → d ≠ root → ∃ name, D.Plain name ∧ e p name = some d
  rooted : ∀ d, e d D.dot ≠ none → ∃ k, Depth D root e d k

section Ways
variable {D : Dots α} {root : ν} {e e' : ν → α → Option ν} {dir : ν → Prop} {d n : ν} {k k' : ℕ}

theorem Depth.unique (h : Depth D root e d k) (h' : Depth D root e d k') : k = k' := by
  induction h generalizing k' with
  | root =>
    cases h' with
    | root => rfl
    | up hne => exact absurd rfl hne
  | up hne hp _ ih =>
    cases h' with
    | root => exact absurd rfl hne
    | up _ hp' hup =>
      rw [hp] at hp'
      cases hp'
      rw [ih hup]

theorem Depth.avoids (h : Depth D root e d k) (hn : Depth D root e n k') (hlt : k < k') :
    Avoids D root e n d := by
  induction h with
  | root =>
    refine .root ?_
    rintro rfl
    rw [hn.unique .root] at hlt
    exact absurd hlt (Nat.not_lt_zero 0)
  | up hne hp hup ih =>
    refine .up ?_ hne hp (ih (Nat.lt_of_succ_lt hlt))
    rintro rfl
    exact absurd (hn.unique (.up hne hp hup)) (Nat.ne_of_gt hlt)

theorem Avoids.depth (h : Avoids D root e n d) (hsame : ∀ m, m ≠ n → e' m D.dotdot = e m D.dotdot) :
    ∃ k, Depth D root e' d k := by
  induction h with
  | root => exact ⟨0, .root⟩
  | up hn hne hp _ ih =>
    obtain ⟨k, hk⟩ := ih
    exact ⟨k + 1, .up hne ((hsame _ hn).trans hp) hk⟩

theorem Avoids.ne (h : Avoids D root e n d) : d ≠ n := by
  cases h with
  | root hn => exact hn
  | up hn => exact hn

theorem Avoids.same {m : ν} (h : Avoids D root e n d) (h' : Avoids D root e m d)
    (hsame : ∀ d', d' ≠ m → e' d' D.dotdot = e d' D.dotdot) : Avoids D root e' n d := by
  induction h with
  | root hn => exact .root hn
  | @up d p hn hne hp _ ih =>
    cases h' with
    | root => exact absurd rfl hne
    | up hm _ hp' hup =>
      rw [hp] at hp'
      cases hp'
      exact .up hn hne ((hsame d hm).trans hp) (ih hup)

theorem IsTree.below (h : IsTree D root e dir) {name : α} (he : e d name = some n)
    (hname : D.Plain name) (hn : dir n) : Avoids D root e n d := by
  obtain ⟨hdot, -⟩ := h.dots d name n he
  obtain ⟨k, hk⟩ := h.rooted d (by rw [hdot]; exact Option.some_ne_none d)
  obtain ⟨-, hup, hroot⟩ := h.child d name n he hname hn
  exact hk.avoids (.up hroot hup hk) (Nat.lt_succ_self k)

theorem IsTree.depth (h : IsTree D root e dir) {name : α} (he : e d name = some n) :
    ∃ k, Depth D root e d k :=
  h.rooted d (by rw [(h.dots d name n he).1]; exact Option.some_ne_none d)

end Ways

section Changes
variable {D : Dots α} {root : ν} {e e' : ν → α → Option ν} {dir dir' : ν → Prop} {d n : ν} {name : α}

theorem IsTree.fewer (h : IsTree D root e dir) (hsub : ∀ d, dir' d → dir d)
    (hkeep : ∀ d name n, e d name = some n → dir' d) : IsTree D root e dir' :=
  ⟨hkeep, h.dots, h.top, fun d name n he hname hn => h.child d name n he hname (hsub n hn),
    fun d d' name name' n h₁ h₂ hp₁ hp₂ hn => h.once d d' name name' n h₁ h₂ hp₁ hp₂ (hsub n hn),
    h.held, h.rooted⟩

theorem IsTree.unlink (h : IsTree D root e dir) (he : e d name = some n) (hname : D.Plain name)
    (hn : ¬ dir n) (hgone : e' d name = none)
    (hsame : ∀ d' name', ¬ (d' = d ∧ name' = name) → e' d' name' = e d' name') :
    IsTree D root e' dir := by
  have hold : ∀ {d' name' m}, e' d' name' = some m → e d' name' = some m := by
    intro d' name' m hm
    by_cases hat : d' = d ∧ name' = name
    · rw [hat.1, hat.2, hgone] at hm
      cases hm
    · rwa [hsame d' name' hat] at hm
  have hdot : ∀ d', e' d' D.dot = e d' D.dot := fun d' => hsame d' _ fun hat => hname.1 hat.2.symm
  have hdotdot : ∀ d', e' d' D.dotdot = e d' D.dotdot := fun d' =>
    hsame d' _ fun hat => hname.2 hat.2.symm
  have hdepth : ∀ {d' k}, Depth D root e d' k → Depth D root e' d' k := by
    intro d' k hk
    induction hk with
    | root => exact .root
    | up hne hp _ ih => exact .up hne ((hdotdot _).trans hp) ih
  refine ⟨fun d' name' m hm => h.dirs d' name' m (hold hm), fun d' name' m hm => ?_, ?_,
    fun d' name' m hm hp hd => ?_, fun d₁ d₂ n₁ n₂ m h₁ h₂ => h.once d₁ d₂ n₁ n₂ m (hold h₁) (hold h₂),
    fun d' p hp hne => ?_, fun d' hd => ?_⟩
  · rw [hdot, hdotdot]
    exact h.dots d' name' m (hold hm)
  · rw [hdot, hdotdot]
    exact h.top
  · rw [hdot, hdotdot]
    exact h.child d' name' m (hold hm) hp hd
  · rw [hdotdot] at hp
    obtain ⟨name', hplain, hheld⟩ := h.held d' p hp hne
    refine ⟨name', hplain, (hsame p name' fun hat => hn ?_).trans hheld⟩
    rw [hat.1, hat.2, he] at hheld
    cases hheld
    exact h.dirs _ _ _ hp
  · rw [hdot] at hd
    obtain ⟨k, hk⟩ := h.rooted d' hd
    exact ⟨k, hdepth hk⟩

theorem IsTree.rmdir (h : IsTree D root e dir) (he : e d name = some n) (hname : D.Plain name)
    (hn : dir n) (hempty : ∀ name', D.Plain name' → e n name' = none) (hgone : e' d name = none)
    (hnone : ∀ name', e' n name' = none)
    (hsame : ∀ d' name', ¬ (d' = d ∧ name' = name) → d' ≠ n → e' d' name' = e d' name') :
    IsTree D root e' dir := by
  obtain ⟨-, -, hroot⟩ := h.child d name n he hname hn
  have hold : ∀ {d' name' m}, e' d' name' = some m →
      e d' name' = some m ∧ d' ≠ n ∧ ¬ (d' = d ∧ name' = name) := by
    intro d' name' m hm
    have hd : d' ≠ n := by
      rintro rfl
      rw [hnone] at hm
      cases hm
    have hat : ¬ (d' = d ∧ name' = name) := by
      rintro ⟨rfl, rfl⟩
      rw [hgone] at hm
      cases hm
    rw [hsame d' name' hat hd] at hm
    exact ⟨hm, hd, hat⟩
  have hdot : ∀ d', d' ≠ n → e' d' D.dot = e d' D.dot := fun d' hd =>
    hsame d' _ (fun hat => hname.1 hat.2.symm) hd
  have hdotdot : ∀ d', d' ≠ n → e' d' D.dotdot = e d' D.dotdot := fun d' hd =>
    hsame d' _ (fun hat => hname.2 hat.2.symm) hd
  have hother : ∀ {d' name' m}, e' d' name' = some m → D.Plain name' → dir m → m ≠ n := by
    intro d' name' m hm hplain hdir
    obtain ⟨hm', -, hat⟩ := hold hm
    rintro rfl
    exact hat (h.once d' d name' name m hm' he hplain hname hdir)
  -- nothing lies under the directory
  have hdepth : ∀ {d' k}, Depth D root e d' k → d' ≠ n → ∃ k', Depth D root e' d' k' := by
    intro d' k hk
    induction hk with
    | root => exact fun _ => ⟨0, .root⟩
    | @up d₁ p k hne hp _ ih =>
      intro hd
      obtain ⟨name', hplain, hheld⟩ := h.held _ _ hp hne
      have hpn : p ≠ n := by
        rintro rfl
        rw [hempty name' hplain] at hheld
        cases hheld
      obtain ⟨k', hk'⟩ := ih hpn
      exact ⟨k' + 1, .up hne ((hdotdot d₁ hd).trans hp) hk'⟩
  refine ⟨fun d' name' m hm => h.dirs d' name' m (hold hm).1, fun d' name' m hm => ?_, ?_,
    fun d' name' m hm hp hd => ?_,
    fun d₁ d₂ n₁ n₂ m h₁ h₂ => h.once d₁ d₂ n₁ n₂ m (hold h₁).1 (hold h₂).1,
    fun d' p hp hne => ?_, fun d' hd => ?_⟩
  · obtain ⟨hm', hd, -⟩ := hold hm
    rw [hdot d' hd, hdotdot d' hd]
    exact h.dots d' name' m hm'
  · rw [hdot root hroot.symm, hdotdot root hroot.symm]
    exact h.top
  · have hmn := hother hm hp hd
    rw [hdot m hmn, hdotdot m hmn]
    exact h.child d' name' m (hold hm).1 hp hd
  · obtain ⟨hp', hd', -⟩ := hold hp
    obtain ⟨name', hplain, hheld⟩ := h.held d' p hp' hne
    refine ⟨name', hplain, (hsame p name' (fun hat => hd' ?_) ?_).trans hheld⟩
    · rw [hat.1, hat.2, he] at hheld
      cases hheld
      rfl
    · rintro rfl
      rw [hempty name' hplain] at hheld
      cases hheld
  · have hdn : d' ≠ n := by
      rintro rfl
      exact hd (hnone _)
    rw [hdot d' hdn] at hd
    obtain ⟨k, hk⟩ := h.rooted d' hd
    exact hdepth hk hdn

theorem IsTree.move (h : IsTree D root e dir) {nd : ν} {newname : α} (he : e d name = some n)
    (hname : D.Plain name) (hnew : D.Plain newname) (hfree : e nd newname = none)
    (hlive : e nd D.dot = some nd) (havoids : dir n → Avoids D root e n nd)
    (hgone : e' d name = none) (hput : e' nd newname = some n)
    (hup : dir n → e' n D.dotdot = some nd)
    (hsame : ∀ d' name', ¬ (d' = d ∧ name' = name) → ¬ (d' = nd ∧ name' = newname) →
      ¬ (dir n ∧ d' = n ∧ name' = D.dotdot) → e' d' name' = e d' name') : IsTree D root e' dir := by
  have hdot : ∀ d', e' d' D.dot = e d' D.dot := fun d' =>
    hsame d' _ (fun hat => hname.1 hat.2.symm) (fun hat => hnew.1 hat.2.symm)
      fun hat => D.ne hat.2.2
  have hdotdot : ∀ d', ¬ (dir n ∧ d' = n) → e' d' D.dotdot = e d' D.dotdot := fun d' hd =>
    hsame d' _ (fun hat => hname.2 hat.2.symm) (fun hat => hnew.2 hat.2.symm)
      fun hat => hd ⟨hat.1, hat.2.1⟩
  have hplain : ∀ {d' name' m}, e' d' name' = some m → D.Plain name' →
      (d' = nd ∧ name' = newname ∧ m = n) ∨
      (e d' name' = some m ∧ ¬ (d' = d ∧ name' = name) ∧ ¬ (d' = nd ∧ name' = newname)) := by
    intro d' name' m hm hp
    by_cases hat : d' = nd ∧ name' = newname
    · rw [hat.1, hat.2, hput] at hm
      cases hm
      exact .inl ⟨hat.1, hat.2, rfl⟩
    · have hne : ¬ (d' = d ∧ name' = name) := by
        rintro ⟨rfl, rfl⟩
        rw [hgone] at hm
        cases hm
      rw [hsame d' name' hne hat fun hdd => hp.2 hdd.2.2] at hm
      exact .inr ⟨hm, hne, hat⟩
  have hsome : ∀ {d' name' m}, e' d' name' = some m → ∃ name₀ m₀, e d' name₀ = some m₀ := by
    intro d' name' m hm
    by_cases hat : d' = nd ∧ name' = newname
    · exact ⟨_, _, hat.1 ▸ hlive⟩
    · by_cases hdd : dir n ∧ d' = n ∧ name' = D.dotdot
      · obtain ⟨hdot', -⟩ := h.child d name n he hname hdd.1
        exact ⟨_, _, hdd.2.1 ▸ hdot'⟩
      · have hne : ¬ (d' = d ∧ name' = name) := by
          rintro ⟨rfl, rfl⟩
          rw [hgone] at hm
          cases hm
        exact ⟨_, _, (hsame d' name' hne hat hdd).symm.trans hm⟩
  have hnd : ∃ k, Depth D root e' nd k := by
    by_cases hdir : dir n
    · exact (havoids hdir).depth fun m hm => hdotdot m fun hand => hm hand.2
    · obtain ⟨k, hk⟩ := h.depth hlive
      have hsame' : ∀ {d' k}, Depth D root e d' k → Depth D root e' d' k := by
        intro d' k hk
        induction hk with
        | root => exact .root
        | up hne hp _ ih => exact .up hne ((hdotdot _ fun hand => hdir hand.1).trans hp) ih
      exact ⟨k, hsame' hk⟩
  have hdepth : ∀ {d' k}, Depth D root e d' k → ∃ k', Depth D root e' d' k' := by
    intro d' k hk
    induction hk with
    | root => exact ⟨0, .root⟩
    | @up d₁ p k hne hp _ ih =>
      by_cases hd : dir n ∧ d₁ = n
      · obtain ⟨k', hk'⟩ := hnd
        exact ⟨k' + 1, .up hne (by rw [hd.2]; exact hup hd.1) hk'⟩
      · obtain ⟨k', hk'⟩ := ih
        exact ⟨k' + 1, .up hne ((hdotdot d₁ hd).trans hp) hk'⟩
  refine ⟨fun d' name' m hm => ?_, fun d' name' m hm => ?_, ?_, fun d' name' m hm hp hd => ?_,
    fun d₁ d₂ n₁ n₂ m h₁ h₂ hp₁ hp₂ hd => ?_, fun d' p hp hne => ?_, fun d' hd => ?_⟩
  · obtain ⟨name₀, m₀, hm₀⟩ := hsome hm
    exact h.dirs d' name₀ m₀ hm₀
  · obtain ⟨name₀, m₀, hm₀⟩ := hsome hm
    obtain ⟨hdot', hdd⟩ := h.dots d' name₀ m₀ hm₀
    refine ⟨(hdot d').trans hdot', ?_⟩
    by_cases hat : dir n ∧ d' = n
    · rw [hat.2, hup hat.1]
      exact Option.some_ne_none nd
    · rwa [hdotdot d' hat]
  · have hroot : ¬ (dir n ∧ root = n) := fun hand =>
      (h.child d name n he hname hand.1).2.2 hand.2.symm
    rw [hdot, hdotdot root hroot]
    exact h.top
  · rw [hdot]
    rcases hplain hm hp with ⟨rfl, -, rfl⟩ | ⟨hm', hne, -⟩
    · obtain ⟨hdot', -, hroot⟩ := h.child d name m he hname hd
      exact ⟨hdot', hup hd, hroot⟩
    · have hmn : ¬ (dir n ∧ m = n) := by
        rintro ⟨-, rfl⟩
        exact hne (h.once d' d name' name m hm' he hp hname hd)
      rw [hdotdot m hmn]
      exact h.child d' name' m hm' hp hd
  · rcases hplain h₁ hp₁ with ⟨rfl, rfl, rfl⟩ | ⟨h₁', hne₁, -⟩
    · rcases hplain h₂ hp₂ with ⟨rfl, rfl, -⟩ | ⟨h₂', hne₂, -⟩
      · exact ⟨rfl, rfl⟩
      · exact absurd (h.once d₂ d n₂ name m h₂' he hp₂ hname hd) hne₂
    · rcases hplain h₂ hp₂ with ⟨-, -, rfl⟩ | ⟨h₂', -, -⟩
      · exact absurd (h.once d₁ d n₁ name m h₁' he hp₁ hname hd) hne₁
      · exact h.once d₁ d₂ n₁ n₂ m h₁' h₂' hp₁ hp₂ hd
  · by_cases hat : dir n ∧ d' = n
    · obtain ⟨hdir, rfl⟩ := hat
      rw [hup hdir] at hp
      cases hp
      exact ⟨newname, hnew, hput⟩
    · rw [hdotdot d' hat] at hp
      obtain ⟨name', hplain', hheld⟩ := h.held d' p hp hne
      refine ⟨name', hplain', (hsame p name' (fun hd => hat ?_) (fun hd => ?_)
        fun hd => hplain'.2 hd.2.2).trans hheld⟩
      · rw [hd.1, hd.2, he] at hheld
        cases hheld
        exact ⟨h.dirs _ _ _ hp, rfl⟩
      · rw [hd.1, hd.2, hfree] at hheld
        cases hheld
  · rw [hdot] at hd
    obtain ⟨k, hk⟩ := h.rooted d' hd
    exact hdepth hk

end Changes

end DirTree
