import Mathlib.Data.Fintype.Card

namespace Chain
variable {ι : Type*}

inductive Cell (ι : Type*) where
  | head
  | link (i : ι)

structure Links (ι : Type*) where
  head : Option ι
  next : ι → Option ι

def Links.get (c : Links ι) : Cell ι → Option ι
  | .head => c.head
  | .link i => c.next i

def Links.set [DecidableEq ι] (c : Links ι) (xpp : Cell ι) (v : Option ι) : Links ι :=
  match xpp with
  | .head => { c with head := v }
  | .link i => { c with next := Function.update c.next i v }

-- while (*xpp && !stop(*xpp)) xpp = &(*xpp)->next; none when the bound is reached.
def seek (c : Links ι) (stop : ι → Bool) : ℕ → Cell ι → Option (Cell ι)
  | 0, _ => none
  | fuel + 1, xpp =>
    match c.get xpp with
    | none => some xpp
    | some i => if stop i then some xpp else seek c stop fuel (.link i)

def Path (next : ι → Option ι) : Option ι → List ι → Prop
  | h, [] => h = none
  | h, i :: l => h = some i ∧ Path next (next i) l

def Links.Holds (c : Links ι) (l : List ι) : Prop := Path c.next c.head l

def cellFrom : Cell ι → List ι → Cell ι
  | xpp, [] => xpp
  | _, i :: pre => cellFrom (.link i) pre

section Path
variable {next : ι → Option ι} {h : Option ι} {l : List ι}

theorem path_unique {l' : List ι} (hl : Path next h l) (hl' : Path next h l') : l = l' := by
  induction l generalizing h l' with
  | nil =>
    cases l' with
    | nil => rfl
    | cons j l' => exact absurd (hl.symm.trans hl'.1) (by simp)
  | cons i l ih =>
    cases l' with
    | nil => exact absurd (hl.1.symm.trans hl') (by simp)
    | cons j l' =>
      obtain rfl : i = j := Option.some.inj (hl.1.symm.trans hl'.1)
      rw [ih hl.2 hl'.2]

theorem path_suffix {pre post : List ι} (hl : Path next h (pre ++ post)) :
    ∃ h', Path next h' post := by
  induction pre generalizing h with
  | nil => exact ⟨h, hl⟩
  | cons i pre ih => exact ih hl.2

theorem path_nodup (hl : Path next h l) : l.Nodup := by
  induction l generalizing h with
  | nil => exact List.nodup_nil
  | cons i l ih =>
    refine List.nodup_cons.mpr ⟨fun hmem => ?_, ih hl.2⟩
    obtain ⟨pre, post, rfl⟩ := List.append_of_mem hmem
    obtain ⟨h', hpost⟩ := path_suffix hl.2
    have hsame := path_unique hl.2 hpost.2
    have hlen := congrArg List.length hsame
    simp at hlen
    omega

theorem path_length_le [Fintype ι] (hl : Path next h l) : l.length ≤ Fintype.card ι :=
  (path_nodup hl).length_le_card

theorem path_congr {next' : ι → Option ι} (hsame : ∀ i ∈ l, next' i = next i)
    (hl : Path next h l) : Path next' h l := by
  induction l generalizing h with
  | nil => exact hl
  | cons i l ih =>
    refine ⟨hl.1, ?_⟩
    rw [hsame i List.mem_cons_self]
    exact ih (fun j hj => hsame j (List.mem_cons_of_mem i hj)) hl.2

variable [DecidableEq ι]

theorem path_update {j : ι} {v : Option ι} (hj : j ∉ l) (hl : Path next h l) :
    Path (Function.update next j v) h l :=
  path_congr (fun i hi => Function.update_of_ne (fun he => hj (by rwa [← he])) ..) hl

theorem path_bypass {i j : ι} (hl : Path next h l) (hi : i ∈ l) (hij : next i = some j) :
    j ∈ l ∧ Path (Function.update next i (next j)) h (l.erase j) := by
  induction l generalizing h with
  | nil => exact absurd hi List.not_mem_nil
  | cons k l ih =>
    have hnodup := List.nodup_cons.mp (path_nodup hl)
    by_cases hki : k = i
    · subst hki
      obtain ⟨hh, htail⟩ := hl
      rw [hij] at htail
      cases l with
      | nil => exact absurd htail (by simp [Path])
      | cons j' l =>
        obtain ⟨hj', hrest⟩ := htail
        cases hj'
        have hkj : k ≠ j := fun he => hnodup.1 (he ▸ List.mem_cons_self)
        refine ⟨List.mem_cons_of_mem k List.mem_cons_self, ?_⟩
        rw [List.erase_cons_tail (by simpa using hkj), List.erase_cons_head]
        refine ⟨hh, ?_⟩
        rw [Function.update_self]
        exact path_update (fun hk => hnodup.1 (List.mem_cons_of_mem j hk)) hrest
    · have hil : i ∈ l := (List.mem_cons.mp hi).resolve_left fun he => hki he.symm
      obtain ⟨hj, hpath⟩ := ih hl.2 hil
      have hkj : k ≠ j := fun he => hnodup.1 (he ▸ hj)
      refine ⟨List.mem_cons_of_mem k hj, ?_⟩
      rw [List.erase_cons_tail (by simpa using hkj)]
      refine ⟨hl.1, ?_⟩
      rw [Function.update_of_ne hki]
      exact hpath

theorem path_join {next' : ι → Option ι} {i : ι} {l' : List ι}
    (hl : Path (Function.update next i none) h (l ++ [i])) (hsame : ∀ k ∈ l, next' k = next k)
    (hl' : Path next' (next' i) l') : Path next' h (l ++ [i] ++ l') := by
  induction l generalizing h with
  | nil => exact ⟨hl.1, hl'⟩
  | cons k l ih =>
    have hki : k ≠ i := by
      rintro rfl
      exact (List.nodup_cons.mp (path_nodup hl)).1 (by simp)
    refine ⟨hl.1, ?_⟩
    have htail := hl.2
    rw [Function.update_of_ne hki] at htail
    rw [hsame k List.mem_cons_self]
    exact ih htail fun k' hk' => hsame k' (List.mem_cons_of_mem k hk')

theorem path_extend {next' : ι → Option ι} {i j : ι}
    (hl : Path (Function.update next i none) h (l ++ [i])) (hsame : ∀ k ∈ l, next' k = next k)
    (hi : next' i = some j) (hj : next' j = none) : Path next' h (l ++ [i] ++ [j]) :=
  path_join hl hsame ⟨hi, hj⟩

end Path

section Seek
variable {c : Links ι} {stop : ι → Bool} {pre post post' l : List ι} {x : Cell ι} {fuel : ℕ}

theorem seek_spec (stop : ι → Bool) (hl : Path c.next (c.get x) l) (hfuel : l.length < fuel) :
    ∃ pre post, l = pre ++ post ∧ (∀ i ∈ pre, stop i = false) ∧
      (∀ i rest, post = i :: rest → stop i = true) ∧
      seek c stop fuel x = some (cellFrom x pre) := by
  induction l generalizing x fuel with
  | nil =>
    obtain ⟨fuel, rfl⟩ : ∃ n, fuel = n + 1 := ⟨fuel - 1, by simp at hfuel; omega⟩
    have hnone : c.get x = none := hl
    refine ⟨[], [], rfl, by simp, by simp, ?_⟩
    simp [seek, hnone, cellFrom]
  | cons i l ih =>
    obtain ⟨fuel, rfl⟩ : ∃ n, fuel = n + 1 := ⟨fuel - 1, by simp at hfuel; omega⟩
    have hsome : c.get x = some i := hl.1
    by_cases hstop : stop i = true
    · refine ⟨[], i :: l, rfl, by simp, ?_, ?_⟩
      · intro j rest hj
        cases hj
        exact hstop
      · simp [seek, hsome, hstop, cellFrom]
    · obtain ⟨pre, post, rfl, hpre, hpost, hseek⟩ :=
        ih (x := .link i) hl.2 (by simpa using hfuel)
      refine ⟨i :: pre, post, rfl, ?_, hpost, ?_⟩
      · intro j hj
        rcases List.mem_cons.mp hj with rfl | hj
        · simpa using hstop
        · exact hpre j hj
      · simpa [seek, hsome, hstop, cellFrom] using hseek

theorem cellFrom_append_singleton {i : ι} : cellFrom x (pre ++ [i]) = .link i := by
  induction pre generalizing x with
  | nil => rfl
  | cons j pre ih => exact ih

theorem path_cellFrom (hl : Path c.next (c.get x) (pre ++ post)) :
    Path c.next (c.get (cellFrom x pre)) post := by
  induction pre generalizing x with
  | nil => exact hl
  | cons i pre ih => exact ih hl.2

theorem get_cellFrom {i : ι} (hl : Path c.next (c.get x) (pre ++ i :: post)) :
    c.get (cellFrom x pre) = some i :=
  (path_cellFrom hl).1

theorem Links.Holds.seek (hl : c.Holds l) (stop : ι → Bool) (hfuel : l.length < fuel) :
    ∃ pre post, l = pre ++ post ∧ (∀ i ∈ pre, stop i = false) ∧
      (∀ i rest, post = i :: rest → stop i = true) ∧
      Chain.seek c stop fuel .head = some (cellFrom .head pre) :=
  seek_spec (x := .head) stop hl hfuel

theorem Links.Holds.get {i : ι} (hl : c.Holds (pre ++ i :: post)) :
    c.get (cellFrom .head pre) = some i :=
  get_cellFrom (x := .head) hl

theorem get_cellFrom_end (hl : c.Holds pre) : c.get (cellFrom .head pre) = none := by
  have hpath : Path c.next (c.get .head) (pre ++ []) := by
    rw [List.append_nil]
    exact hl
  exact path_cellFrom hpath

theorem cellFrom_link (i : ι) (pre : List ι) : ∃ j ∈ i :: pre, cellFrom (.link i) pre = .link j := by
  induction pre generalizing i with
  | nil => exact ⟨i, List.mem_cons_self, rfl⟩
  | cons k pre ih =>
    obtain ⟨j, hj, hcell⟩ := ih k
    exact ⟨j, List.mem_cons_of_mem i hj, hcell⟩

theorem Links.Holds.congr {c' : Links ι} (hl : c.Holds l) (hhead : c'.head = c.head)
    (hnext : ∀ i ∈ l, c'.next i = c.next i) : c'.Holds l := by
  rw [Links.Holds, hhead]
  exact path_congr hnext hl

variable [DecidableEq ι] {v : Option ι}

@[simp] theorem get_set_self : (c.set x v).get x = v := by
  cases x with
  | head => rfl
  | link i => exact Function.update_self ..

theorem next_set_link {i j : ι} (hij : i ≠ j) : (c.set (.link j) v).next i = c.next i :=
  Function.update_of_ne hij ..

theorem next_set_of_notMem {j : ι} (hj : j ∉ pre) :
    (c.set (cellFrom .head pre) v).next j = c.next j := by
  cases pre with
  | nil => rfl
  | cons i pre =>
    obtain ⟨k, hk, hcell⟩ := cellFrom_link i pre
    rw [cellFrom, hcell, next_set_link]
    rintro rfl
    exact hj hk

theorem path_set (hl : Path c.next (c.get x) (pre ++ post)) (hv : Path c.next v post')
    (hfresh : ∀ j, x = .link j → j ∉ pre ++ post') (hnodup : (pre ++ post').Nodup) :
    Path (c.set (cellFrom x pre) v).next ((c.set (cellFrom x pre) v).get x)
      (pre ++ post') := by
  induction pre generalizing x with
  | nil =>
    rw [cellFrom, get_set_self]
    cases x with
    | head => exact hv
    | link j => exact path_update (hfresh j rfl) hv
  | cons i pre ih =>
    obtain ⟨j, hj, hcell⟩ := cellFrom_link i pre
    rw [List.cons_append, List.nodup_cons] at hnodup
    have hrest := ih (x := .link i) hl.2
      (fun k hk => by cases hk; exact hnodup.1) hnodup.2
    refine ⟨?_, hrest⟩
    rw [cellFrom, hcell]
    cases x with
    | head => exact hl.1
    | link k =>
      have hne : k ≠ j := by
        rintro rfl
        exact hfresh k rfl (List.mem_append_left post' hj)
      exact (next_set_link hne).trans hl.1

theorem Links.Holds.append {i : ι} (hl : c.Holds l) (hi : i ∉ l) (hlast : c.next i = none) :
    (c.set (cellFrom .head l) (some i)).Holds (l ++ [i]) :=
  path_set (x := .head) (by rwa [List.append_nil]) ⟨rfl, hlast⟩ nofun
    (List.nodup_append.mpr ⟨path_nodup hl, List.nodup_singleton i, fun a ha b hb => by
      rintro rfl
      exact hi (List.mem_singleton.mp hb ▸ ha)⟩)

theorem Links.Holds.unlink {i : ι} (hl : c.Holds (pre ++ i :: post)) :
    (c.set (cellFrom .head pre) (c.next i)).Holds (pre ++ post) :=
  path_set (x := .head) hl (path_cellFrom (x := .head) hl).2 nofun
    ((path_nodup hl).sublist (List.Sublist.append_left (List.sublist_cons_self ..) pre))

theorem Links.Holds.cons {i : ι} (hl : c.Holds l) (hi : i ∉ l) :
    Links.Holds ⟨some i, Function.update c.next i c.head⟩ (i :: l) :=
  ⟨rfl, by
    change Path _ (Function.update c.next i c.head i) l
    rw [Function.update_self]
    exact path_update hi hl⟩

end Seek

end Chain
