import Cs111.Mfs.Rename

namespace Mfs.Dir

open DirTree

section Entries
variable {C : DirConfig} {s s' : DirFs} {d n numb : ℕ} {name : String} {isDot space : Bool} {r : Code}

def unlinked (d : ℕ) (name : String) (n : ℕ) (s : DirFs) : DirFs :=
  addLinks n (-1) (setSlots d (deleteSlot name (s.slots d)) s)

theorem slots_setSlots (l : List Direct) (d' : ℕ) :
    (setSlots d l s).slots d' = if d' = d then l else s.slots d' := by
  exact Function.update_apply s.slots d l d'

theorem entry_setSlots (l : List Direct) (d' : ℕ) (name' : String) :
    entry (setSlots d l s) d' name' = if d' = d then findSlot l name' else entry s d' name' := by
  rw [entry, slots_setSlots]
  split
  · rfl
  · rfl

theorem distinct_setSlots {l : List Direct} (hs : ∀ d, Distinct (s.slots d)) (hl : Distinct l)
    (d' : ℕ) : Distinct ((setSlots d l s).slots d') := by
  rw [slots_setSlots]
  split
  · exact hl
  · exact hs d'

theorem entry_delete (hs : ∀ d, Distinct (s.slots d)) (d' : ℕ) (name' : String) :
    entry (setSlots d (deleteSlot name (s.slots d)) s) d' name' =
      if d' = d ∧ name' = name then none else entry s d' name' := by
  refine (entry_setSlots (s := s) _ d' name').trans ?_
  by_cases hd : d' = d
  · subst hd
    rw [if_pos rfl, delete_find (hs d')]
    simp only [true_and]
    rfl
  · rw [if_neg hd, if_neg fun h => hd h.1]

theorem entry_unlinked (hs : ∀ d, Distinct (s.slots d)) (d' : ℕ) (name' : String) :
    entry (unlinked d name n s) d' name' =
      if d' = d ∧ name' = name then none else entry s d' name' :=
  entry_delete hs d' name'

theorem distinct_delete (hs : ∀ d, Distinct (s.slots d)) (d : ℕ) (name : String) (d' : ℕ) :
    Distinct ((setSlots d (deleteSlot name (s.slots d)) s).slots d') :=
  distinct_setSlots hs (delete_distinct (hs d)) d'

theorem distinct_unlinked (hs : ∀ d, Distinct (s.slots d)) (d : ℕ) (name : String) (n d' : ℕ) :
    Distinct ((unlinked d name n s).slots d') :=
  distinct_delete hs d name d'

theorem nlinks_unlinked (m : ℕ) (hm : m ≠ n) : (unlinked d name n s).nlinks m = s.nlinks m :=
  Function.update_of_ne hm _ _

theorem delete_eq (hkind : s.kind d = .DIRECTORY) (hentry : entry s d name = some n)
    (hC : C.sRdOnly = false) :
    delete C d name isDot s = (.OK, setSlots d (deleteSlot name (s.slots d)) s) := by
  have hfind : findSlot (s.slots d) name = some n := hentry
  rw [delete, if_neg fun h => h hkind, if_neg (by simp [hC]), hfind]

theorem unlinkFile_eq {rip : Option ℕ} (hkind : s.kind d = .DIRECTORY)
    (hentry : entry s d name = some n) (hC : C.sRdOnly = false) (hrip : rip = some n ∨ rip = none)
    (hheld : n ∈ s.refs ∨ n ∈ s.opened) :
    unlinkFile C d rip name isDot s = (.OK, unlinked d name n s) := by
  have hfind : findSlot (s.slots d) name = some n := hentry
  have hdelete : delete C d name isDot (dupInode n s) =
      (.OK, setSlots d (deleteSlot name (s.slots d)) (dupInode n s)) :=
    delete_eq (s := dupInode n s) hkind hentry hC
  have hput : putInode (some n) (dupInode n (unlinked d name n s)) = unlinked d name n s :=
    put_dup (.inr hheld)
  rcases hrip with rfl | rfl
  · simp only [unlinkFile, hdelete, if_true]
    rw [← hput]
    rfl
  · have hlook : lookUp d name s = .ok n := by
      rw [lookUp, if_neg fun h => h hkind, hfind]
    simp only [unlinkFile, hlook, getInode_used hheld, hdelete, if_true]
    rw [← hput]
    rfl

def Failed (r : Code) : Prop := r ≠ .OK ∧ r ≠ .SAME

structure Entered (d : ℕ) (name : String) (numb : ℕ) (s s' : DirFs) : Prop where
  kind : s'.kind = s.kind
  nlinks : s'.nlinks = s.nlinks
  opened : s'.opened = s.opened
  distinct : ∀ d, Distinct (s'.slots d)
  entries : ∀ d' name', entry s' d' name' =
    if d' = d ∧ name' = name then some numb else entry s d' name'

theorem entered_fill {l : List Direct} (hs : ∀ d, Distinct (s.slots d)) (hnone : entry s d name = none)
    (hnumb : numb ≠ NO_ENTRY)
    (hl : fillSlot name numb (s.slots d) = some l ∨ l = s.slots d ++ [⟨numb, name⟩]) :
    Entered d name numb s (setSlots d l s) := by
  obtain ⟨hdistinct, hfind⟩ := fill_spec (hs d) hnone hnumb hl
  refine ⟨rfl, rfl, rfl, distinct_setSlots hs hdistinct, fun d' name' => ?_⟩
  rw [entry_setSlots]
  by_cases hd : d' = d
  · subst hd
    rw [if_pos rfl, hfind]
    simp only [true_and]
    rfl
  · rw [if_neg hd, if_neg fun h => hd h.1]

theorem enter_spec (hs : ∀ d, Distinct (s.slots d)) (hnone : entry s d name = none)
    (hnumb : numb ≠ NO_ENTRY) (h : enter C d name numb isDot space s = (r, s')) :
    (Failed r ∧ s' = s) ∨ (r = .OK ∧ s.kind d = .DIRECTORY ∧ Entered d name numb s s') := by
  simp only [enter] at h
  split at h
  · cases h
    exact .inl ⟨⟨nofun, nofun⟩, rfl⟩
  · rename_i hkind
    have hdir := not_not.mp hkind
    split at h
    · cases h
      exact .inl ⟨⟨nofun, nofun⟩, rfl⟩
    · split at h
      · rename_i l hl
        cases h
        exact .inr ⟨rfl, hdir, entered_fill hs hnone hnumb (.inl hl)⟩
      · split at h
        · cases h
          exact .inr ⟨rfl, hdir, entered_fill hs hnone hnumb (.inr rfl)⟩
        · cases h
          exact .inl ⟨⟨nofun, nofun⟩, rfl⟩

theorem enter_free {l : List Direct} (hkind : s.kind d = .DIRECTORY) (hC : C.sRdOnly = false)
    (hl : fillSlot name numb (s.slots d) = some l) :
    enter C d name numb isDot space s = (.OK, setSlots d l s) := by
  simp only [enter]
  rw [if_neg fun h => h hkind, if_neg (by simp [hC]), hl]

end Entries

section Remove
variable {C : DirConfig} {a : RenameArgs} {s s' : DirFs} {o n : ℕ} {newIp : Option ℕ} {r : Code}

structure Ready (C : DirConfig) (a : RenameArgs) (s : DirFs) (o : ℕ) (newIp : Option ℕ) : Prop where
  consistent : Consistent s
  writable : C.sRdOnly = false
  oldHeld : a.oldDir ∈ s.opened
  newHeld : a.newDir ∈ s.opened
  newLinks : s.nlinks a.newDir ≠ 0
  target : ∀ n, newIp = some n → n ∈ s.refs
  old : entry s a.oldDir a.oldName = some o
  new : entry s a.newDir a.newName = newIp

structure Allowed (a : RenameArgs) (s : DirFs) (o : ℕ) (newIp : Option ℕ) : Prop where
  oldPlain : dots.Plain a.oldName
  newPlain : dots.Plain a.newName
  other : newIp ≠ some o
  alike : ∀ n, newIp = some n → (s.kind o = .DIRECTORY ↔ s.kind n = .DIRECTORY)

structure Removed (a : RenameArgs) (s : DirFs) (newIp : Option ℕ) (s' : DirFs) : Prop where
  kind : s'.kind = s.kind
  opened : s'.opened = s.opened
  nlinks : ∀ m, newIp ≠ some m → m ≠ a.newDir → s'.nlinks m = s.nlinks m
  distinct : ∀ d, Distinct (s'.slots d)
  gone : entry s' a.newDir a.newName = none
  empty : ∀ n, newIp = some n → ∀ name, dots.Plain name → entry s n name = none
  free : ∀ n, newIp = some n → ∀ name, entry s' n name = none
  others : ∀ d name, ¬ (d = a.newDir ∧ name = a.newName) → newIp ≠ some d →
    entry s' d name = entry s d name
  room : newIp ≠ none → ∀ numb, ∃ l, fillSlot a.newName numb (s'.slots a.newDir) = some l
  tree : Tree s'

theorem Consistent.not_dir (hs : Consistent s) (hn : s.kind n ≠ .DIRECTORY) (name : String) :
    entry s n name = none := by
  cases he : entry s n name with
  | none => rfl
  | some m => exact absurd (hs.tree.dirs n name m he) hn

theorem room_unlinked {d name} (h : entry s d name = some n) (numb : ℕ) :
    ∃ l, fillSlot name numb ((unlinked d name n s).slots d) = some l := by
  have hslots : (unlinked d name n s).slots d = deleteSlot name (s.slots d) :=
    Function.update_self d _ _
  rw [hslots]
  refine fill_after_delete fun hnone => ?_
  rw [entry, hnone] at h
  cases h

theorem removed_file (h : Ready C a s o (some n)) (hplain : dots.Plain a.newName)
    (hn : s.kind n ≠ .DIRECTORY) : Removed a s (some n) (unlinked a.newDir a.newName n s) := by
  have hd := h.consistent.distinct
  have hnone := h.consistent.not_dir hn
  have hentry : ∀ d name, entry (unlinked a.newDir a.newName n s) d name =
      if d = a.newDir ∧ name = a.newName then none else entry s d name := entry_unlinked hd
  refine ⟨rfl, rfl, fun m hm _ => nlinks_unlinked m fun he => hm (congrArg some he.symm),
    distinct_unlinked hd _ _ _, ?_, ?_, ?_, fun d name hat _ => ?_, fun _ => room_unlinked h.new, ?_⟩
  · rw [hentry, if_pos ⟨rfl, rfl⟩]
  · rintro _ ⟨⟩ name -
    exact hnone name
  · rintro _ ⟨⟩ name
    rw [hentry]
    split
    · rfl
    · exact hnone name
  · rw [hentry, if_neg hat]
  · refine h.consistent.tree.unlink h.new hplain hn ?_ fun d name hat => ?_
    · rw [hentry, if_pos ⟨rfl, rfl⟩]
    · rw [hentry, if_neg hat]

theorem Consistent.child_ne (hs : Consistent s) {d name} (he : entry s d name = some n)
    (hplain : dots.Plain name) (hn : s.kind n = .DIRECTORY) : n ≠ d := by
  rintro rfl
  obtain ⟨-, hup, hroot⟩ := hs.tree.child n name n he hplain hn
  exact hroot (root_of_self hs hup)

theorem removed_dir (h : Ready C a s o (some n)) (hplain : dots.Plain a.newName)
    (hn : s.kind n = .DIRECTORY) (hempty : onlyDots (s.slots n) = true) :
    Removed a s (some n)
      (unlinked n ".." a.newDir (unlinked n "." n (unlinked a.newDir a.newName n s))) := by
  have hs := h.consistent
  have hne : n ≠ a.newDir := hs.child_ne h.new hplain hn
  have hd₁ := distinct_unlinked hs.distinct a.newDir a.newName n
  have hd₂ := distinct_unlinked hd₁ n "." n
  have hbare : ∀ name, dots.Plain name → entry s n name = none := fun name hname =>
    onlyDots_find hempty hname
  have hentry : ∀ d name, entry
      (unlinked n ".." a.newDir (unlinked n "." n (unlinked a.newDir a.newName n s))) d name =
      if d = n ∨ (d = a.newDir ∧ name = a.newName) then none else entry s d name := by
    intro d name
    rw [entry_unlinked hd₂, entry_unlinked hd₁, entry_unlinked hs.distinct]
    by_cases hdn : d = n
    · subst hdn
      simp only [true_and, true_or, if_true]
      split
      · rfl
      · rename_i hdotdot
        split
        · rfl
        · rename_i hdot
          split
          · rfl
          · exact hbare name ⟨hdot, hdotdot⟩
    · simp only [hdn, false_and, false_or, if_false]
  refine ⟨rfl, rfl, fun m hm hnew => ?_, distinct_unlinked hd₂ _ _ _, ?_, ?_, ?_, fun d name hat hdn => ?_,
    fun _ numb => ?_, ?_⟩
  · have hmn : m ≠ n := fun he => hm (congrArg some he.symm)
    rw [nlinks_unlinked m hnew, nlinks_unlinked m hmn, nlinks_unlinked m hmn]
  · rw [hentry, if_pos (.inr ⟨rfl, rfl⟩)]
  · rintro _ ⟨⟩
    exact hbare
  · rintro _ ⟨⟩ name
    rw [hentry, if_pos (.inl rfl)]
  · rw [hentry, if_neg fun hor => hor.elim (fun he => hdn (congrArg some he.symm)) hat]
  · have hslots : (unlinked n ".." a.newDir (unlinked n "." n (unlinked a.newDir a.newName n s))).slots
        a.newDir = (unlinked a.newDir a.newName n s).slots a.newDir := by
      refine (Function.update_of_ne hne.symm _ _).trans ?_
      exact Function.update_of_ne hne.symm _ _
    rw [hslots]
    exact room_unlinked h.new numb
  · refine hs.tree.rmdir h.new hplain hn hbare ?_ (fun name => ?_) fun d name hat hdn => ?_
    · rw [hentry, if_pos (.inr ⟨rfl, rfl⟩)]
    · rw [hentry, if_pos (.inl rfl)]
    · rw [hentry, if_neg fun hor => hor.elim hdn hat]

theorem removeDir_spec (h : Ready C a s o (some n)) (hplain : dots.Plain a.newName)
    (hn : s.kind n = .DIRECTORY) (hr : removeDir C a.newDir n a.newName s = (r, s')) :
    (Failed r ∧ s' = s) ∨ (r = .OK ∧ Removed a s (some n) s') := by
  have hs := h.consistent
  simp only [removeDir] at hr
  by_cases hempty : onlyDots (s.slots n) = true
  · have hcode : isEmpty n s = .OK := by
      rw [isEmpty, if_neg fun hne => hne hn, if_pos hempty]
    rw [hcode, if_neg fun hne => hne rfl, if_neg fun hor => hor.elim hplain.1 hplain.2] at hr
    split at hr
    · cases hr
      exact .inl ⟨⟨nofun, nofun⟩, rfl⟩
    · have hdir := hs.tree.dirs _ _ _ h.new
      have hne : n ≠ a.newDir := hs.child_ne h.new hplain hn
      obtain ⟨hdot, hup, -⟩ := hs.tree.child a.newDir a.newName n h.new hplain hn
      have hd₁ := distinct_unlinked hs.distinct a.newDir a.newName n
      have h₁ : unlinkFile C a.newDir (some n) a.newName false s =
          (.OK, unlinked a.newDir a.newName n s) :=
        unlinkFile_eq hdir h.new h.writable (.inl rfl) (.inl (h.target n rfl))
      have hdot' : entry (unlinked a.newDir a.newName n s) n "." = some n := by
        rw [entry_unlinked hs.distinct, if_neg fun hand => hne hand.1]
        exact hdot
      have h₂ : unlinkFile C n none "." true (unlinked a.newDir a.newName n s) =
          (.OK, unlinked n "." n (unlinked a.newDir a.newName n s)) :=
        unlinkFile_eq (s := unlinked a.newDir a.newName n s) hn hdot' h.writable (.inr rfl) (.inl (h.target n rfl))
      have hup' : entry (unlinked n "." n (unlinked a.newDir a.newName n s)) n ".." =
          some a.newDir := by
        rw [entry_unlinked hd₁, if_neg fun hand => absurd hand.2 (by decide),
          entry_unlinked hs.distinct, if_neg fun hand => hne hand.1]
        exact hup
      have h₃ : unlinkFile C n none ".." true (unlinked n "." n (unlinked a.newDir a.newName n s)) =
          (.OK, unlinked n ".." a.newDir (unlinked n "." n (unlinked a.newDir a.newName n s))) :=
        unlinkFile_eq (s := unlinked n "." n (unlinked a.newDir a.newName n s)) hn hup' h.writable
          (.inr rfl) (.inr h.newHeld)
      rw [h₁] at hr
      simp only [ne_eq, not_true_eq_false, if_false, h₂, h₃] at hr
      cases hr
      exact .inr ⟨rfl, removed_dir h hplain hn hempty⟩
  · have hcode : isEmpty n s = .ENOTEMPTY := by
      rw [isEmpty, if_neg fun hne => hne hn, if_neg hempty]
    rw [hcode, if_pos (by decide)] at hr
    cases hr
    exact .inl ⟨⟨nofun, nofun⟩, rfl⟩

theorem renameRemove_spec (h : Ready C a s o newIp) (hok : Allowed a s o newIp)
    (hr : renameRemove C a o newIp s = (r, s')) :
    (Failed r ∧ s' = s) ∨ (r = .OK ∧ Removed a s newIp s' ∧ (newIp = none → s' = s)) := by
  cases newIp with
  | none =>
    cases hr
    refine .inr ⟨rfl, ⟨rfl, rfl, fun _ _ _ => rfl, h.consistent.distinct, h.new, nofun, nofun,
      fun _ _ _ _ => rfl, fun hne => absurd rfl hne, h.consistent.tree⟩, fun _ => rfl⟩
  | some n =>
    rw [renameRemove] at hr
    split at hr
    · rename_i hdir
      rcases removeDir_spec h hok.newPlain ((hok.alike n rfl).mp hdir) hr with hbad | ⟨rfl, hgood⟩
      · exact .inl hbad
      · exact .inr ⟨rfl, hgood, nofun⟩
    · rename_i hdir
      rw [unlinkFile_eq (h.consistent.tree.dirs _ _ _ h.new) h.new h.writable (.inl rfl)
        (.inl (h.target n rfl))] at hr
      cases hr
      exact .inr ⟨rfl, removed_file h hok.newPlain fun hn => hdir ((hok.alike n rfl).mpr hn), nofun⟩

end Remove

end Mfs.Dir
