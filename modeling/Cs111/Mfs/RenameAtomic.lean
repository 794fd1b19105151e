import Cs111.Mfs.RenameSteps

namespace Mfs.Dir

open DirTree

section Move
variable {C : DirConfig} {a : RenameArgs} {s s' : DirFs} {o : ℕ} {newIp : Option ℕ} {r : Code}

structure Moved (a : RenameArgs) (o : ℕ) (s s' : DirFs) : Prop where
  kind : s'.kind = s.kind
  nlinks : s'.nlinks = s.nlinks
  opened : s'.opened = s.opened
  distinct : ∀ d, Distinct (s'.slots d)
  entries : ∀ d name, entry s' d name =
    if d = a.newDir ∧ name = a.newName then some o
    else if d = a.oldDir ∧ name = a.oldName then none else entry s d name

theorem renameEntry_spec (hs : ∀ d, Distinct (s.slots d)) (hC : C.sRdOnly = false)
    (hkind : s.kind a.oldDir = .DIRECTORY) (hold : entry s a.oldDir a.oldName = some o)
    (hnew : entry s a.newDir a.newName = none) (hr : renameEntry C a o s = (r, s')) :
    (Failed r ∧ s' = s ∧
      (s.kind a.newDir = .DIRECTORY → fillSlot a.newName o (s.slots a.newDir) = none)) ∨
    (r = .OK ∧ s.kind a.newDir = .DIRECTORY ∧ Moved a o s s') := by
  have hnumb : o ≠ NO_ENTRY := find_ne hold
  have hdelete : delete C a.oldDir a.oldName false s =
      (.OK, setSlots a.oldDir (deleteSlot a.oldName (s.slots a.oldDir)) s) := delete_eq hkind hold hC
  rw [renameEntry] at hr
  split at hr
  · rename_i hsame
    rw [hdelete] at hr
    simp only [if_true] at hr
    -- the new name finds the slot of the old one
    obtain ⟨l, hl⟩ : ∃ l, fillSlot a.newName o (deleteSlot a.oldName (s.slots a.oldDir)) = some l := by
      refine fill_after_delete fun hnone => ?_
      rw [entry, hnone] at hold
      cases hold
    have hslots : (setSlots a.oldDir (deleteSlot a.oldName (s.slots a.oldDir)) s).slots a.oldDir =
        deleteSlot a.oldName (s.slots a.oldDir) := Function.update_self _ _ _
    have hd := distinct_delete hs a.oldDir a.oldName
    have hfree : entry (setSlots a.oldDir (deleteSlot a.oldName (s.slots a.oldDir)) s) a.oldDir
        a.newName = none := by
      rw [entry_delete hs]
      split
      · rfl
      · rw [hsame]
        exact hnew
    have hl' := hl
    rw [← hslots] at hl'
    rw [enter_free (s := setSlots a.oldDir (deleteSlot a.oldName (s.slots a.oldDir)) s) hkind hC
      hl'] at hr
    cases hr
    have hentered := entered_fill hd hfree hnumb (.inl hl')
    refine .inr ⟨rfl, hsame ▸ hkind, hentered.kind, hentered.nlinks, hentered.opened,
      hentered.distinct, fun d name => ?_⟩
    rw [hentered.entries, entry_delete hs, hsame]
  · rename_i hne
    generalize hent : enter C a.newDir a.newName o false (a.space a.newDir) s = p at hr
    obtain ⟨r₁, s₁⟩ := p
    dsimp only at hr
    rcases enter_spec hs hnew hnumb hent with ⟨hbad, rfl⟩ | ⟨rfl, hdir, hentered⟩
    · rw [if_neg hbad.1] at hr
      cases hr
      refine .inl ⟨hbad, rfl, fun hdir => ?_⟩
      refine Option.eq_none_iff_forall_ne_some.mpr fun l hl => ?_
      rw [enter_free hdir hC hl] at hent
      exact hbad.1 (Prod.mk.inj hent).1.symm
    · have hold₁ : entry s₁ a.oldDir a.oldName = some o := by
        rw [hentered.entries, if_neg fun hand => hne hand.1]
        exact hold
      rw [if_pos rfl, delete_eq (hentered.kind ▸ hkind) hold₁ hC] at hr
      cases hr
      refine .inr ⟨rfl, hdir, hentered.kind, hentered.nlinks, hentered.opened,
        distinct_delete hentered.distinct a.oldDir a.oldName, fun d name => ?_⟩
      rw [entry_delete hentered.distinct, hentered.entries]
      by_cases hat : d = a.newDir ∧ name = a.newName
      · rw [if_neg fun hand => hne (hand.1.symm.trans hat.1), if_pos hat, if_pos hat]
      · rw [if_neg hat, if_neg hat]

structure Adopted (a : RenameArgs) (o : ℕ) (s s' : DirFs) : Prop where
  kind : s'.kind = s.kind
  opened : s'.opened = s.opened
  nlinks : ∀ m, m ≠ a.oldDir → m ≠ a.newDir → s'.nlinks m = s.nlinks m
  entries : ∀ d name, entry s' d name =
    if d = o ∧ name = ".." then some a.newDir else entry s d name

theorem renameParent_spec (hs : ∀ d, Distinct (s.slots d)) (hC : C.sRdOnly = false)
    (hkind : s.kind o = .DIRECTORY) (hup : entry s o ".." = some a.oldDir)
    (hheld : a.oldDir ∈ s.opened) (hnumb : a.newDir ≠ NO_ENTRY) :
    Adopted a o s (renameParent C a o s) := by
  have hunlink : unlinkFile C o none ".." true s = (.OK, unlinked o ".." a.oldDir s) :=
    unlinkFile_eq hkind hup hC (.inr rfl) (.inr hheld)
  obtain ⟨l, hl⟩ : ∃ l, fillSlot ".." a.newDir ((unlinked o ".." a.oldDir s).slots o) = some l :=
    room_unlinked hup a.newDir
  have hfree : entry (unlinked o ".." a.oldDir s) o ".." = none := by
    rw [entry_unlinked hs, if_pos ⟨rfl, rfl⟩]
  have hentered := entered_fill (distinct_unlinked hs o ".." a.oldDir) hfree hnumb (.inl hl)
  have henter : enter C o ".." a.newDir true (a.space o) (unlinked o ".." a.oldDir s) = _ :=
    enter_free (s := unlinked o ".." a.oldDir s) hkind hC hl
  simp only [renameParent, hunlink, henter, if_true]
  refine ⟨rfl, rfl, fun m hold hnew => ?_, fun d name => ?_⟩
  · refine (Function.update_of_ne hnew _ _).trans ?_
    exact nlinks_unlinked m hold
  · refine (hentered.entries d name).trans ?_
    rw [entry_unlinked hs]
    split
    · rfl
    · rfl

structure Renamed (a : RenameArgs) (o : ℕ) (s s' : DirFs) : Prop where
  new : entry s' a.newDir a.newName = some o
  old : entry s' a.oldDir a.oldName = none
  parent : s.kind o = .DIRECTORY → entry s' o ".." = some a.newDir
  replaced : ∀ n, entry s a.newDir a.newName = some n → ∀ name, entry s' n name = none
  others : ∀ d name, ¬ (d = a.newDir ∧ name = a.newName) → ¬ (d = a.oldDir ∧ name = a.oldName) →
    ¬ (s.kind o = .DIRECTORY ∧ d = o ∧ name = "..") →
    ¬ (entry s a.newDir a.newName = some d ∧ ¬ dots.Plain name) → entry s' d name = entry s d name

structure Settled (a : RenameArgs) (o : ℕ) (newIp : Option ℕ) (s s' : DirFs) : Prop where
  renamed : Renamed a o s s'
  tree : Tree s'
  opened : s'.opened = s.opened
  linked : s'.nlinks o ≠ 0

theorem Settled.of_entries {s₁ : DirFs} (h : Ready C a s o newIp) (hok : Allowed a s o newIp)
    (havoids : s.kind o = .DIRECTORY → a.oldDir ≠ a.newDir → Avoids dots ROOT_INODE (entry s) o a.newDir)
    (hremoved : Removed a s newIp s₁) (hnewDir : s.kind a.newDir = .DIRECTORY)
    (hentries : ∀ d name, entry s' d name =
      if s.kind o = .DIRECTORY ∧ d = o ∧ name = ".." then some a.newDir
      else if d = a.newDir ∧ name = a.newName then some o
      else if d = a.oldDir ∧ name = a.oldName then none else entry s₁ d name)
    (hkind : s'.kind = s.kind) (hopened : s'.opened = s.opened)
    (hlinks : s'.nlinks o = s.nlinks o) : Settled a o newIp s s' := by
  have hs := h.consistent
  have hnewNe : newIp ≠ some a.newDir := by
    rintro rfl
    exact hs.child_ne h.new hok.newPlain hnewDir rfl
  have holdNe : newIp ≠ some a.oldDir := by
    rintro rfl
    have hnone := hremoved.empty a.oldDir rfl a.oldName hok.oldPlain
    rw [h.old] at hnone
    cases hnone
  have hpair : ¬ (a.oldDir = a.newDir ∧ a.oldName = a.newName) := by
    rintro ⟨hd, hname⟩
    exact hok.other (by rw [← h.new, ← hd, ← hname, h.old])
  have hold₁ : entry s₁ a.oldDir a.oldName = some o := by
    rw [hremoved.others _ _ hpair holdNe]
    exact h.old
  have hlive : entry s₁ a.newDir "." = some a.newDir :=
    (hremoved.others a.newDir "." (fun hand => hok.newPlain.1 hand.2.symm) hnewNe).trans
      (hs.live a.newDir hnewDir h.newLinks)
  have hdotdot : ∀ m, newIp ≠ some m → entry s₁ m ".." = entry s m ".." := fun m hm =>
    hremoved.others m _ (fun hand => hok.newPlain.2 hand.2.symm) hm
  -- the old directory is not above the new one, also without the replaced directory
  have havoids₁ : s.kind o = .DIRECTORY → Avoids dots ROOT_INODE (entry s₁) o a.newDir := by
    intro hdir
    by_cases hsame : a.oldDir = a.newDir
    · rw [← hsame]
      exact hremoved.tree.below hold₁ hok.oldPlain (by rw [hremoved.kind]; exact hdir)
    · have hway := havoids hdir hsame
      cases hnew : newIp with
      | none => exact hway.same hway fun m _ => hdotdot m (by rw [hnew]; nofun)
      | some n =>
        have hn := (hok.alike n hnew).mp hdir
        have hbelow := hs.tree.below (h.new.trans hnew) hok.newPlain hn
        exact hway.same hbelow fun m hm => hdotdot m fun he => hm (Option.some.inj (he.symm.trans hnew))
  have hnew : entry s' a.newDir a.newName = some o := by
    rw [hentries, if_neg fun hand => hok.newPlain.2 hand.2.2, if_pos ⟨rfl, rfl⟩]
  have hold : entry s' a.oldDir a.oldName = none := by
    rw [hentries, if_neg fun hand => hok.oldPlain.2 hand.2.2, if_neg hpair, if_pos ⟨rfl, rfl⟩]
  have hup : s.kind o = .DIRECTORY → entry s' o ".." = some a.newDir := fun hdir => by
    rw [hentries, if_pos ⟨hdir, rfl, rfl⟩]
  have hsame : ∀ d name, ¬ (d = a.oldDir ∧ name = a.oldName) → ¬ (d = a.newDir ∧ name = a.newName) →
      ¬ (s.kind o = .DIRECTORY ∧ d = o ∧ name = "..") → entry s' d name = entry s₁ d name := by
    intro d name h₁ h₂ h₃
    rw [hentries, if_neg h₃, if_neg h₂, if_neg h₁]
  have hgone : ∀ n, newIp = some n → ∀ name, entry s' n name = none := by
    intro n hn name
    rw [hsame n name (fun hand => holdNe (hand.1 ▸ hn)) (fun hand => hnewNe (hand.1 ▸ hn))
      fun hand => hok.other (hand.2.1 ▸ hn)]
    exact hremoved.free n hn name
  refine ⟨⟨hnew, hold, hup, fun n hn => hgone n (h.new.symm.trans hn), ?_⟩, ?_, hopened, ?_⟩
  · intro d name h₁ h₂ h₃ h₄
    by_cases hd : newIp = some d
    · have hplain : dots.Plain name := by
        by_contra hname
        exact h₄ ⟨h.new.trans hd, hname⟩
      rw [hgone d hd, hremoved.empty d hd name hplain]
    · rw [hsame d name h₂ h₁ h₃, hremoved.others d name h₁ hd]
  · have htree := hremoved.tree
    rw [Tree, hremoved.kind] at htree
    rw [Tree, hkind]
    exact htree.move hold₁ hok.oldPlain hok.newPlain hremoved.gone hlive havoids₁ hold hnew hup hsame
  · rw [hlinks]
    exact hs.linked _ _ _ h.old

theorem renameDo_spec (h : Ready C a s o newIp) (hok : Allowed a s o newIp)
    (havoids : s.kind o = .DIRECTORY → a.oldDir ≠ a.newDir → Avoids dots ROOT_INODE (entry s) o a.newDir)
    (hr : renameDo C a o newIp s = (r, s')) :
    (Failed r ∧ s' = s) ∨ (r = .OK ∧ Settled a o newIp s s') := by
  have hs := h.consistent
  have hkindOld : s.kind a.oldDir = .DIRECTORY := hs.tree.dirs _ _ _ h.old
  simp only [renameDo] at hr
  generalize hrem : renameRemove C a o newIp s = p at hr
  obtain ⟨r₁, s₁⟩ := p
  dsimp only at hr
  rcases renameRemove_spec h hok hrem with ⟨hbad, rfl⟩ | ⟨rfl, hremoved, hsame⟩
  · rw [if_pos hbad.1] at hr
    cases hr
    exact .inl ⟨hbad, rfl⟩
  · rw [if_neg fun hne => hne rfl] at hr
    have hpair : ¬ (a.oldDir = a.newDir ∧ a.oldName = a.newName) := by
      rintro ⟨hd, hname⟩
      exact hok.other (by rw [← h.new, ← hd, ← hname, h.old])
    have holdNe : newIp ≠ some a.oldDir := by
      rintro rfl
      have hnone := hremoved.empty a.oldDir rfl a.oldName hok.oldPlain
      rw [h.old] at hnone
      cases hnone
    have hold₁ : entry s₁ a.oldDir a.oldName = some o := by
      rw [hremoved.others _ _ hpair holdNe]
      exact h.old
    generalize hent : renameEntry C a o s₁ = p at hr
    obtain ⟨r₂, s₂⟩ := p
    dsimp only at hr
    rcases renameEntry_spec hremoved.distinct h.writable (hremoved.kind ▸ hkindOld) hold₁
      hremoved.gone hent with ⟨hbad, rfl, hfull⟩ | ⟨rfl, hnewDir, hmoved⟩
    · rw [if_neg fun hand => hbad.1 hand.1] at hr
      cases hr
      -- a slot was free if an entry had been removed
      by_cases hnew : newIp = none
      · exact .inl ⟨hbad, hsame hnew⟩
      · obtain ⟨l, hl⟩ := hremoved.room hnew o
        obtain ⟨n, hn⟩ := Option.ne_none_iff_exists'.mp hnew
        have hdir := hs.tree.dirs _ _ _ (h.new.trans hn)
        rw [hfull (hremoved.kind ▸ hdir)] at hl
        cases hl
    · rw [hremoved.kind] at hnewDir
      have honew : o ≠ a.newDir := by
        intro he
        have hdir : s.kind o = .DIRECTORY := he ▸ hnewDir
        by_cases hpar : a.oldDir = a.newDir
        · exact hs.child_ne h.old hok.oldPlain hdir (he.trans hpar.symm)
        · exact (havoids hdir hpar).ne he.symm
      have hlinks : s₁.nlinks o = s.nlinks o := hremoved.nlinks o hok.other honew
      have hdotdot : s.kind o = .DIRECTORY → entry s₁ o ".." = some a.oldDir := fun hdir =>
        (hremoved.others o ".." (fun hand => hok.newPlain.2 hand.2.symm) hok.other).trans
          (hs.tree.child _ _ _ h.old hok.oldPlain hdir).2.1
      have hkind₂ : s₂.kind = s.kind := hmoved.kind.trans hremoved.kind
      have hopened₂ : s₂.opened = s.opened := hmoved.opened.trans hremoved.opened
      split at hr
      · rename_i hpar
        simp only [decide_eq_true_eq, true_and] at hpar
        obtain ⟨hdir, hpar⟩ := hpar
        have hup₂ : entry s₂ o ".." = some a.oldDir := by
          rw [hmoved.entries, if_neg fun hand => hok.newPlain.2 hand.2.symm,
            if_neg fun hand => hok.oldPlain.2 hand.2.symm]
          exact hdotdot hdir
        have hadopted := renameParent_spec hmoved.distinct h.writable (hkind₂ ▸ hdir) hup₂
          (hopened₂ ▸ h.oldHeld) (find_ne (hs.live a.newDir hnewDir h.newLinks))
        cases hr
        refine .inr ⟨rfl, Settled.of_entries h hok havoids hremoved hnewDir (fun d name => ?_)
          (hadopted.kind.trans hkind₂) (hadopted.opened.trans hopened₂) ?_⟩
        · rw [hadopted.entries, hmoved.entries]
          simp only [hdir, true_and]
        · rw [hadopted.nlinks o (hs.child_ne h.old hok.oldPlain hdir) honew, hmoved.nlinks, hlinks]
      · rename_i hpar
        simp only [decide_eq_true_eq, true_and, not_and, not_not] at hpar
        cases hr
        refine .inr ⟨rfl, Settled.of_entries h hok havoids hremoved hnewDir (fun d name => ?_)
          hkind₂ hopened₂ (by rw [hmoved.nlinks, hlinks])⟩
        rw [hmoved.entries]
        by_cases hdd : s.kind o = .DIRECTORY ∧ d = o ∧ name = ".."
        · obtain ⟨hdir, rfl, rfl⟩ := hdd
          rw [if_pos (c := s.kind d = _ ∧ d = d ∧ _) ⟨hdir, rfl, rfl⟩,
            if_neg fun hand => hok.newPlain.2 hand.2.symm,
            if_neg fun hand => hok.oldPlain.2 hand.2.symm, hdotdot hdir, hpar hdir]
        · rw [if_neg hdd]

end Move

section Checks
variable {C : DirConfig} {a : RenameArgs} {s s' : DirFs} {o : ℕ} {newIp : Option ℕ} {above : Bool}

theorem plain_iff (name : String) : dots.Plain name ↔ isDots name = false := by
  simp [Dots.Plain, dots, isDots]

theorem nameCheck_ok (h : nameCheck a above = .OK) :
    above = false ∧ dots.Plain a.oldName ∧ dots.Plain a.newName := by
  simp only [nameCheck] at h
  split at h
  · cases h
  · rename_i hdots
    rw [not_or, Bool.not_eq_true, Bool.not_eq_true] at hdots
    split at h
    · cases h
    · rename_i habove
      exact ⟨Bool.not_eq_true _ ▸ habove, (plain_iff _).mpr hdots.1, (plain_iff _).mpr hdots.2⟩

theorem nameCheck_same : nameCheck a above ≠ .SAME := by
  simp only [nameCheck]
  split
  · exact nofun
  · split
    · exact nofun
    · exact nofun

theorem renameCheck_ok (h : renameCheck C a o newIp above s = .OK) :
    above = false ∧ Allowed a s o newIp := by
  simp only [renameCheck] at h
  cases newIp with
  | none =>
    dsimp only at h
    split at h
    · cases h
    · obtain ⟨habove, hold, hnew⟩ := nameCheck_ok h
      exact ⟨habove, hold, hnew, nofun, nofun⟩
  | some n =>
    dsimp only at h
    split at h
    · cases h
    · rename_i hfile
      split at h
      · cases h
      · rename_i hdir
        split at h
        · cases h
        · rename_i hne
          obtain ⟨habove, hold, hnew⟩ := nameCheck_ok h
          simp only [decide_eq_true_eq] at hfile hdir
          refine ⟨habove, hold, hnew, fun he => hne (Option.some.inj he).symm, ?_⟩
          rintro _ ⟨⟩
          exact ⟨fun ho => not_not.mp fun hn => hdir ⟨ho, hn⟩,
            fun hn => not_not.mp fun ho => hfile ⟨ho, hn⟩⟩

theorem renameCheck_same (h : renameCheck C a o newIp above s = .SAME) : newIp = some o := by
  simp only [renameCheck] at h
  cases newIp with
  | none =>
    dsimp only at h
    split at h
    · cases h
    · exact absurd h nameCheck_same
  | some n =>
    dsimp only at h
    split at h
    · cases h
    · split at h
      · cases h
      · split at h
        · rename_i he
          rw [he]
        · exact absurd h nameCheck_same

end Checks

section Release
variable {a : RenameArgs} {s s' : DirFs} {oldIp newIp : Option ℕ}

theorem release_quiet (hold : a.oldDir ∈ s.opened) (hnew : a.newDir ∈ s.opened)
    (hip : ∀ o, oldIp = some o → s.nlinks o ≠ 0) :
    Quiet s (putInode (some a.newDir) (putInode oldIp (putInode (some a.oldDir) s))) := by
  have h₁ : Quiet s (putInode (some a.oldDir) s) := put_quiet fun n hn => by
    cases hn
    exact .inr hold
  have h₂ : Quiet s (putInode oldIp (putInode (some a.oldDir) s)) :=
    h₁.trans (put_quiet fun n hn => .inl (by rw [h₁.nlinks]; exact hip n hn))
  refine h₂.trans (put_quiet fun n hn => ?_)
  cases hn
  rw [h₂.opened]
  exact .inr hnew

theorem put_bare (h : ∀ n, newIp = some n → ∀ name, entry s n name = none) :
    entry (putInode newIp s) = entry s := by
  cases newIp with
  | none => rfl
  | some n =>
    simp only [putInode]
    split
    · funext d name
      by_cases hd : d = n
      · subst hd
        rw [h d rfl name, entry]
        simp only [Function.update_self]
        rfl
      · rw [entry, entry]
        simp only [Function.update_of_ne hd]
    · rfl

theorem put_tree (h : ∀ n, newIp = some n → ∀ name, entry s n name = none) (hs : Tree s) :
    Tree (putInode newIp s) := by
  have hentry := put_bare h
  rw [Tree, hentry]
  cases newIp with
  | none => exact hs
  | some n =>
    simp only [putInode]
    split
    · have hkind : ∀ d, Function.update s.kind n Kind.NOT_ALLOC d = .DIRECTORY →
          s.kind d = .DIRECTORY ∧ d ≠ n := by
        intro d hd
        by_cases hdn : d = n
        · rw [hdn, Function.update_self] at hd
          cases hd
        · exact ⟨by rwa [Function.update_of_ne hdn] at hd, hdn⟩
      refine hs.fewer (fun d hd => (hkind d hd).1) fun d name m hm => ?_
      have hdn : d ≠ n := by
        rintro rfl
        rw [h d rfl] at hm
        cases hm
      exact (Function.update_of_ne hdn _ _).trans (hs.dirs d name m hm)
    · exact hs

end Release

section Atomic
variable {C : DirConfig} {a : RenameArgs} {s s' : DirFs} {d o fuel : ℕ} {ip oldIp newIp : Option ℕ}
  {r e errCode : Code} {name : String} {above : Bool}

theorem advance_quiet (h : advance C (some d) name errCode s = (ip, e, s')) :
    Quiet s s' ∧ ∀ n, ip = some n → entry s d name = some n := by
  rcases advance_spec h with ⟨rfl, rfl, -⟩ | ⟨n, rfl, rfl, -, hentry, -⟩
  · exact ⟨Quiet.refl _, nofun⟩
  · refine ⟨quiet_dup, fun m hm => ?_⟩
    cases hm
    exact hentry

theorem Quiet.entry (h : Quiet s s') : entry s' = entry s := by
  funext d name
  rw [Dir.entry, Dir.entry, h.slots]

theorem renameOld_spec (hs : Consistent s) (h : renameOld C a s = (oldIp, r, s')) :
    (oldIp = none ∧ r ≠ .OK ∧ Quiet s s') ∨
    ∃ o, oldIp = some o ∧ r = .OK ∧ s' = dupInode o s ∧ entry s a.oldDir a.oldName = some o := by
  rw [renameOld] at h
  generalize hadv : advance C (some a.oldDir) a.oldName .OK s = p at h
  obtain ⟨ip, e, s₁⟩ := p
  dsimp only at h
  rcases advance_spec hadv with ⟨rfl, rfl, hok, henter, hleave, -⟩ | ⟨n, rfl, rfl, -, hentry, -, hcode⟩
  · rw [if_neg henter, if_neg hleave] at h
    cases h
    exact .inl ⟨rfl, hok, Quiet.refl _⟩
  · have hput : putInode (some n) (dupInode n s) = s := put_dup (.inl (hs.linked _ _ _ hentry))
    rw [hput] at h
    split at h
    · cases h
      exact .inl ⟨rfl, nofun, Quiet.refl _⟩
    · rename_i henter
      split at h
      · cases h
        exact .inl ⟨rfl, nofun, Quiet.refl _⟩
      · rename_i hleave
        cases h
        have he : r = .OK := hcode.resolve_right fun hor => hor.elim henter fun hand => hleave hand.1
        exact .inr ⟨n, rfl, he, rfl, hentry⟩

theorem fsRename_cases (hC : C.sRdOnly = false) (hs : Consistent s) (hrefs : s.refs = [])
    (hold : a.oldDir ∈ s.opened) (hnew : a.newDir ∈ s.opened)
    (hroom : ∀ o n, entry s a.oldDir a.oldName = some o → entry s a.newDir a.newName = some n →
      n ∈ insert o s.opened ∨ (insert o s.opened).card < NR_INODES) :
    (∃ r s', (∀ fuel, fsRename C a fuel s = some (r, s')) ∧ r ≠ .OK ∧ Quiet s s') ∨
    ∃ o newIp s', Quiet s s' ∧ Ready C a s' o newIp ∧
      ∀ fuel, fsRename C a fuel s = renameFound C a fuel o newIp s' := by
  have hget₁ : getInode a.oldDir s = some (dupInode a.oldDir s) := getInode_used (.inr hold)
  generalize holdIp : renameOld C a (dupInode a.oldDir s) = p
  obtain ⟨oldIp, r, s₂⟩ := p
  have hquiet₁ : Quiet s (dupInode a.oldDir s) := quiet_dup
  have hs₁ := hquiet₁.consistent hs
  have hspec := renameOld_spec hs₁ holdIp
  have hquiet₂ : Quiet s s₂ := by
    rcases hspec with ⟨-, -, hquiet⟩ | ⟨n, -, -, rfl, -⟩
    · exact hquiet₁.trans hquiet
    · exact hquiet₁.trans quiet_dup
  have hlinkOld : ∀ n, oldIp = some n → s.nlinks n ≠ 0 := by
    rintro n rfl
    rcases hspec with ⟨he, -⟩ | ⟨n', he, -, -, hentry⟩
    · cases he
    · cases he
      exact hs.linked _ _ _ hentry
  have hget₂ : getInode a.newDir s₂ = some (dupInode a.newDir s₂) :=
    getInode_used (.inr (hquiet₂.opened ▸ hnew))
  have hquiet₃ : Quiet s (dupInode a.newDir s₂) := hquiet₂.trans quiet_dup
  -- the release of what has been got, when there is no new inode
  have hrelease : ∀ t ip, Quiet s t → (∀ n, ip = some n → s.nlinks n ≠ 0) →
      Quiet s (renameRelease a oldIp ip t) := by
    intro t ip ht hip
    have hrel : Quiet s (putInode (some a.newDir) (putInode oldIp (putInode (some a.oldDir) t))) :=
      ht.trans (release_quiet (ht.opened ▸ hold) (ht.opened ▸ hnew) fun n hn => by
        rw [ht.nlinks]
        exact hlinkOld n hn)
    exact hrel.trans (put_quiet fun n hn => .inl (by rw [hrel.nlinks]; exact hip n hn))
  by_cases hnl : (dupInode a.newDir s₂).nlinks a.newDir = 0
  · refine .inl ⟨.ENOENT, putInode (some a.newDir) (putInode (some a.oldDir)
      (putInode oldIp (dupInode a.newDir s₂))), fun fuel => ?_, nofun, ?_⟩
    · simp only [fsRename, hget₁, holdIp, hget₂]
      rw [if_pos hnl]
    · have h₁ : Quiet s (putInode oldIp (dupInode a.newDir s₂)) :=
        hquiet₃.trans (put_quiet fun n hn => .inl (by rw [hquiet₃.nlinks]; exact hlinkOld n hn))
      have h₂ : Quiet s (putInode (some a.oldDir) (putInode oldIp (dupInode a.newDir s₂))) :=
        h₁.trans (put_quiet fun n hn => by
          cases hn
          exact .inr (h₁.opened ▸ hold))
      exact h₂.trans (put_quiet fun n hn => by
        cases hn
        exact .inr (h₂.opened ▸ hnew))
  · generalize hadv : advance C (some a.newDir) a.newName r (dupInode a.newDir s₂) = p
    obtain ⟨newIp, errCode, s₄⟩ := p
    obtain ⟨hquiet, hentry⟩ := advance_quiet hadv
    have hquiet₄ := hquiet₃.trans hquiet
    have hlinkNew : ∀ n, newIp = some n → s.nlinks n ≠ 0 := fun n hn =>
      hs.linked _ _ _ (hquiet₃.entry ▸ hentry n hn)
    by_cases henter : errCode = .EENTERMOUNT
    · refine .inl ⟨.EBUSY, _, fun fuel => ?_, nofun, hrelease (putInode newIp s₄) none
        (hquiet₄.trans (put_quiet fun n hn => .inl ?_)) nofun⟩
      · simp only [fsRename, hget₁, holdIp, hget₂]
        rw [if_neg hnl]
        simp only [hadv]
        rw [if_pos henter]
      · rw [hquiet₄.nlinks]
        exact hlinkNew n hn
    · rcases hspec with ⟨rfl, hr, -⟩ | ⟨o, rfl, rfl, hs₂, hentryOld⟩
      · refine .inl ⟨r, _, fun fuel => ?_, hr, hrelease s₄ newIp hquiet₄ hlinkNew⟩
        simp only [fsRename, hget₁, holdIp, hget₂]
        rw [if_neg hnl]
        simp only [hadv]
        rw [if_neg henter]
      · have hnewIp : entry s a.newDir a.newName = newIp := by
          rcases advance_spec hadv with ⟨rfl, -, -, -, -, hwhy⟩ | ⟨n, rfl, -, -, hn, -⟩
          · rw [← hquiet₃.entry]
            rcases hwhy with hwhy | hwhy | hwhy | ⟨n, hn, hfull⟩
            · rw [hwhy, hquiet₃.entry]
              exact hs.named a.newDir
            · exact (hquiet₃.consistent hs).not_dir hwhy a.newName
            · exact hwhy
            · -- there is room for the inode of the new name
              exfalso
              rw [hquiet₃.entry] at hn
              simp only [getInode] at hfull
              split at hfull
              · cases hfull
              · rename_i hmany
                rw [hs₂, not_or, not_lt] at hmany
                have hheld : (dupInode a.newDir (dupInode o (dupInode a.oldDir s))).opened ∪
                    (dupInode a.newDir (dupInode o (dupInode a.oldDir s))).refs.toFinset =
                    insert o s.opened := by
                  ext m
                  simp only [dupInode, hrefs, List.toFinset_cons, List.toFinset_nil,
                    Finset.mem_union, Finset.mem_insert]
                  constructor
                  · rintro (hm | rfl | rfl | rfl | hm)
                    · exact .inr hm
                    · exact .inr hnew
                    · exact .inl rfl
                    · exact .inr hold
                    · exact absurd hm (Finset.notMem_empty m)
                  · rintro (rfl | hm)
                    · exact .inr (.inr (.inl rfl))
                    · exact .inl hm
                rw [hheld] at hmany
                rcases hroom o n (hquiet₁.entry ▸ hentryOld) hn with hin | hroom
                · exact hmany.1 hin
                · exact absurd hroom (not_lt.mpr hmany.2)
          · rw [← hquiet₃.entry]
            exact hn
        refine .inr ⟨o, newIp, s₄, hquiet₄, ⟨hquiet₄.consistent hs, hC, hquiet₄.opened ▸ hold,
          hquiet₄.opened ▸ hnew, ?_, ?_, ?_, ?_⟩, fun fuel => ?_⟩
        · rw [hquiet.nlinks]
          exact hnl
        · rintro n rfl
          rcases advance_spec hadv with ⟨he, -⟩ | ⟨m, he, rfl, -⟩
          · cases he
          · cases he
            exact List.mem_cons_self
        · rw [hquiet₄.entry]
          exact hquiet₁.entry ▸ hentryOld
        · rw [hquiet₄.entry]
          exact hnewIp
        · simp only [fsRename, hget₁, holdIp, hget₂]
          rw [if_neg hnl]
          simp only [hadv]
          rw [if_neg henter]

theorem Quiet.renamed {s'' : DirFs} (h : Quiet s s') (h' : Renamed a o s' s'') : Renamed a o s s'' := by
  obtain ⟨hnew, hold, hparent, hreplaced, hothers⟩ := h'
  rw [h.entry] at hreplaced hothers
  rw [h.kind] at hparent hothers
  exact ⟨hnew, hold, hparent, hreplaced, hothers⟩

theorem Settled.release (h : Settled a o newIp s s') (hready : Ready C a s o newIp) :
    Renamed a o s (renameRelease a (some o) newIp s') ∧
      Tree (renameRelease a (some o) newIp s') := by
  have hquiet : Quiet s' (putInode (some a.newDir) (putInode (some o) (putInode (some a.oldDir) s'))) :=
    release_quiet (h.opened ▸ hready.oldHeld) (h.opened ▸ hready.newHeld) fun n hn => by
      cases hn
      exact h.linked
  have hbare : ∀ n, newIp = some n → ∀ name, entry
      (putInode (some a.newDir) (putInode (some o) (putInode (some a.oldDir) s'))) n name = none := by
    intro n hn name
    rw [hquiet.entry]
    exact h.renamed.replaced n (hready.new.trans hn) name
  have htree : Tree (putInode (some a.newDir) (putInode (some o) (putInode (some a.oldDir) s'))) := by
    rw [Tree, hquiet.entry, hquiet.kind]
    exact h.tree
  obtain ⟨hnew, hold, hparent, hreplaced, hothers⟩ := h.renamed
  have hentry : entry (renameRelease a (some o) newIp s') = entry s' :=
    (put_bare hbare).trans hquiet.entry
  exact ⟨⟨hentry ▸ hnew, hentry ▸ hold, hentry ▸ hparent, hentry ▸ hreplaced, hentry ▸ hothers⟩,
    put_tree hbare htree⟩

theorem renameFound_spec (h : Ready C a s o newIp)
    (hr : renameFound C a fuel o newIp s = some (r, s')) :
    (Quiet s s' ∧ (r = .OK → newIp = some o)) ∨
    (r = .OK ∧ newIp ≠ some o ∧ Renamed a o s s' ∧ Tree s') := by
  have hs := h.consistent
  simp only [renameFound, Option.map_eq_some_iff] at hr
  obtain ⟨⟨above, s₁⟩, hwalk, hr⟩ := hr
  have hway : s₁ = s ∧ (above = false → s.kind o = .DIRECTORY → a.oldDir ≠ a.newDir →
      Avoids dots ROOT_INODE (entry s) o a.newDir) := by
    split at hwalk
    · obtain ⟨hsame, havoids⟩ := superdirs_spec hs (.inl h.newLinks) hwalk
      exact ⟨hsame, fun he _ _ => havoids he⟩
    · rename_i hne
      cases hwalk
      exact ⟨rfl, fun _ hdir hpar => absurd ⟨hdir, hpar⟩ hne⟩
  obtain ⟨rfl, havoids⟩ := hway
  have hquiet : Quiet s₁ (renameRelease a (some o) newIp s₁) := by
    have hrel : Quiet s₁ (putInode (some a.newDir) (putInode (some o) (putInode (some a.oldDir) s₁))) :=
      release_quiet h.oldHeld h.newHeld fun n hn => by
        cases hn
        exact hs.linked _ _ _ h.old
    exact hrel.trans (put_quiet fun n hn => .inl (by
      rw [hrel.nlinks]
      exact hs.linked _ _ _ (h.new.trans hn)))
  by_cases hcheck : renameCheck C a o newIp above s₁ = .OK
  · obtain ⟨habove, hok⟩ := renameCheck_ok hcheck
    rw [if_pos hcheck] at hr
    generalize hdo : renameDo C a o newIp s₁ = p at hr
    obtain ⟨r₁, s₂⟩ := p
    dsimp only at hr
    rcases renameDo_spec h hok (havoids habove) hdo with ⟨hbad, rfl⟩ | ⟨rfl, hsettled⟩
    · rw [if_neg hbad.2] at hr
      cases hr
      exact .inl ⟨hquiet, fun he => absurd he hbad.1⟩
    · rw [if_neg nofun] at hr
      cases hr
      obtain ⟨hrenamed, htree⟩ := hsettled.release h
      exact .inr ⟨rfl, hok.other, hrenamed, htree⟩
  · rw [if_neg hcheck] at hr
    dsimp only at hr
    cases hr
    refine .inl ⟨hquiet, fun he => ?_⟩
    split at he
    · rename_i hsame
      exact renameCheck_same hsame
    · exact absurd he hcheck

theorem renameFound_total (h : Ready C a s o newIp) :
    ∃ fuel₀, ∀ fuel, fuel₀ ≤ fuel → renameFound C a fuel o newIp s ≠ none := by
  have hs := h.consistent
  have hwalk : ∃ fuel₀, ∀ fuel, fuel₀ ≤ fuel →
      superdirs C o fuel a.newDir (dupInode a.newDir s) ≠ none := by
    by_cases hdir : s.kind a.newDir = .DIRECTORY
    · obtain ⟨k, hk⟩ := hs.tree.depth (hs.live a.newDir hdir h.newLinks)
      exact ⟨k + 1, fun fuel hfuel => superdirs_total hs hk (.inl h.newLinks) hfuel⟩
    · refine ⟨1, fun fuel hfuel => ?_⟩
      obtain ⟨fuel, rfl⟩ := Nat.exists_eq_add_of_le' hfuel
      rw [superdirs]
      split
      · exact Option.some_ne_none _
      · have hadv : advance C (some a.newDir) ".." .OK (dupInode a.newDir s) =
            (none, .ENOTDIR, dupInode a.newDir s) := by
          have hlook : lookUp a.newDir ".." (dupInode a.newDir s) = .error .ENOTDIR := if_pos hdir
          simp only [advance, hlook]
          rfl
        simp only [hadv]
        exact Option.some_ne_none _
  obtain ⟨fuel₀, hfuel₀⟩ := hwalk
  refine ⟨fuel₀, fun fuel hfuel => ?_⟩
  simp only [renameFound, ne_eq, Option.map_eq_none_iff]
  split
  · exact hfuel₀ fuel hfuel
  · exact Option.some_ne_none _

theorem rename_atomic (hC : C.sRdOnly = false) (hs : Consistent s) (hrefs : s.refs = [])
    (hold : a.oldDir ∈ s.opened) (hnew : a.newDir ∈ s.opened)
    (hroom : ∀ o n, entry s a.oldDir a.oldName = some o → entry s a.newDir a.newName = some n →
      n ∈ insert o s.opened ∨ (insert o s.opened).card < NR_INODES) :
    (∃ fuel₀, ∀ fuel, fuel₀ ≤ fuel → fsRename C a fuel s ≠ none) ∧
    ∀ fuel r s', fsRename C a fuel s = some (r, s') →
      (r ≠ .OK → s'.slots = s.slots ∧ s'.nlinks = s.nlinks) ∧
      (r = .OK → ∃ o, entry s a.oldDir a.oldName = some o ∧
        (entry s a.newDir a.newName = some o → s'.slots = s.slots ∧ s'.nlinks = s.nlinks) ∧
        (entry s a.newDir a.newName ≠ some o → Renamed a o s s')) ∧
      Tree s' := by
  rcases fsRename_cases hC hs hrefs hold hnew hroom with
    ⟨r, s₁, hcall, hr, hquiet⟩ | ⟨o, newIp, s₁, hquiet, hready, hcall⟩
  · refine ⟨⟨0, fun fuel _ => ?_⟩, fun fuel r' s' h => ?_⟩
    · rw [hcall]
      exact Option.some_ne_none _
    · rw [hcall] at h
      cases h
      exact ⟨fun _ => ⟨hquiet.slots, hquiet.nlinks⟩, fun he => absurd he hr,
        (hquiet.consistent hs).tree⟩
  · have hold₁ : entry s a.oldDir a.oldName = some o := hquiet.entry ▸ hready.old
    have hnew₁ : entry s a.newDir a.newName = newIp := hquiet.entry ▸ hready.new
    refine ⟨?_, fun fuel r s' h => ?_⟩
    · obtain ⟨fuel₀, htotal⟩ := renameFound_total hready
      exact ⟨fuel₀, fun fuel hfuel => hcall fuel ▸ htotal fuel hfuel⟩
    · rw [hcall] at h
      rcases renameFound_spec hready h with ⟨hsame, hr⟩ | ⟨rfl, hne, hrenamed, htree⟩
      · have hquiet' := hquiet.trans hsame
        exact ⟨fun _ => ⟨hquiet'.slots, hquiet'.nlinks⟩, fun he => ⟨o, hold₁,
          fun _ => ⟨hquiet'.slots, hquiet'.nlinks⟩,
          fun hne => absurd (hnew₁.trans (hr he)) hne⟩, (hquiet'.consistent hs).tree⟩
      · exact ⟨fun he => absurd rfl he, fun _ => ⟨o, hold₁,
          fun he => absurd (hnew₁.symm.trans he) hne, fun _ => hquiet.renamed hrenamed⟩, htree⟩

end Atomic

section Example

def twoDirs : DirFs where
  slots d := if d = 1 then [⟨1, "."⟩, ⟨1, ".."⟩, ⟨2, "a"⟩, ⟨3, "b"⟩]
    else if d = 2 ∨ d = 3 then [⟨d, "."⟩, ⟨1, ".."⟩] else []
  kind d := if d = 1 ∨ d = 2 ∨ d = 3 then .DIRECTORY else .NOT_ALLOC
  nlinks d := if d = 1 then 4 else if d = 2 ∨ d = 3 then 2 else 0
  mountpoint _ := false
  opened := {1}
  refs := []

def smallDisk : DirConfig := ⟨64, true, false, 32767⟩

def renameOver : RenameArgs := ⟨1, 1, "a", "b", fun _ => false⟩

theorem find_some {l : List Direct} {name : String} {n : ℕ} (h : findSlot l name = some n) :
    ⟨n, name⟩ ∈ l := by
  obtain ⟨dp, hdp, rfl⟩ := Option.map_eq_some_iff.mp h
  obtain rfl := ((hit_iff dp).mp (List.find?_some hdp)).2
  exact List.mem_of_find?_eq_some hdp

def twoEntries : List (ℕ × String × ℕ) :=
  [(1, ".", 1), (1, "..", 1), (1, "a", 2), (1, "b", 3), (2, ".", 2), (2, "..", 1), (3, ".", 3),
    (3, "..", 1)]

theorem entry_two {d n : ℕ} {name : String} (h : entry twoDirs d name = some n) :
    (d, name, n) ∈ twoEntries := by
  have hmem := find_some h
  simp only [twoDirs] at hmem
  split at hmem
  · rename_i hd
    simpa [twoEntries, hd, and_comm] using hmem
  · split at hmem
    · rename_i hd
      rcases hd with rfl | rfl
      · simpa [twoEntries, and_comm] using hmem
      · simpa [twoEntries, and_comm] using hmem
    · cases hmem

theorem two_dir {d : ℕ} (hd : twoDirs.kind d = .DIRECTORY) : d = 1 ∨ d = 2 ∨ d = 3 := by
  by_contra hne
  simp [twoDirs, hne] at hd

theorem two_tree : Tree twoDirs := by
  refine ⟨fun d name n h => ?_, fun d name n h => ?_, by decide, fun d name n h hp hn => ?_,
    fun d d' name name' n h h' hp hp' _ => ?_, fun d p h hne => ?_, fun d h => ?_⟩
  · exact (by decide : ∀ x ∈ twoEntries, twoDirs.kind x.1 = .DIRECTORY) _ (entry_two h)
  · exact (by decide : ∀ x ∈ twoEntries, entry twoDirs x.1 "." = some x.1 ∧
      entry twoDirs x.1 ".." ≠ none) _ (entry_two h)
  · exact (by decide : ∀ x ∈ twoEntries, (x.2.1 ≠ "." ∧ x.2.1 ≠ "..") →
      entry twoDirs x.2.2 "." = some x.2.2 ∧ entry twoDirs x.2.2 ".." = some x.1 ∧ x.2.2 ≠ 1)
      _ (entry_two h) hp
  · exact (by decide : ∀ x ∈ twoEntries, ∀ y ∈ twoEntries, (x.2.1 ≠ "." ∧ x.2.1 ≠ "..") →
      (y.2.1 ≠ "." ∧ y.2.1 ≠ "..") → x.2.2 = y.2.2 → x.1 = y.1 ∧ x.2.1 = y.2.1)
      _ (entry_two h) _ (entry_two h') hp hp' rfl
  · have hheld := (by decide : ∀ x ∈ twoEntries, x.2.1 = ".." → x.1 ≠ 1 →
      entry twoDirs x.2.2 (if x.1 = 2 then "a" else "b") = some x.1) _ (entry_two h) rfl hne
    refine ⟨_, ?_, hheld⟩
    dsimp only
    split
    · exact ⟨by decide, by decide⟩
    · exact ⟨by decide, by decide⟩
  · obtain ⟨n, hn⟩ := Option.ne_none_iff_exists'.mp h
    rcases (by decide : ∀ x ∈ twoEntries, x.1 = 1 ∨ (x.1 ≠ 1 ∧ entry twoDirs x.1 ".." = some 1))
      _ (entry_two hn) with rfl | ⟨hne, hup⟩
    · exact ⟨0, .root⟩
    · exact ⟨1, .up hne hup .root⟩

theorem two_consistent : Consistent twoDirs := by
  refine ⟨two_tree, fun d => ?_, fun d => ?_, fun d name n h => ?_, fun d hd _ => ?_⟩
  · simp only [twoDirs]
    split
    · decide
    · split
      · rename_i hd
        rcases hd with rfl | rfl
        · decide
        · decide
      · exact List.Pairwise.nil
  · refine Option.eq_none_iff_forall_ne_some.mpr fun n hn => ?_
    exact (by decide : ∀ x ∈ twoEntries, x.2.1 ≠ "") _ (entry_two hn) rfl
  · exact (by decide : ∀ x ∈ twoEntries, twoDirs.nlinks x.2.2 ≠ 0) _ (entry_two h)
  · rcases two_dir hd with rfl | rfl | rfl
    · decide
    · decide
    · decide

theorem rename_atomic_over :
    (∃ fuel₀, ∀ fuel, fuel₀ ≤ fuel → fsRename smallDisk renameOver fuel twoDirs ≠ none) ∧
    ∃ s', fsRename smallDisk renameOver 1 twoDirs = some (.OK, s') ∧
      Renamed renameOver 2 twoDirs s' ∧ Tree s' := by
  have hroom : ∀ o n, entry twoDirs 1 "a" = some o → entry twoDirs 1 "b" = some n →
      n ∈ insert o ({1} : Finset ℕ) ∨ (insert o ({1} : Finset ℕ)).card < NR_INODES :=
    fun o _ _ _ => .inr ((Finset.card_insert_le o {1}).trans_lt (by decide))
  obtain ⟨htotal, hcall⟩ := rename_atomic (C := smallDisk) (a := renameOver) (s := twoDirs) rfl
    two_consistent rfl (by decide) (by decide) hroom
  refine ⟨htotal, ?_⟩
  have hok : (fsRename smallDisk renameOver 1 twoDirs).map (·.1) = some .OK := by decide
  obtain ⟨⟨r, s'⟩, hs', rfl⟩ := Option.map_eq_some_iff.mp hok
  obtain ⟨-, hr, htree⟩ := hcall 1 _ s' hs'
  obtain ⟨o, ho, -, hrenamed⟩ := hr rfl
  have ho₂ : entry twoDirs 1 "a" = some 2 := by decide
  cases ho₂.symm.trans ho
  exact ⟨s', hs', hrenamed (by decide), htree⟩

theorem replaced_directory_changes :
    Consistent twoDirs ∧ entry twoDirs 1 "a" = some 2 ∧ entry twoDirs 1 "b" = some 3 ∧
    entry twoDirs 3 "." = some 3 ∧
    ∃ s', fsRename smallDisk renameOver 1 twoDirs = some (.OK, s') ∧ entry s' 3 "." = none := by
  refine ⟨two_consistent, by decide, by decide, by decide, ?_⟩
  have hok : (fsRename smallDisk renameOver 1 twoDirs).map
      (fun p => (p.1, entry p.2 3 ".")) = some (.OK, none) := by decide
  obtain ⟨⟨r, s'⟩, hs', hr⟩ := Option.map_eq_some_iff.mp hok
  obtain ⟨rfl, hnone⟩ := Prod.mk.inj hr
  exact ⟨s', hs', hnone⟩

end Example

end Mfs.Dir
