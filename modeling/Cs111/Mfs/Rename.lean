import Cs111.Mfs.Dir

namespace Mfs.Dir

section Rename
variable (C : DirConfig)

def superdirs (oldIp : ℕ) : ℕ → ℕ → DirFs → Option (Bool × DirFs)
  | 0, _, _ => none
  | fuel + 1, newSuperdirp, s =>
    if newSuperdirp = oldIp then some (true, putInode (some newSuperdirp) s)
    else
      let (next, errCode, s) := advance C (some newSuperdirp) ".." .OK s
      let s := putInode (some newSuperdirp) s
      if next = some newSuperdirp then some (false, putInode (some newSuperdirp) s)
      else if errCode = .ELEAVEMOUNT then some (false, putInode next s)
      else
        match next with
        | none => some (true, s)
        | some next => superdirs oldIp fuel next s

structure RenameArgs where
  oldDir : ℕ
  newDir : ℕ
  oldName : String
  newName : String
  -- whether a directory can get another block
  space : ℕ → Bool

def isDots (name : String) : Bool := name = "." ∨ name = ".."

variable (a : RenameArgs)

def nameCheck (above : Bool) : Code :=
  let r := if above then .EINVAL else .OK
  if isDots a.oldName ∨ isDots a.newName then .EINVAL else r

def renameCheck (oldIp : ℕ) (newIp : Option ℕ) (above : Bool) (s : DirFs) : Code :=
  let odir : Bool := s.kind oldIp = .DIRECTORY
  let r := nameCheck a above
  match newIp with
  | none =>
    if odir ∧ s.nlinks a.newDir ≥ C.linkMax ∧ a.oldDir ≠ a.newDir ∧ r = .OK then .EMLINK else r
  | some newIp =>
    let ndir : Bool := s.kind newIp = .DIRECTORY
    let r := if oldIp = newIp then .SAME else r
    let r := if odir ∧ ¬ ndir then .ENOTDIR else r
    if ¬ odir ∧ ndir then .EISDIR else r

def renameRemove (oldIp : ℕ) (newIp : Option ℕ) (s : DirFs) : Code × DirFs :=
  match newIp with
  | none => (.OK, s)
  | some newIp =>
    if s.kind oldIp = .DIRECTORY then removeDir C a.newDir newIp a.newName s
    else unlinkFile C a.newDir (some newIp) a.newName false s

def renameEntry (oldIp : ℕ) (s : DirFs) : Code × DirFs :=
  if a.oldDir = a.newDir then
    let (r, s) := delete C a.oldDir a.oldName false s
    if r = .OK then (r, (enter C a.oldDir a.newName oldIp false (a.space a.oldDir) s).2) else (r, s)
  else
    let (r, s) := enter C a.newDir a.newName oldIp false (a.space a.newDir) s
    if r = .OK then (r, (delete C a.oldDir a.oldName false s).2) else (r, s)

def renameParent (oldIp : ℕ) (s : DirFs) : DirFs :=
  let s := (unlinkFile C oldIp none ".." true s).2
  let (r, s) := enter C oldIp ".." a.newDir true (a.space oldIp) s
  if r = .OK then addLinks a.newDir 1 s else s

def renameDo (oldIp : ℕ) (newIp : Option ℕ) (s : DirFs) : Code × DirFs :=
  let odir : Bool := s.kind oldIp = .DIRECTORY
  let (r, s) := renameRemove C a oldIp newIp s
  if r ≠ .OK then (r, s)
  else
    let (r, s) := renameEntry C a oldIp s
    if r = .OK ∧ odir ∧ a.oldDir ≠ a.newDir then (r, renameParent C a oldIp s) else (r, s)

def renameRelease (oldIp newIp : Option ℕ) (s : DirFs) : DirFs :=
  putInode newIp (putInode (some a.newDir) (putInode oldIp (putInode (some a.oldDir) s)))

def renameFound (fuel oldIp : ℕ) (newIp : Option ℕ) (s : DirFs) : Option (Code × DirFs) :=
  let walk :=
    if s.kind oldIp = .DIRECTORY ∧ a.oldDir ≠ a.newDir then
      superdirs C oldIp fuel a.newDir (dupInode a.newDir s)
    else some (false, s)
  walk.map fun (above, s) =>
    let r := renameCheck C a oldIp newIp above s
    let (r, s) := if r = .OK then renameDo C a oldIp newIp s else (r, s)
    (if r = .SAME then .OK else r, renameRelease a (some oldIp) newIp s)

def renameOld (s : DirFs) : Option ℕ × Code × DirFs :=
  let (oldIp, r, s) := advance C (some a.oldDir) a.oldName .OK s
  if r = .EENTERMOUNT then (none, .EXDEV, putInode oldIp s)
  else if r = .ELEAVEMOUNT then (none, .EINVAL, putInode oldIp s)
  else (oldIp, r, s)

def fsRename (fuel : ℕ) (s : DirFs) : Option (Code × DirFs) :=
  match getInode a.oldDir s with
  | none => some (.ENFILE, s)
  | some s =>
    let (oldIp, r, s) := renameOld C a s
    match getInode a.newDir s with
    | none => some (.ENFILE, putInode oldIp (putInode (some a.oldDir) s))
    | some s =>
      if s.nlinks a.newDir = 0 then
        some (.ENOENT, putInode (some a.newDir) (putInode (some a.oldDir) (putInode oldIp s)))
      else
        let (newIp, errCode, s) := advance C (some a.newDir) a.newName r s
        if errCode = .EENTERMOUNT then
          some (.EBUSY, renameRelease a oldIp none (putInode newIp s))
        else
          match r, oldIp with
          | .OK, some oldIp => renameFound C a fuel oldIp newIp s
          | r, oldIp => some (r, renameRelease a oldIp newIp s)

end Rename

end Mfs.Dir

namespace Mfs.Dir

open DirTree

def entry (s : DirFs) (d : ℕ) (name : String) : Option ℕ := findSlot (s.slots d) name

def dots : Dots String := ⟨".", "..", by decide⟩

abbrev Tree (s : DirFs) : Prop := IsTree dots ROOT_INODE (entry s) fun d => s.kind d = .DIRECTORY

structure Consistent (s : DirFs) : Prop where
  tree : Tree s
  distinct : ∀ d, Distinct (s.slots d)
  named : ∀ d, entry s d "" = none
  linked : ∀ d name n, entry s d name = some n → s.nlinks n ≠ 0
  live : ∀ d, s.kind d = .DIRECTORY → s.nlinks d ≠ 0 → entry s d "." = some d

structure Quiet (s s' : DirFs) : Prop where
  slots : s'.slots = s.slots
  kind : s'.kind = s.kind
  nlinks : s'.nlinks = s.nlinks
  opened : s'.opened = s.opened

section Inodes
variable {C : DirConfig} {s s' : DirFs} {n d : ℕ} {ip : Option ℕ} {e errCode : Code} {name : String}

theorem Quiet.refl (s : DirFs) : Quiet s s := ⟨rfl, rfl, rfl, rfl⟩

theorem Quiet.trans {s'' : DirFs} (h : Quiet s s') (h' : Quiet s' s'') : Quiet s s'' :=
  ⟨h'.slots.trans h.slots, h'.kind.trans h.kind, h'.nlinks.trans h.nlinks,
    h'.opened.trans h.opened⟩

theorem quiet_dup : Quiet s (dupInode n s) := ⟨rfl, rfl, rfl, rfl⟩

theorem Quiet.consistent (h : Quiet s s') (hs : Consistent s) : Consistent s' := by
  have hentry : entry s' = entry s := by
    funext d name
    rw [entry, entry, h.slots]
  have hkind : (fun d => s'.kind d = Kind.DIRECTORY) = fun d => s.kind d = Kind.DIRECTORY := by
    rw [h.kind]
  refine ⟨?_, ?_, ?_, ?_, ?_⟩
  · rw [Tree, hentry, hkind]
    exact hs.tree
  · rw [h.slots]
    exact hs.distinct
  · rw [hentry]
    exact hs.named
  · rw [hentry, h.nlinks]
    exact hs.linked
  · rw [hentry, h.nlinks, h.kind]
    exact hs.live

theorem getInode_eq (h : getInode n s = some s') : s' = dupInode n s := by
  simp only [getInode] at h
  split at h
  · cases h
    rfl
  · cases h

theorem getInode_used (h : n ∈ s.refs ∨ n ∈ s.opened) : getInode n s = some (dupInode n s) := by
  simp only [getInode]
  rw [if_pos (.inl (Finset.mem_union.mpr (h.symm.imp id List.mem_toFinset.mpr)))]
  rfl

theorem put_dup (h : s.nlinks n ≠ 0 ∨ n ∈ s.refs ∨ n ∈ s.opened) :
    putInode (some n) (dupInode n s) = s := by
  have hrefs : (dupInode n s).refs.erase n = s.refs := List.erase_cons_head ..
  simp only [putInode, hrefs]
  rw [if_neg fun hand => ?_]
  · rfl
  · rcases h with h | h | h
    · exact h hand.1
    · exact hand.2.1 h
    · exact hand.2.2 h

theorem put_under (hne : n ≠ d) (h : s.nlinks d ≠ 0 ∨ d ∈ s.refs ∨ d ∈ s.opened) :
    putInode (some d) (dupInode n (dupInode d s)) = dupInode n s := by
  have hrefs : (dupInode n (dupInode d s)).refs.erase d = n :: s.refs := by
    rw [show (dupInode n (dupInode d s)).refs = n :: d :: s.refs from rfl,
      List.erase_cons_tail (by simpa using hne), List.erase_cons_head]
  simp only [putInode, hrefs]
  rw [if_neg fun hand => ?_]
  · rfl
  · rcases h with h | h | h
    · exact h hand.1
    · exact hand.2.1 (List.mem_cons_of_mem n h)
    · exact hand.2.2 h

theorem put_quiet (h : ∀ n, ip = some n → s.nlinks n ≠ 0 ∨ n ∈ s.opened) :
    Quiet s (putInode ip s) := by
  cases ip with
  | none => exact Quiet.refl s
  | some n =>
    simp only [putInode]
    rw [if_neg fun hand => ?_]
    · exact ⟨rfl, rfl, rfl, rfl⟩
    · rcases h n rfl with hn | hn
      · exact hn hand.1
      · exact hand.2.2 hn

theorem advance_spec (h : advance C (some d) name errCode s = (ip, e, s')) :
    (ip = none ∧ s' = s ∧ e ≠ .OK ∧ e ≠ .EENTERMOUNT ∧ e ≠ .ELEAVEMOUNT ∧
      (name = "" ∨ s.kind d ≠ .DIRECTORY ∨ entry s d name = none ∨
        ∃ n, entry s d name = some n ∧ getInode n s = none)) ∨
    ∃ n, ip = some n ∧ s' = dupInode n s ∧ s.kind d = .DIRECTORY ∧ entry s d name = some n ∧
      name ≠ "" ∧ (e = .OK ∨ e = .EENTERMOUNT ∨ (e = .ELEAVEMOUNT ∧ n = ROOT_INODE ∧ d = ROOT_INODE)) := by
  rw [advance] at h
  split at h
  · rename_i hempty
    cases h
    exact .inl ⟨rfl, rfl, by decide, by decide, by decide, .inl hempty⟩
  · rename_i hname
    dsimp only at h
    rw [lookUp] at h
    by_cases hkind : s.kind d ≠ .DIRECTORY
    · rw [if_pos hkind] at h
      cases h
      exact .inl ⟨rfl, rfl, by decide, by decide, by decide, .inr (.inl hkind)⟩
    · rw [if_neg hkind] at h
      cases hfind : findSlot (s.slots d) name with
      | none =>
        rw [hfind] at h
        cases h
        exact .inl ⟨rfl, rfl, by decide, by decide, by decide, .inr (.inr (.inl hfind))⟩
      | some n =>
        rw [hfind] at h
        dsimp only at h
        cases hget : getInode n s with
        | none =>
          rw [hget] at h
          cases h
          exact .inl ⟨rfl, rfl, by decide, by decide, by decide, .inr (.inr (.inr ⟨n, hfind, hget⟩))⟩
        | some s₁ =>
          rw [hget] at h
          cases h
          refine .inr ⟨n, rfl, getInode_eq hget, not_not.mp hkind, hfind, hname, ?_⟩
          split
          · exact .inr (.inl rfl)
          · split
            · rename_i hleaves
              rw [decide_eq_true_eq] at hleaves
              exact .inr (.inr ⟨rfl, hleaves.1, hleaves.2.1⟩)
            · exact .inl rfl

end Inodes

section Walk
variable {C : DirConfig} {s s' : DirFs} {o d fuel : ℕ} {above : Bool}

theorem root_of_self (hs : Consistent s) (hd : entry s d ".." = some d) : d = ROOT_INODE := by
  by_contra hne
  obtain ⟨k, hk⟩ := hs.tree.depth hd
  have hk' : Depth dots ROOT_INODE (entry s) d (k + 1) := .up hne hd hk
  have := hk.unique hk'
  omega

theorem superdirs_spec (hs : Consistent s) (hd : s.nlinks d ≠ 0 ∨ d ∈ s.opened)
    (h : superdirs C o fuel d (dupInode d s) = some (above, s')) :
    s' = s ∧ (above = false → Avoids dots ROOT_INODE (entry s) o d) := by
  induction fuel generalizing d with
  | zero => cases h
  | succ fuel ih =>
    have hput : putInode (some d) (dupInode d s) = s := put_dup (hd.imp id .inr)
    rw [superdirs] at h
    split at h
    · cases h
      exact ⟨hput, fun he => by cases he⟩
    · rename_i hne
      generalize hadv : advance C (some d) ".." .OK (dupInode d s) = r at h
      obtain ⟨next, e, s₁⟩ := r
      dsimp only at h
      rcases advance_spec hadv with ⟨rfl, rfl, -, -, hleave, -⟩ | ⟨n, rfl, rfl, -, hentry, -, hcode⟩
      · rw [if_neg nofun, if_neg hleave] at h
        cases h
        exact ⟨hput, fun he => by cases he⟩
      · have hup : entry s d ".." = some n := hentry
        have hn : s.nlinks n ≠ 0 := hs.linked d ".." n hup
        by_cases hself : n = d
        · subst hself
          rw [if_pos rfl] at h
          cases h
          refine ⟨?_, fun _ => ?_⟩
          · rw [put_dup (s := dupInode n s) (.inl hn), hput]
          · rw [root_of_self hs hup] at hne ⊢
            exact .root hne
        · rw [if_neg fun he => hself (Option.some.inj he)] at h
          rw [put_under hself (hd.imp id .inr)] at h
          by_cases hroot : d = ROOT_INODE
          · have htop : entry s ROOT_INODE ".." = some ROOT_INODE := hs.tree.top.2
            rw [hroot, htop] at hup
            exact absurd (Option.some.inj hup).symm fun he => hself (he.trans hroot.symm)
          · rw [if_neg fun he => by
              rcases hcode with hcode | hcode | ⟨-, -, hd'⟩
              · rw [hcode] at he
                cases he
              · rw [hcode] at he
                cases he
              · exact hroot hd'] at h
            obtain ⟨hsame, havoids⟩ := ih (.inl hn) h
            exact ⟨hsame, fun he => .up hne hroot hup (havoids he)⟩

theorem superdirs_total (hs : Consistent s) {k : ℕ} (hk : Depth dots ROOT_INODE (entry s) d k)
    (hd : s.nlinks d ≠ 0 ∨ d ∈ s.opened) (hfuel : k < fuel) :
    superdirs C o fuel d (dupInode d s) ≠ none := by
  induction fuel generalizing d k with
  | zero => exact absurd hfuel (Nat.not_lt_zero k)
  | succ fuel ih =>
    rw [superdirs]
    split
    · exact Option.some_ne_none _
    · generalize hadv : advance C (some d) ".." .OK (dupInode d s) = r
      obtain ⟨next, e, s₁⟩ := r
      dsimp only
      rcases advance_spec hadv with ⟨rfl, rfl, -, -, hleave, -⟩ | ⟨n, rfl, rfl, -, hentry, -, -⟩
      · rw [if_neg nofun, if_neg hleave]
        exact Option.some_ne_none _
      · have hup : entry s d ".." = some n := hentry
        split
        · exact Option.some_ne_none _
        · rename_i hself
          split
          · exact Option.some_ne_none _
          · have hne : n ≠ d := fun he => hself (congrArg some he)
            rw [put_under hne (hd.imp id .inr)]
            cases hk with
            | root =>
              have htop : entry s ROOT_INODE ".." = some ROOT_INODE := hs.tree.top.2
              rw [htop] at hup
              exact absurd (Option.some.inj hup).symm hne
            | up _ hp hk =>
              have hpn : some _ = some n := hp.symm.trans hup
              cases hpn
              exact ih hk (.inl (hs.linked d ".." n hup)) (by omega)

end Walk

end Mfs.Dir
