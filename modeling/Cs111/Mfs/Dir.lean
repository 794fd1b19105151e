import Cs111.Lib.DirTree
import Cs111.Mfs.InodeTable

-- Directories by their slots, and inodes by their numbers.
namespace Mfs.Dir

def ROOT_INODE : ℕ := 1

inductive Code where
  | OK | SAME | EINVAL | ENOENT | ENOTDIR | EISDIR | EBUSY | EXDEV | EMLINK | ENFILE | ENOTEMPTY
  | EROFS | ENOSPC | EENTERMOUNT | ELEAVEMOUNT
  deriving DecidableEq, Repr

inductive Kind where
  | NOT_ALLOC | DIRECTORY | OTHER
  deriving DecidableEq

structure Direct where
  dIno : ℕ
  dName : String
  deriving DecidableEq

structure DirConfig where
  -- NR_DIR_ENTRIES(s_block_size)
  perBlock : ℕ
  sIsRoot : Bool
  sRdOnly : Bool
  linkMax : ℤ

structure DirFs where
  slots : ℕ → List Direct
  kind : ℕ → Kind
  nlinks : ℕ → ℤ
  mountpoint : ℕ → Bool
  -- the inodes that VFS has open, and the references that the request holds
  opened : Finset ℕ
  refs : List ℕ

section Slots

def Direct.hit (string : String) (dp : Direct) : Bool := dp.dIno ≠ NO_ENTRY ∧ dp.dName = string

def findSlot (l : List Direct) (string : String) : Option ℕ := (l.find? (·.hit string)).map (·.dIno)

def deleteSlot (string : String) : List Direct → List Direct
  | [] => []
  | dp :: l => if dp.hit string then { dp with dIno := NO_ENTRY } :: l else dp :: deleteSlot string l

def fillSlot (string : String) (numb : ℕ) : List Direct → Option (List Direct)
  | [] => none
  | dp :: l => if dp.dIno = NO_ENTRY then some (⟨numb, string⟩ :: l) else
    (fillSlot string numb l).map (dp :: ·)

def onlyDots (l : List Direct) : Bool :=
  l.all fun dp => dp.dIno = NO_ENTRY ∨ dp.dName = "." ∨ dp.dName = ".."

end Slots

section Search
variable (C : DirConfig)

def lookUp (ldir : ℕ) (string : String) (s : DirFs) : Except Code ℕ :=
  if s.kind ldir ≠ .DIRECTORY then .error .ENOTDIR
  else
    match findSlot (s.slots ldir) string with
    | none => .error .ENOENT
    | some numb => .ok numb

def isEmpty (ldir : ℕ) (s : DirFs) : Code :=
  if s.kind ldir ≠ .DIRECTORY then .ENOTDIR
  else if onlyDots (s.slots ldir) then .OK else .ENOTEMPTY

def setSlots (ldir : ℕ) (l : List Direct) (s : DirFs) : DirFs :=
  { s with slots := Function.update s.slots ldir l }

def delete (ldir : ℕ) (string : String) (dots : Bool) (s : DirFs) : Code × DirFs :=
  if s.kind ldir ≠ .DIRECTORY then (.ENOTDIR, s)
  else if dots ∧ C.sRdOnly then (.EROFS, s)
  else
    match findSlot (s.slots ldir) string with
    | none => (.ENOENT, s)
    | some _ => (.OK, setSlots ldir (deleteSlot string (s.slots ldir)) s)

def enter (ldir : ℕ) (string : String) (numb : ℕ) (dots space : Bool) (s : DirFs) : Code × DirFs :=
  let l := s.slots ldir
  if s.kind ldir ≠ .DIRECTORY then (.ENOTDIR, s)
  else if dots ∧ C.sRdOnly then (.EROFS, s)
  else
    match fillSlot string numb l with
    | some l => (.OK, setSlots ldir l s)
    | none =>
      if l.length % C.perBlock ≠ 0 ∨ space then (.OK, setSlots ldir (l ++ [⟨numb, string⟩]) s)
      else (.ENOSPC, s)

end Search

section Inodes
variable (C : DirConfig)

def getInode (numb : ℕ) (s : DirFs) : Option DirFs :=
  let inUse := s.opened ∪ s.refs.toFinset
  if numb ∈ inUse ∨ inUse.card < NR_INODES then some { s with refs := numb :: s.refs } else none

def dupInode (numb : ℕ) (s : DirFs) : DirFs := { s with refs := numb :: s.refs }

def putInode (ip : Option ℕ) (s : DirFs) : DirFs :=
  match ip with
  | none => s
  | some n =>
    let s := { s with refs := s.refs.erase n }
    if s.nlinks n = 0 ∧ n ∉ s.refs ∧ n ∉ s.opened then
      { s with
        kind := Function.update s.kind n .NOT_ALLOC
        slots := Function.update s.slots n [] }
    else s

def advance (dirp : Option ℕ) (string : String) (errCode : Code) (s : DirFs) :
    Option ℕ × Code × DirFs :=
  if string = "" then (none, .ENOENT, s)
  else
    match dirp with
    | none => (none, errCode, s)
    | some dir =>
      match lookUp dir string s with
      | .error e => (none, e, s)
      | .ok numb =>
        match getInode numb s with
        | none => (none, .ENFILE, s)
        | some s =>
          let leaves : Bool := numb = ROOT_INODE ∧ dir = ROOT_INODE ∧
            string.toList[1]? = some '.' ∧ ¬ C.sIsRoot
          let errCode := if leaves then .ELEAVEMOUNT else .OK
          (some numb, if s.mountpoint numb then .EENTERMOUNT else errCode, s)

def addLinks (n : ℕ) (k : ℤ) (s : DirFs) : DirFs :=
  { s with nlinks := Function.update s.nlinks n (s.nlinks n + k) }

def unlinkFile (dirp : ℕ) (rip : Option ℕ) (fileName : String) (dots : Bool) (s : DirFs) :
    Code × DirFs :=
  let found : Except Code (ℕ × DirFs) :=
    match rip with
    | some n => .ok (n, dupInode n s)
    | none =>
      match lookUp dirp fileName s with
      | .error e => .error e
      | .ok numb =>
        match getInode numb s with
        | none => .error .ENFILE
        | some s => .ok (numb, s)
  match found with
  | .error e => (e, s)
  | .ok (n, s) =>
    let (r, s) := delete C dirp fileName dots s
    let s := if r = .OK then addLinks n (-1) s else s
    (r, putInode (some n) s)

def removeDir (rldirp rip : ℕ) (dirName : String) (s : DirFs) : Code × DirFs :=
  let r := isEmpty rip s
  if r ≠ .OK then (r, s)
  else if dirName = "." ∨ dirName = ".." then (.EINVAL, s)
  else if rip = ROOT_INODE then (.EBUSY, s)
  else
    let (r, s) := unlinkFile C rldirp (some rip) dirName false s
    if r ≠ .OK then (r, s)
    else
      let s := (unlinkFile C rip none "." true s).2
      (.OK, (unlinkFile C rip none ".." true s).2)

end Inodes

section SlotFacts
variable {l l' : List Direct} {string name : String} {numb : ℕ}

def Distinct (l : List Direct) : Prop :=
  l.Pairwise fun a b => a.dIno ≠ NO_ENTRY → b.dIno ≠ NO_ENTRY → a.dName ≠ b.dName

instance (l : List Direct) : Decidable (Distinct l) :=
  inferInstanceAs (Decidable (List.Pairwise _ l))

theorem hit_iff (dp : Direct) : dp.hit string = true ↔ dp.dIno ≠ NO_ENTRY ∧ dp.dName = string := by
  simp [Direct.hit]

theorem find_cons (dp : Direct) : findSlot (dp :: l) string =
    if dp.hit string then some dp.dIno else findSlot l string := by
  rw [findSlot, List.find?_cons]
  cases dp.hit string <;> rfl

theorem find_none_iff : findSlot l string = none ↔
    ∀ dp ∈ l, dp.dIno ≠ NO_ENTRY → dp.dName ≠ string := by
  rw [findSlot, Option.map_eq_none_iff, List.find?_eq_none]
  simp only [hit_iff, not_and, ne_eq]

theorem find_ne (h : findSlot l string = some numb) : numb ≠ NO_ENTRY := by
  obtain ⟨dp, hdp, rfl⟩ := Option.map_eq_some_iff.mp h
  exact ((hit_iff dp).mp (List.find?_some hdp)).1

theorem delete_find (hl : Distinct l) : findSlot (deleteSlot string l) name =
    if name = string then none else findSlot l name := by
  induction l with
  | nil => split <;> rfl
  | cons dp l ih =>
    obtain ⟨hdp, hrest⟩ := List.pairwise_cons.mp hl
    rw [deleteSlot]
    by_cases hhit : dp.hit string = true
    · rw [if_pos hhit, find_cons, find_cons, if_neg (by simp [Direct.hit])]
      obtain ⟨hne, hname⟩ := (hit_iff dp).mp hhit
      by_cases hn : name = string
      · rw [if_pos hn, find_none_iff]
        intro dp' hmem hne' hname'
        exact hdp dp' hmem hne hne' (hname.trans (hn.symm.trans hname'.symm))
      · rw [if_neg hn, if_neg fun h => hn (((hit_iff dp).mp h).2.symm.trans hname)]
    · rw [if_neg hhit, find_cons, find_cons, ih hrest]
      by_cases hn : name = string
      · subst hn
        rw [if_pos rfl, if_pos rfl, if_neg hhit]
      · rw [if_neg hn, if_neg hn]

theorem delete_distinct (hl : Distinct l) : Distinct (deleteSlot string l) := by
  have hsub : ∀ {l : List Direct} {dp}, dp ∈ deleteSlot string l → dp.dIno ≠ NO_ENTRY → dp ∈ l := by
    intro l
    induction l with
    | nil => exact fun h => absurd h List.not_mem_nil
    | cons dp' l ih =>
      intro dp h hne
      rw [deleteSlot] at h
      split at h
      · rcases List.mem_cons.mp h with rfl | h
        · exact absurd rfl hne
        · exact List.mem_cons_of_mem _ h
      · rcases List.mem_cons.mp h with rfl | h
        · exact List.mem_cons_self
        · exact List.mem_cons_of_mem _ (ih h hne)
  induction l with
  | nil => exact List.Pairwise.nil
  | cons dp l ih =>
    obtain ⟨hdp, hrest⟩ := List.pairwise_cons.mp hl
    rw [deleteSlot]
    split
    · exact List.pairwise_cons.mpr ⟨fun _ _ h => absurd rfl h, hrest⟩
    · exact List.pairwise_cons.mpr ⟨fun dp' hmem hne hne' => hdp dp' (hsub hmem hne') hne hne',
        ih hrest⟩

theorem fill_after_delete (h : findSlot l string ≠ none) :
    ∃ l', fillSlot name numb (deleteSlot string l) = some l' := by
  induction l with
  | nil => exact absurd rfl h
  | cons dp l ih =>
    rw [deleteSlot]
    split
    · exact ⟨_, by rw [fillSlot, if_pos rfl]⟩
    · rename_i hhit
      rw [find_cons, if_neg hhit] at h
      obtain ⟨l', hl'⟩ := ih h
      rw [fillSlot, hl']
      split
      · exact ⟨_, rfl⟩
      · exact ⟨_, rfl⟩

theorem fill_spec (hl : Distinct l) (hnone : findSlot l string = none) (hnumb : numb ≠ NO_ENTRY)
    (hfill : fillSlot string numb l = some l' ∨ l' = l ++ [⟨numb, string⟩]) :
    Distinct l' ∧ ∀ name, findSlot l' name = if name = string then some numb else findSlot l name := by
  have hhit : ∀ name, (⟨numb, string⟩ : Direct).hit name = decide (name = string) := by
    intro name
    simp [Direct.hit, hnumb, eq_comm]
  induction l generalizing l' with
  | nil =>
    rcases hfill with hfill | rfl
    · cases hfill
    · refine ⟨List.pairwise_singleton _ _, fun name => ?_⟩
      rw [List.nil_append, find_cons, hhit]
      simp only [decide_eq_true_eq]
  | cons dp l ih =>
    obtain ⟨hdp, hrest⟩ := List.pairwise_cons.mp hl
    rw [find_none_iff] at hnone
    have hnone' : findSlot l string = none :=
      find_none_iff.mpr fun dp' hmem => hnone dp' (List.mem_cons_of_mem dp hmem)
    -- the entry goes behind the first slot
    have hbehind : ∀ l₁, Distinct l₁ →
        (∀ name, findSlot l₁ name = if name = string then some numb else findSlot l name) →
        Distinct (dp :: l₁) ∧ ∀ name, findSlot (dp :: l₁) name =
          if name = string then some numb else findSlot (dp :: l) name := by
      intro l₁ hl₁ hfind
      refine ⟨List.pairwise_cons.mpr ⟨fun dp' hmem hne hne' heq => ?_, hl₁⟩, fun name => ?_⟩
      · have hsome : findSlot l₁ dp.dName ≠ none := fun hn =>
          find_none_iff.mp hn dp' hmem hne' heq.symm
        rw [hfind] at hsome
        split at hsome
        · rename_i hs
          exact hnone dp List.mem_cons_self hne hs
        · refine hsome (find_none_iff.mpr fun dp'' hmem'' hne'' heq'' => ?_)
          exact hdp dp'' hmem'' hne hne'' heq''.symm
      · rw [find_cons, find_cons, hfind]
        by_cases hn : name = string
        · subst hn
          rw [if_pos rfl, if_pos rfl, if_neg fun h => ?_]
          obtain ⟨hne, heq⟩ := (hit_iff dp).mp h
          exact hnone dp List.mem_cons_self hne heq
        · rw [if_neg hn, if_neg hn]
    rcases hfill with hfill | rfl
    · rw [fillSlot] at hfill
      split at hfill
      · rename_i hfree
        cases hfill
        refine ⟨List.pairwise_cons.mpr ⟨fun dp' hmem _ hne' heq => ?_, hrest⟩, fun name => ?_⟩
        · exact hnone dp' (List.mem_cons_of_mem dp hmem) hne' heq.symm
        · rw [find_cons, find_cons, hhit, if_neg fun h => ((hit_iff dp).mp h).1 hfree]
          simp only [decide_eq_true_eq]
      · obtain ⟨l₁, hl₁, rfl⟩ := Option.map_eq_some_iff.mp hfill
        obtain ⟨hdist, hfind⟩ := ih hrest hnone' (.inl hl₁)
        exact hbehind l₁ hdist hfind
    · obtain ⟨hdist, hfind⟩ := ih hrest hnone' (.inr rfl)
      exact hbehind _ hdist hfind

theorem onlyDots_find (h : onlyDots l = true) (hn : name ≠ "." ∧ name ≠ "..") :
    findSlot l name = none := by
  rw [onlyDots, List.all_eq_true] at h
  refine find_none_iff.mpr fun dp hmem hne heq => ?_
  have hdp := h dp hmem
  simp only [Bool.decide_or, Bool.or_eq_true, decide_eq_true_eq] at hdp
  rcases hdp with h₀ | h₁ | h₂
  · exact hne h₀
  · exact hn.1 (heq.symm.trans h₁)
  · exact hn.2 (heq.symm.trans h₂)

end SlotFacts

end Mfs.Dir
