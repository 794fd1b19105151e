import Cs111.Lib.CString
import Cs111.Mfs.Getdents

-- search_dir() as a finite map from names to inode numbers.
namespace Mfs.Entries

section Map
variable {H : MfsHeaders} (D : DirHeaders) (sp : ZoneSuper H) (s : DirState H)

def Named (name : List (BitVec 8)) (k : ℕ) : Prop :=
  (slot D sp s k).dIno ≠ 0 ∧ cname D (slot D sp s k).dName = name

instance (name : List (BitVec 8)) : DecidablePred (Named D sp s name) :=
  fun _ => inferInstanceAs (Decidable (_ ∧ _))

def dirMap (name : List (BitVec 8)) : Option (BitVec 32) :=
  ((List.range (s.slots D)).find? (Named D sp s name)).map fun k =>
    conv4 sp.sNative (slot D sp s k).dIno

structure OwnBlocks : Prop where
  apart : ∀ i < nrBlocks sp s, ∀ j < nrBlocks sp s, blockOf sp s i = blockOf sp s j → i = j
  limit : nrBlocks sp s * sp.sBlockSize < OFF_LIMIT

end Map

section Slots
variable {H : MfsHeaders} {D : DirHeaders} {sp : ZoneSuper H} {s : DirState H} {k l : ℕ}
  {name : List (BitVec 8)} {ino : BitVec 32} {dp : Direct} {string : ℕ → BitVec 8}

theorem dirMap_eq_some (h : DirFile D sp s) : dirMap D sp s name = some ino ↔
    ∃ k < s.slots D, Named D sp s name k ∧ conv4 sp.sNative (slot D sp s k).dIno = ino := by
  rw [dirMap, Option.map_eq_some_iff]
  constructor
  · rintro ⟨k, hfind, rfl⟩
    exact ⟨k, List.mem_range.mp (List.mem_of_find?_eq_some hfind),
      by simpa using List.find?_some hfind, rfl⟩
  · rintro ⟨k, hk, hnamed, rfl⟩
    cases hfind : (List.range (s.slots D)).find? (Named D sp s name) with
    | none =>
      have hno := List.find?_eq_none.mp hfind k (List.mem_range.mpr hk)
      exact absurd (decide_eq_true hnamed) hno
    | some l =>
      have hl : Named D sp s name l := by simpa using List.find?_some hfind
      have hlt := List.mem_range.mp (List.mem_of_find?_eq_some hfind)
      have hlk : l = k := h.distinct l hlt k hk hl.1 hnamed.1 (hl.2.trans hnamed.2.symm)
      exact ⟨l, rfl, by rw [hlk]⟩

theorem dirMap_eq_none : dirMap D sp s name = none ↔ ∀ k < s.slots D, ¬ Named D sp s name k := by
  rw [dirMap, Option.map_eq_none_iff, List.find?_eq_none]
  simp only [List.mem_range, decide_eq_true_eq]

def DirState.put (D : DirHeaders) (sp : ZoneSuper H) (k : ℕ) (dp : Direct) (s : DirState H) :
    DirState H :=
  s.setSlot (place D sp s k).1 (place D sp s k).2 dp

theorem blockOf_slot (h : DirFile D sp s) (hk : k < s.slots D) :
    k / nrDirEntries D sp < nrBlocks sp s :=
  (Nat.div_lt_iff_lt_mul nrDirEntries_pos).mpr (hk.trans_le (slots_le h))

theorem put_slot (h : DirFile D sp s) (hown : OwnBlocks sp s) (hk : k < s.slots D)
    (hl : l < s.slots D) :
    slot D sp (s.put D sp k dp) l = if l = k then dp else slot D sp s l := by
  have hblock : ∀ j, blockOf sp (s.put D sp k dp) j = blockOf sp s j := fun _ => rfl
  rw [slot, hblock]
  change Function.update s.dir _ (Function.update _ _ dp) _ _ = _
  by_cases hlk : l = k
  · rw [if_pos hlk, hlk, place]
    dsimp only
    rw [Function.update_self, Function.update_self]
  · rw [if_neg hlk, place]
    dsimp only
    by_cases hb : blockOf sp s (l / nrDirEntries D sp) = blockOf sp s (k / nrDirEntries D sp)
    · have hdiv := hown.apart _ (blockOf_slot h hl) _ (blockOf_slot h hk) hb
      have hmod : l % nrDirEntries D sp ≠ k % nrDirEntries D sp := by
        intro heq
        rw [← Nat.div_add_mod l (nrDirEntries D sp), hdiv, heq, Nat.div_add_mod] at hlk
        exact hlk rfl
      rw [hb, Function.update_self, Function.update_of_ne hmod, slot, hb]
    · rw [Function.update_of_ne hb]
      rfl

theorem DirFile.put (h : DirFile D sp s) (hown : OwnBlocks sp s) (hk : k < s.slots D)
    (hfresh : dp.dIno ≠ 0 → ∀ l < s.slots D, l ≠ k → ¬ Named D sp s (cname D dp.dName) l) :
    DirFile D sp (s.put D sp k dp) where
  mode := h.mode
  positive := h.positive
  whole := h.whole
  mapped := h.mapped
  distinct i hi j hj := by
    rw [put_slot h hown hk hi, put_slot h hown hk hj]
    by_cases hik : i = k <;> by_cases hjk : j = k
    · exact fun _ _ _ => hik.trans hjk.symm
    · rw [if_pos hik, if_neg hjk]
      exact fun hused hj' heq => absurd ⟨hj', heq.symm⟩ (hfresh hused j hj hjk)
    · rw [if_neg hik, if_pos hjk]
      exact fun hi' hused heq => absurd ⟨hi', heq⟩ (hfresh hused i hi hik)
    · rw [if_neg hik, if_neg hjk]
      exact h.distinct i hi j hj

theorem dirMap_put (h : DirFile D sp s) (hown : OwnBlocks sp s) (hk : k < s.slots D)
    (hfresh : dp.dIno ≠ 0 → ∀ l < s.slots D, l ≠ k → ¬ Named D sp s (cname D dp.dName) l) :
    dirMap D sp (s.put D sp k dp) name =
      if dp.dIno ≠ 0 ∧ cname D dp.dName = name then some (conv4 sp.sNative dp.dIno)
      else if Named D sp s name k then none else dirMap D sp s name := by
  refine Option.ext fun ino => ?_
  rw [dirMap_eq_some (h.put hown hk hfresh)]
  have hothers : (∃ l < s.slots D, l ≠ k ∧ Named D sp s name l ∧
      conv4 sp.sNative (slot D sp s l).dIno = ino) ↔
        ¬ Named D sp s name k ∧ dirMap D sp s name = some ino := by
    rw [dirMap_eq_some h]
    constructor
    · rintro ⟨l, hl, hlk, hnamed, hino⟩
      refine ⟨fun hk' => hlk ?_, l, hl, hnamed, hino⟩
      exact h.distinct l hl k hk hnamed.1 hk'.1 (hnamed.2.trans hk'.2.symm)
    · rintro ⟨hno, l, hl, hnamed, hino⟩
      exact ⟨l, hl, fun hlk => hno (hlk ▸ hnamed), hnamed, hino⟩
  have hsplit : (∃ l < s.slots D, Named D sp (s.put D sp k dp) name l ∧
      conv4 sp.sNative (slot D sp (s.put D sp k dp) l).dIno = ino) ↔
        (dp.dIno ≠ 0 ∧ cname D dp.dName = name) ∧ conv4 sp.sNative dp.dIno = ino ∨
          ¬ Named D sp s name k ∧ dirMap D sp s name = some ino := by
    rw [← hothers]
    constructor
    · rintro ⟨l, hl, hnamed, hino⟩
      rw [Named, put_slot h hown hk hl] at hnamed
      rw [put_slot h hown hk hl] at hino
      by_cases hlk : l = k
      · rw [if_pos hlk] at hnamed hino
        exact .inl ⟨hnamed, hino⟩
      · rw [if_neg hlk] at hnamed hino
        exact .inr ⟨l, hl, hlk, hnamed, hino⟩
    · rintro (⟨hnamed, hino⟩ | ⟨l, hl, hlk, hnamed, hino⟩)
      · refine ⟨k, hk, ?_, ?_⟩
        · rwa [Named, put_slot h hown hk hk, if_pos rfl]
        · rwa [put_slot h hown hk hk, if_pos rfl]
      · refine ⟨l, hl, ?_, ?_⟩
        · rwa [Named, put_slot h hown hk hl, if_neg hlk]
        · rwa [put_slot h hown hk hl, if_neg hlk]
  rw [show (s.put D sp k dp).slots D = s.slots D from rfl, hsplit]
  by_cases hnew : dp.dIno ≠ 0 ∧ cname D dp.dName = name
  · rw [if_pos hnew, Option.some_inj]
    refine ⟨fun hor => hor.elim (·.2) fun hold => ?_, fun hino => .inl ⟨hnew, hino⟩⟩
    obtain ⟨l, hl, hlk, hnamed, -⟩ := hothers.mpr hold
    exact absurd (hnew.2.symm ▸ hnamed) (hfresh hnew.1 l hl hlk)
  · rw [if_neg hnew]
    by_cases hold : Named D sp s name k
    · rw [if_pos hold]
      exact ⟨fun hor => hor.elim (fun h' => absurd h'.1 hnew) fun h' => absurd hold h'.1,
        fun hno => (by cases hno)⟩
    · rw [if_neg hold]
      exact ⟨fun hor => hor.elim (fun h' => absurd h'.1 hnew) (·.2), fun hino => .inr ⟨hold, hino⟩⟩

end Slots

section Answers
variable {H : MfsHeaders} (D : DirHeaders) (sp : ZoneSuper H) (s : DirState H) (now : BitVec 32)
  (stale : BitVec 32 → IndBlock)

def LooksUp : Prop := ∀ a string numb, forbidden sp .LOOK_UP a = none →
  searchDir D sp now stale a .LOOK_UP string numb s =
    .ok (match dirMap D sp s (cname D string) with
      | some ino => .numb ino
      | none => .error .ENOENT, s)

def Deletes : Prop := ∀ a string numb, forbidden sp .DELETE a = none →
  ∃ s', searchDir D sp now stale a .DELETE string numb s =
      .ok (if (dirMap D sp s (cname D string)).isSome then .OK else .error .ENOENT, s') ∧
    DirFile D sp s' ∧ OwnBlocks sp s' ∧
    dirMap D sp s' = Function.update (dirMap D sp s) (cname D string) none

def TellsEmpty : Prop := ∀ a string numb,
  ∃ r, searchDir D sp now stale a .IS_EMPTY string numb s = .ok (r, s) ∧
    (r = .OK ∧ (∀ name, (dirMap D sp s name).isSome → name = dot1 ∨ name = dot2) ∨
      r = .error .ENOTEMPTY ∧ ∃ name, name ≠ dot1 ∧ name ≠ dot2 ∧ (dirMap D sp s name).isSome)

def Enters : Prop := ∀ a string numb, forbidden sp .ENTER a = none → numb ≠ 0 →
  dirMap D sp s (cname D string) = none → (∃ k < s.slots D, (slot D sp s k).dIno = 0) →
    ∃ s', searchDir D sp now stale a .ENTER string numb s = .ok (.OK, s') ∧
      DirFile D sp s' ∧ OwnBlocks sp s' ∧
      dirMap D sp s' = Function.update (dirMap D sp s) (cname D string) (some numb)

structure AsMap : Prop where
  look : LooksUp D sp s now stale
  delete : Deletes D sp s now stale
  empty : TellsEmpty D sp s now stale
  enter : Enters D sp s now stale

end Answers

section Calls
variable {H : MfsHeaders} {D : DirHeaders} {sp : ZoneSuper H} {s : DirState H} {k : ℕ}
  {now : BitVec 32} {stale : BitVec 32 → IndBlock} {string : ℕ → BitVec 8}

theorem cname_ne (name : ℕ → BitVec 8) : ∀ c ∈ cname D name, c ≠ 0 := fun _ hc =>
  @CString.strAt_ne ((List.range D.NAME_MAX).map name) 0 _ hc

theorem cname_padded : cname D (paddedName D string) = cname D string := by
  have hle : (cname D string).length ≤ D.NAME_MAX := by
    have hprefix := (List.takeWhile_prefix (l := (List.range D.NAME_MAX).map string)
      fun c : BitVec 8 => decide (c ≠ 0)).length_le
    rwa [List.length_map, List.length_range] at hprefix
  have hpadded : (List.range D.NAME_MAX).map (paddedName D string) =
      cname D string ++ List.replicate (D.NAME_MAX - (cname D string).length) 0 := by
    refine List.ext_getElem (by simp [hle]) fun i hi _ => ?_
    rw [List.getElem_map, List.getElem_range, paddedName, List.getElem_append]
    split
    · rename_i hlt
      rw [List.getElem?_eq_getElem hlt, Option.getD_some]
    · rename_i hge
      rw [List.getElem?_eq_none (not_lt.mp hge), List.getElem_replicate, Option.getD_none]
  rw [cname, hpadded, List.takeWhile_append_of_pos fun c hc => decide_eq_true (cname_ne _ c hc),
    List.takeWhile_replicate]
  simp

theorem lookUp_map (h : DirFile D sp s) (hown : OwnBlocks sp s) :
    LooksUp D sp s now stale := by
  intro a string numb ha
  have hsearch := scanDir_searched .LOOK_UP string h
  rw [search_eq h ha]
  generalize scanDir D sp .LOOK_UP string s 0 0 = r at hsearch
  cases hsearch with
  | @hit k _ hk _ hmatch =>
    rw [(dirMap_eq_some h).mpr ⟨k, hk, hmatch, rfl⟩]
    rfl
  | free _ _ _ hflag => cases hflag
  | room hflag => cases hflag
  | through _ hbefore =>
    rw [dirMap_eq_none.mpr fun k hk hnamed => hbefore k (Nat.zero_le k) hk (.inl hnamed)]
    rfl
  | overflow _ _ hlimit => exact absurd hown.limit (not_lt.mpr hlimit)

theorem delete_map (h : DirFile D sp s) (hown : OwnBlocks sp s) :
    Deletes D sp s now stale := by
  intro a string numb ha
  have hsearch := scanDir_searched .DELETE string h
  rw [search_eq h ha]
  generalize scanDir D sp .DELETE string s 0 0 = r at hsearch
  cases hsearch with
  | @hit k _ hk _ hmatch =>
    have hfree : (⟨0, savedName D (slot D sp s k)⟩ : Direct).dIno ≠ 0 → ∀ l < s.slots D, l ≠ k →
        ¬ Named D sp s (cname D (savedName D (slot D sp s k))) l := fun hno => absurd rfl hno
    rw [(dirMap_eq_some h).mpr ⟨k, hk, hmatch, rfl⟩]
    refine ⟨s.put D sp k ⟨0, savedName D (slot D sp s k)⟩, rfl, h.put hown hk hfree,
      ⟨hown.apart, hown.limit⟩, funext fun name => ?_⟩
    rw [dirMap_put h hown hk hfree, if_neg fun hno => hno.1 rfl]
    by_cases hname : name = cname D string
    · rw [hname, Function.update_self, if_pos (show Named D sp s _ k from hmatch)]
    · rw [Function.update_of_ne hname, if_neg fun hk' => hname (hk'.2.symm.trans hmatch.2)]
  | free _ _ _ hflag => cases hflag
  | room hflag => cases hflag
  | through _ hbefore =>
    have hnone : dirMap D sp s (cname D string) = none :=
      dirMap_eq_none.mpr fun k hk hnamed => hbefore k (Nat.zero_le k) hk (.inl hnamed)
    rw [hnone]
    exact ⟨s, rfl, h, hown, by rw [← hnone, Function.update_eq_self]⟩
  | overflow _ _ hlimit => exact absurd hown.limit (not_lt.mpr hlimit)

theorem isEmpty_map (h : DirFile D sp s) (hown : OwnBlocks sp s) :
    TellsEmpty D sp s now stale := by
  intro a string numb
  have hsearch := scanDir_searched .IS_EMPTY string h
  rw [search_eq h (if_pos rfl)]
  generalize scanDir D sp .IS_EMPTY string s 0 0 = r at hsearch
  cases hsearch with
  | @hit k _ hk _ hmatch =>
    refine ⟨_, rfl, .inr ⟨rfl, _, hmatch.2.1, hmatch.2.2, ?_⟩⟩
    rw [(dirMap_eq_some h).mpr ⟨k, hk, ⟨hmatch.1, rfl⟩, rfl⟩]
    rfl
  | free _ _ _ hflag => cases hflag
  | room hflag => cases hflag
  | through _ hbefore =>
    refine ⟨_, rfl, .inl ⟨rfl, fun name hname => ?_⟩⟩
    obtain ⟨ino, hino⟩ := Option.isSome_iff_exists.mp hname
    obtain ⟨k, hk, hnamed, -⟩ := (dirMap_eq_some h).mp hino
    by_contra hdots
    rw [not_or] at hdots
    have hne : cname D (slot D sp s k).dName = name := hnamed.2
    exact hbefore k (Nat.zero_le k) hk (.inl ⟨hnamed.1, hne ▸ hdots.1, hne ▸ hdots.2⟩)
  | overflow _ _ hlimit => exact absurd hown.limit (not_lt.mpr hlimit)

theorem enter_map (h : DirFile D sp s) (hown : OwnBlocks sp s) :
    Enters D sp s now stale := by
  intro a string numb ha hnumb hnone hhole
  have hsearch := scanDir_searched .ENTER string h
  rw [search_eq h ha]
  obtain ⟨l, hl, hempty⟩ := hhole
  have hstops : Stops D .ENTER string (slot D sp s l) := .inr ⟨rfl, hempty⟩
  generalize scanDir D sp .ENTER string s 0 0 = r at hsearch
  cases hsearch with
  | hit _ _ _ hmatch => cases hmatch.2
  | @free k _ hk _ _ hfree =>
    have hfresh : (⟨conv4 sp.sNative numb, paddedName D string⟩ : Direct).dIno ≠ 0 →
        ∀ l < s.slots D, l ≠ k → ¬ Named D sp s (cname D (paddedName D string)) l := by
      intro _ l hl _
      rw [cname_padded]
      exact dirMap_eq_none.mp hnone l hl
    refine ⟨s.put D sp k ⟨conv4 sp.sNative numb, paddedName D string⟩, ?_, h.put hown hk hfresh,
      ⟨hown.apart, hown.limit⟩, funext fun name => ?_⟩
    · dsimp only [afterSearch]
      rw [enterSlot, if_neg (not_lt.mpr hk)]
      rfl
    · have hno : ¬ Named D sp s name k := fun hnamed => hnamed.1 hfree
      rw [dirMap_put h hown hk hfresh, cname_padded, if_neg hno, conv4_conv4]
      by_cases hname : name = cname D string
      · rw [hname, Function.update_self, if_pos ⟨mt (conv4_zero _).mp hnumb, rfl⟩]
      · rw [Function.update_of_ne hname, if_neg fun hnew => hname hnew.2.symm]
  | room _ _ hbefore => exact absurd hstops (hbefore l (Nat.zero_le l) hl)
  | through _ hbefore => exact absurd hstops (hbefore l (Nat.zero_le l) hl)
  | overflow _ hflag => exact absurd rfl hflag

theorem searchDir_map (h : DirFile D sp s) (hown : OwnBlocks sp s) : AsMap D sp s now stale :=
  ⟨lookUp_map h hown, delete_map h hown, isEmpty_map h hown, enter_map h hown⟩

end Calls

theorem fourSlots_own : OwnBlocks (dirSuper true) fourSlots := by
  refine ⟨fun i hi j hj _ => ?_, ?_⟩
  · rw [fourSlots_blocks] at hi hj
    omega
  · rw [fourSlots_blocks]
    exact show 1 * 1024 < 2 ^ 31 by decide

theorem searchDir_map_four :
    AsMap dirHeaders (dirSuper true) fourSlots 0 fun _ => Mfs.zeroBlock :=
  searchDir_map fourSlots_file fourSlots_own

end Mfs.Entries
