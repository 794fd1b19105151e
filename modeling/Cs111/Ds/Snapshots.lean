import Cs111.Ds.Store
import Cs111.Lib.Runs

namespace Ds
open TransitionSystem

structure DsTraced where
  s : DsServer
  log : List (ℕ × ℤ × List Byte)

inductive DsEvent where
  | snapshot (who : ℤ) (key : KeyArg) (malloc : Option ℕ)
  | retrieve (who : ℤ) (key : KeyArg) (m : RetrieveArg)
  | write (data : ℕ) (bytes : List Byte)

structure Names (H : DsHeaders) (s : DsServer) (key : KeyArg) (k : ℕ) (d : DataStore)
    (p : DsiMap) : Prop where
  slot : ∃ keyName, getKeyName H key = .ok keyName ∧
    lookupEntry s keyName DsType.MAP.bits = some k
  entry : s.dsStore[k]? = some d
  map : d.u = .map p

def contents (s : DsServer) (p : DsiMap) : List Byte := (s.mapped p.data).take p.length

inductive DsStep (H : DsHeaders) (st : DsTraced) : DsEvent → DsTraced → Prop
  | taken {who key malloc index s k d p} : (∀ a, malloc = some a → st.s.heap a = none) →
      Names H st.s key k d p → doSnapshot H st.s who key malloc = .ok (.ok index, s) →
      DsStep H st (.snapshot who key malloc) ⟨s, (k, index, contents st.s p) :: st.log⟩
  | failed {who key malloc e s} : doSnapshot H st.s who key malloc = .ok (.error e, s) →
      DsStep H st (.snapshot who key malloc) ⟨s, st.log⟩
  | retrieved {who key m r} : doRetrieve H st.s who key m = .ok r →
      DsStep H st (.retrieve who key m) st
  | written {data bytes} : DsStep H st (.write data bytes)
      ⟨{ st.s with mapped := Function.update st.s.mapped data bytes }, st.log⟩

def DataStore.Fresh (d : DataStore) : Prop := d.inUse = true → d.types.map = true →
  ∃ p, d.u = .map p ∧ p.snapshots.length = nrDsSnapshot ∧ p.sindex = -1

def dsSystem (H : DsHeaders) : TransitionSystem DsTraced DsEvent where
  initial st := (∀ d ∈ st.s.dsStore, d.Fresh) ∧ st.log = []
  step st e st' := DsStep H st e st'

def taken (k : ℕ) (log : List (ℕ × ℤ × List Byte)) : List (ℤ × List Byte) :=
  (log.filter fun x => x.1 = k).map (·.2)

structure DsiMap.Keeps (p : DsiMap) (heap : ℕ → Option (List Byte))
    (ys : List (ℤ × List Byte)) : Prop where
  slots : p.snapshots.length = nrDsSnapshot
  count : p.sindex + 1 = ys.length
  few : ys.length ≤ nrDsSnapshot
  indices : ys.map (·.1) = (List.range ys.length).reverse.map fun j : ℕ => (j : ℤ)
  stored : ∀ y ∈ ys, ∃ a, p.snapshots[y.1.toNat]? = some (some a) ∧ heap a = some y.2

def DsTraced.Kept (st : DsTraced) : Prop :=
  ∀ k (d : DataStore), st.s.dsStore[k]? = some d → d.inUse = true → d.types.map = true →
    ∃ p, d.u = .map p ∧ p.Keeps st.s.heap (taken k st.log)

def DsEvent.Meets (H : DsHeaders) (s : DsServer) : DsEvent → Prop
  | .snapshot who key _ => ∀ k d p, Names H s key k d p → checkAuth H s d who (·.snapshot) = true →
      p.sindex + 1 < nrDsSnapshot
  | _ => True

section Maps
variable {p : DsiMap} {heap : ℕ → Option (List Byte)} {ys : List (ℤ × List Byte)} {j : ℕ}

theorem taken_cons {k k' : ℕ} {y : ℤ × List Byte} {log : List (ℕ × ℤ × List Byte)} :
    taken k ((k', y) :: log) = if k' = k then y :: taken k log else taken k log := by
  rw [taken, List.filter_cons]
  by_cases hk : k' = k
  · rw [if_pos (by simpa using hk), if_pos hk, List.map_cons, taken]
  · rw [if_neg (by simpa using hk), if_neg hk, taken]

theorem DsiMap.Keeps.index_lt (h : p.Keeps heap ys) {y : ℤ × List Byte} (hy : y ∈ ys) :
    ∃ j : ℕ, y.1 = j ∧ j < ys.length := by
  have hmem : y.1 ∈ ys.map (·.1) := List.mem_map_of_mem hy
  rw [h.indices] at hmem
  obtain ⟨j, hj, hy⟩ := List.mem_map.mp hmem
  exact ⟨j, hy.symm, List.mem_range.mp (List.mem_reverse.mp hj)⟩

theorem DsiMap.Keeps.find (h : p.Keeps heap ys) (hj : j < ys.length) :
    ∃ c, ((j : ℤ), c) ∈ ys := by
  have hmem : (j : ℤ) ∈ ys.map (·.1) := by
    rw [h.indices]
    exact List.mem_map_of_mem (List.mem_reverse.mpr (List.mem_range.mpr hj))
  obtain ⟨⟨_, c⟩, hc, rfl⟩ := List.mem_map.mp hmem
  exact ⟨c, hc⟩

theorem DsiMap.Keeps.fresh (h : p.Keeps heap ys) {a : ℕ} (ha : heap a = none) (c : List Byte) :
    p.Keeps (Function.update heap a (some c)) ys := by
  refine { h with stored := fun y hy => ?_ }
  obtain ⟨b, hslot, hb⟩ := h.stored y hy
  have hne : b ≠ a := by
    rintro rfl
    rw [ha] at hb
    cases hb
  exact ⟨b, hslot, by rw [Function.update_of_ne hne, hb]⟩

theorem DsiMap.Keeps.setSlot (h : p.Keeps heap ys) (x : Option ℕ) :
    ({ p with snapshots := p.snapshots.set ys.length x } : DsiMap).Keeps heap ys := by
  refine ⟨by rw [List.length_set, h.slots], h.count, h.few, h.indices, fun y hy => ?_⟩
  obtain ⟨j, hyj, hj⟩ := h.index_lt hy
  obtain ⟨a, hslot, ha⟩ := h.stored y hy
  refine ⟨a, ?_, ha⟩
  rw [hyj, Int.toNat_natCast] at hslot ⊢
  rw [List.getElem?_set_ne (by omega), hslot]

theorem DsiMap.Keeps.take (h : p.Keeps heap ys) (hroom : ys.length < nrDsSnapshot) {a : ℕ}
    (ha : heap a = none) (c : List Byte) :
    ({ p with snapshots := p.snapshots.set ys.length (some a), sindex := ys.length } : DsiMap).Keeps
      (Function.update heap a (some c)) (((ys.length : ℤ), c) :: ys) := by
  have hold := (h.setSlot (some a)).fresh ha c
  refine ⟨hold.slots, rfl, hroom, ?_, fun y hy => ?_⟩
  · rw [List.length_cons, List.range_succ, List.reverse_append, List.map_cons, h.indices]
    rfl
  · rcases List.mem_cons.mp hy with rfl | hy
    · refine ⟨a, ?_, Function.update_self ..⟩
      rw [Int.toNat_natCast, List.getElem?_set_self (by rw [h.slots]; exact hroom)]
    · exact hold.stored y hy

end Maps

section Entries
variable {H : DsHeaders} {s : DsServer} {log : List (ℕ × ℤ × List Byte)} {key : KeyArg} {k : ℕ}
  {d : DataStore} {p : DsiMap} {who : ℤ} {malloc : Option ℕ}

theorem lookupEntry_found {keyName : String} {types : DsTypes}
    (h : lookupEntry s keyName types = some k) (hd : s.dsStore[k]? = some d) :
    d.inUse = true ∧ d.types.meets types = true := by
  obtain ⟨hk, hfound, -⟩ := List.findIdx?_eq_some_iff_getElem.mp h
  rw [List.getElem?_eq_getElem hk] at hd
  cases hd
  simp only [Bool.and_eq_true] at hfound
  exact hfound.1

theorem Names.found (h : Names H s key k d p) : d.inUse = true ∧ d.types.map = true := by
  obtain ⟨keyName, -, hk⟩ := h.slot
  obtain ⟨huse, hmeets⟩ := lookupEntry_found hk h.entry
  refine ⟨huse, ?_⟩
  simpa [DsTypes.meets, DsType.bits] using hmeets

theorem Names.doSnapshot_eq (h : Names H s key k d p) (who : ℤ) (malloc : Option ℕ) :
    doSnapshot H s who key malloc =
      if checkAuth H s d who (·.snapshot) = false then .ok (.error .EPERM, s)
      else storeSnapshot H s k d p malloc := by
  obtain ⟨keyName, hkey, hk⟩ := h.slot
  simp only [doSnapshot, hkey, hk, h.entry, h.map]

theorem Names.doRetrieve_eq {m : RetrieveArg} (h : Names H s key k d p)
    (htypes : m.flags.types = DsType.MAP.bits) (hauth : checkAuth H s d who (·.retrieve) = true) :
    doRetrieve H s who key m = retrieveMap s p m := by
  obtain ⟨keyName, hkey, hk⟩ := h.slot
  have hsingle : DsType.MAP.bits.single = some .MAP := rfl
  simp only [doRetrieve, hkey, htypes, hk, h.entry, hauth, retrieveEntry, hsingle, h.map]
  rfl

theorem storeSnapshot_room (h : p.Keeps s.heap (taken k log))
    (hroom : (taken k log).length < nrDsSnapshot) :
    storeSnapshot H s k d p malloc =
      match malloc with
      | none => .ok (.error .ENOMEM,
          setMap s k d { p with snapshots := p.snapshots.set (taken k log).length none })
      | some a => .ok (.ok (taken k log).length,
          { setMap s k d ⟨p.data, p.length, p.snapshots.set (taken k log).length (some a),
              (taken k log).length⟩ with
            heap := Function.update s.heap a (some (contents s p)) }) := by
  have hlt : (taken k log).length < H.dsMaxKeylen := hroom.trans H.dsMaxKeylen_gt
  have hmod : (((taken k log).length : ℤ) % H.dsMaxKeylen).toNat = (taken k log).length := by
    rw [← Int.natCast_mod, Int.toNat_natCast, Nat.mod_eq_of_lt hlt]
  simp only [storeSnapshot, h.count, hmod, h.slots]
  rw [if_neg (not_le.mpr hroom), if_pos (by exact_mod_cast hlt)]
  cases malloc <;> rfl

theorem storeSnapshot_full (h : p.Keeps s.heap (taken k log))
    (hfull : ¬ (taken k log).length < nrDsSnapshot) :
    storeSnapshot H s k d p malloc = .error .outOfBounds := by
  have hlen : (taken k log).length = nrDsSnapshot := le_antisymm h.few (not_lt.mp hfull)
  have hmod : ((nrDsSnapshot : ℤ) % H.dsMaxKeylen).toNat = nrDsSnapshot := by
    rw [← Int.natCast_mod, Int.toNat_natCast,
      Nat.mod_eq_of_lt (show nrDsSnapshot < _ from H.dsMaxKeylen_gt)]
  simp only [storeSnapshot, h.count, hlen, hmod, h.slots]
  rw [if_pos (le_refl _)]

theorem DsTraced.Kept.setMap {log' : List (ℕ × ℤ × List Byte)} {heap : ℕ → Option (List Byte)}
    (h : DsTraced.Kept ⟨s, log⟩) (hd : s.dsStore[k]? = some d) (hp : p.Keeps heap (taken k log'))
    (hothers : ∀ k' ≠ k, taken k' log' = taken k' log)
    (hheap : ∀ q ys, DsiMap.Keeps q s.heap ys → q.Keeps heap ys) :
    DsTraced.Kept ⟨{ setMap s k d p with heap := heap }, log'⟩ := by
  intro k' d' hd' huse hmap
  obtain ⟨hk, -⟩ := List.getElem?_eq_some_iff.mp hd
  by_cases hkk : k = k'
  · subst hkk
    rw [show (Ds.setMap s k d p).dsStore[k]? = _ from List.getElem?_set_self hk] at hd'
    cases hd'
    exact ⟨p, rfl, hp⟩
  · rw [show (Ds.setMap s k d p).dsStore[k']? = _ from List.getElem?_set_ne hkk] at hd'
    obtain ⟨q, hq, hkeeps⟩ := h k' d' hd' huse hmap
    refine ⟨q, hq, ?_⟩
    rw [hothers k' (Ne.symm hkk)]
    exact hheap _ _ hkeeps

theorem DsTraced.Kept.named (h : DsTraced.Kept ⟨s, log⟩) (hn : Names H s key k d p) :
    p.Keeps s.heap (taken k log) := by
  obtain ⟨q, hq, hkeeps⟩ := h k d hn.entry hn.found.1 hn.found.2
  rw [hn.map] at hq
  cases hq
  exact hkeeps

end Entries

section Retrieving
variable {s : DsServer} {p : DsiMap} {ys : List (ℤ × List Byte)} {m : RetrieveArg}

theorem check_index_kept {heap : ℕ → Option (List Byte)} (h : p.Keeps heap ys) (index : ℤ) :
    checkSnapshotIndex p index = true ↔ 0 ≤ index ∧ index < ys.length := by
  have hcount := h.count
  have hfew := h.few
  have hsmall : p.sindex < nrDsSnapshot := by omega
  simp only [checkSnapshotIndex, if_pos hsmall, decide_eq_true_eq]
  omega

def RetrieveFlags.AskSnapshot (f : RetrieveFlags) : Prop :=
  f.types = DsType.MAP.bits ∧ f.mapMapped = false ∧ f.copyMapped = false ∧ f.copySnapshot = true

theorem DsiMap.Keeps.retrieve (h : p.Keeps s.heap ys) (hm : m.flags.AskSnapshot) {c : List Byte}
    (hc : (m.nrSnapshot, c) ∈ ys) : retrieveMap s p m = .ok (copyOut m c p.length) := by
  obtain ⟨-, hmap, hcopy, hsnap⟩ := hm
  obtain ⟨j, hj, hlt⟩ : ∃ j : ℕ, m.nrSnapshot = j ∧ j < ys.length := h.index_lt hc
  obtain ⟨a, hslot, ha⟩ : ∃ a, p.snapshots[m.nrSnapshot.toNat]? = some (some a) ∧
    s.heap a = some c := h.stored _ hc
  have hcheck : checkSnapshotIndex p m.nrSnapshot = true := by
    rw [check_index_kept h, hj]
    exact ⟨Int.natCast_nonneg j, by exact_mod_cast hlt⟩
  have hmod : m.nrSnapshot % nrDsSnapshot = m.nrSnapshot := by
    have hfew := h.few
    rw [hj]
    exact_mod_cast Nat.mod_eq_of_lt (by omega)
  have hread : readBlock s (some a) = .ok c := by simp only [readBlock, ha]
  simp [retrieveMap, hmap, hcopy, hsnap, hcheck, hmod, hslot, hread]

theorem DsiMap.Keeps.refuse (h : p.Keeps s.heap ys) (hm : m.flags.AskSnapshot)
    (hnone : ∀ c, (m.nrSnapshot, c) ∉ ys) : retrieveMap s p m = .ok (.error .EINVAL) := by
  obtain ⟨-, hmap, hcopy, hsnap⟩ := hm
  have hcheck : checkSnapshotIndex p m.nrSnapshot = false := by
    rw [Bool.eq_false_iff]
    intro hcheck
    obtain ⟨hpos, hlt⟩ := (check_index_kept h _).mp hcheck
    obtain ⟨j, hj⟩ := Int.eq_ofNat_of_zero_le hpos
    obtain ⟨c, hc⟩ := h.find (j := j) (by omega)
    exact hnone c (by rw [hj]; exact hc)
  simp [retrieveMap, hmap, hcopy, hsnap, hcheck]

end Retrieving

section Runs
variable {H : DsHeaders} {st st' : DsTraced} {e : DsEvent}

theorem kept_initially (h : (dsSystem H).initial st) : st.Kept := by
  intro k d hd huse hmap
  obtain ⟨p, hp, hlen, hindex⟩ := h.1 d (List.mem_of_getElem? hd) huse hmap
  refine ⟨p, hp, ?_⟩
  rw [h.2]
  exact ⟨hlen, by rw [hindex]; rfl, Nat.zero_le _, rfl, fun y hy => absurd hy List.not_mem_nil⟩

theorem doSnapshot_error {s s' : DsServer} {who : ℤ} {key : KeyArg} {malloc : Option ℕ} {r : Errno}
    (h : doSnapshot H s who key malloc = .ok (.error r, s')) :
    s' = s ∨ ∃ k d p, Names H s key k d p ∧ checkAuth H s d who (·.snapshot) = true ∧
      storeSnapshot H s k d p malloc = .ok (.error r, s') := by
  simp only [doSnapshot] at h
  split at h
  · cases h
    exact .inl rfl
  · rename_i keyName hkey
    split at h
    · cases h
      exact .inl rfl
    · rename_i k hk
      split at h
      · cases h
      · rename_i d hd
        split at h
        · cases h
          exact .inl rfl
        · rename_i hauth
          split at h
          · rename_i p hp
            exact .inr ⟨k, d, p, ⟨⟨keyName, hkey, hk⟩, hd, hp⟩, by simpa using hauth, h⟩
          · cases h

theorem DsTraced.Kept.taken (h : st.Kept) {who : ℤ} {key : KeyArg} {malloc : Option ℕ} {index : ℤ}
    {s : DsServer} {k : ℕ} {d : DataStore} {p : DsiMap}
    (hmalloc : ∀ a, malloc = some a → st.s.heap a = none) (hn : Names H st.s key k d p)
    (hr : doSnapshot H st.s who key malloc = .ok (.ok index, s)) :
    DsTraced.Kept ⟨s, (k, index, contents st.s p) :: st.log⟩ := by
  have hp := h.named hn
  rw [hn.doSnapshot_eq] at hr
  split at hr
  · cases hr
  · by_cases hroom : (Ds.taken k st.log).length < nrDsSnapshot
    · rw [storeSnapshot_room hp hroom] at hr
      cases malloc with
      | none => cases hr
      | some a =>
        cases hr
        refine h.setMap hn.entry ?_ (fun k' hk' => ?_) fun q ys hq => hq.fresh (hmalloc a rfl) _
        · rw [taken_cons, if_pos rfl]
          exact hp.take hroom (hmalloc a rfl) _
        · rw [taken_cons, if_neg (Ne.symm hk')]
    · rw [storeSnapshot_full hp hroom] at hr
      cases hr

theorem DsTraced.Kept.failed (h : st.Kept) {who : ℤ} {key : KeyArg} {malloc : Option ℕ} {r : Errno}
    {s : DsServer} (hr : doSnapshot H st.s who key malloc = .ok (.error r, s)) :
    DsTraced.Kept ⟨s, st.log⟩ := by
  rcases doSnapshot_error hr with rfl | ⟨k, d, p, hn, -, hstore⟩
  · exact h
  · have hp := h.named hn
    by_cases hroom : (Ds.taken k st.log).length < nrDsSnapshot
    · rw [storeSnapshot_room hp hroom] at hstore
      cases malloc with
      | none =>
        cases hstore
        exact h.setMap hn.entry (hp.setSlot none) (fun _ _ => rfl) fun _ _ hq => hq
      | some a => cases hstore
    · rw [storeSnapshot_full hp hroom] at hstore
      cases hstore

theorem DsTraced.Kept.step (h : st.Kept) (hstep : (dsSystem H).step st e st') : st'.Kept := by
  cases hstep with
  | taken hmalloc hn hr => exact h.taken hmalloc hn hr
  | failed hr => exact h.failed hr
  | retrieved => exact h
  | written => exact h

theorem snapshots_retrieved {past : List (DsTraced × DsEvent)}
    (h : Run (dsSystem H) (fun _ st e => e.Meets H st.s) past st) :
    (∀ who key k d p malloc, Names H st.s key k d p →
      checkAuth H st.s d who (·.snapshot) = true →
      ((∃ r, doSnapshot H st.s who key malloc = .ok r) ↔
        (DsEvent.snapshot who key malloc).Meets H st.s)) ∧
    ∀ who key m k d p, Names H st.s key k d p → checkAuth H st.s d who (·.retrieve) = true →
      m.flags.AskSnapshot →
      (∀ c, (m.nrSnapshot, c) ∈ (taken k st.log).take nrDsSnapshot →
        doRetrieve H st.s who key m = .ok (copyOut m c p.length)) ∧
      ((∀ c, (m.nrSnapshot, c) ∉ (taken k st.log).take nrDsSnapshot) →
        doRetrieve H st.s who key m = .ok (.error .EINVAL)) := by
  have hst : st.Kept := h.invariant (fun _ hinit => kept_initially hinit)
    fun _ _ _ _ hst _ hstep => hst.step hstep
  constructor
  · intro who key k d p malloc hn hauth
    have hp := hst.named hn
    have hcount := hp.count
    rw [hn.doSnapshot_eq, if_neg (by simp [hauth])]
    have hmeets : (DsEvent.snapshot who key malloc).Meets H st.s ↔ p.sindex + 1 < nrDsSnapshot := by
      refine ⟨fun hm => hm k d p hn hauth, fun hlt k' d' p' hn' _ => ?_⟩
      obtain ⟨keyName, hkey, hk⟩ := hn.slot
      obtain ⟨keyName', hkey', hk'⟩ := hn'.slot
      have hentry := hn'.entry
      have hmap := hn'.map
      rw [hkey] at hkey'
      cases hkey'
      rw [hk] at hk'
      cases hk'
      rw [hn.entry] at hentry
      cases hentry
      rw [hn.map] at hmap
      cases hmap
      exact hlt
    rw [hmeets]
    by_cases hroom : (taken k st.log).length < nrDsSnapshot
    · rw [storeSnapshot_room hp hroom]
      refine iff_of_true ?_ (by omega)
      cases malloc with
      | none => exact ⟨_, rfl⟩
      | some a => exact ⟨_, rfl⟩
    · rw [storeSnapshot_full hp hroom]
      refine iff_of_false ?_ (by omega)
      rintro ⟨r, hr⟩
      cases hr
  · intro who key m k d p hn hauth hm
    have hp := hst.named hn
    rw [List.take_of_length_le hp.few, hn.doRetrieve_eq hm.1 hauth]
    exact ⟨fun c hc => hp.retrieve hm hc, hp.refuse hm⟩

end Runs

def screen (p : DsiMap) : DataStore :=
  ⟨true, DsType.MAP.bits, ⟨false, false, false, false⟩, "fb", "video", .map p⟩

def screenKey : KeyArg := ⟨3, .ok "fb"⟩

def mappedScreen : DsTraced :=
  ⟨⟨[screen ⟨0, 1, List.replicate nrDsSnapshot none, -1⟩], fun _ => none, fun _ => [7]⟩, []⟩

def snapshotScreen (st : DsTraced) : DsTraced :=
  match doSnapshot ⟨80, 6, by decide⟩ st.s 9 screenKey (some st.log.length) with
  | .ok (.ok index, s) => ⟨s, (0, index, [7]) :: st.log⟩
  | _ => st

theorem names_screen {s : DsServer} {p : DsiMap} (h : s.dsStore = [screen p]) :
    Names ⟨80, 6, by decide⟩ s screenKey 0 (screen p) p := by
  refine ⟨⟨"fb", rfl, ?_⟩, ?_, rfl⟩
  · rw [lookupEntry, h]
    rfl
  · rw [h]
    rfl

theorem screen_mapped : (dsSystem ⟨80, 6, by decide⟩).initial mappedScreen := by
  refine ⟨fun d hd _ _ => ?_, rfl⟩
  cases List.mem_singleton.mp hd
  exact ⟨_, rfl, rfl, rfl⟩

theorem snapshotScreen_step {st : DsTraced} {p : DsiMap} {index : ℤ} {s : DsServer}
    (hentry : st.s.dsStore = [screen p]) (hbytes : contents st.s p = [7])
    (hfree : st.s.heap st.log.length = none)
    (hr : doSnapshot ⟨80, 6, by decide⟩ st.s 9 screenKey (some st.log.length) =
      .ok (.ok index, s)) :
    DsStep ⟨80, 6, by decide⟩ st (.snapshot 9 screenKey (some st.log.length)) (snapshotScreen st) := by
  have hnext : snapshotScreen st = ⟨s, (0, index, contents st.s p) :: st.log⟩ := by
    simp only [snapshotScreen, hr, hbytes]
  rw [hnext]
  refine .taken (fun a ha => ?_) (names_screen hentry) hr
  cases ha
  exact hfree

theorem snapshots_retrieved_screen :
    doRetrieve ⟨80, 6, by decide⟩ (snapshotScreen mappedScreen).s 9 screenKey
      ⟨⟨DsType.MAP.bits, false, false, true⟩, 1, 0, none, none⟩ = .ok (.ok (.copied [7])) ∧
    doRetrieve ⟨80, 6, by decide⟩ (snapshotScreen mappedScreen).s 9 screenKey
      ⟨⟨DsType.MAP.bits, false, false, true⟩, 1, 1, none, none⟩ = .ok (.error .EINVAL) := by
  have hmeets : (DsEvent.snapshot 9 screenKey (some 0)).Meets ⟨80, 6, by decide⟩ mappedScreen.s := by
    intro k d p hn _
    cases List.mem_singleton.mp (List.mem_of_getElem? hn.entry)
    cases hn.map
    decide
  have hrun : Run (dsSystem ⟨80, 6, by decide⟩) (fun _ st e => e.Meets ⟨80, 6, by decide⟩ st.s) _
      (snapshotScreen mappedScreen) :=
    .next (.start screen_mapped) hmeets (snapshotScreen_step rfl rfl rfl rfl)
  have hkept := (snapshots_retrieved hrun).2 9 screenKey
  refine ⟨(hkept _ 0 _ _ (names_screen rfl) rfl ⟨rfl, rfl, rfl, rfl⟩).1 [7] List.mem_cons_self,
    (hkept _ 0 _ _ (names_screen rfl) rfl ⟨rfl, rfl, rfl, rfl⟩).2 fun c hc => ?_⟩
  cases List.mem_singleton.mp hc

theorem sixth_snapshot_overruns : ∃ past st p,
    Run (dsSystem ⟨80, 6, by decide⟩) always past st ∧
    Names ⟨80, 6, by decide⟩ st.s screenKey 0 (screen p) p ∧
    doSnapshot ⟨80, 6, by decide⟩ st.s 9 screenKey (some 5) = .error .outOfBounds := by
  have h₁ : Run (dsSystem ⟨80, 6, by decide⟩) always _ (snapshotScreen mappedScreen) :=
    .next (.start screen_mapped) trivial (snapshotScreen_step rfl rfl rfl rfl)
  have h₂ := h₁.next trivial (snapshotScreen_step rfl rfl rfl rfl)
  have h₃ := h₂.next trivial (snapshotScreen_step rfl rfl rfl rfl)
  have h₄ := h₃.next trivial (snapshotScreen_step rfl rfl rfl rfl)
  have h₅ := h₄.next trivial (snapshotScreen_step rfl rfl rfl rfl)
  exact ⟨_, _, _, h₅, names_screen rfl, rfl⟩

end Ds
