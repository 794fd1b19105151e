import Cs111.Ds.Publish

namespace Ds

section Kinds
variable {types : DsTypes} {kind kind' : DsType}

theorem single_eq_some : types.single = some kind ↔ types = kind.bits := by
  constructor
  · intro h
    have hbits := List.find?_some h
    exact (of_decide_eq_true hbits).symm
  · rintro rfl
    cases kind <;> rfl

theorem meets_bits : kind.bits.meets kind'.bits = true ↔ kind = kind' := by
  cases kind <;> cases kind' <;> decide

theorem label_bits : kind.bits.label = true ↔ kind = .LABEL := by
  cases kind <;> decide

theorem meets_label : types.meets DsType.LABEL.bits = types.label := by
  simp [DsTypes.meets, DsType.bits]

end Kinds

section Entries
variable {s s' : DsServer} {k : ℕ} {d : DataStore} {kind : DsType}

theorem found_entry {p : DataStore → Bool} (h : s.dsStore.findIdx? p = some k) :
    ∃ d, s.dsStore[k]? = some d ∧ p d = true := by
  obtain ⟨hk, hp, -⟩ := List.findIdx?_eq_some_iff_getElem.mp h
  exact ⟨_, List.getElem?_eq_getElem hk, hp⟩

theorem missing_entry {p : DataStore → Bool} (h : s.dsStore.findIdx? p = none)
    (hd : s.dsStore[k]? = some d) : p d = false :=
  List.findIdx?_eq_none_iff.mp h d (List.mem_of_getElem? hd)

theorem setEntry_eq {d₀ d' : DataStore} (hd : s.dsStore[k]? = some d₀)
    (hset : s'.dsStore = s.dsStore.set k d') (j : ℕ) :
    s'.dsStore[j]? = if j = k then some d' else s.dsStore[j]? := by
  obtain ⟨hk, -⟩ := List.getElem?_eq_some_iff.mp hd
  rw [hset]
  by_cases hj : j = k
  · rw [if_pos hj, hj, List.getElem?_set_self hk]
  · rw [if_neg hj, List.getElem?_set_ne (Ne.symm hj)]

def Typed (s : DsServer) : Prop :=
  ∀ (k : ℕ) (d : DataStore), s.dsStore[k]? = some d → d.inUse = true →
    ∃ kind, d.types = DsType.bits kind ∧ (kind = .LABEL → ∃ num, d.u = .u32 num)

def IsLabel (s : DsServer) (k : ℕ) (name : String) (num : ℤ) : Prop :=
  ∃ d, s.dsStore[k]? = some d ∧ d.inUse = true ∧ d.types.label = true ∧ d.key = name ∧
    d.u = .u32 num

theorem Typed.label (h : Typed s) (hd : s.dsStore[k]? = some d) (huse : d.inUse = true)
    (hlabel : d.types.label = true) : ∃ num, IsLabel s k d.key num := by
  obtain ⟨kind, htypes, hnum⟩ := h k d hd huse
  rw [htypes, label_bits] at hlabel
  obtain ⟨num, hu⟩ := hnum hlabel
  exact ⟨num, d, hd, huse, by rw [htypes, label_bits]; exact hlabel, rfl, hu⟩

def Alike (s s' : DsServer) : Prop :=
  ∀ k : ℕ, s'.dsStore[k]? = s.dsStore[k]? ∨ ∃ d u, s.dsStore[k]? = some d ∧
    s'.dsStore[k]? = some { d with u := u } ∧ (d.inUse = true → d.types.label = false)

theorem Alike.same (h : s'.dsStore = s.dsStore) : Alike s s' := fun k => .inl (by rw [h])

theorem Alike.entry (h : Alike s s') (hd : s.dsStore[k]? = some d) :
    ∃ u, s'.dsStore[k]? = some { d with u := u } ∧
      (d.inUse = true → d.types.label = true → u = d.u) := by
  rcases h k with hk | ⟨d₀, u, hd₀, hk, hlabel⟩
  · exact ⟨d.u, by rw [hk, hd], fun _ _ => rfl⟩
  · rw [hd] at hd₀
    cases hd₀
    refine ⟨u, hk, fun huse hl => ?_⟩
    rw [hlabel huse] at hl
    cases hl

theorem Alike.entry_before (h : Alike s s') {d' : DataStore} (hd : s'.dsStore[k]? = some d') :
    ∃ d u, s.dsStore[k]? = some d ∧ d' = { d with u := u } ∧
      (d.inUse = true → d.types.label = true → u = d.u) := by
  rcases h k with hk | ⟨d, u, hd₀, hk, hlabel⟩
  · exact ⟨d', d'.u, by rw [← hk, hd], rfl, fun _ _ => rfl⟩
  · rw [hd] at hk
    refine ⟨d, u, hd₀, Option.some.inj hk, fun huse hl => ?_⟩
    rw [hlabel huse] at hl
    cases hl

theorem Alike.typed (h : Alike s s') (ht : Typed s) : Typed s' := by
  intro k d' hd' huse
  obtain ⟨d, u, hd, rfl, hu⟩ := h.entry_before hd'
  obtain ⟨kind, htypes, hnum⟩ := ht k d hd huse
  refine ⟨kind, htypes, fun hkind => ?_⟩
  obtain ⟨num, hv⟩ := hnum hkind
  exact ⟨num, by rw [← hv]; exact hu huse (by rw [htypes, label_bits]; exact hkind)⟩

theorem Alike.label_iff (h : Alike s s') {name : String} {num : ℤ} :
    IsLabel s' k name num ↔ IsLabel s k name num := by
  constructor
  · rintro ⟨d', hd', huse, hlabel, hkey, hu'⟩
    obtain ⟨d, u, hd, rfl, hu⟩ := h.entry_before hd'
    exact ⟨d, hd, huse, hlabel, hkey, by rw [← hu huse hlabel]; exact hu'⟩
  · rintro ⟨d, hd, huse, hlabel, hkey, hnum⟩
    obtain ⟨u, hd', hu⟩ := h.entry hd
    exact ⟨_, hd', huse, hlabel, hkey, by rw [← hnum]; exact hu huse hlabel⟩

end Entries

section Storing
variable {C : DsConfig} {s s' : DsServer} {k a : ℕ} {d : DataStore} {m : PublishArg}
  {r : Option Errno}

theorem freeBlock_ok (h : freeBlock a s = .ok s') : s'.dsStore = s.dsStore := by
  rw [freeBlock] at h
  split at h
  · cases h
    rfl
  · split at h <;> cases h
    rfl

theorem copyIn_ok {block : Option ℕ} {bytes : List Byte} (h : copyIn s block bytes = .ok s') :
    s'.dsStore = s.dsStore := by
  simp only [copyIn] at h
  split at h
  · cases h
  · split at h
    · cases h
    · split at h <;> cases h
      rfl

def Revalued (k : ℕ) (d : DataStore) (s s' : DsServer) : Prop :=
  ∃ u, s'.dsStore = s.dsStore.set k { d with u := u }

theorem Revalued.refl (hd : s.dsStore[k]? = some d) : Revalued k d s s :=
  ⟨d.u, by
    obtain ⟨hk, rfl⟩ := List.getElem?_eq_some_iff.mp hd
    exact (List.set_getElem_self hk).symm⟩

theorem newBuffer_ok {length reallen : ℕ} {b : Option ℕ}
    (h : newBuffer k d m length reallen s = (b, s')) : Revalued k d s s' := by
  rw [newBuffer] at h
  split at h <;> cases h <;> exact ⟨_, rfl⟩

theorem dataBuffer_ok (hd : s.dsStore[k]? = some d) {b : Option ℕ}
    (h : dataBuffer k d m s = .ok (b, s')) : Revalued k d s s' := by
  rw [dataBuffer] at h
  split at h
  · exact newBuffer_ok (Except.ok.inj h)
  · split at h
    · split at h
      · split at h
        · cases h
        · rename_i s₁ hfree
          obtain ⟨u, hu⟩ := newBuffer_ok (Except.ok.inj h)
          exact ⟨u, by rw [hu, freeBlock_ok hfree]⟩
      · cases h
        exact .refl hd
    · cases h

theorem fillBuffer_ok (h : fillBuffer k m a s = .ok (r, s')) :
    s'.dsStore = s.dsStore ∨ ∃ d, s.dsStore[k]? = some d ∧ Revalued k d s s' := by
  rw [fillBuffer] at h
  split at h
  · split at h
    · cases h
    · rename_i hfree
      cases h
      exact .inl (freeBlock_ok hfree)
  · split at h
    · cases h
    · split at h
      · cases h
      · rename_i s₁ hcopy
        split at h
        · rename_i hd
          cases h
          rw [copyIn_ok hcopy] at hd
          exact .inr ⟨_, hd, _, by rw [setEntry, copyIn_ok hcopy]⟩
        · cases h

theorem storeMem_ok (hd : s.dsStore[k]? = some d) (h : storeMem k d m s = .ok (r, s')) :
    Revalued k d s s' := by
  rw [storeMem] at h
  split at h
  · cases h
  · rename_i s₁ hbuffer
    cases h
    exact dataBuffer_ok hd hbuffer
  · rename_i s₁ hbuffer
    obtain ⟨u, hu⟩ := dataBuffer_ok hd hbuffer
    rcases fillBuffer_ok h with hs | ⟨d₁, hd₁, u₁, hu₁⟩
    · exact ⟨u, hs.trans hu⟩
    · rw [setEntry_eq hd hu, if_pos rfl] at hd₁
      cases hd₁
      exact ⟨u₁, by rw [hu₁, hu, List.set_set]⟩

theorem storeMap_ok (hd : s.dsStore[k]? = some d) (h : storeMap C k d m s = (r, s')) :
    Revalued k d s s' := by
  simp only [storeMap] at h
  split at h
  · cases h
    exact .refl hd
  · split at h <;> cases h
    · exact .refl hd
    · exact ⟨_, rfl⟩

theorem storeValue_ok (hd : s.dsStore[k]? = some d) (h : storeValue C k d m s = .ok (r, s')) :
    (r ≠ none ∧ s' = s) ∨
    ∃ kind u, m.flags.types = DsType.bits kind ∧ s'.dsStore = s.dsStore.set k { d with u := u } ∧
      (kind = .LABEL → r = none ∧ u = .u32 m.val) := by
  rw [storeValue] at h
  split at h
  · cases h
    exact .inl ⟨nofun, rfl⟩
  · rename_i hkind
    cases h
    exact .inr ⟨_, _, single_eq_some.mp hkind, rfl, nofun⟩
  · rename_i hkind
    cases h
    exact .inr ⟨_, _, single_eq_some.mp hkind, rfl, fun _ => ⟨rfl, rfl⟩⟩
  · rename_i hkind
    obtain ⟨u, hu⟩ := storeMem_ok hd h
    exact .inr ⟨_, u, single_eq_some.mp hkind, hu, nofun⟩
  · rename_i hkind
    obtain ⟨u, hu⟩ := storeMem_ok hd h
    exact .inr ⟨_, u, single_eq_some.mp hkind, hu, nofun⟩
  · rename_i hkind
    obtain ⟨u, hu⟩ := storeMap_ok hd (Except.ok.inj h)
    exact .inr ⟨_, u, single_eq_some.mp hkind, hu, nofun⟩

end Storing

section Publishing
variable {C : DsConfig} {s : DsServer} {t t' : DsTables} {k : ℕ} {d : DataStore} {m : PublishArg}
  {who : ℤ} {key : KeyArg} {keyName : String} {source : NamePtr} {r : Except Errno Unit}

inductive Slotted (s : DsServer) (m : PublishArg) (keyName : String) (d : DataStore) : Prop
  | fresh : d.inUse = false → lookupEntry s keyName m.flags.types = none →
      (m.flags.types.label = true → lookupLabelSlot s m.val = none) → Slotted s m keyName d
  | named : d.inUse = true → d.types.meets m.flags.types = true → d.key = keyName →
      Slotted s m keyName d
  | numbered : d.inUse = true → m.flags.types.label = true → d.types.label = true →
      d.u.isU32 m.val = true → lookupEntry s keyName m.flags.types = none → Slotted s m keyName d

theorem lookupPublished_cases {j : ℕ} (h : lookupPublished s m keyName = some j) :
    ∃ d, s.dsStore[j]? = some d ∧ Slotted s m keyName d := by
  simp only [lookupPublished] at h
  cases hentry : lookupEntry s keyName m.flags.types with
  | some i =>
    rw [hentry] at h
    cases h
    obtain ⟨d, hd, hp⟩ := found_entry hentry
    simp only [Bool.and_eq_true, beq_iff_eq] at hp
    exact ⟨d, hd, .named hp.1.1 hp.1.2 hp.2⟩
  | none =>
    rw [hentry] at h
    dsimp only at h
    split at h
    · rename_i hlabel
      obtain ⟨d, hd, hp⟩ := found_entry h
      simp only [Bool.and_eq_true] at hp
      exact ⟨d, hd, .numbered hp.1.1 hlabel hp.1.2 hp.2 hentry⟩
    · cases h

theorem lookupPublished_none (h : lookupPublished s m keyName = none) :
    lookupEntry s keyName m.flags.types = none ∧
      (m.flags.types.label = true → lookupLabelSlot s m.val = none) := by
  simp only [lookupPublished] at h
  cases hentry : lookupEntry s keyName m.flags.types with
  | some i =>
    rw [hentry] at h
    cases h
  | none =>
    rw [hentry] at h
    refine ⟨rfl, fun hlabel => ?_⟩
    dsimp only at h
    rwa [if_pos hlabel] at h

theorem publishSlot_cases (h : publishSlot C s who m keyName = .ok k) :
    ∃ d, s.dsStore[k]? = some d ∧ Slotted s m keyName d := by
  rw [publishSlot] at h
  cases hfound : lookupPublished s m keyName with
  | none =>
    rw [hfound] at h
    obtain ⟨hentry, hnum⟩ := lookupPublished_none hfound
    cases hslot : allocDataSlot s with
    | none =>
      rw [hslot] at h
      cases h
    | some i =>
      rw [hslot] at h
      cases h
      obtain ⟨d, hd, hfree⟩ := found_entry hslot
      exact ⟨d, hd, .fresh (by simpa using hfree) hentry hnum⟩
  | some j =>
    rw [hfound] at h
    dsimp only at h
    split at h
    · split at h
      · cases h
        exact lookupPublished_cases hfound
      · cases h
    · cases h

def ownerAfter (s : DsServer) (k : ℕ) (keyName : String) : NamePtr → String
  | .firstProcName => "ds"
  | .key j => if j = k then keyName else readName s (.key j)

theorem readName_set {d' : DataStore} (hd : s.dsStore[k]? = some d) {s' : DsServer}
    (hset : s'.dsStore = s.dsStore.set k d') :
    readName s' source = ownerAfter s k d'.key source := by
  cases source with
  | firstProcName => rfl
  | key j =>
    simp only [readName, ownerAfter, setEntry_eq hd hset]
    split <;> rfl

def published (s : DsServer) (k : ℕ) (keyName : String) (source : NamePtr) (m : PublishArg)
    (u : DsUnion) : DataStore :=
  ⟨true, m.flags.types, m.flags.priv, keyName, ownerAfter s k keyName source, u⟩

theorem Slotted.not_label (hs : Typed s) (hd : s.dsStore[k]? = some d)
    (h : Slotted s m keyName d) {kind : DsType} (hkind : m.flags.types = kind.bits)
    (hne : kind ≠ .LABEL) (huse : d.inUse = true) : d.types.label = false := by
  obtain ⟨kind', hkind', -⟩ := hs k d hd huse
  cases h with
  | fresh hfree => rw [huse] at hfree; cases hfree
  | named _ hmeets =>
    rw [hkind, hkind', meets_bits] at hmeets
    rw [hkind', hmeets, Bool.eq_false_iff, ne_eq, label_bits]
    exact hne
  | numbered _ hlabel =>
    rw [hkind, label_bits] at hlabel
    exact absurd hlabel hne

theorem publishAt_cases (hs : Typed t.toDsServer) (hd : t.dsStore[k]? = some d)
    (hslot : Slotted t.toDsServer m keyName d)
    (h : publishAt C k keyName source m t = .ok (r, t')) :
    (Alike t.toDsServer t'.toDsServer ∧ t'.dsSubs = t.dsSubs) ∨
    ∃ kind u, m.flags.types = DsType.bits kind ∧ (kind = .LABEL → u = .u32 m.val) ∧
      t'.dsStore = t.dsStore.set k (published t.toDsServer k keyName source m u) ∧
      t'.dsSubs = t.dsSubs.map (updateSub C t'.toDsServer k
        (published t.toDsServer k keyName source m u) true) := by
  simp only [publishAt, hd] at h
  split at h
  · cases h
  · rename_i e s hstore
    cases h
    refine .inl ⟨?_, rfl⟩
    rcases storeValue_ok hd hstore with ⟨-, rfl⟩ | ⟨kind, u, hkind, hset, hlabel⟩
    · exact .same rfl
    · intro j
      rw [setEntry_eq hd hset]
      by_cases hj : j = k
      · rw [if_pos hj, hj]
        refine .inr ⟨d, u, hd, rfl, hslot.not_label hs hd hkind ?_⟩
        rintro rfl
        cases (hlabel rfl).1
      · exact .inl (if_neg hj)
  · rename_i s hstore
    rcases storeValue_ok hd hstore with ⟨hne, -⟩ | ⟨kind, u, hkind, hset, hlabel⟩
    · exact absurd rfl hne
    · have hd₁ : s.dsStore[k]? = some { d with u := u } := by rw [setEntry_eq hd hset, if_pos rfl]
      rw [hd₁] at h
      cases h
      have hkeys : (setEntry s k { d with key := keyName, u := u }).dsStore =
          t.dsStore.set k { d with key := keyName, u := u } := by
        rw [setEntry, hset, List.set_set]
      have hpublished : setAttributes k keyName source m { d with u := u } s =
          published t.toDsServer k keyName source m u := by
        rw [setAttributes, readName_set hd hkeys]
        rfl
      refine .inr ⟨kind, u, hkind, fun hk => (hlabel hk).2, ?_, ?_⟩
      · rw [hpublished]
        simp only [updateSubscribers, setEntry, hset, List.set_set]
      · rw [hpublished]
        rfl

structure Accepted (C : DsConfig) (t : DsTables) (who : ℤ) (key : KeyArg) (m : PublishArg)
    (source : NamePtr) (keyName : String) (k : ℕ) : Prop where
  source : getNamePtr C t.toDsServer who = some source
  trusted : m.flags.types.label = true → who = C.rsProcNr
  key : getKeyName C.toDsHeaders key = .ok keyName
  slot : publishSlot C t.toDsServer who m keyName = .ok k

theorem doPublish_cases (hs : Typed t.toDsServer) (h : doPublish C t who key m = .ok (r, t')) :
    (Alike t.toDsServer t'.toDsServer ∧ t'.dsSubs = t.dsSubs) ∨
    ∃ source keyName k kind u, Accepted C t who key m source keyName k ∧
      m.flags.types = DsType.bits kind ∧ (kind = .LABEL → u = .u32 m.val) ∧
      t'.dsStore = t.dsStore.set k (published t.toDsServer k keyName source m u) ∧
      t'.dsSubs = t.dsSubs.map (updateSub C t'.toDsServer k
        (published t.toDsServer k keyName source m u) true) := by
  have hsame : Alike t.toDsServer t.toDsServer ∧ t.dsSubs = t.dsSubs := ⟨.same rfl, rfl⟩
  simp only [doPublish] at h
  split at h
  · cases h
    exact .inl hsame
  · rename_i source hsource
    split at h
    · cases h
      exact .inl hsame
    · rename_i htrusted
      split at h
      · cases h
        exact .inl hsame
      · split at h
        · cases h
          exact .inl hsame
        · rename_i keyName hkey
          split at h
          · cases h
            exact .inl hsame
          · rename_i k hk
            obtain ⟨d, hd, hslot⟩ := publishSlot_cases hk
            rcases publishAt_cases hs hd hslot h with hfail | ⟨kind, u, hkind, hu, hset, hsubs⟩
            · exact .inl hfail
            · refine .inr ⟨source, keyName, k, kind, u, ⟨hsource, fun hl => ?_, hkey, hk⟩, hkind,
                hu, hset, hsubs⟩
              by_contra hne
              exact htrusted ⟨hl, hne⟩

end Publishing

section Others
variable {C : DsConfig} {s s' : DsServer} {t t' t₁ : DsTables} {k : ℕ} {d : DataStore}

theorem Alike.set (d' : DataStore) (hd : s.dsStore[k]? = some d)
    (hset : s'.dsStore = s.dsStore.set k { d with u := d'.u })
    (hlabel : d.inUse = true → d.types.label = false) : Alike s s' := by
  intro j
  rw [setEntry_eq hd hset]
  by_cases hj : j = k
  · rw [if_pos hj, hj]
    exact .inr ⟨d, d'.u, hd, rfl, hlabel⟩
  · exact .inl (if_neg hj)

theorem storeSnapshot_ok {H : DsHeaders} {p : DsiMap} {malloc : Option ℕ} {r : Except Errno ℤ}
    (h : storeSnapshot H s k d p malloc = .ok (r, s')) :
    ∃ q, s'.dsStore = s.dsStore.set k { d with u := .map q } := by
  simp only [storeSnapshot] at h
  split at h
  · cases h
  · split at h
    · split at h <;> cases h <;> exact ⟨_, rfl⟩
    · split at h
      · cases h
      · split at h
        · cases h
        · rename_i s₁ hcopy
          cases h
          exact ⟨_, copyIn_ok hcopy⟩

theorem doSnapshot_alike {H : DsHeaders} {who : ℤ} {key : KeyArg} {malloc : Option ℕ}
    {r : Except Errno ℤ} (hs : Typed s) (h : doSnapshot H s who key malloc = .ok (r, s')) :
    Alike s s' := by
  simp only [doSnapshot] at h
  split at h
  · cases h
    exact .same rfl
  · split at h
    · cases h
      exact .same rfl
    · split at h
      · cases h
      · rename_i d hd
        split at h
        · cases h
          exact .same rfl
        · split at h
          · rename_i p hp
            obtain ⟨q, hq⟩ := storeSnapshot_ok h
            refine .set { d with u := .map q } hd hq fun huse => ?_
            by_contra hlabel
            obtain ⟨num, d₁, hd₁, -, -, -, hu⟩ := hs.label hd huse (by simpa using hlabel)
            rw [hd] at hd₁
            cases hd₁
            rw [hp] at hu
            cases hu
          · cases h

def service (label : String) (endpoint : ℤ) : DataStore :=
  ⟨true, DsType.LABEL.bits, noPriv, label, "rs", .u32 endpoint⟩

theorem mapService_cases (C : DsConfig) (t : DsTables) (label : String) (endpoint : ℤ) :
    (mapService C t label endpoint).2 = t ∨
    ∃ k d, t.dsStore[k]? = some d ∧ d.inUse = false ∧
      (mapService C t label endpoint).2.dsStore = t.dsStore.set k (service label endpoint) ∧
      (mapService C t label endpoint).2.dsSubs = t.dsSubs.map
        (updateSub C (mapService C t label endpoint).2.toDsServer k (service label endpoint) true) := by
  cases hslot : allocDataSlot t.toDsServer with
  | none =>
    refine .inl ?_
    simp only [mapService, hslot]
  | some k =>
    obtain ⟨d, hd, hfree⟩ := found_entry hslot
    refine .inr ⟨k, d, hd, by simpa using hfree, ?_⟩
    simp only [mapService, hslot]
    exact ⟨rfl, rfl⟩

theorem freeSnapshots_ok {snapshots : List (Option ℕ)} (h : freeSnapshots snapshots s = .ok s') :
    s'.dsStore = s.dsStore := by
  induction snapshots generalizing s with
  | nil =>
    cases h
    rfl
  | cons b rest ih =>
    cases b with
    | none => cases h
    | some a =>
      simp only [freeSnapshots] at h
      split at h
      · cases h
      · rename_i s₁ hfree
        exact (ih h).trans (freeBlock_ok hfree)

theorem releaseValue_cases {m : DeleteArg} {r : Option Errno}
    (h : releaseValue d m t = .ok (r, t₁)) :
    (r ≠ none ∧ t₁ = t) ∨ r = none ∧ ∃ kind : DsType, m.types = kind.bits ∧
      if kind = .LABEL then t₁ = cleanUp d.key t
      else t₁.dsStore = t.dsStore ∧ t₁.dsSubs = t.dsSubs := by
  rw [releaseValue] at h
  split at h
  · cases h
    exact .inl ⟨nofun, rfl⟩
  · rename_i hkind
    cases h
    exact .inr ⟨rfl, _, single_eq_some.mp hkind, rfl, rfl⟩
  · rename_i hkind
    cases h
    exact .inr ⟨rfl, _, single_eq_some.mp hkind, rfl⟩
  iterate 2
    · rename_i hkind
      split at h
      · split at h <;> cases h
        rename_i hfree
        exact .inr ⟨rfl, _, single_eq_some.mp hkind, freeBlock_ok hfree, rfl⟩
      · cases h
  · rename_i hkind
    split at h
    · split at h
      · cases h
        exact .inl ⟨nofun, rfl⟩
      · split at h <;> cases h
        rename_i hfree
        exact .inr ⟨rfl, _, single_eq_some.mp hkind, freeSnapshots_ok hfree, rfl⟩
    · cases h

structure Doomed (C : DsConfig) (t : DsTables) (who : ℤ) (key : KeyArg) (types : DsTypes) (k : ℕ)
    (d : DataStore) : Prop where
  owner : dsGetprocname C.toDsHeaders t.toDsServer who = some d.owner
  found : ∃ keyName, getKeyName C.toDsHeaders key = .ok keyName ∧
    lookupEntry t.toDsServer keyName types = some k
  entry : t.dsStore[k]? = some d

theorem doDelete_cases {who : ℤ} {key : KeyArg} {m : DeleteArg} {r : Except Errno Unit}
    (h : doDelete C t who key m = .ok (r, t')) :
    t' = t ∨ ∃ k d d₁ t₁, ∃ kind : DsType, Doomed C t who key m.types k d ∧
      m.types = kind.bits ∧
      (if kind = .LABEL then t₁ = cleanUp d.key t
        else t₁.dsStore = t.dsStore ∧ t₁.dsSubs = t.dsSubs) ∧
      t₁.dsStore[k]? = some d₁ ∧ t'.dsStore = t₁.dsStore.set k d₁.clear ∧
      t'.dsSubs = t₁.dsSubs.map (updateSub C t₁.toDsServer k d₁ false) := by
  simp only [doDelete] at h
  split at h
  · cases h
    exact .inl rfl
  · rename_i source hsource
    split at h
    · cases h
      exact .inl rfl
    · rename_i keyName hkey
      split at h
      · cases h
        exact .inl rfl
      · rename_i k hk
        split at h
        · cases h
        · rename_i d hd
          split at h
          · cases h
            exact .inl rfl
          · rename_i howner
            obtain rfl : d.owner = source := not_not.mp howner
            split at h
            · cases h
            · rename_i hrelease
              cases h
              rcases releaseValue_cases hrelease with ⟨-, rfl⟩ | ⟨hnone, -⟩
              · exact .inl rfl
              · cases hnone
            · rename_i t₁ hrelease
              rcases releaseValue_cases hrelease with ⟨hne, -⟩ | ⟨-, kind, htypes, hkind⟩
              · exact absurd rfl hne
              · simp only [dropEntry] at h
                split at h
                · cases h
                · rename_i d₁ hd₁
                  cases h
                  exact .inr ⟨k, d, d₁, t₁, kind, ⟨hsource, ⟨keyName, hkey, hk⟩, hd⟩, htypes,
                    hkind, hd₁, rfl, rfl⟩

end Others

end Ds
