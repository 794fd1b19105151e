import Cs111.Ds.Labels

namespace Ds

def DsUnion.blocks : DsUnion → List ℕ
  | .u32 _ => []
  | .mem data _ _ => [data]
  | .map p => p.snapshots.filterMap id

structure Intact (t t' : DsTables) : Prop where
  entries : ∀ (k : ℕ) (d : DataStore), t.dsStore[k]? = some d → d.inUse = true →
    t'.dsStore[k]? = some d
  buffers : ∀ (k : ℕ) (d : DataStore), t.dsStore[k]? = some d → d.inUse = true →
    ∀ a ∈ d.u.blocks, t'.heap a = t.heap a
  mapped : t'.mapped = t.mapped
  subs : ∀ (j : ℕ) (sub : Subscription), t.dsSubs[j]? = some sub → sub.inUse = true →
    t'.dsSubs[j]? = some sub

def PublishArg.Malloc (s : DsServer) (m : PublishArg) : Prop :=
  ∀ a, m.malloc = some a → a ≠ 0 ∧ s.heap a = none

inductive MemFailed (k : ℕ) (d : DataStore) (m : PublishArg) (s s' : DsServer) : Prop
  | unused (u : DsUnion) : d.inUse = false → s'.dsStore = s.dsStore.set k { d with u := u } →
      s'.heap = s.heap → MemFailed k d m s s'
  | noRoom (data length reallen : ℕ) (u : DsUnion) : d.inUse = true →
      d.u = .mem data length reallen → reallen < m.valLen →
      s'.dsStore = s.dsStore.set k { d with u := u } →
      (m.malloc = none → u = .mem 0 length reallen ∧ (data = 0 → s'.heap = s.heap)) →
      (m.malloc ≠ none → u ≠ d.u) → MemFailed k d m s s'
  | notCopied (data length reallen : ℕ) : d.inUse = true → d.u = .mem data length reallen →
      m.valLen ≤ reallen → s'.dsStore = s.dsStore → (data = 0 → s'.heap = s.heap) →
      (data ≠ 0 → s'.heap data ≠ s.heap data) → MemFailed k d m s s'

section Storing
variable {C : DsConfig} {s s' : DsServer} {k a : ℕ} {d : DataStore} {m : PublishArg} {e : Errno}

theorem freeBlock_cases (h : freeBlock a s = .ok s') :
    s'.mapped = s.mapped ∧ s'.dsStore = s.dsStore ∧ (a = 0 → s' = s) ∧
      (a ≠ 0 → s.heap a ≠ none ∧ s'.heap = Function.update s.heap a none) := by
  rw [freeBlock] at h
  split at h
  · rename_i ha
    cases h
    exact ⟨rfl, rfl, fun _ => rfl, fun hne => absurd ha hne⟩
  · rename_i ha
    split at h <;> cases h
    rename_i bytes hbytes
    exact ⟨rfl, rfl, fun he => absurd he ha, fun _ => ⟨by simp [hbytes], rfl⟩⟩

theorem fillBuffer_failed (h : fillBuffer k m a s = .ok (some e, s')) :
    freeBlock a s = .ok s' := by
  rw [fillBuffer] at h
  split at h
  · split at h
    · cases h
    · rename_i hfree
      cases h
      exact hfree
  · split at h
    · cases h
    · split at h
      · cases h
      · split at h <;> cases h

theorem newBuffer_failed {length reallen : ℕ} {s₁ : DsServer} (hm : m.Malloc s)
    (hb : newBuffer k d m length reallen s = (some a, s₁))
    (h : fillBuffer k m a s₁ = .ok (some e, s')) :
    s'.mapped = s.mapped ∧ s'.heap = s.heap ∧
      s'.dsStore = s.dsStore.set k { d with u := .mem a length m.valLen } := by
  rw [newBuffer] at hb
  split at hb <;> cases hb
  rename_i hmalloc
  obtain ⟨hne, hfree⟩ := hm a hmalloc
  obtain ⟨hmapped, hstore, -, hheap⟩ := freeBlock_cases (fillBuffer_failed h)
  refine ⟨hmapped, ?_, hstore⟩
  rw [(hheap hne).2]
  funext a'
  by_cases ha : a' = a
  · subst ha
    simp [hfree]
  · simp [ha, setEntry]

theorem Malloc.freed {s₁ : DsServer} (hm : m.Malloc s) (h : freeBlock a s = .ok s₁) :
    m.Malloc s₁ := by
  obtain ⟨-, -, hzero, hheap⟩ := freeBlock_cases h
  intro b hb
  refine ⟨(hm b hb).1, ?_⟩
  by_cases ha : a = 0
  · rw [hzero ha]
    exact (hm b hb).2
  · rw [(hheap ha).2]
    by_cases hba : b = a
    · subst hba
      simp
    · simp [hba, (hm b hb).2]

theorem storeMem_failed (hm : m.Malloc s) (h : storeMem k d m s = .ok (some e, s')) :
    s'.mapped = s.mapped ∧ MemFailed k d m s s' := by
  rw [storeMem] at h
  split at h
  · cases h
  · -- no buffer
    rename_i s₁ hbuffer
    cases h
    rw [dataBuffer] at hbuffer
    split at hbuffer
    · rename_i hfree
      rw [newBuffer] at hbuffer
      split at hbuffer <;> cases hbuffer
      exact ⟨rfl, .unused _ hfree rfl rfl⟩
    · rename_i huse
      split at hbuffer
      · rename_i data length reallen hu
        split at hbuffer
        · rename_i hlen
          split at hbuffer
          · cases hbuffer
          · rename_i s₂ hfree
            obtain ⟨hmapped, hstore, hzero, -⟩ := freeBlock_cases hfree
            rw [newBuffer] at hbuffer
            split at hbuffer <;> cases hbuffer
            rename_i hnone
            refine ⟨hmapped, .noRoom data length reallen (.mem 0 length reallen)
              (by simpa using huse) hu hlen (by rw [setEntry, hstore]) (fun _ => ⟨rfl, fun hd => ?_⟩)
              fun hsome => absurd hnone hsome⟩
            rw [setEntry, hzero hd]
        · cases hbuffer
      · cases hbuffer
  · -- a buffer that is not filled
    rename_i a s₁ hbuffer
    rw [dataBuffer] at hbuffer
    split at hbuffer
    · rename_i hfree
      obtain ⟨hmapped, hheap, hstore⟩ := newBuffer_failed hm (Except.ok.inj hbuffer) h
      exact ⟨hmapped, .unused _ hfree hstore hheap⟩
    · rename_i huse
      have huse : d.inUse = true := by simpa using huse
      split at hbuffer
      · rename_i data length reallen hu
        split at hbuffer
        · rename_i hlen
          split at hbuffer
          · cases hbuffer
          · rename_i s₂ hfree
            obtain ⟨hmapped, hstore, -, -⟩ := freeBlock_cases hfree
            have hb := Except.ok.inj hbuffer
            obtain ⟨hmapped', -, hstore'⟩ := newBuffer_failed (Malloc.freed hm hfree) hb h
            refine ⟨hmapped'.trans hmapped, .noRoom data length reallen _ huse hu hlen
              (by rw [hstore', hstore]) (fun hnone => ?_) fun _ heq => ?_⟩
            · rw [newBuffer, hnone] at hb
              cases hb
            · rw [hu] at heq
              cases heq
              omega
        · rename_i hlen
          cases hbuffer
          obtain ⟨hmapped, hstore, hzero, hheap⟩ := freeBlock_cases (fillBuffer_failed h)
          refine ⟨hmapped, .notCopied a length reallen huse hu (by omega) hstore
            (fun ha => by rw [hzero ha]) fun ha heq => (hheap ha).1 ?_⟩
          rw [← heq, (hheap ha).2, Function.update_self]
      · cases hbuffer

theorem storeMap_failed (h : storeMap C k d m s = (some e, s')) : s' = s := by
  simp only [storeMap] at h
  split at h
  · cases h
    rfl
  · split at h <;> cases h
    rfl

theorem storeValue_failed (hm : m.Malloc s) (h : storeValue C k d m s = .ok (some e, s')) :
    s' = s ∧ m.flags.types.single ≠ some .STR ∧ m.flags.types.single ≠ some .MEM ∨
      (m.flags.types.single = some .STR ∨ m.flags.types.single = some .MEM) ∧
        s'.mapped = s.mapped ∧ MemFailed k d m s s' := by
  rw [storeValue] at h
  split at h
  · rename_i hkind
    cases h
    exact .inl ⟨rfl, by simp [hkind], by simp [hkind]⟩
  · cases h
  · cases h
  · rename_i hkind
    exact .inr ⟨.inl hkind, storeMem_failed hm h⟩
  · rename_i hkind
    exact .inr ⟨.inr hkind, storeMem_failed hm h⟩
  · rename_i hkind
    exact .inl ⟨storeMap_failed (Except.ok.inj h), by simp [hkind], by simp [hkind]⟩

end Storing

section Intact
variable {C : DsConfig} {t t' : DsTables} {s s' : DsServer} {k : ℕ} {d : DataStore}
  {m : PublishArg}

theorem Intact.refl (t : DsTables) : Intact t t :=
  ⟨fun _ _ h _ => h, fun _ _ _ _ _ _ => rfl, rfl, fun _ _ h _ => h⟩

def Replaced (m : PublishArg) (d : DataStore) : Prop :=
  d.inUse = true ∧ (m.flags.types.single = some .STR ∨ m.flags.types.single = some .MEM) ∧
    ∃ data length reallen, d.u = .mem data length reallen ∧
      (data ≠ 0 ∨ reallen < m.valLen ∧ m.malloc ≠ none)

theorem memFailed_intact (hd : t.dsStore[k]? = some d) (hmapped : s'.mapped = t.mapped)
    (hkind : m.flags.types.single = some .STR ∨ m.flags.types.single = some .MEM)
    (h : MemFailed k d m t.toDsServer s') :
    Intact t { t with toDsServer := s' } ↔ ¬ Replaced m d := by
  have hentry : ∀ u, s'.dsStore = t.dsStore.set k { d with u := u } →
      s'.dsStore[k]? = some { d with u := u } := by
    intro u hu
    obtain ⟨hk, -⟩ := List.getElem?_eq_some_iff.mp hd
    rw [hu, List.getElem?_set_self hk]
  have hother : ∀ u, s'.dsStore = t.dsStore.set k { d with u := u } → s'.heap = t.heap →
      (d.inUse = false ∨ u = d.u) → Intact t { t with toDsServer := s' } := by
    intro u hu hheap hor
    refine ⟨fun k' d' hd' huse' => ?_, fun _ _ _ _ a _ => congrFun hheap a, hmapped,
      fun _ _ h _ => h⟩
    change s'.dsStore[k']? = some d'
    by_cases hk : k' = k
    · subst hk
      obtain rfl : d = d' := Option.some.inj (hd.symm.trans hd')
      rcases hor with hfree | rfl
      · rw [hfree] at huse'
        cases huse'
      · exact hentry _ hu
    · rw [hu, List.getElem?_set_ne (Ne.symm hk)]
      exact hd'
  cases h with
  | unused u hfree hu hheap =>
    refine ⟨fun _ hrep => ?_, fun _ => hother u hu hheap (.inl hfree)⟩
    rw [hrep.1] at hfree
    cases hfree
  | noRoom data length reallen u huse hdu hlen hu hnone hsome =>
    constructor
    · rintro hint ⟨-, -, data', length', reallen', hdu', hor⟩
      obtain ⟨rfl, rfl, rfl⟩ : data = data' ∧ length = length' ∧ reallen = reallen' := by
        simpa [hdu] using hdu'
      have hsame := (hentry u hu).symm.trans (hint.entries k d hd huse)
      have hu' : u = d.u := congrArg DataStore.u (Option.some.inj hsame)
      by_cases hm : m.malloc = none
      · have hdata : data = 0 := by
          have := (hnone hm).1.symm.trans (hu'.trans hdu)
          simpa [eq_comm] using this
        rcases hor with hne | ⟨-, hne⟩
        · exact hne hdata
        · exact hne hm
      · exact hsome hm hu'
    · intro hrep
      have hm : m.malloc = none := by
        by_contra hm
        exact hrep ⟨huse, hkind, data, length, reallen, hdu, .inr ⟨hlen, hm⟩⟩
      have hdata : data = 0 := by
        by_contra hne
        exact hrep ⟨huse, hkind, data, length, reallen, hdu, .inl hne⟩
      refine hother u hu ((hnone hm).2 hdata) (.inr ?_)
      rw [(hnone hm).1, hdu, hdata]
  | notCopied data length reallen huse hdu hlen hstore hzero hne =>
    constructor
    · rintro hint ⟨-, -, data', length', reallen', hdu', hor⟩
      obtain ⟨rfl, rfl, rfl⟩ : data = data' ∧ length = length' ∧ reallen = reallen' := by
        simpa [hdu] using hdu'
      rcases hor with hdata | ⟨hlt, -⟩
      · exact hne hdata (hint.buffers k d hd huse data (by simp [hdu, DsUnion.blocks]))
      · omega
    · intro hrep
      have hdata : data = 0 := by
        by_contra hne
        exact hrep ⟨huse, hkind, data, length, reallen, hdu, .inl hne⟩
      refine ⟨fun k' d' hd' _ => ?_, fun _ _ _ _ a _ => congrFun (hzero hdata) a, hmapped,
        fun _ _ h _ => h⟩
      change s'.dsStore[k']? = some d'
      rw [hstore]
      exact hd'

end Intact

section Requests
variable {C : DsConfig} {t t' : DsTables} {who : ℤ} {key : KeyArg} {e : Errno}

def Overwrites (C : DsConfig) (t : DsTables) (who : ℤ) (key : KeyArg) (m : PublishArg) : Prop :=
  ∃ keyName k d, (getNamePtr C t.toDsServer who).isSome ∧
    getKeyName C.toDsHeaders key = .ok keyName ∧
    publishSlot C t.toDsServer who m keyName = .ok k ∧ t.dsStore[k]? = some d ∧ Replaced m d

theorem publishAt_failed {m : PublishArg} {k : ℕ} {d : DataStore} {keyName : String}
    {source : NamePtr} (hm : m.Malloc t.toDsServer) (hd : t.dsStore[k]? = some d)
    (h : publishAt C k keyName source m t = .ok (.error e, t')) :
    Intact t t' ↔ ¬ Replaced m d := by
  rw [publishAt, hd] at h
  dsimp only at h
  split at h
  · cases h
  · rename_i hvalue
    cases h
    rcases storeValue_failed hm hvalue with ⟨rfl, hstr, hmem⟩ | ⟨hkind, hmapped, hfailed⟩
    · exact ⟨fun _ hrep => hrep.2.1.elim hstr hmem, fun _ => Intact.refl t⟩
    · exact memFailed_intact hd hmapped hkind hfailed
  · split at h <;> cases h

theorem publish_failed_iff {m : PublishArg} (hm : m.Malloc t.toDsServer)
    (h : doPublish C t who key m = .ok (.error e, t')) :
    Intact t t' ↔ ¬ Overwrites C t who key m := by
  rw [doPublish] at h
  split at h
  · rename_i hsource
    cases h
    refine ⟨?_, fun _ => Intact.refl t⟩
    rintro - ⟨_, _, _, hsome, _⟩
    simp [hsource] at hsome
  · rename_i source hsource
    split at h
    · rename_i hlabel
      cases h
      refine ⟨?_, fun _ => Intact.refl t⟩
      rintro - ⟨_, _, _, _, _, _, _, hrep⟩
      rcases hrep.2.1 with hkind | hkind <;>
        simp [single_eq_some.mp hkind, DsType.bits] at hlabel
    · split at h
      · rename_i hmap
        cases h
        refine ⟨?_, fun _ => Intact.refl t⟩
        rintro - ⟨_, _, _, _, _, _, _, hrep⟩
        rcases hrep.2.1 with hkind | hkind <;>
          simp [single_eq_some.mp hkind, DsType.bits] at hmap
      · split at h
        · rename_i hkey
          cases h
          refine ⟨?_, fun _ => Intact.refl t⟩
          rintro - ⟨_, _, _, _, hok, _⟩
          rw [hkey] at hok
          cases hok
        · rename_i keyName hkey
          split at h
          · rename_i hslot
            cases h
            refine ⟨?_, fun _ => Intact.refl t⟩
            rintro - ⟨_, _, _, _, hok, hs, _⟩
            cases hkey.symm.trans hok
            rw [hslot] at hs
            cases hs
          · rename_i k hslot
            cases hd : t.dsStore[k]? with
            | none =>
              rw [publishAt, hd] at h
              cases h
            | some d =>
              rw [publishAt_failed hm hd h]
              refine not_congr
                ⟨fun hrep => ⟨keyName, k, d, by simp [hsource], hkey, hslot, hd, hrep⟩, ?_⟩
              rintro ⟨keyName', k', d', -, hkey', hslot', hd', hrep⟩
              cases hkey.symm.trans hkey'
              cases hslot.symm.trans hslot'
              cases hd.symm.trans hd'
              exact hrep

def Recompiles (C : DsConfig) (t : DsTables) (who : ℤ) (key : KeyArg) (m : SubscribeArg) : Prop :=
  ∃ owner keyName j sub, dsGetprocname C.toDsHeaders t.toDsServer who = some owner ∧
    lookupSub t owner = some j ∧ t.dsSubs[j]? = some sub ∧ m.overwrite = true ∧
    getKeyName C.toDsHeaders key = .ok keyName ∧ C.regcomp (keyName ++ "$") = none ∧
    m.stale ≠ sub.regex

theorem modify_intact {j : ℕ} {stale : String → Bool} :
    Intact t { t with dsSubs := t.dsSubs.modify j fun sub => { sub with regex := stale } } ↔
      ∀ sub, t.dsSubs[j]? = some sub → sub.inUse = true → stale = sub.regex := by
  constructor
  · intro h sub hsub huse
    have hsame := h.subs j sub hsub huse
    rw [List.getElem?_modify_eq, hsub] at hsame
    exact congrArg Subscription.regex (Option.some.inj hsame)
  · intro h
    refine ⟨fun _ _ hd _ => hd, fun _ _ _ _ _ _ => rfl, rfl, fun j' sub hsub huse => ?_⟩
    by_cases hj : j = j'
    · subst hj
      rw [List.getElem?_modify_eq, hsub, h sub hsub huse]
      rfl
    · rw [List.getElem?_modify_ne _ _ hj]
      exact hsub

theorem found_subscription {p : Subscription → Bool} {j : ℕ}
    (h : t.dsSubs.findIdx? p = some j) : ∃ sub, t.dsSubs[j]? = some sub ∧ p sub = true := by
  obtain ⟨hj, hp, -⟩ := List.findIdx?_eq_some_iff_getElem.mp h
  exact ⟨_, List.getElem?_eq_getElem hj, hp⟩

theorem subscribe_failed_iff {m : SubscribeArg}
    (h : doSubscribe C t who key m = (.error e, t')) :
    Intact t t' ↔ ¬ Recompiles C t who key m := by
  rw [doSubscribe] at h
  split at h
  · rename_i howner
    cases h
    refine ⟨?_, fun _ => Intact.refl t⟩
    rintro - ⟨_, _, _, _, hok, _⟩
    rw [howner] at hok
    cases hok
  · rename_i owner howner
    split at h
    · rename_i hslot
      cases h
      refine ⟨?_, fun _ => Intact.refl t⟩
      rintro - ⟨_, _, j, _, hok, hj, _, hover, _⟩
      cases howner.symm.trans hok
      rw [subscribeSlot, hj] at hslot
      simp [hover] at hslot
    · rename_i j hslot
      split at h
      · rename_i hkey
        cases h
        refine ⟨?_, fun _ => Intact.refl t⟩
        rintro - ⟨_, _, _, _, _, _, _, _, hok, _⟩
        rw [hkey] at hok
        cases hok
      · rename_i keyName hkey
        split at h
        · rename_i hcomp
          cases h
          rw [modify_intact]
          constructor
          · rintro hsame ⟨owner', keyName', j', sub, howner', hj', hsub, hover, hkey', -, hne⟩
            cases howner.symm.trans howner'
            rw [subscribeSlot, hj'] at hslot
            simp only [hover, if_true] at hslot
            cases hslot
            refine hne (hsame sub hsub ?_)
            obtain ⟨sub', hsub', huse⟩ := found_subscription hj'
            cases hsub.symm.trans hsub'
            exact ((Bool.and_eq_true _ _).mp huse).1
          · intro hnot sub hsub huse
            by_contra hne
            rw [subscribeSlot] at hslot
            split at hslot
            · split at hslot
              · cases hslot
              · rename_i hj
                cases hslot
                obtain ⟨sub', hsub', hfree⟩ := found_subscription hj
                cases hsub.symm.trans hsub'
                simp [huse] at hfree
            · rename_i hj
              split at hslot <;> cases hslot
              rename_i hover
              exact hnot ⟨owner, keyName, _, sub, howner, hj, hsub, hover, hkey, hcomp, hne⟩
        · cases h

theorem failed_requests_iff (C : DsConfig) (t : DsTables) (who : ℤ) (key : KeyArg) :
    (∀ (m : PublishArg) e t', m.Malloc t.toDsServer →
      doPublish C t who key m = .ok (.error e, t') →
      (Intact t t' ↔ ¬ Overwrites C t who key m)) ∧
    ∀ (m : SubscribeArg) e t', doSubscribe C t who key m = (.error e, t') →
      (Intact t t' ↔ ¬ Recompiles C t who key m) :=
  ⟨fun _ _ _ hm h => publish_failed_iff hm h, fun _ _ _ h => subscribe_failed_iff h⟩

end Requests

section Driver

def strictConfig : DsConfig :=
  { smallConfig with
    regcomp := fun re => if re = "($" then none else some fun key => decide (re = key ++ "$") }

def driverKey : KeyArg := ⟨5, .ok "name"⟩

def driverTables : DsTables :=
  ⟨⟨[⟨true, DsType.LABEL.bits, noPriv, "drv", "rs", .u32 9⟩,
     ⟨true, DsType.STR.bits, noPriv, "name", "drv", .mem 100 4 4⟩, freeEntry],
    fun a => if a = 100 then some [0x61, 0x62, 0x63, 0] else none, fun _ => []⟩,
   [⟨true, allTypes, "drv", fun key => decide (key = "name"), {1}⟩, freeSub]⟩

def putName (overwrite : Bool) : PublishArg :=
  ⟨⟨DsType.STR.bits, noPriv, overwrite⟩, 0, 4, none, .error (-14)⟩

def badPattern (overwrite : Bool) : SubscribeArg := ⟨noTypes, overwrite, false, fun _ => false⟩

theorem failed_requests_spoil :
    (∃ t', doPublish strictConfig driverTables 9 driverKey (putName true) =
        .ok (.error (.passed (-14)), t') ∧
      t'.dsStore = driverTables.dsStore ∧ t'.heap 100 = none ∧ ¬ Intact driverTables t') ∧
    ∃ t', doSubscribe strictConfig driverTables 9 ⟨2, .ok "("⟩ (badPattern true) =
        (.error .EINVAL, t') ∧
      (t'.dsSubs[0]?.map fun sub => sub.regex "name") = some false ∧ ¬ Intact driverTables t' := by
  refine ⟨⟨_, rfl, rfl, rfl, fun h => ?_⟩, ⟨_, rfl, rfl, fun h => ?_⟩⟩
  · have hbuffer := h.buffers 1 _ rfl rfl 100 (by decide)
    cases hbuffer
  · have hsub := h.subs 0 _ rfl rfl
    have hregex := congrArg (fun sub => sub.map fun sub : Subscription => sub.regex "name") hsub
    cases hregex

theorem failed_requests_refused :
    (∃ t', doPublish strictConfig driverTables 9 driverKey (putName false) =
        .ok (.error .EEXIST, t') ∧ Intact driverTables t') ∧
    ∃ t', doSubscribe strictConfig driverTables 6 ⟨2, .ok "("⟩ (badPattern false) =
        (.error .EINVAL, t') ∧ Intact driverTables t' := by
  refine ⟨⟨_, rfl, ?_⟩, ⟨_, rfl, ?_⟩⟩
  · refine ((failed_requests_iff strictConfig driverTables 9 driverKey).1 (putName false) _ _
      (fun a ha => by cases ha) rfl).mpr ?_
    rintro ⟨keyName, k, d, -, hkey, hslot, -⟩
    cases hkey
    cases hslot
  · refine ((failed_requests_iff strictConfig driverTables 6 ⟨2, .ok "("⟩).2 (badPattern false)
      _ _ rfl).mpr ?_
    rintro ⟨owner, keyName, j, sub, howner, hj, -⟩
    cases howner
    cases hj

end Driver

end Ds
