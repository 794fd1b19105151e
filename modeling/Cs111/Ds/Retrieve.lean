import Cs111.Ds.Failures

-- What has been published is retrieved.
namespace Ds

section Stored
variable {C : DsConfig} {s s' : DsServer} {t t' : DsTables} {k : ℕ} {d : DataStore}
  {m : PublishArg} {who : ℤ} {key : KeyArg} {keyName : String}

def stored (m : PublishArg) : List Byte :=
  match m.copied with
  | .error _ => []
  | .ok bytes => if m.flags.types.str then bytes.set (bytes.length - 1) 0 else bytes

def retrieved (m : PublishArg) (r : RetrieveArg) : Retrieved :=
  if m.flags.types.str || m.flags.types.mem then .copied ((stored m).take (min r.valLen m.valLen))
  else .val m.val

theorem dataBuffer_kept (hd : s.dsStore[k]? = some d) {a : ℕ}
    (h : dataBuffer k d m s = .ok (some a, s')) :
    ∃ d' length reallen, s'.dsStore[k]? = some d' ∧ d'.u = .mem a length reallen := by
  have hnew : ∀ {s₁ length reallen}, s₁.dsStore = s.dsStore →
      newBuffer k d m length reallen s₁ = (some a, s') →
        ∃ d' length reallen, s'.dsStore[k]? = some d' ∧ d'.u = .mem a length reallen := by
    intro s₁ length reallen hs hbuffer
    rw [newBuffer] at hbuffer
    split at hbuffer
    · cases hbuffer
    · cases hbuffer
      refine ⟨{ d with u := .mem a length m.valLen }, length, m.valLen, ?_, rfl⟩
      exact (setEntry_eq hd (congrArg (List.set · k _) hs) k).trans (if_pos rfl)
  rw [dataBuffer] at h
  split at h
  · exact hnew rfl (Except.ok.inj h)
  · split at h
    · split at h
      · split at h
        · cases h
        · rename_i hfree
          exact hnew (freeBlock_ok hfree) (Except.ok.inj h)
      · rename_i hu _
        cases h
        exact ⟨d, _, _, hd, hu⟩
    · cases h

theorem storeMem_stored (hd : s.dsStore[k]? = some d)
    (hlen : ∀ bytes, m.copied = .ok bytes → bytes.length = m.valLen)
    (h : storeMem k d m s = .ok (none, s')) :
    ∃ d' a reallen rest, s'.dsStore[k]? = some d' ∧ d'.u = .mem a m.valLen reallen ∧
      s'.heap a = some (stored m ++ rest) ∧ (stored m).length = m.valLen := by
  rw [storeMem] at h
  split at h
  · cases h
  · cases h
  · rename_i a s₁ hbuffer
    obtain ⟨d', length, reallen, hd', hu⟩ := dataBuffer_kept hd hbuffer
    rw [fillBuffer] at h
    split at h
    · split at h <;> cases h
    · rename_i bytes hcopied
      have hall : bytes.take m.valLen = bytes := List.take_of_length_le (hlen bytes hcopied).le
      split at h
      · cases h
      · rename_i bs hterm
        have hbs : bs = stored m ∧ bs.length = m.valLen := by
          rw [hall, terminate] at hterm
          rw [stored, hcopied]
          split at hterm
          · rename_i hstr
            cases hterm
            exact ⟨by simp [hstr], hlen bytes hcopied⟩
          · rename_i hstr
            split at hterm
            · cases hterm
            · cases hterm
              exact ⟨by simp [hstr], by rw [List.length_set, hlen bytes hcopied]⟩
        split at h
        · cases h
        · rename_i s₂ hcopy
          have hstore := copyIn_ok hcopy
          rw [← hstore] at hd'
          have hheap : ∃ rest, s₂.heap a = some (stored m ++ rest) := by
            simp only [copyIn] at hcopy
            split at hcopy
            · cases hcopy
            · split at hcopy
              · cases hcopy
                exact ⟨_, by rw [← hbs.1]; exact Function.update_self _ _ _⟩
              · cases hcopy
          obtain ⟨rest, hrest⟩ := hheap
          split at h
          · rename_i hentry
            rw [hd'] at hentry
            cases hentry
            cases hu
            cases h
            refine ⟨_, a, reallen, rest, (setEntry_eq hd' rfl k).trans (if_pos rfl), rfl, hrest, ?_⟩
            rw [← hbs.1, hbs.2]
          · cases h

theorem publishSlot_first (h : publishSlot C s who m keyName = .ok k) :
    ∀ j < k, ∀ d, s.dsStore[j]? = some d →
      (d.inUse && d.types.meets m.flags.types && d.key == keyName) = false := by
  intro j hj d hd
  cases hentry : lookupEntry s keyName m.flags.types with
  | none => exact missing_entry hentry hd
  | some i =>
    have hik : i = k := by
      simp only [publishSlot, lookupPublished, hentry] at h
      split_ifs at h
      cases h
      rfl
    subst hik
    obtain ⟨_, -, hbefore⟩ := List.findIdx?_eq_some_iff_getElem.mp hentry
    obtain ⟨hlt, rfl⟩ := List.getElem?_eq_some_iff.mp hd
    simpa using hbefore j hj

theorem lookup_set {d' : DataStore} (hd : s.dsStore[k]? = some d)
    (hset : s'.dsStore = s.dsStore.set k d') {types : DsTypes}
    (hfirst : ∀ j < k, ∀ d, s.dsStore[j]? = some d →
      (d.inUse && d.types.meets types && d.key == keyName) = false)
    (hd' : (d'.inUse && d'.types.meets types && d'.key == keyName) = true) :
    lookupEntry s' keyName types = some k := by
  obtain ⟨hk, -⟩ := List.getElem?_eq_some_iff.mp hd
  rw [lookupEntry, hset, List.findIdx?_eq_some_iff_getElem]
  refine ⟨by rwa [List.length_set], by rwa [List.getElem_set_self], fun j hj => ?_⟩
  rw [List.getElem_set_ne (by omega), hfirst j hj _ (List.getElem?_eq_getElem _)]
  exact Bool.false_ne_true

def Yields (m : PublishArg) (r : RetrieveArg) (k : ℕ) (s : DsServer) : Prop :=
  ∃ d, s.dsStore[k]? = some d ∧ ∀ s₂ d₂, s₂.heap = s.heap → d₂.u = d.u →
    retrieveEntry s₂ d₂ r = .ok (.ok (retrieved m r))

variable {kind : DsType} {r : RetrieveArg}

theorem number_yields (hd : s.dsStore[k]? = some d) (htypes : r.flags.types = m.flags.types)
    (hkind : m.flags.types = kind.bits) (hnum : kind = .U32 ∨ kind = .LABEL) :
    Yields m r k (setEntry s k { d with u := .u32 m.val }) := by
  refine ⟨_, (setEntry_eq hd rfl k).trans (if_pos rfl), fun s₂ d₂ _ hu => ?_⟩
  rw [retrieveEntry, htypes, single_eq_some.mpr hkind, retrieved, hkind, hu]
  rcases hnum with rfl | rfl <;> rfl

theorem mem_yields (hd : s.dsStore[k]? = some d) (htypes : r.flags.types = m.flags.types)
    (hkind : m.flags.types = kind.bits) (hmem : kind = .STR ∨ kind = .MEM) (hcopy : r.copy = none)
    (hlen : ∀ bytes, m.copied = .ok bytes → bytes.length = m.valLen)
    (h : storeMem k d m s = .ok (none, s')) : Yields m r k s' := by
  obtain ⟨d', a, reallen, rest, hd', hu', hheap, hlength⟩ := storeMem_stored hd hlen h
  refine ⟨d', hd', fun s₂ d₂ hs₂ hu => ?_⟩
  have htake : (stored m ++ rest).take (min r.valLen m.valLen) =
      (stored m).take (min r.valLen m.valLen) :=
    List.take_append_of_le_length (hlength ▸ min_le_right _ _)
  have hread : readBlock s₂ (some a) = .ok (stored m ++ rest) := by
    rw [readBlock, hs₂, hheap]
  rw [retrieveEntry, htypes, single_eq_some.mpr hkind, retrieved, hkind, hu, hu']
  rcases hmem with rfl | rfl <;>
  · dsimp only
    rw [hread]
    dsimp only
    rw [copyOut, hcopy, htake]
    rfl

theorem storeValue_yields (hd : s.dsStore[k]? = some d) (hmap : m.flags.types ≠ DsType.MAP.bits)
    (htypes : r.flags.types = m.flags.types) (hcopy : r.copy = none)
    (hlen : ∀ bytes, m.copied = .ok bytes → bytes.length = m.valLen)
    (h : storeValue C k d m s = .ok (none, s')) : Yields m r k s' := by
  rw [storeValue] at h
  split at h
  · cases h
  · rename_i hkind
    cases h
    exact number_yields hd htypes (single_eq_some.mp hkind) (.inl rfl)
  · rename_i hkind
    cases h
    exact number_yields hd htypes (single_eq_some.mp hkind) (.inr rfl)
  · rename_i hkind
    exact mem_yields hd htypes (single_eq_some.mp hkind) (.inl rfl) hcopy hlen h
  · rename_i hkind
    exact mem_yields hd htypes (single_eq_some.mp hkind) (.inr rfl) hcopy hlen h
  · rename_i hkind
    exact absurd (single_eq_some.mp hkind) hmap

theorem publish_retrieve (h : doPublish C t who key m = .ok (.ok (), t'))
    (hpriv : m.flags.priv.retrieve = false) (hmap : m.flags.types ≠ DsType.MAP.bits)
    (hlen : ∀ bytes, m.copied = .ok bytes → bytes.length = m.valLen)
    (htypes : r.flags.types = m.flags.types) (hcopy : r.copy = none) (who' : ℤ) :
    doRetrieve C.toDsHeaders t'.toDsServer who' key r = .ok (.ok (retrieved m r)) := by
  simp only [doPublish] at h
  split at h
  · cases h
  · rename_i source _
    split_ifs at h
    · cases h
    · cases h
    · split at h
      · cases h
      · rename_i keyName hkey
        split at h
        · cases h
        · rename_i k hslot
          rw [publishAt] at h
          split at h
          · cases h
          · rename_i d hd
            split at h
            · cases h
            · cases h
            · rename_i s hstore
              obtain ⟨d₁, hd₁, hentry⟩ := storeValue_yields hd hmap htypes hcopy hlen hstore
              rw [hd₁] at h
              cases h
              obtain ⟨kind, u, hkind, hset, -⟩ :=
                (storeValue_ok hd hstore).resolve_left fun hno => hno.1 rfl
              generalize hd₂ : setAttributes k keyName source m d₁ s = d₂
              have hattr : d₂.inUse = true ∧ d₂.types = m.flags.types ∧ d₂.priv = m.flags.priv ∧
                  d₂.key = keyName ∧ d₂.u = d₁.u := by
                rw [← hd₂]
                exact ⟨rfl, rfl, rfl, rfl, rfl⟩
              obtain ⟨huse, htypes₂, hpriv₂, hkey₂, hu₂⟩ := hattr
              have hset₂ : (setEntry s k d₂).dsStore = t.dsStore.set k d₂ := by
                rw [setEntry, hset, List.set_set]
              have hfound : lookupEntry (setEntry s k d₂) keyName r.flags.types = some k := by
                refine lookup_set hd hset₂ (htypes ▸ publishSlot_first hslot) ?_
                rw [huse, htypes₂, htypes, hkind, meets_bits.mpr rfl, hkey₂, beq_self_eq_true]
                rfl
              change doRetrieve C.toDsHeaders (setEntry s k d₂) who' key r = _
              rw [doRetrieve, hkey]
              dsimp only
              rw [hfound]
              dsimp only
              rw [setEntry_eq hd hset₂, if_pos rfl]
              dsimp only
              rw [checkAuth, hpriv₂, hpriv, if_pos rfl]
              exact hentry _ d₂ rfl hu₂

end Stored

def putText : PublishArg :=
  ⟨⟨DsType.STR.bits, noPriv, true⟩, 0, 4, none, .ok [0x78, 0x79, 0x7A, 0x2B]⟩

def askText : RetrieveArg := ⟨⟨DsType.STR.bits, false, false, false⟩, 8, 0, none, none⟩

theorem publish_retrieve_text : ∃ t',
    doPublish strictConfig driverTables 9 driverKey putText = .ok (.ok (), t') ∧
    doRetrieve strictConfig.toDsHeaders t'.toDsServer 5 driverKey askText =
      .ok (.ok (.copied [0x78, 0x79, 0x7A, 0])) := by
  obtain ⟨t', hput⟩ :
      ∃ t', doPublish strictConfig driverTables 9 driverKey putText = .ok (.ok (), t') := ⟨_, rfl⟩
  refine ⟨t', hput, publish_retrieve hput rfl (by decide) ?_ rfl rfl 5⟩
  rintro _ ⟨⟩
  rfl

end Ds
