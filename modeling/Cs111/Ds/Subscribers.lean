import Cs111.Ds.Labels

namespace Ds
open TransitionSystem

def Registered (s : DsServer) (name : String) : Prop := ∃ k num, IsLabel s k name num

def Pending (t : DsTables) (sub : Subscription) (k : ℕ) : Prop :=
  sub ∈ t.dsSubs ∧ sub.inUse = true ∧ k ∈ sub.oldSubs

structure SoundBits (t : DsTables) : Prop where
  typed : Typed t.toDsServer
  positive : ∀ {k name num}, IsLabel t.toDsServer k name num → num ≠ -1
  bits : ∀ {sub k}, Pending t sub k → ∃ d, t.dsStore[k]? = some d ∧ d.inUse = true ∧
    Registered t.toDsServer d.owner

def whenDropped (types : DsTypes) (d : DataStore) (t : DsTables) : DsTables :=
  if types = DsType.LABEL.bits then cleanUp d.key t else t

def Unowning (t : DsTables) (k : ℕ) (d : DataStore) : Prop :=
  ∀ sub j e, Pending t sub j → sub.owner ≠ d.key → j ≠ k → t.dsStore[j]? = some e →
    e.owner ≠ d.key ∧ ∃ i f num, t.dsStore[i]? = some f ∧ IsLabel t.toDsServer i e.owner num ∧
      f.owner ≠ d.key

def Entered (C : DsConfig) (t : DsTables) (who : ℤ) (key : KeyArg) (m : SubscribeArg)
    (sub : Subscription) : Prop :=
  ∃ owner j keyName regex, dsGetprocname C.toDsHeaders t.toDsServer who = some owner ∧
    subscribeSlot t owner m = .ok j ∧ getKeyName C.toDsHeaders key = .ok keyName ∧
    C.regcomp (keyName ++ "$") = some regex ∧
    sub = ⟨true, if m.types = noTypes then allTypes else m.types, owner, regex, ∅⟩

def DsRequest.KeepsBits (C : DsConfig) (t : DsTables) : DsRequest → Prop
  | .publish who key m => ∀ source keyName k, Accepted C t who key m source keyName k →
      who ≠ C.dsProcNr ∧ (m.flags.types.label = true → m.val ≠ -1 ∧
        ∀ d, t.dsStore[k]? = some d → d.inUse = true → d.key ≠ keyName →
          ∀ sub j e, Pending t sub j → j ≠ k → t.dsStore[j]? = some e → e.owner ≠ d.key)
  | .subscribe who key m => m.initial = true → ∀ sub, Entered C t who key m sub →
      ∀ (k : ℕ) d, t.dsStore[k]? = some d → d.inUse = true → d.types.meets sub.types = true →
      checkSubMatch C t.toDsServer sub d who = true → Registered t.toDsServer d.owner
  | .delete who key m => ∀ k d, Doomed C t who key m.types k d →
      (∀ sub d₁, Pending (whenDropped m.types d t) sub k →
        (whenDropped m.types d t).dsStore[k]? = some d₁ →
        concerns C (whenDropped m.types d t).toDsServer d₁ sub = true) ∧
      (m.types = DsType.LABEL.bits → Unowning t k d)
  | .service label endpoint => endpoint ≠ -1 ∧
      (label = "rs" ∨ Registered t.toDsServer "rs" ∨ ∀ sub ∈ t.dsSubs, sub.inUse = true →
        sub.types.meets DsType.LABEL.bits = true → sub.regex label = false)
  | _ => True

section Bits
variable {C : DsConfig} {s : DsServer} {t t' : DsTables} {k : ℕ} {d : DataStore}
  {sub : Subscription}

theorem updateSub_live (set : Bool) : (updateSub C s k d set sub).inUse = sub.inUse := by
  rw [updateSub]
  split <;> rfl

theorem updateSub_bits {set : Bool} {j : ℕ} (h : j ∈ (updateSub C s k d set sub).oldSubs) :
    j ∈ sub.oldSubs ∨ (set = true ∧ j = k ∧ concerns C s d sub = true) := by
  rw [updateSub] at h
  split at h
  · rename_i hc
    cases set with
    | true =>
      rcases Finset.mem_insert.mp h with rfl | h
      · exact .inr ⟨rfl, rfl, hc⟩
      · exact .inl h
    | false => exact .inl (Finset.mem_of_mem_erase h)
  · exact .inl h

theorem updateSub_cleared (h : k ∈ (updateSub C s k d false sub).oldSubs) :
    concerns C s d sub = false := by
  rw [updateSub] at h
  split at h
  · simp at h
  · simpa using ‹¬ concerns C s d sub = true›

theorem Registered.getprocep (h : SoundBits t) {name : String}
    (hreg : Registered t.toDsServer name) : dsGetprocep t.toDsServer name ≠ -1 := by
  obtain ⟨i, num, hi⟩ := hreg
  cases hlook : lookupEntry t.toDsServer name DsType.LABEL.bits with
  | none => exact absurd hi (lookup_label_none hlook)
  | some j =>
    obtain ⟨d, hd, hp⟩ := found_entry hlook
    simp only [Bool.and_eq_true, beq_iff_eq, meets_label] at hp
    obtain ⟨num', hl⟩ := h.typed.label hd hp.1.1 hp.1.2
    have hne := h.positive hl
    obtain ⟨d', hd', -, -, -, hu⟩ := hl
    rw [hd] at hd'
    cases hd'
    simp only [dsGetprocep, hlook, hd, Option.elim_some, labelNum, hu]
    exact hne

theorem SoundBits.alike (h : SoundBits t) (hs : Alike t.toDsServer t'.toDsServer)
    (hsubs : t'.dsSubs = t.dsSubs) : SoundBits t' where
  typed := hs.typed h.typed
  positive hl := h.positive (hs.label_iff.mp hl)
  bits hp := by
    rw [Pending, hsubs] at hp
    obtain ⟨d, hd, huse, i, num, hi⟩ := h.bits hp
    obtain ⟨u, hd', -⟩ := hs.entry hd
    exact ⟨_, hd', huse, i, num, hs.label_iff.mpr hi⟩

theorem source_registered {who : ℤ} {source : NamePtr}
    (hsource : getNamePtr C s who = some source) (hwho : who ≠ C.dsProcNr) :
    ∃ j e, source = .key j ∧ s.dsStore[j]? = some e ∧ e.inUse = true ∧ e.types.label = true ∧
      e.u = .u32 who := by
  rw [getNamePtr, if_neg hwho, Option.map_eq_some_iff] at hsource
  obtain ⟨j, hj, rfl⟩ := hsource
  obtain ⟨e, he, hp⟩ := found_entry hj
  simp only [Bool.and_eq_true] at hp
  exact ⟨j, e, rfl, he, hp.1.1, hp.1.2, isU32_iff.mp hp.2⟩

theorem SoundBits.write {d' : DataStore} {set : Bool} (h : SoundBits t)
    (hd : t.dsStore[k]? = some d) (hset : t'.dsStore = t.dsStore.set k d')
    (hsubs : t'.dsSubs = t.dsSubs.map (updateSub C t'.toDsServer k d' set))
    (htyped : Typed t'.toDsServer) (huse : d'.inUse = true)
    (hnum : d'.types.label = true → d'.u ≠ .u32 (-1))
    (howner : (∃ sub, Pending t sub k) ∨
      (∃ sub ∈ t.dsSubs, concerns C t'.toDsServer d' sub = true) → Registered t'.toDsServer d'.owner)
    (hkeep : ∀ sub j e, Pending t sub j → j ≠ k → t.dsStore[j]? = some e →
      Registered t.toDsServer e.owner → Registered t'.toDsServer e.owner) : SoundBits t' where
  typed := htyped
  positive hl := by
    rcases (label_set hd hset).mp hl with ⟨-, -, hlabel, -, hu⟩ | ⟨-, hl⟩
    · rintro rfl
      exact hnum hlabel hu
    · exact h.positive hl
  bits := by
    rintro sub' j ⟨hmem, hlive, hj⟩
    rw [hsubs] at hmem
    obtain ⟨sub, hsub, rfl⟩ := List.mem_map.mp hmem
    rw [updateSub_live] at hlive
    rw [setEntry_eq hd hset]
    by_cases hjk : j = k
    · rw [if_pos hjk]
      refine ⟨d', rfl, huse, howner ?_⟩
      rcases updateSub_bits hj with hj | ⟨-, -, hconcerns⟩
      · exact .inl ⟨sub, hsub, hlive, hjk ▸ hj⟩
      · exact .inr ⟨sub, hsub, hconcerns⟩
    · rcases updateSub_bits hj with hj | ⟨-, hk, -⟩
      · obtain ⟨e, he, huse', hreg⟩ := h.bits ⟨hsub, hlive, hj⟩
        rw [if_neg hjk]
        exact ⟨e, he, huse', hkeep sub j e ⟨hsub, hlive, hj⟩ hjk he hreg⟩
      · exact absurd hk hjk

end Bits

section Steps
variable {C : DsConfig} {t t' : DsTables} {req : DsRequest}

theorem SoundBits.publish {who : ℤ} {key : KeyArg} {m : PublishArg} {r : Except Errno Unit}
    (h : SoundBits t) (hm : (DsRequest.publish who key m).KeepsBits C t)
    (hok : doPublish C t who key m = .ok (r, t')) : SoundBits t' := by
  rcases doPublish_cases h.typed hok with
    ⟨hsame, hsubs⟩ | ⟨source, keyName, k, kind, u, hacc, hkind, hu, hset, hsubs⟩
  · exact h.alike hsame hsubs
  · obtain ⟨d, hd, hslot⟩ := publishSlot_cases hacc.slot
    obtain ⟨hwho, hlabel⟩ := hm source keyName k hacc
    -- a label that is written over stays one
    have hstays : d.inUse = true → d.types.label = true → kind = .LABEL := by
      intro huse hl
      by_contra hne
      rw [hslot.not_label h.typed hd hkind hne huse] at hl
      cases hl
    have hnew : kind = .LABEL → Registered t'.toDsServer keyName := fun hk =>
      ⟨k, m.val, (label_set hd hset).mpr
        (.inl ⟨rfl, rfl, by rw [← label_bits, ← hkind] at hk; exact hk, rfl, hu hk⟩)⟩
    refine h.write hd hset hsubs (h.typed.set hd hset fun _ => ⟨kind, hkind, fun hk => ⟨_, hu hk⟩⟩)
      rfl (fun hl hnum => ?_) (fun _ => ?_) fun sub j e hp hjk he hreg => ?_
    · have hk : kind = .LABEL := by
        rw [← label_bits, ← hkind]
        exact hl
      rw [show (published t.toDsServer k keyName source m u).u = u from rfl, hu hk] at hnum
      exact (hlabel hl).1 (DsUnion.u32.inj hnum)
    · obtain ⟨j, e, rfl, he, huse, hl, hnum⟩ := source_registered hacc.source hwho
      change Registered t'.toDsServer (if j = k then keyName else _)
      by_cases hj : j = k
      · subst hj
        rw [hd] at he
        cases he
        rw [if_pos rfl]
        exact hnew (hstays huse hl)
      · rw [if_neg hj]
        exact ⟨j, who, (label_set hd hset).mpr (.inr ⟨hj, e, he, huse, hl, by
          simp only [readName, he, Option.elim_some], hnum⟩)⟩
    · obtain ⟨i, num, hi⟩ := hreg
      by_cases hik : i = k
      · subst hik
        obtain ⟨f, hf, huse, hl, hkey, -⟩ := hi
        rw [hd] at hf
        cases hf
        have hk := hstays huse hl
        by_cases hname : d.key = keyName
        · rw [← hkey, hname]
          exact hnew hk
        · have hlab : m.flags.types.label = true := by
            rw [hkind, label_bits]
            exact hk
          exact absurd hkey.symm ((hlabel hlab).2 d hd huse hname sub j e hp hjk he)
      · exact ⟨i, num, (label_set hd hset).mpr (.inr ⟨hik, hi⟩)⟩

theorem SoundBits.service {label : String} {endpoint : ℤ} (h : SoundBits t)
    (hm : (DsRequest.service label endpoint).KeepsBits C t) :
    SoundBits (mapService C t label endpoint).2 := by
  rcases mapService_cases C t label endpoint with hsame | ⟨k, d, hd, hfree, hset, hsubs⟩
  · rwa [hsame]
  · have hkeep : ∀ name, Registered t.toDsServer name →
        Registered (mapService C t label endpoint).2.toDsServer name := by
      rintro name ⟨i, num, hi⟩
      refine ⟨i, num, (label_set hd hset).mpr (.inr ⟨?_, hi⟩)⟩
      rintro rfl
      obtain ⟨f, hf, huse, -⟩ := hi
      rw [hd] at hf
      cases hf
      rw [hfree] at huse
      cases huse
    refine h.write hd hset hsubs (h.typed.set hd hset fun _ => ⟨.LABEL, rfl, fun _ => ⟨_, rfl⟩⟩)
      rfl (fun _ hnum => hm.1 (DsUnion.u32.inj hnum)) (fun hlive => ?_)
      fun _ _ e _ _ _ hreg => hkeep e.owner hreg
    rcases hm.2 with hrs | hreg | hnone
    · exact ⟨k, endpoint, (label_set hd hset).mpr (.inl ⟨rfl, rfl, rfl, hrs, rfl⟩)⟩
    · exact hkeep "rs" hreg
    · rcases hlive with ⟨sub, hpending⟩ | ⟨sub, hsub, hconcerns⟩
      · obtain ⟨e, he, huse, -⟩ := h.bits hpending
        rw [hd] at he
        cases he
        rw [hfree] at huse
        cases huse
      · simp only [concerns, checkSubMatch, Bool.and_eq_true] at hconcerns
        have hno := hnone sub hsub hconcerns.1.1 hconcerns.1.2
        rw [show (Ds.service label endpoint).key = label from rfl] at hconcerns
        rw [hconcerns.2.2] at hno
        cases hno

theorem SoundBits.subs (h : SoundBits t) (hstore : t'.toDsServer = t.toDsServer)
    (hbits : ∀ sub k, Pending t' sub k → (∃ sub₀, Pending t sub₀ k) ∨
      ∃ d, t.dsStore[k]? = some d ∧ d.inUse = true ∧ Registered t.toDsServer d.owner) :
    SoundBits t' where
  typed := by
    rw [hstore]
    exact h.typed
  positive hl := by
    rw [hstore] at hl
    exact h.positive hl
  bits hp := by
    rw [hstore]
    rcases hbits _ _ hp with ⟨sub₀, hp₀⟩ | hd
    · exact h.bits hp₀
    · exact hd

theorem SoundBits.subscribe {who : ℤ} {key : KeyArg} {m : SubscribeArg} (h : SoundBits t)
    (hm : (DsRequest.subscribe who key m).KeepsBits C t) :
    SoundBits (doSubscribe C t who key m).2 := by
  refine h.subs (subscribe_entries who key m) fun sub k hp => ?_
  simp only [doSubscribe] at hp
  split at hp
  · exact .inl ⟨sub, hp⟩
  · split at hp
    · exact .inl ⟨sub, hp⟩
    · rename_i j _
      split at hp
      · exact .inl ⟨sub, hp⟩
      · split at hp
        · obtain ⟨hmem, hlive, hk⟩ := hp
          obtain ⟨i, hi⟩ := List.mem_iff_getElem?.mp hmem
          rw [List.getElem?_modify, Option.map_eq_map, Option.map_eq_some_iff] at hi
          obtain ⟨sub₀, hsub₀, rfl⟩ := hi
          have hmem₀ := List.mem_of_getElem? hsub₀
          refine .inl ⟨sub₀, hmem₀, ?_, ?_⟩
          · split at hlive <;> exact hlive
          · split at hk <;> exact hk
        · obtain ⟨hmem, hlive, hk⟩ := hp
          rcases List.mem_or_eq_of_mem_set hmem with hmem | rfl
          · exact .inl ⟨sub, hmem, hlive, hk⟩
          · dsimp only at hk
            split at hk
            · rename_i hinitial
              simp only [initialList, Finset.mem_filter] at hk
              cases hd : t.dsStore[k]? with
              | none => simp [hd] at hk
              | some d =>
                simp only [hd, Option.elim_some, Bool.and_eq_true] at hk
                refine .inr ⟨d, rfl, hk.2.1.1, hm hinitial _ ?_ k d hd hk.2.1.1 hk.2.1.2 hk.2.2⟩
                exact ⟨_, _, _, _, ‹_›, ‹_›, ‹_›, ‹_›, rfl⟩
            · simp at hk

theorem SoundBits.check {who : ℤ} {copied : Option ℤ} {r : Except Errno Checked} (h : SoundBits t)
    (hok : doCheck C t who copied = .ok (r, t')) : SoundBits t' := by
  refine h.subs (check_entries hok) fun sub k hp => .inl ?_
  simp only [doCheck] at hok
  split at hok
  · cases hok
    exact ⟨sub, hp⟩
  · split at hok
    · cases hok
      exact ⟨sub, hp⟩
    · split at hok
      · cases hok
      · rename_i sub₀ hsub₀
        split at hok
        · cases hok
          exact ⟨sub, hp⟩
        · split at hok
          · cases hok
          · split at hok
            · cases hok
              exact ⟨sub, hp⟩
            · split at hok <;> cases hok
              obtain ⟨hmem, hlive, hk⟩ := hp
              rcases List.mem_or_eq_of_mem_set hmem with hmem | rfl
              · exact ⟨sub, hmem, hlive, hk⟩
              · exact ⟨sub₀, List.mem_of_getElem? hsub₀, hlive, Finset.mem_of_mem_erase hk⟩

theorem concerns_congr {s s' : DsServer} (h : s.dsStore = s'.dsStore) (d : DataStore)
    (sub : Subscription) : concerns C s d sub = concerns C s' d sub := by
  cases s
  cases s'
  cases h
  rfl

theorem SoundBits.drop {t₁ : DsTables} {k : ℕ} {d₁ : DataStore} (htyped : Typed t₁.toDsServer)
    (hpos : ∀ {i name num}, IsLabel t₁.toDsServer i name num → num ≠ -1)
    (hd₁ : t₁.dsStore[k]? = some d₁) (hset : t'.dsStore = t₁.dsStore.set k d₁.clear)
    (hsubs : t'.dsSubs = t₁.dsSubs.map (updateSub C t₁.toDsServer k d₁ false))
    (hothers : ∀ sub j, Pending t₁ sub j → j ≠ k → ∃ e, t₁.dsStore[j]? = some e ∧
      e.inUse = true ∧ ∃ i num, i ≠ k ∧ IsLabel t₁.toDsServer i e.owner num)
    (hdrop : ∀ sub, Pending t₁ sub k → concerns C t₁.toDsServer d₁ sub = true) :
    SoundBits t' where
  typed := htyped.set hd₁ hset fun h => by cases h
  positive hl := by
    rcases (label_set hd₁ hset).mp hl with ⟨-, huse, -⟩ | ⟨-, hl⟩
    · cases huse
    · exact hpos hl
  bits := by
    rintro sub' j ⟨hmem, hlive, hj⟩
    rw [hsubs] at hmem
    obtain ⟨sub, hsub, rfl⟩ := List.mem_map.mp hmem
    rw [updateSub_live] at hlive
    have hp : Pending t₁ sub j := by
      rcases updateSub_bits hj with hj | ⟨hfalse, -⟩
      · exact ⟨hsub, hlive, hj⟩
      · cases hfalse
    by_cases hjk : j = k
    · subst hjk
      have hc := hdrop sub hp
      rw [updateSub_cleared hj] at hc
      cases hc
    · obtain ⟨e, he, huse, i, num, hi, hl⟩ := hothers sub j hp hjk
      rw [setEntry_eq hd₁ hset, if_neg hjk]
      exact ⟨e, he, huse, i, num, (label_set hd₁ hset).mpr (.inr ⟨hi, hl⟩)⟩

theorem cleaned_entry {label : String} {k : ℕ} {d : DataStore} (hd : t.dsStore[k]? = some d)
    (hne : d.owner ≠ label) : (cleanUp label t).dsStore[k]? = some d := by
  simp [cleanUp, hd, hne]

theorem cleaned_entry_before {label : String} {k : ℕ} {d : DataStore}
    (hd : (cleanUp label t).dsStore[k]? = some d) (huse : d.inUse = true) :
    t.dsStore[k]? = some d := by
  simp only [cleanUp, List.getElem?_map, Option.map_eq_some_iff] at hd
  obtain ⟨e, he, hd⟩ := hd
  split at hd
  · subst hd
    cases huse
  · rw [he, hd]

theorem cleaned_label {label name : String} {k : ℕ} {num : ℤ}
    (h : IsLabel (cleanUp label t).toDsServer k name num) : IsLabel t.toDsServer k name num := by
  obtain ⟨d, hd, huse, hrest⟩ := h
  exact ⟨d, cleaned_entry_before hd huse, huse, hrest⟩

theorem cleaned_pending {label : String} {sub : Subscription} {k : ℕ}
    (h : Pending (cleanUp label t) sub k) : Pending t sub k ∧ sub.owner ≠ label := by
  obtain ⟨hmem, hlive, hk⟩ := h
  obtain ⟨sub₀, hsub₀, rfl⟩ := List.mem_map.mp hmem
  by_cases hown : (sub₀.inUse && sub₀.owner == label) = true
  · rw [if_pos hown] at hlive
    cases hlive
  · rw [if_neg hown] at hlive hk ⊢
    refine ⟨⟨hsub₀, hlive, hk⟩, fun heq => hown ?_⟩
    rw [hlive, heq, beq_self_eq_true, Bool.true_and]

theorem SoundBits.delete {who : ℤ} {key : KeyArg} {m : DeleteArg} {r : Except Errno Unit}
    (h : SoundBits t) (hm : (DsRequest.delete who key m).KeepsBits C t)
    (hok : doDelete C t who key m = .ok (r, t')) : SoundBits t' := by
  rcases doDelete_cases hok with
    rfl | ⟨k, d, d₁, t₁, kind, hdoomed, htypes, hkind, hd₁, hset, hsubs⟩
  · exact h
  · obtain ⟨hdrop, howner⟩ := hm k d hdoomed
    by_cases hk : kind = .LABEL
    · subst hk
      rw [if_pos rfl] at hkind
      subst hkind
      rw [whenDropped, if_pos htypes] at hdrop
      refine .drop (fun i e he huse => h.typed i e (cleaned_entry_before he huse) huse)
        (fun hl => h.positive (cleaned_label hl)) hd₁ hset hsubs (fun sub j hp hjk => ?_)
        fun sub hp => hdrop sub d₁ hp hd₁
      obtain ⟨hp₀, hne⟩ := cleaned_pending hp
      obtain ⟨e, he, huse, -⟩ := h.bits hp₀
      obtain ⟨heo, i, f, num, hf, hi, hfo⟩ := howner htypes sub j e hp₀ hne hjk he
      refine ⟨e, cleaned_entry he heo, huse, i, num, ?_, ?_⟩
      · rintro rfl
        obtain ⟨f', hf', -, -, hkey, -⟩ := hi
        rw [hdoomed.entry] at hf'
        cases hf'
        exact heo hkey.symm
      · obtain ⟨f', hf', hrest⟩ := hi
        rw [hf] at hf'
        cases hf'
        exact ⟨f, cleaned_entry hf hfo, hrest⟩
    · rw [if_neg hk] at hkind
      obtain ⟨hstore, hsubs₁⟩ := hkind
      have hne : m.types ≠ DsType.LABEL.bits := by
        rw [htypes]
        intro hbits
        exact hk (meets_bits.mp (by rw [hbits]; rfl))
      rw [whenDropped, if_neg hne] at hdrop
      have hsame : Alike t.toDsServer t₁.toDsServer := .same hstore
      have hp₀ : ∀ {sub j}, Pending t₁ sub j → Pending t sub j := by
        intro sub j hp
        rwa [Pending, hsubs₁] at hp
      rw [hstore] at hd₁
      have hnot : ∀ name num, ¬ IsLabel t.toDsServer k name num := by
        rintro name num ⟨f, hf, huse, hl, -⟩
        obtain ⟨keyName, -, hfound⟩ := hdoomed.found
        obtain ⟨f', hf', hp⟩ := found_entry hfound
        rw [hf] at hf'
        cases hf'
        simp only [Bool.and_eq_true] at hp
        have hmeets := hp.1.2
        obtain ⟨kind', hkind', -⟩ := h.typed k f hf huse
        rw [htypes, hkind', meets_bits] at hmeets
        rw [hkind', label_bits, hmeets] at hl
        exact hk hl
      refine .drop (hsame.typed h.typed) (fun hl => h.positive (hsame.label_iff.mp hl))
        (by rw [hstore]; exact hd₁) hset hsubs (fun sub j hp hjk => ?_) fun sub hp => ?_
      · obtain ⟨e, he, huse, i, num, hi⟩ := h.bits (hp₀ hp)
        refine ⟨e, by rw [hstore]; exact he, huse, i, num, ?_, hsame.label_iff.mpr hi⟩
        rintro rfl
        exact hnot _ _ hi
      · rw [concerns_congr hstore]
        exact hdrop sub d₁ (hp₀ hp) hd₁

theorem SoundBits.step (h : SoundBits t) (hm : req.KeepsBits C t)
    (hok : serve C t req = .ok t') : SoundBits t' := by
  cases req with
  | publish who key m =>
    obtain ⟨⟨r, _⟩, hpublish, rfl⟩ := map_ok hok
    exact h.publish hm hpublish
  | subscribe who key m =>
    cases hok
    exact h.subscribe hm
  | check who copied =>
    obtain ⟨⟨r, _⟩, hcheck, rfl⟩ := map_ok hok
    exact h.check hcheck
  | delete who key m =>
    obtain ⟨⟨r, _⟩, hdelete, rfl⟩ := map_ok hok
    exact h.delete hm hdelete
  | snapshot who key malloc =>
    obtain ⟨⟨r, s⟩, hsnapshot, rfl⟩ := map_ok hok
    exact h.alike (doSnapshot_alike h.typed hsnapshot) rfl
  | retrieve who key m =>
    obtain ⟨r, -, rfl⟩ := map_ok hok
    exact h
  | service label endpoint =>
    cases hok
    exact h.service hm

theorem sound_initially (h : (dsTablesSystem C).initial t) : SoundBits t := by
  have hlabels := labelMap_initially h
  refine ⟨hlabels.typed, ?_, ?_⟩
  · rintro k name num ⟨d, hd, huse, -⟩
    rw [h.1 d (List.mem_of_getElem? hd)] at huse
    cases huse
  · rintro sub k ⟨hmem, hlive, -⟩
    rw [h.2 sub hmem] at hlive
    cases hlive

theorem SoundBits.doCheck_reports (h : SoundBits t) (who : ℤ) (copied : Option ℤ) :
    doCheck C t who copied ≠ .error .panic ∧
    ∀ reply t', doCheck C t who copied = .ok (.ok reply, t') →
      ∃ (k : ℕ) (d : DataStore), t.dsStore[k]? = some d ∧ d.inUse = true ∧ d.key = reply.key ∧
        Registered t.toDsServer d.owner := by
  have hpanic : ∀ r : Except Errno Checked × DsTables,
      (.ok r : Except Fault (Except Errno Checked × DsTables)) ≠ .error .panic :=
    fun r h => by cases h
  simp only [doCheck]
  split
  · exact ⟨hpanic _, fun _ _ h => by cases h⟩
  · split
    · exact ⟨hpanic _, fun _ _ h => by cases h⟩
    · rename_i j hj
      split
      · exact ⟨(by cases ·), fun _ _ h => by cases h⟩
      · rename_i sub hsub
        have hlive : sub.inUse = true := by
          obtain ⟨hlt, hp, -⟩ := List.findIdx?_eq_some_iff_getElem.mp hj
          rw [List.getElem?_eq_getElem hlt] at hsub
          cases hsub
          simp only [Bool.and_eq_true] at hp
          exact hp.1
        split
        · exact ⟨hpanic _, fun _ _ h => by cases h⟩
        · rename_i k hk
          have hbit : k ∈ sub.oldSubs := by simpa using List.find?_some hk
          obtain ⟨d, hd, huse, hreg⟩ := h.bits ⟨List.mem_of_getElem? hsub, hlive, hbit⟩
          rw [hd]
          dsimp only
          split
          · exact ⟨hpanic _, fun _ _ h => by cases h⟩
          · rw [if_neg (hreg.getprocep h)]
            refine ⟨hpanic _, fun reply t' hr => ?_⟩
            cases hr
            exact ⟨k, d, hd, huse, rfl, hreg⟩

theorem bits_name_entries {past : List (DsTables × DsRequest)}
    (h : Run (dsTablesSystem C) (fun _ t req => req.KeepsBits C t) past t) :
    (∀ sub k, Pending t sub k → ∃ d, t.dsStore[k]? = some d ∧ d.inUse = true ∧
      Registered t.toDsServer d.owner) ∧
    ∀ who copied, doCheck C t who copied ≠ .error .panic ∧
      ∀ reply t', doCheck C t who copied = .ok (.ok reply, t') →
        ∃ (k : ℕ) (d : DataStore), t.dsStore[k]? = some d ∧ d.inUse = true ∧ d.key = reply.key ∧
          Registered t.toDsServer d.owner := by
  have hsound : SoundBits t := h.invariant (P := fun t => SoundBits t)
    (fun _ hinit => sound_initially hinit) fun _ _ _ _ hsound hm hstep => hsound.step hm hstep
  exact ⟨fun _ _ hp => hsound.bits hp, hsound.doCheck_reports⟩

end Steps

def putRoot : DsRequest :=
  .publish 1 ⟨5, .ok "root"⟩ ⟨⟨DsType.U32.bits, noPriv, false⟩, 7, 0, none, .ok []⟩

def askRoot : DsRequest :=
  .subscribe 2 ⟨5, .ok "root"⟩ ⟨noTypes, false, true, fun _ => false⟩

def rootTables : DsTables :=
  after smallConfig (after smallConfig bootTables (putLabel "vfs" 1 false)) putRoot

theorem no_subs_pending {t : DsTables} (h : t.dsSubs = List.replicate 2 freeSub)
    (sub : Subscription) (k : ℕ) : ¬ Pending t sub k := by
  rintro ⟨hmem, hlive, -⟩
  rw [h] at hmem
  rw [List.eq_of_mem_replicate hmem] at hlive
  cases hlive

theorem root_run : ∃ past,
    Run (dsTablesSystem smallConfig) (fun _ t req => req.KeepsBits smallConfig t) past rootTables := by
  have h₁ : Run (dsTablesSystem smallConfig) (fun _ t req => req.KeepsBits smallConfig t)
      [(emptyTables, .service "rs" 2)] bootTables :=
    .next (.start (empty_initially _)) ⟨by decide, .inl rfl⟩ rfl
  have h₂ := h₁.next (e := putLabel "vfs" 1 false)
    (fun source keyName k hacc => ⟨by decide, fun _ => ⟨by decide, fun d hd huse hne sub j e hp =>
      absurd hp (no_subs_pending rfl sub j)⟩⟩) (after_step rfl)
  exact ⟨_, h₂.next (e := putRoot)
    (fun source keyName k hacc => ⟨by decide, fun h => by cases h⟩) (after_step rfl)⟩

theorem root_owners {k : ℕ} {d : DataStore} (hd : rootTables.dsStore[k]? = some d)
    (huse : d.inUse = true) : Registered rootTables.toDsServer d.owner := by
  rcases k with _ | _ | _ | k
  · cases hd
    exact ⟨0, 2, _, rfl, rfl, rfl, rfl, rfl⟩
  · cases hd
    exact ⟨0, 2, _, rfl, rfl, rfl, rfl, rfl⟩
  · cases hd
    exact ⟨1, 1, _, rfl, rfl, rfl, rfl, rfl⟩
  · cases hd

theorem bits_name_entries_root :
    doCheck smallConfig (after smallConfig rootTables askRoot) 2 none ≠ .error .panic := by
  obtain ⟨past, hroot⟩ := root_run
  have hrun := hroot.next (e := askRoot) (fun _ _ _ k d hd huse _ _ => root_owners hd huse)
    (after_step rfl)
  exact ((bits_name_entries hrun).2 2 none).1

theorem deleted_key_panics : ∃ past t sub, Run (dsTablesSystem smallConfig) always past t ∧
    Pending t sub 2 ∧ (∀ d, t.dsStore[2]? = some d → d.inUse = false) ∧
    doCheck smallConfig t 2 none = .error .panic := by
  obtain ⟨past, hroot⟩ := root_run
  have h₁ : Run (dsTablesSystem smallConfig) always past rootTables :=
    hroot.mono fun _ _ _ _ => trivial
  have h₂ := h₁.next (e := askRoot) trivial (after_step rfl)
  have h₃ := h₂.next (e := .delete 2 ⟨4, .ok "vfs"⟩ ⟨DsType.LABEL.bits, none⟩) trivial
    (after_step rfl)
  refine ⟨_, _, _, h₃, ⟨List.mem_cons_self, rfl, by decide⟩, fun d hd => ?_, rfl⟩
  cases hd
  rfl

end Ds
