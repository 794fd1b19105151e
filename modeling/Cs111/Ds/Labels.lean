import Cs111.Ds.Entries
import Cs111.Lib.Runs

namespace Ds
open TransitionSystem

def dsTablesSystem (C : DsConfig) : TransitionSystem DsTables DsRequest where
  initial t := (∀ d ∈ t.dsStore, d.inUse = false) ∧ ∀ sub ∈ t.dsSubs, sub.inUse = false
  step t req t' := serve C t req = .ok t'

theorem map_ok {α β ε : Type} {f : α → β} {x : Except ε α} {b : β} (h : x.map f = .ok b) :
    ∃ a, x = .ok a ∧ f a = b := by
  cases x with
  | error e => cases h
  | ok a => exact ⟨a, rfl, Except.ok.inj h⟩

structure LabelMap (C : DsConfig) (s : DsServer) : Prop where
  typed : Typed s
  names : ∀ {k k' name num num'}, IsLabel s k name num → IsLabel s k' name num' → k = k'
  nums : ∀ {k k' name name' num}, IsLabel s k name num → IsLabel s k' name' num → k = k'
  first : ∀ {k name}, IsLabel s k name C.dsProcNr → name = "ds"

def DsRequest.MapsOnce (C : DsConfig) (t : DsTables) : DsRequest → Prop
  | .publish who key m => ∀ source keyName k, Accepted C t who key m source keyName k →
      m.flags.types.label = true →
      (∀ j name, IsLabel t.toDsServer j name m.val → j = k) ∧
        (m.val = C.dsProcNr → keyName = "ds")
  | .service label endpoint =>
      (∀ k name num, IsLabel t.toDsServer k name num → name ≠ label ∧ num ≠ endpoint) ∧
        (endpoint = C.dsProcNr → label = "ds")
  | _ => True

section Labelled
variable {C : DsConfig} {s s' : DsServer} {k j : ℕ} {d d' : DataStore} {name : String} {num : ℤ}

theorem IsLabel.functional {name' : String} {num' : ℤ} (h : IsLabel s k name num)
    (h' : IsLabel s k name' num') : name = name' ∧ num = num' := by
  obtain ⟨d, hd, -, -, hname, hnum⟩ := h
  obtain ⟨d', hd', -, -, hname', hnum'⟩ := h'
  rw [hd] at hd'
  cases hd'
  rw [hnum] at hnum'
  cases hnum'
  exact ⟨hname.symm.trans hname', rfl⟩

theorem label_set (hd : s.dsStore[k]? = some d) (hset : s'.dsStore = s.dsStore.set k d') :
    IsLabel s' j name num ↔
      (j = k ∧ d'.inUse = true ∧ d'.types.label = true ∧ d'.key = name ∧ d'.u = .u32 num) ∨
      (j ≠ k ∧ IsLabel s j name num) := by
  unfold IsLabel
  rw [setEntry_eq hd hset]
  by_cases hj : j = k
  · simp [hj]
  · simp [hj]

theorem lookup_label_none (h : lookupEntry s name DsType.LABEL.bits = none) :
    ¬ IsLabel s j name num := by
  rintro ⟨d, hd, huse, hlabel, hkey, -⟩
  have hmiss := missing_entry h hd
  simp [huse, meets_label, hlabel, hkey] at hmiss

theorem Typed.set (h : Typed s) (hd : s.dsStore[k]? = some d)
    (hset : s'.dsStore = s.dsStore.set k d')
    (hd' : d'.inUse = true →
      ∃ kind, d'.types = DsType.bits kind ∧ (kind = .LABEL → ∃ num, d'.u = .u32 num)) :
    Typed s' := by
  intro j e he huse
  rw [setEntry_eq hd hset] at he
  split at he
  · cases he
    exact hd' huse
  · exact h j e he huse

theorem LabelMap.set (h : LabelMap C s) (hd : s.dsStore[k]? = some d)
    (hset : s'.dsStore = s.dsStore.set k d') (htyped : Typed s')
    (hname : d'.types.label = true → ∀ j num, j ≠ k → ¬ IsLabel s j d'.key num)
    (hnum : d'.types.label = true → ∀ j name num, d'.u = .u32 num → j ≠ k →
      ¬ IsLabel s j name num)
    (hfirst : d'.types.label = true → d'.u = .u32 C.dsProcNr → d'.key = "ds") :
    LabelMap C s' where
  typed := htyped
  names h₁ h₂ := by
    rcases (label_set hd hset).mp h₁ with ⟨rfl, -, hl, rfl, -⟩ | ⟨hne, h₁⟩ <;>
      rcases (label_set hd hset).mp h₂ with ⟨rfl, -, hl', hk', -⟩ | ⟨hne', h₂⟩
    · rfl
    · exact absurd h₂ (hname hl _ _ hne')
    · subst hk'
      exact absurd h₁ (hname hl' _ _ hne)
    · exact h.names h₁ h₂
  nums h₁ h₂ := by
    rcases (label_set hd hset).mp h₁ with ⟨rfl, -, hl, -, hu⟩ | ⟨hne, h₁⟩ <;>
      rcases (label_set hd hset).mp h₂ with ⟨rfl, -, hl', -, hu'⟩ | ⟨hne', h₂⟩
    · rfl
    · exact absurd h₂ (hnum hl _ _ _ hu hne')
    · exact absurd h₁ (hnum hl' _ _ _ hu' hne)
    · exact h.nums h₁ h₂
  first h₁ := by
    rcases (label_set hd hset).mp h₁ with ⟨-, -, hl, rfl, hu⟩ | ⟨-, h₁⟩
    · exact hfirst hl hu
    · exact h.first h₁

theorem LabelMap.mono (h : LabelMap C s) (htyped : Typed s')
    (hlabel : ∀ k name num, IsLabel s' k name num → IsLabel s k name num) : LabelMap C s' where
  typed := htyped
  names h₁ h₂ := h.names (hlabel _ _ _ h₁) (hlabel _ _ _ h₂)
  nums h₁ h₂ := h.nums (hlabel _ _ _ h₁) (hlabel _ _ _ h₂)
  first h₁ := h.first (hlabel _ _ _ h₁)

theorem LabelMap.alike (h : LabelMap C s) (hs : Alike s s') : LabelMap C s' :=
  h.mono (hs.typed h.typed) fun _ _ _ => hs.label_iff.mp

theorem LabelMap.getprocep (h : LabelMap C s) (hl : IsLabel s k name num) :
    dsGetprocep s name = num := by
  cases hlook : lookupEntry s name DsType.LABEL.bits with
  | none => exact absurd hl (lookup_label_none hlook)
  | some j =>
    obtain ⟨d, hd, hp⟩ := found_entry hlook
    simp only [Bool.and_eq_true, beq_iff_eq, meets_label] at hp
    obtain ⟨num', hl'⟩ := h.typed.label hd hp.1.1 hp.1.2
    rw [hp.2] at hl'
    obtain rfl := h.names hl hl'
    obtain ⟨-, rfl⟩ := hl.functional hl'
    obtain ⟨d', hd', -, -, -, hu⟩ := hl
    simp only [dsGetprocep, hlook, hd', Option.elim_some, labelNum, hu]

theorem lookupLabelEntry_found {d : DataStore} (h : lookupLabelEntry s num = some d) :
    ∃ k : ℕ, s.dsStore[k]? = some d ∧ d.inUse = true ∧ d.types.label = true ∧
      d.u.isU32 num = true := by
  obtain ⟨hp, k, hk, hd, -⟩ := List.find?_eq_some_iff_getElem.mp h
  simp only [Bool.and_eq_true] at hp
  exact ⟨k, by rw [← hd, List.getElem?_eq_getElem hk], hp.1.1, hp.1.2, hp.2⟩

theorem isU32_iff {u : DsUnion} : u.isU32 num = true ↔ u = .u32 num := by
  cases u <;> simp [DsUnion.isU32]

theorem LabelMap.getprocname (h : LabelMap C s) (hl : IsLabel s k name num) :
    dsGetprocname C.toDsHeaders s num = some name := by
  rw [dsGetprocname]
  split
  · rename_i hfirst
    subst hfirst
    rw [h.first hl]
  · cases hlook : lookupLabelEntry s num with
    | none =>
      obtain ⟨d, hd, huse, hlabel, -, hnum⟩ := hl
      have hmiss := List.find?_eq_none.mp hlook d (List.mem_of_getElem? hd)
      simp [huse, hlabel, hnum, DsUnion.isU32] at hmiss
    | some d =>
      obtain ⟨j, hd, huse, hlabel, hnum⟩ := lookupLabelEntry_found hlook
      have hl' : IsLabel s j d.key num := ⟨d, hd, huse, hlabel, rfl, isU32_iff.mp hnum⟩
      obtain rfl := h.nums hl hl'
      rw [Option.map_some, (hl.functional hl').1]

end Labelled

section Steps
variable {C : DsConfig} {t t' : DsTables} {req : DsRequest}

theorem LabelMap.publish {who : ℤ} {key : KeyArg} {m : PublishArg} {r : Except Errno Unit}
    (h : LabelMap C t.toDsServer) (hm : (DsRequest.publish who key m).MapsOnce C t)
    (hok : doPublish C t who key m = .ok (r, t')) : LabelMap C t'.toDsServer := by
  rcases doPublish_cases h.typed hok with
    ⟨hsame, -⟩ | ⟨source, keyName, k, kind, u, hacc, hkind, hu, hset, -⟩
  · exact h.alike hsame
  · obtain ⟨d, hd, hslot⟩ := publishSlot_cases hacc.slot
    have hlabel : m.flags.types.label = true → kind = .LABEL ∧ u = .u32 m.val := by
      rw [hkind, label_bits]
      exact fun hl => ⟨hl, hu hl⟩
    refine h.set hd hset (h.typed.set hd hset fun _ => ⟨kind, hkind, fun hk => ⟨_, hu hk⟩⟩)
      (fun hl j num hne hj => ?_) (fun hl j name num hnum hne hj => ?_) fun hl hnum => ?_
    · obtain ⟨rfl, -⟩ := hlabel hl
      cases hslot with
      | fresh _ hnone => exact lookup_label_none (hkind ▸ hnone) hj
      | named huse hmeets hkey =>
        rw [hkind, meets_label] at hmeets
        obtain ⟨num', hl'⟩ := h.typed.label hd huse hmeets
        rw [hkey] at hl'
        exact hne (h.names hj hl')
      | numbered _ _ _ _ hnone => exact lookup_label_none (hkind ▸ hnone) hj
    · rw [show (published t.toDsServer k keyName source m u).u = u from rfl, (hlabel hl).2] at hnum
      cases hnum
      exact hne ((hm source keyName k hacc hl).1 j name hj)
    · rw [show (published t.toDsServer k keyName source m u).u = u from rfl, (hlabel hl).2] at hnum
      exact (hm source keyName k hacc hl).2 (DsUnion.u32.inj hnum)

theorem LabelMap.service {label : String} {endpoint : ℤ} (h : LabelMap C t.toDsServer)
    (hm : (DsRequest.service label endpoint).MapsOnce C t) :
    LabelMap C (mapService C t label endpoint).2.toDsServer := by
  rcases mapService_cases C t label endpoint with hsame | ⟨k, d, hd, -, hset, -⟩
  · rwa [hsame]
  · refine h.set hd hset (h.typed.set hd hset fun _ => ⟨.LABEL, rfl, fun _ => ⟨_, rfl⟩⟩)
      (fun _ j num _ hj => (hm.1 j _ num hj).1 rfl) (fun _ j name num hnum _ hj => ?_) fun _ hnum => ?_
    · cases hnum
      exact (hm.1 j name _ hj).2 rfl
    · cases hnum
      exact hm.2 rfl

theorem delete_fewer {who : ℤ} {key : KeyArg} {m : DeleteArg} {r : Except Errno Unit}
    (hok : doDelete C t who key m = .ok (r, t')) {k : ℕ} {d : DataStore}
    (hd : t'.dsStore[k]? = some d) (huse : d.inUse = true) : t.dsStore[k]? = some d := by
  rcases doDelete_cases hok with rfl | ⟨j, dj, d₁, t₁, kind, -, -, hkind, hd₁, hset, -⟩
  · exact hd
  · rw [setEntry_eq hd₁ hset] at hd
    split at hd
    · cases hd
      cases huse
    · split at hkind
      · subst hkind
        simp only [cleanUp, List.getElem?_map, Option.map_eq_some_iff] at hd
        obtain ⟨e, he, hd⟩ := hd
        split at hd
        · subst hd
          cases huse
        · rw [he, hd]
      · rwa [hkind.1] at hd

theorem LabelMap.delete {who : ℤ} {key : KeyArg} {m : DeleteArg} {r : Except Errno Unit}
    (h : LabelMap C t.toDsServer) (hok : doDelete C t who key m = .ok (r, t')) :
    LabelMap C t'.toDsServer := by
  refine h.mono (fun k d hd huse => h.typed k d (delete_fewer hok hd huse) huse) ?_
  rintro k name num ⟨d, hd, huse, hrest⟩
  exact ⟨d, delete_fewer hok hd huse, huse, hrest⟩

theorem subscribe_entries (who : ℤ) (key : KeyArg) (m : SubscribeArg) :
    (doSubscribe C t who key m).2.toDsServer = t.toDsServer := by
  simp only [doSubscribe]
  split
  · rfl
  · split
    · rfl
    · split
      · rfl
      · split <;> rfl

theorem check_entries {who : ℤ} {copied : Option ℤ} {r : Except Errno Checked}
    (h : doCheck C t who copied = .ok (r, t')) : t'.toDsServer = t.toDsServer := by
  simp only [doCheck] at h
  repeat' split at h
  all_goals cases h
  all_goals rfl

theorem LabelMap.step (h : LabelMap C t.toDsServer) (hm : req.MapsOnce C t)
    (hok : serve C t req = .ok t') : LabelMap C t'.toDsServer := by
  cases req with
  | publish who key m =>
    obtain ⟨⟨r, _⟩, hpublish, rfl⟩ := map_ok hok
    exact h.publish hm hpublish
  | subscribe who key m =>
    cases hok
    rwa [subscribe_entries]
  | check who copied =>
    obtain ⟨⟨r, _⟩, hcheck, rfl⟩ := map_ok hok
    rwa [check_entries hcheck]
  | delete who key m =>
    obtain ⟨⟨r, _⟩, hdelete, rfl⟩ := map_ok hok
    exact h.delete hdelete
  | snapshot who key malloc =>
    obtain ⟨⟨r, s⟩, hsnapshot, rfl⟩ := map_ok hok
    exact h.alike (doSnapshot_alike h.typed hsnapshot)
  | retrieve who key m =>
    obtain ⟨r, -, rfl⟩ := map_ok hok
    exact h
  | service label endpoint =>
    cases hok
    exact h.service hm

theorem labelMap_initially (h : (dsTablesSystem C).initial t) : LabelMap C t.toDsServer := by
  have hnone : ∀ k name num, ¬ IsLabel t.toDsServer k name num := by
    rintro k name num ⟨d, hd, huse, -⟩
    rw [h.1 d (List.mem_of_getElem? hd)] at huse
    cases huse
  refine ⟨fun k d hd huse => ?_, fun h₁ => absurd h₁ (hnone _ _ _),
    fun h₁ => absurd h₁ (hnone _ _ _), fun h₁ => absurd h₁ (hnone _ _ _)⟩
  rw [h.1 d (List.mem_of_getElem? hd)] at huse
  cases huse

theorem labels_one_to_one {past : List (DsTables × DsRequest)}
    (h : Run (dsTablesSystem C) (fun _ t req => req.MapsOnce C t) past t) :
    (∀ k k' name name' num num', IsLabel t.toDsServer k name num →
      IsLabel t.toDsServer k' name' num' → name = name' ∨ num = num' → k = k') ∧
    ∀ k name num, IsLabel t.toDsServer k name num →
      dsGetprocep t.toDsServer name = num ∧
      dsGetprocname C.toDsHeaders t.toDsServer num = some name := by
  have hmap : LabelMap C t.toDsServer := h.invariant (P := fun t => LabelMap C t.toDsServer)
    (fun _ hinit => labelMap_initially hinit) fun _ _ _ _ hmap hm hstep => hmap.step hm hstep
  refine ⟨fun k k' name name' num num' h₁ h₂ heq => ?_, fun k name num hl =>
    ⟨hmap.getprocep hl, hmap.getprocname hl⟩⟩
  rcases heq with rfl | rfl
  · exact hmap.names h₁ h₂
  · exact hmap.nums h₁ h₂

end Steps

def after (C : DsConfig) (t : DsTables) (req : DsRequest) : DsTables :=
  match serve C t req with
  | .ok t' => t'
  | .error _ => t

theorem after_step {C : DsConfig} {t : DsTables} {req : DsRequest}
    (h : (serve C t req).isOk = true) : (dsTablesSystem C).step t req (after C t req) := by
  change serve C t req = .ok (after C t req)
  cases hserve : serve C t req with
  | error f =>
    rw [hserve] at h
    cases h
  | ok t' => rw [after, hserve]

theorem small_keylen : 5 < 80 := by decide

def smallConfig : DsConfig :=
  ⟨⟨80, 6, small_keylen⟩, 2, 4096, fun re => some fun key => decide (re = key ++ "$")⟩

def freeEntry : DataStore := ⟨false, noTypes, noPriv, "", "", .u32 0⟩

def freeSub : Subscription := ⟨false, noTypes, "", fun _ => false, ∅⟩

def emptyTables : DsTables :=
  ⟨⟨List.replicate 3 freeEntry, fun _ => none, fun _ => []⟩, List.replicate 2 freeSub⟩

theorem empty_initially (C : DsConfig) : (dsTablesSystem C).initial emptyTables := by
  constructor
  · intro d hd
    rw [List.eq_of_mem_replicate hd]
    rfl
  · intro sub hsub
    rw [List.eq_of_mem_replicate hsub]
    rfl

def putLabel (name : String) (endpoint : ℤ) (overwrite : Bool) : DsRequest :=
  .publish 2 ⟨name.length + 1, .ok name⟩
    ⟨⟨DsType.LABEL.bits, noPriv, overwrite⟩, endpoint, 0, none, .ok []⟩

def bootTables : DsTables := after smallConfig emptyTables (.service "rs" 2)

theorem boot_run : Run (dsTablesSystem smallConfig) (fun _ t req => req.MapsOnce smallConfig t)
    [(emptyTables, .service "rs" 2)] bootTables := by
  refine .next (.start (empty_initially _)) ⟨?_, by decide⟩ rfl
  rintro k name num ⟨d, hd, huse, -⟩
  rw [List.eq_of_mem_replicate (List.mem_of_getElem? hd)] at huse
  cases huse

theorem labels_one_to_one_boot :
    dsGetprocep (after smallConfig bootTables (putLabel "vfs" 1 false)).toDsServer "vfs" = 1 ∧
    dsGetprocname smallConfig.toDsHeaders
      (after smallConfig bootTables (putLabel "vfs" 1 false)).toDsServer 1 = some "vfs" := by
  have hmeets : (putLabel "vfs" 1 false).MapsOnce smallConfig bootTables := by
    intro source keyName k hacc _
    refine ⟨?_, fun h => absurd h (by decide)⟩
    rintro j name ⟨d, hd, huse, -, -, hnum⟩
    rcases j with _ | _ | _ | j
    · cases hd
      cases hnum
    all_goals
      cases hd
      try cases huse
  have hrun : Run (dsTablesSystem smallConfig) (fun _ t req => req.MapsOnce smallConfig t)
      [(bootTables, putLabel "vfs" 1 false), (emptyTables, .service "rs" 2)]
      (after smallConfig bootTables (putLabel "vfs" 1 false)) := boot_run.next hmeets rfl
  exact (labels_one_to_one hrun).2 1 "vfs" 1 ⟨_, rfl, rfl, rfl, rfl, rfl⟩

theorem two_labels_one_endpoint : ∃ past t, Run (dsTablesSystem smallConfig) always past t ∧
    IsLabel t.toDsServer 1 "vfs" 0 ∧ IsLabel t.toDsServer 2 "pm" 0 ∧
    dsGetprocname smallConfig.toDsHeaders t.toDsServer (dsGetprocep t.toDsServer "pm") =
      some "vfs" := by
  have h₁ : Run (dsTablesSystem smallConfig) always _ bootTables :=
    boot_run.mono fun _ _ _ _ => trivial
  have h₂ := h₁.next (e := putLabel "vfs" 1 false) trivial (after_step rfl)
  have h₃ := h₂.next (e := putLabel "pm" 0 false) trivial (after_step rfl)
  have h₄ := h₃.next (e := putLabel "vfs" 0 true) trivial (after_step rfl)
  exact ⟨_, _, h₄, ⟨_, rfl, rfl, rfl, rfl, rfl⟩, ⟨_, rfl, rfl, rfl, rfl, rfl⟩, rfl⟩

end Ds
