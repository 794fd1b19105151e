import Cs111.Kernel.Proc

namespace Kernel
open Minix
variable {H : Headers} {M : Type}

def maxIndirectDepth : ℕ := 5

structure SafecopyHeaders where
  cpfUsed : BitVec 32
  cpfValid : BitVec 32
  cpfDirect : BitVec 32
  cpfIndirect : BitVec 32
  cpfMagic : BitVec 32
  vfsProcNr : ℤ
  eloop : Errno

structure CpDirect where
  cpWhoTo : ℤ
  cpStart : BitVec 32
  cpLen : BitVec 32

structure CpIndirect where
  cpWhoTo : ℤ
  cpWhoFrom : ℤ
  cpGrant : ℤ

structure CpMagic where
  cpWhoFrom : ℤ
  cpWhoTo : ℤ
  cpStart : BitVec 32
  cpLen : BitVec 32

-- The members of the union cp_u lie over each other: each is what a read through it finds.
structure CpGrant where
  cpFlags : BitVec 32
  cpDirect : CpDirect
  cpIndirect : CpIndirect
  cpMagic : CpMagic

structure GrantTables (H : Headers) where
  sGrantTable : PrivId H → Bool
  sGrantEntries : PrivId H → ℤ
  entry : Slot H → ℤ → CpGrant

structure GrantRequest where
  bytes : BitVec 32
  access : BitVec 32
  offsetIn : BitVec 32

section Verify
variable (C : SafecopyHeaders) (T : GrantTables H) (s : KState H M)

def CpGrant.has (g : CpGrant) (f : BitVec 32) : Bool := g.cpFlags &&& f != 0

def grantEntry (granter grant : ℤ) : Except Errno CpGrant :=
  match isokendpt s granter with
  | none => .error .EINVAL
  | some p =>
    if ¬ grant > -1 then .error .EINVAL
    else if T.sGrantTable (s.proc p).priv = false then .error .EPERM
    else if T.sGrantEntries (s.proc p).priv ≤ grant then .error .EPERM
    else if (T.entry p grant).cpFlags &&& (C.cpfUsed ||| C.cpfValid) ≠ C.cpfUsed ||| C.cpfValid then
      .error .EPERM
    else .ok (T.entry p grant)

def followGrants : ℕ → ℤ → ℤ → ℤ → Except Errno (ℤ × ℤ × CpGrant)
  | left, granter, grantee, grant => do
    let g ← grantEntry C T s granter grant
    if g.has C.cpfIndirect then
      match left with
      | 0 => .error C.eloop
      | left + 1 =>
        if g.cpIndirect.cpWhoTo ≠ grantee ∧ grantee ≠ H.any ∧ g.cpIndirect.cpWhoTo ≠ H.any then
          .error .EPERM
        else followGrants left g.cpIndirect.cpWhoFrom granter g.cpIndirect.cpGrant
    else .ok (granter, grantee, g)

def outOfRange (req : GrantRequest) (len : BitVec 32) : Prop :=
  req.offsetIn + req.bytes < req.offsetIn ∨ req.offsetIn + req.bytes > len

instance (req : GrantRequest) (len : BitVec 32) : Decidable (outOfRange req len) :=
  inferInstanceAs (Decidable (_ ∨ _))

def aboveLen (len : BitVec 32) : BitVec 32 := BitVec.allOnes 32 - len + 1

variable (H) in
-- The offset in the address space of the new granter, and that granter.
def checkGrant (granter grantee : ℤ) (g : CpGrant) (req : GrantRequest) :
    Except Errno (BitVec 32 × ℤ) :=
  if g.cpFlags &&& req.access ≠ req.access then .error .EPERM
  else if g.has C.cpfDirect then
    if aboveLen g.cpDirect.cpLen < g.cpDirect.cpStart then .error .EPERM
    else if g.cpDirect.cpWhoTo ≠ grantee ∧ grantee ≠ H.any ∧ g.cpDirect.cpWhoTo ≠ H.any then
      .error .EPERM
    else if outOfRange req g.cpDirect.cpLen then .error .EPERM
    else .ok (g.cpDirect.cpStart + req.offsetIn, granter)
  else if g.has C.cpfMagic then
    if granter ≠ C.vfsProcNr then .error .EPERM
    else if g.cpMagic.cpWhoTo ≠ grantee ∧ grantee ≠ H.any ∧ g.cpDirect.cpWhoTo ≠ H.any then
      .error .EPERM
    else if outOfRange req g.cpMagic.cpLen then .error .EPERM
    else .ok (g.cpMagic.cpStart + req.offsetIn, g.cpMagic.cpWhoFrom)
  else .error .EPERM

def verifyGrant (granter grantee grant : ℤ) (req : GrantRequest) :
    Except Errno (BitVec 32 × ℤ) := do
  let (granter, grantee, g) ← followGrants C T s maxIndirectDepth granter grantee grant
  checkGrant H C granter grantee g req

end Verify

section Authority
variable (C : SafecopyHeaders) (T : GrantTables H) (s : KState H M)

def Named (granter grant : ℤ) (g : CpGrant) : Prop :=
  ∃ p, isokendpt s granter = some p ∧ 0 ≤ grant ∧ grant < T.sGrantEntries (s.proc p).priv ∧
    T.sGrantTable (s.proc p).priv = true ∧ g = T.entry p grant ∧
    g.cpFlags &&& (C.cpfUsed ||| C.cpfValid) = C.cpfUsed ||| C.cpfValid

variable (H) in
def MadeOut (whoTo grantee : ℤ) : Prop := whoTo = grantee ∨ whoTo = H.any ∨ grantee = H.any

instance (whoTo grantee : ℤ) : Decidable (MadeOut H whoTo grantee) :=
  inferInstanceAs (Decidable (_ ∨ _ ∨ _))

inductive Leads : ℕ → ℤ → ℤ → ℤ → ℤ → ℤ → CpGrant → Prop
  | last {n granter grantee grant g} : Named C T s granter grant g → g.has C.cpfIndirect = false →
      Leads n granter grantee grant granter grantee g
  | next {n granter grantee grant g granter' grantee' g'} : Named C T s granter grant g →
      g.has C.cpfIndirect = true → MadeOut H g.cpIndirect.cpWhoTo grantee →
      Leads n g.cpIndirect.cpWhoFrom granter g.cpIndirect.cpGrant granter' grantee' g' →
      Leads (n + 1) granter grantee grant granter' grantee' g'

def Inside (req : GrantRequest) (start len : BitVec 32) : Prop :=
  start.toNat + len.toNat ≤ 2 ^ 32 ∧
    start.toNat + req.offsetIn.toNat + req.bytes.toNat ≤ start.toNat + len.toNat

instance (req : GrantRequest) (start len : BitVec 32) : Decidable (Inside req start len) :=
  inferInstanceAs (Decidable (_ ∧ _))

variable (H) in
inductive Entitles (granter grantee : ℤ) (g : CpGrant) (req : GrantRequest) :
    BitVec 32 → ℤ → Prop
  | direct : g.cpFlags &&& req.access = req.access → g.has C.cpfDirect = true →
      MadeOut H g.cpDirect.cpWhoTo grantee → Inside req g.cpDirect.cpStart g.cpDirect.cpLen →
      Entitles granter grantee g req (g.cpDirect.cpStart + req.offsetIn) granter
  | magic : g.cpFlags &&& req.access = req.access → g.has C.cpfDirect = false →
      g.has C.cpfMagic = true → granter = C.vfsProcNr → MadeOut H g.cpMagic.cpWhoTo grantee →
      Inside req g.cpMagic.cpStart g.cpMagic.cpLen →
      Entitles granter grantee g req (g.cpMagic.cpStart + req.offsetIn) g.cpMagic.cpWhoFrom

def Authorised (granter grantee grant : ℤ) (req : GrantRequest) (offset : BitVec 32)
    (owner : ℤ) : Prop :=
  ∃ granter' grantee' g, Leads C T s maxIndirectDepth granter grantee grant granter' grantee' g ∧
    Entitles H C granter' grantee' g req offset owner

end Authority

section Chains
variable {C : SafecopyHeaders} {T : GrantTables H} {s : KState H M}

theorem grantEntry_ok {granter grant : ℤ} {g : CpGrant} :
    grantEntry C T s granter grant = .ok g ↔ Named C T s granter grant g := by
  rw [grantEntry, Named]
  cases isokendpt s granter with
  | none => simp
  | some p =>
    simp only [Option.some.injEq]
    constructor
    · intro h
      split_ifs at h with hvalid htable hentries hflags
      obtain rfl := Except.ok.inj h
      exact ⟨p, rfl, by omega, by omega, by simpa using htable, rfl, not_not.mp hflags⟩
    · rintro ⟨q, rfl, hnonneg, hlt, htable, rfl, hflags⟩
      rw [if_neg (by omega), if_neg (by simp [htable]), if_neg (by omega),
        if_neg (by simp [hflags])]

theorem not_madeOut {whoTo grantee : ℤ} :
    whoTo ≠ grantee ∧ grantee ≠ H.any ∧ whoTo ≠ H.any ↔ ¬ MadeOut H whoTo grantee := by
  simp only [MadeOut, not_or, ne_eq]
  tauto

theorem followGrants_last {left : ℕ} {granter grantee grant : ℤ} {g : CpGrant}
    (hentry : grantEntry C T s granter grant = .ok g) (hdirect : g.has C.cpfIndirect = false) :
    followGrants C T s left granter grantee grant = .ok (granter, grantee, g) := by
  cases left with
  | zero =>
    rw [followGrants, hentry]
    exact if_neg (by simp [hdirect])
  | succ left =>
    rw [followGrants, hentry]
    exact if_neg (by simp [hdirect])

theorem followGrants_next {left : ℕ} {granter grantee grant : ℤ} {g : CpGrant}
    (hentry : grantEntry C T s granter grant = .ok g) (hindirect : g.has C.cpfIndirect = true)
    (hmade : MadeOut H g.cpIndirect.cpWhoTo grantee) :
    followGrants C T s (left + 1) granter grantee grant =
      followGrants C T s left g.cpIndirect.cpWhoFrom granter g.cpIndirect.cpGrant := by
  rw [followGrants, hentry]
  change (if g.has C.cpfIndirect then _ else _) = _
  rw [if_pos hindirect, if_neg fun h => not_madeOut.mp h hmade]

theorem leads_of_follow {left : ℕ} {granter grantee grant granter' grantee' : ℤ} {g : CpGrant}
    (h : followGrants C T s left granter grantee grant = .ok (granter', grantee', g)) :
    Leads C T s left granter grantee grant granter' grantee' g := by
  induction left generalizing granter grantee grant with
  | zero =>
    rw [followGrants] at h
    obtain ⟨g₀, hentry, h⟩ := bind_ok.mp h
    split_ifs at h with hindirect
    obtain ⟨rfl, rfl, rfl⟩ := Prod.mk.inj (Except.ok.inj h) |>.imp_right Prod.mk.inj
    exact .last (grantEntry_ok.mp hentry) (by simpa using hindirect)
  | succ left ih =>
    rw [followGrants] at h
    obtain ⟨g₀, hentry, h⟩ := bind_ok.mp h
    split_ifs at h with hindirect hmade
    · rw [not_madeOut, not_not] at hmade
      exact .next (grantEntry_ok.mp hentry) hindirect hmade (ih h)
    · obtain ⟨rfl, rfl, rfl⟩ := Prod.mk.inj (Except.ok.inj h) |>.imp_right Prod.mk.inj
      exact .last (grantEntry_ok.mp hentry) (by simpa using hindirect)

theorem follow_of_leads {left : ℕ} {granter grantee grant granter' grantee' : ℤ} {g : CpGrant}
    (h : Leads C T s left granter grantee grant granter' grantee' g) :
    followGrants C T s left granter grantee grant = .ok (granter', grantee', g) := by
  induction h with
  | last hnamed hdirect => exact followGrants_last (grantEntry_ok.mpr hnamed) hdirect
  | next hnamed hindirect hmade _ ih =>
    rw [followGrants_next (grantEntry_ok.mpr hnamed) hindirect hmade, ih]

theorem leads_unique {left : ℕ} {granter grantee grant gr gr' ge ge' : ℤ} {g g' : CpGrant}
    (h : Leads C T s left granter grantee grant gr ge g)
    (h' : Leads C T s left granter grantee grant gr' ge' g') : gr = gr' ∧ ge = ge' ∧ g = g' :=
  Prod.mk.inj (Except.ok.inj ((follow_of_leads h).symm.trans (follow_of_leads h'))) |>.imp_right
    Prod.mk.inj

end Chains

section Ranges
variable {req : GrantRequest} {start len : BitVec 32}

theorem in_range : ¬ outOfRange req len ↔ req.offsetIn.toNat + req.bytes.toNat ≤ len.toNat := by
  have hoffset := req.offsetIn.isLt
  have hbytes := req.bytes.isLt
  rw [outOfRange, gt_iff_lt, BitVec.lt_def, BitVec.lt_def, BitVec.toNat_add]
  omega

theorem below_top : ¬ aboveLen len < start ↔
    start.toNat + len.toNat ≤ 2 ^ 32 ∧ (len = 0 → start = 0) := by
  have hstart := start.isLt
  have hlen := len.isLt
  rw [aboveLen, BitVec.lt_def, BitVec.toNat_add, BitVec.toNat_sub, BitVec.toNat_allOnes,
    ← BitVec.toNat_inj, ← BitVec.toNat_inj]
  simp only [BitVec.ofNat_eq_ofNat, BitVec.toNat_ofNat]
  omega

theorem inside_iff : Inside req start len ↔ start.toNat + len.toNat ≤ 2 ^ 32 ∧
    req.offsetIn.toNat + req.bytes.toNat ≤ len.toNat := by
  rw [Inside]
  omega

end Ranges

def CpGrant.madeOutMagic (H : Headers) (g : CpGrant) (grantee : ℤ) : Prop :=
  g.cpMagic.cpWhoTo = grantee ∨ grantee = H.any ∨ g.cpDirect.cpWhoTo = H.any

inductive Misread (H : Headers) (C : SafecopyHeaders) (granter grantee : ℤ) (g : CpGrant)
    (req : GrantRequest) : Prop
  | empty : g.cpFlags &&& req.access = req.access → g.has C.cpfDirect = true →
      MadeOut H g.cpDirect.cpWhoTo grantee → g.cpDirect.cpLen = 0 → g.cpDirect.cpStart ≠ 0 →
      req.offsetIn = 0 → req.bytes = 0 → Misread H C granter grantee g req
  | magic : g.cpFlags &&& req.access = req.access → g.has C.cpfDirect = false →
      g.has C.cpfMagic = true → granter = C.vfsProcNr →
      req.offsetIn.toNat + req.bytes.toNat ≤ g.cpMagic.cpLen.toNat →
      ¬ (g.madeOutMagic H grantee ↔ MadeOut H g.cpMagic.cpWhoTo grantee ∧
        g.cpMagic.cpStart.toNat + g.cpMagic.cpLen.toNat ≤ 2 ^ 32) →
      Misread H C granter grantee g req

section Judgement
variable {C : SafecopyHeaders} {granter grantee owner : ℤ} {g : CpGrant} {req : GrantRequest}
  {offset : BitVec 32}

theorem not_madeOutMagic : g.cpMagic.cpWhoTo ≠ grantee ∧ grantee ≠ H.any ∧
    g.cpDirect.cpWhoTo ≠ H.any ↔ ¬ g.madeOutMagic H grantee := by
  simp only [CpGrant.madeOutMagic, not_or, ne_eq]

theorem checkGrant_direct (hdirect : g.has C.cpfDirect = true) :
    checkGrant H C granter grantee g req = .ok (offset, owner) ↔
      g.cpFlags &&& req.access = req.access ∧
      (g.cpDirect.cpLen = 0 → g.cpDirect.cpStart = 0) ∧ MadeOut H g.cpDirect.cpWhoTo grantee ∧
      Inside req g.cpDirect.cpStart g.cpDirect.cpLen ∧
      g.cpDirect.cpStart + req.offsetIn = offset ∧ granter = owner := by
  rw [checkGrant, inside_iff, ← in_range, if_pos hdirect]
  constructor
  · intro h
    split_ifs at h with haccess htop hmade hrange
    rw [not_madeOut, not_not] at hmade
    obtain ⟨hoffset, howner⟩ := Prod.mk.inj (Except.ok.inj h)
    exact ⟨not_not.mp haccess, (below_top.mp htop).2, hmade, ⟨(below_top.mp htop).1, hrange⟩,
      hoffset, howner⟩
  · rintro ⟨haccess, hempty, hmade, ⟨hfits, hrange⟩, rfl, rfl⟩
    rw [if_neg (not_not.mpr haccess), if_neg (below_top.mpr ⟨hfits, hempty⟩),
      if_neg fun h => not_madeOut.mp h hmade, if_neg hrange]

theorem checkGrant_magic (hdirect : g.has C.cpfDirect = false) (hmagic : g.has C.cpfMagic = true) :
    checkGrant H C granter grantee g req = .ok (offset, owner) ↔
      g.cpFlags &&& req.access = req.access ∧ granter = C.vfsProcNr ∧ g.madeOutMagic H grantee ∧
      req.offsetIn.toNat + req.bytes.toNat ≤ g.cpMagic.cpLen.toNat ∧
      g.cpMagic.cpStart + req.offsetIn = offset ∧ g.cpMagic.cpWhoFrom = owner := by
  have hnot : ¬ g.has C.cpfDirect = true := by simp [hdirect]
  rw [checkGrant, ← in_range, if_neg hnot, if_pos hmagic]
  constructor
  · intro h
    split_ifs at h with haccess hvfs hmade hrange
    rw [not_madeOutMagic, not_not] at hmade
    obtain ⟨hoffset, howner⟩ := Prod.mk.inj (Except.ok.inj h)
    exact ⟨not_not.mp haccess, not_not.mp hvfs, hmade, hrange, hoffset, howner⟩
  · rintro ⟨haccess, hvfs, hmade, hrange, rfl, rfl⟩
    rw [if_neg (not_not.mpr haccess), if_neg (not_not.mpr hvfs),
      if_neg fun h => not_madeOutMagic.mp h hmade, if_neg hrange]

theorem checkGrant_unknown (hdirect : g.has C.cpfDirect = false)
    (hmagic : g.has C.cpfMagic = false) :
    checkGrant H C granter grantee g req ≠ .ok (offset, owner) := by
  rw [checkGrant, if_neg (by simp [hdirect] : ¬ g.has C.cpfDirect = true),
    if_neg (by simp [hmagic] : ¬ g.has C.cpfMagic = true)]
  split <;> exact nofun

theorem judged_direct (hdirect : g.has C.cpfDirect = true) :
    (∀ offset owner, checkGrant H C granter grantee g req = .ok (offset, owner) ↔
      Entitles H C granter grantee g req offset owner) ↔ ¬ Misread H C granter grantee g req := by
  constructor
  · intro hsame hmis
    cases hmis with
    | empty haccess _ hmade hlen hstart hoffset hbytes =>
      have hinside : Inside req g.cpDirect.cpStart g.cpDirect.cpLen := by
        have hlt := g.cpDirect.cpStart.isLt
        simp only [inside_iff, hlen, hoffset, hbytes, BitVec.ofNat_eq_ofNat, BitVec.toNat_ofNat]
        omega
      have hok := (hsame _ _).mpr (.direct haccess hdirect hmade hinside)
      exact hstart ((checkGrant_direct hdirect).mp hok |>.2.1 hlen)
    | magic _ hnot => simp [hdirect] at hnot
  · intro hright offset owner
    rw [checkGrant_direct hdirect]
    constructor
    · rintro ⟨haccess, -, hmade, hinside, rfl, rfl⟩
      exact .direct haccess hdirect hmade hinside
    · intro hentitled
      cases hentitled with
      | direct haccess _ hmade hinside =>
        refine ⟨haccess, fun hlen => ?_, hmade, hinside, rfl, rfl⟩
        by_contra hstart
        obtain ⟨-, hrange⟩ := inside_iff.mp hinside
        simp only [hlen, BitVec.ofNat_eq_ofNat, BitVec.toNat_ofNat] at hrange
        exact hright (.empty haccess hdirect hmade hlen hstart
          (BitVec.eq_of_toNat_eq (by simp; omega)) (BitVec.eq_of_toNat_eq (by simp; omega)))
      | magic _ hnot => simp [hdirect] at hnot

theorem judged_magic (hdirect : g.has C.cpfDirect = false) (hmagic : g.has C.cpfMagic = true) :
    (∀ offset owner, checkGrant H C granter grantee g req = .ok (offset, owner) ↔
      Entitles H C granter grantee g req offset owner) ↔ ¬ Misread H C granter grantee g req := by
  have hentitled : ∀ offset owner, Entitles H C granter grantee g req offset owner ↔
      g.cpFlags &&& req.access = req.access ∧ granter = C.vfsProcNr ∧
      (MadeOut H g.cpMagic.cpWhoTo grantee ∧
        g.cpMagic.cpStart.toNat + g.cpMagic.cpLen.toNat ≤ 2 ^ 32) ∧
      req.offsetIn.toNat + req.bytes.toNat ≤ g.cpMagic.cpLen.toNat ∧
      g.cpMagic.cpStart + req.offsetIn = offset ∧ g.cpMagic.cpWhoFrom = owner := by
    intro offset owner
    constructor
    · intro h
      cases h with
      | direct _ hd => simp [hdirect] at hd
      | magic haccess _ _ hvfs hmade hinside =>
        obtain ⟨hfits, hrange⟩ := inside_iff.mp hinside
        exact ⟨haccess, hvfs, ⟨hmade, hfits⟩, hrange, rfl, rfl⟩
    · rintro ⟨haccess, hvfs, ⟨hmade, hfits⟩, hrange, rfl, rfl⟩
      exact .magic haccess hdirect hmagic hvfs hmade (inside_iff.mpr ⟨hfits, hrange⟩)
  simp only [checkGrant_magic hdirect hmagic, hentitled]
  constructor
  · intro hsame hmis
    cases hmis with
    | empty _ hd => simp [hdirect] at hd
    | magic haccess _ _ hvfs hrange hdiffer =>
      have hthis := hsame (g.cpMagic.cpStart + req.offsetIn) g.cpMagic.cpWhoFrom
      simp only [haccess, hvfs, hrange, true_and, and_true] at hthis
      exact hdiffer hthis
  · intro hright offset owner
    by_cases hasked : g.cpFlags &&& req.access = req.access ∧ granter = C.vfsProcNr ∧
        req.offsetIn.toNat + req.bytes.toNat ≤ g.cpMagic.cpLen.toNat
    · obtain ⟨haccess, hvfs, hrange⟩ := hasked
      have hsame : g.madeOutMagic H grantee ↔ MadeOut H g.cpMagic.cpWhoTo grantee ∧
          g.cpMagic.cpStart.toNat + g.cpMagic.cpLen.toNat ≤ 2 ^ 32 := by
        by_contra hdiffer
        exact hright (.magic haccess hdirect hmagic hvfs hrange hdiffer)
      rw [hsame]
    · constructor
      · rintro ⟨haccess, hvfs, -, hrange, -⟩
        exact absurd ⟨haccess, hvfs, hrange⟩ hasked
      · rintro ⟨haccess, hvfs, -, hrange, -⟩
        exact absurd ⟨haccess, hvfs, hrange⟩ hasked

theorem judged (C : SafecopyHeaders) (granter grantee : ℤ) (g : CpGrant) (req : GrantRequest) :
    (∀ offset owner, checkGrant H C granter grantee g req = .ok (offset, owner) ↔
      Entitles H C granter grantee g req offset owner) ↔ ¬ Misread H C granter grantee g req := by
  cases hdirect : g.has C.cpfDirect with
  | true => exact judged_direct hdirect
  | false =>
    cases hmagic : g.has C.cpfMagic with
    | true => exact judged_magic hdirect hmagic
    | false =>
      refine iff_of_true (fun offset owner => iff_of_false ?_ ?_) ?_
      · exact checkGrant_unknown hdirect hmagic
      · rintro (⟨_, hd, _⟩ | ⟨_, _, hm, _⟩)
        · simp [hdirect] at hd
        · simp [hmagic] at hm
      · rintro (⟨_, hd, _⟩ | ⟨_, _, hm, _⟩)
        · simp [hdirect] at hd
        · simp [hmagic] at hm

end Judgement

section Verified
variable {C : SafecopyHeaders} {T : GrantTables H} {s : KState H M}

theorem verify_leads {granter grantee grant granter' grantee' : ℤ} {g : CpGrant}
    {req : GrantRequest}
    (h : Leads C T s maxIndirectDepth granter grantee grant granter' grantee' g) :
    verifyGrant C T s granter grantee grant req = checkGrant H C granter' grantee' g req := by
  rw [verifyGrant, follow_of_leads h]
  rfl

theorem grantEntry_error {granter grant : ℤ} {e : Errno}
    (h : grantEntry C T s granter grant = .error e) : e ≠ .OK := by
  rw [grantEntry] at h
  split at h
  · cases h
    decide
  · split_ifs at h <;> cases h <;> decide

theorem followGrants_error {left : ℕ} {granter grantee grant : ℤ} {e : Errno}
    (hloop : C.eloop ≠ .OK) (h : followGrants C T s left granter grantee grant = .error e) :
    e ≠ .OK := by
  induction left generalizing granter grantee grant with
  | zero =>
    rw [followGrants] at h
    cases hentry : grantEntry C T s granter grant with
    | error e' =>
      rw [hentry] at h
      cases h
      exact grantEntry_error hentry
    | ok g =>
      rw [hentry] at h
      change (if g.has C.cpfIndirect then _ else _) = _ at h
      split_ifs at h
      cases h
      exact hloop
  | succ left ih =>
    rw [followGrants] at h
    cases hentry : grantEntry C T s granter grant with
    | error e' =>
      rw [hentry] at h
      cases h
      exact grantEntry_error hentry
    | ok g =>
      rw [hentry] at h
      change (if g.has C.cpfIndirect then _ else _) = _ at h
      split_ifs at h
      · cases h
        decide
      · exact ih h

theorem verify_error {granter grantee grant : ℤ} {req : GrantRequest} {e : Errno}
    (hloop : C.eloop ≠ .OK) (h : verifyGrant C T s granter grantee grant req = .error e) :
    e ≠ .OK := by
  rw [verifyGrant] at h
  cases hfollow : followGrants C T s maxIndirectDepth granter grantee grant with
  | error e' =>
    rw [hfollow] at h
    cases h
    exact followGrants_error hloop hfollow
  | ok r =>
    rw [hfollow] at h
    change checkGrant H C r.1 r.2.1 r.2.2 req = .error e at h
    rw [checkGrant] at h
    split_ifs at h <;> cases h <;> decide

theorem verifyGrant_exact (C : SafecopyHeaders) (T : GrantTables H) (s : KState H M)
    (granter grantee grant : ℤ) (req : GrantRequest) :
    (∀ offset owner, verifyGrant C T s granter grantee grant req = .ok (offset, owner) ↔
      Authorised C T s granter grantee grant req offset owner) ↔
    ∀ granter' grantee' g,
      Leads C T s maxIndirectDepth granter grantee grant granter' grantee' g →
      ¬ Misread H C granter' grantee' g req := by
  have hauthorised : ∀ {granter' grantee' g offset owner},
      Leads C T s maxIndirectDepth granter grantee grant granter' grantee' g →
      (Authorised C T s granter grantee grant req offset owner ↔
        Entitles H C granter' grantee' g req offset owner) := by
    intro granter' grantee' g offset owner hleads
    constructor
    · rintro ⟨gr, ge, g₀, hleads₀, hentitled⟩
      obtain ⟨rfl, rfl, rfl⟩ := leads_unique hleads hleads₀
      exact hentitled
    · exact fun hentitled => ⟨_, _, _, hleads, hentitled⟩
  constructor
  · intro hexact granter' grantee' g hleads
    rw [← judged]
    intro offset owner
    rw [← verify_leads hleads, ← hauthorised hleads]
    exact hexact offset owner
  · intro hright offset owner
    cases hfollow : followGrants C T s maxIndirectDepth granter grantee grant with
    | error e =>
      refine iff_of_false (fun h => ?_) ?_
      · rw [verifyGrant, hfollow] at h
        cases h
      · rintro ⟨gr, ge, g, hleads, -⟩
        rw [follow_of_leads hleads] at hfollow
        cases hfollow
    | ok r =>
      obtain ⟨granter', grantee', g⟩ := r
      have hleads := leads_of_follow hfollow
      rw [verify_leads hleads, hauthorised hleads]
      exact (judged C granter' grantee' g req).mpr (hright _ _ _ hleads) offset owner

end Verified

def SafecopyHeaders.sample : SafecopyHeaders where
  cpfUsed := 0x100
  cpfValid := 0x1000
  cpfDirect := 0x200
  cpfIndirect := 0x400
  cpfMagic := 0x800
  vfsProcNr := 1
  eloop := .other 40

def magicForAny : GrantTables Headers.sample where
  sGrantTable _ := true
  sGrantEntries _ := 1
  entry _ _ := {
    cpFlags := 0x1901
    cpDirect := ⟨Headers.sample.endpoint 1 5, BitVec.ofInt 32 Headers.sample.any, 4096⟩
    cpIndirect := ⟨Headers.sample.endpoint 1 5, Headers.sample.any, 4096⟩
    cpMagic := ⟨Headers.sample.endpoint 1 5, Headers.sample.any, 4096, 16⟩ }

def vfsInPlace : KState Headers.sample ℕ :=
  (KState.sample fun _ => 0).upd 5 fun x => { x with endpoint := 1 }

theorem magicForAny_refused :
    verifyGrant SafecopyHeaders.sample magicForAny vfsInPlace 1 (Headers.sample.endpoint 1 6) 0
      ⟨8, 1, 0⟩ = .error .EPERM ∧
    Authorised SafecopyHeaders.sample magicForAny vfsInPlace 1 (Headers.sample.endpoint 1 6) 0
      ⟨8, 1, 0⟩ 4096 (Headers.sample.endpoint 1 5) := by
  refine ⟨rfl, 1, Headers.sample.endpoint 1 6, magicForAny.entry 5 0, .last ?_ rfl, ?_⟩
  · exact ⟨5, rfl, by decide, by decide, rfl, rfl, rfl⟩
  · exact .magic rfl rfl rfl rfl (by decide) (by decide)

end Kernel
