import Cs111.Kernel.Safecopy

namespace Kernel
open Minix
variable {H : Headers} {M W : Type}

structure VsafecopyHeaders extends SafecopyHeaders where
  cpfRead : BitVec 32
  cpfWrite : BitVec 32
  scpvecNr : ℕ
  scpvecNr_fits : 24 * scpvecNr < 2 ^ 32

structure VscpVec where
  vFrom : ℤ
  vTo : ℤ
  vGid : ℤ
  vOffset : BitVec 32
  vAddr : BitVec 32
  vBytes : BitVec 32
  deriving DecidableEq, Repr

def vscpVec (vec : ℕ → BitVec 32) (i : ℕ) : VscpVec where
  vFrom := (vec (6 * i)).toInt
  vTo := (vec (6 * i + 1)).toInt
  vGid := (vec (6 * i + 2)).toInt
  vOffset := vec (6 * i + 3)
  vAddr := vec (6 * i + 4)
  vBytes := vec (6 * i + 5)

-- The memory of the machine: the granters' tables in it, what copying a number of bytes from
-- one process to another does to it, and the words that are found at an address.
structure CopyMachine (H : Headers) (W : Type) where
  grants : W → GrantTables H
  copy : W → ℤ × BitVec 32 → ℤ × BitVec 32 → BitVec 32 → Errno × W
  copyIn : W → ℤ × BitVec 32 → BitVec 32 → Except Errno (ℕ → BitVec 32)

structure VsafecopyMessage where
  vscpVecAddr : BitVec 32
  vscpVecSize : BitVec 32
  deriving DecidableEq, Repr

section Calls
variable (V : VsafecopyHeaders) (m : CopyMachine H W) (s : KState H M)

def virtualCopyVmcheck (w : W) (src dst : ℤ × BitVec 32) (bytes : BitVec 32) : Errno × W :=
  if bytes = 0 then (.EDOM, w) else m.copy w src dst bytes

def safecopy (granter grantee grantid : ℤ) (bytes gOffset addr access : BitVec 32) (w : W) :
    Errno × W :=
  match isokendpt s granter with
  | none => (.EINVAL, w)
  | some granterP =>
    if (m.grants w).sGrantTable (s.proc granterP).priv = false then (.EPERM, w)
    else
      match verifyGrant V.toSafecopyHeaders (m.grants w) s granter grantee grantid
          ⟨bytes, access, gOffset⟩ with
      | .error r => (r, w)
      | .ok (vOffset, newGranter) =>
        if access &&& V.cpfRead ≠ 0 then
          virtualCopyVmcheck m w (newGranter, vOffset) (grantee, addr) bytes
        else virtualCopyVmcheck m w (grantee, addr) (newGranter, vOffset) bytes

def vsafecopyElement (caller : Slot H) (e : VscpVec) (w : W) : Errno × W :=
  let grantee := (s.proc caller).endpoint
  if e.vFrom = H.self then
    safecopy V m s e.vTo grantee e.vGid e.vBytes e.vOffset e.vAddr V.cpfWrite w
  else if e.vTo = H.self then
    safecopy V m s e.vFrom grantee e.vGid e.vBytes e.vOffset e.vAddr V.cpfRead w
  else (.EINVAL, w)

def vsafecopyLoop (caller : Slot H) (vec : ℕ → BitVec 32) : ℕ → ℕ → W → Except Fault (Errno × W)
  | 0, _, w => .ok (.OK, w)
  | left + 1, i, w =>
    if V.scpvecNr ≤ i then .error .outOfBounds
    else
      match vsafecopyElement V m s caller (vscpVec vec i) w with
      | (.OK, w) => vsafecopyLoop caller vec left (i + 1) w
      | (r, w) => .ok (r, w)

def copyOver (vec words : ℕ → BitVec 32) (bytes : BitVec 32) (k : ℕ) : BitVec 32 :=
  if 4 * k < bytes.toNat then words k else vec k

def vecBytes (els : BitVec 32) : BitVec 32 := els * 24

def fetchVec (caller : Slot H) (msg : VsafecopyMessage) (w : W) :
    Except Errno (ℕ → BitVec 32) :=
  if vecBytes msg.vscpVecSize = 0 then .error .EDOM
  else m.copyIn w ((s.proc caller).endpoint, msg.vscpVecAddr) (vecBytes msg.vscpVecSize)

-- Nothing compares the number of elements with SCPVEC_NR; a copy that is longer than vec
-- writes past it.
def doVsafecopy (caller : Slot H) (msg : VsafecopyMessage) (vec : ℕ → BitVec 32) (w : W) :
    Except Fault (Errno × W) :=
  let els := msg.vscpVecSize
  match fetchVec m s caller msg w with
  | .error r => .ok (r, w)
  | .ok words =>
    if 24 * V.scpvecNr < (vecBytes els).toNat then .error .outOfBounds
    else vsafecopyLoop V m s caller (copyOver vec words (vecBytes els)) els.toInt.toNat 0 w

end Calls

section Elements
variable {V : VsafecopyHeaders} {m : CopyMachine H W} {s : KState H M} {caller : Slot H}
  {vec words : ℕ → BitVec 32} {w w' : W} {r : Errno}

inductive Performs (perform : VscpVec → W → Errno × W) : List VscpVec → W → Errno → W → Prop
  | done {w : W} : Performs perform [] w .OK w
  | failed {e es} {w : W} {r w'} : perform e w = (r, w') → r ≠ .OK →
      Performs perform (e :: es) w r w'
  | next {e es} {w w' : W} {r w''} : perform e w = (.OK, w') → Performs perform es w' r w'' →
      Performs perform (e :: es) w r w''

theorem performs_total (perform : VscpVec → W → Errno × W) (es : List VscpVec) (w : W) :
    ∃ r w', Performs perform es w r w' := by
  induction es generalizing w with
  | nil => exact ⟨_, _, .done⟩
  | cons e es ih =>
    by_cases hok : (perform e w).1 = .OK
    · obtain ⟨r, w', hrest⟩ := ih (perform e w).2
      exact ⟨r, w', .next (Prod.ext hok rfl) hrest⟩
    · exact ⟨_, _, .failed rfl hok⟩

def elements (vec : ℕ → BitVec 32) (i n : ℕ) : List VscpVec := (List.range' i n).map (vscpVec vec)

theorem elements_succ (i n : ℕ) :
    elements vec i (n + 1) = vscpVec vec i :: elements vec (i + 1) n := by
  rw [elements, List.range'_succ, List.map_cons, elements]

theorem elements_congr {vec' : ℕ → BitVec 32} {n : ℕ} (h : ∀ k < 6 * n, vec k = vec' k) :
    elements vec 0 n = elements vec' 0 n := by
  refine List.map_congr_left fun i hi => ?_
  rw [List.mem_range'_1] at hi
  simp only [vscpVec]
  rw [h _ (by omega), h _ (by omega), h _ (by omega), h _ (by omega), h _ (by omega),
    h _ (by omega)]

variable (m s caller vec) in
theorem loop_inside {left i : ℕ} (hfits : i + left ≤ V.scpvecNr) (w : W) :
    ∃ r w', vsafecopyLoop V m s caller vec left i w = .ok (r, w') ∧
      Performs (vsafecopyElement V m s caller) (elements vec i left) w r w' := by
  induction left generalizing i w with
  | zero => exact ⟨.OK, w, rfl, .done⟩
  | succ left ih =>
    rw [vsafecopyLoop, if_neg (by omega), elements_succ]
    split
    · rename_i w₁ helement
      obtain ⟨r, w', hloop, hperforms⟩ := ih (i := i + 1) (by omega) w₁
      exact ⟨r, w', hloop, .next helement hperforms⟩
    · rename_i r w₁ hfailed helement
      exact ⟨r, w₁, rfl, .failed helement hfailed⟩

theorem loop_beyond {left i n : ℕ} (hn : i + n = V.scpvecNr) (hleft : n < left) (w : W)
    (hperforms : Performs (vsafecopyElement V m s caller) (elements vec i n) w r w') :
    vsafecopyLoop V m s caller vec left i w =
      if r = .OK then .error .outOfBounds else .ok (r, w') := by
  induction n generalizing left i w with
  | zero =>
    cases hperforms
    obtain ⟨left, rfl⟩ := Nat.exists_eq_succ_of_ne_zero (by omega : left ≠ 0)
    rw [vsafecopyLoop, if_pos (by omega), if_pos rfl]
  | succ n ih =>
    obtain ⟨left, rfl⟩ := Nat.exists_eq_succ_of_ne_zero (by omega : left ≠ 0)
    rw [elements_succ] at hperforms
    rw [vsafecopyLoop, if_neg (by omega)]
    cases hperforms with
    | failed helement hfailed =>
      rw [helement, if_neg hfailed]
      split
      · rename_i heq
        exact absurd (Prod.mk.inj heq).1 hfailed
      · rename_i heq
        rw [← heq]
    | next helement hrest =>
      rw [helement]
      exact ih (by omega) (by omega) _ hrest

end Elements

section Right
variable (V : VsafecopyHeaders) (m : CopyMachine H W) (s : KState H M) (caller : Slot H)
  (msg : VsafecopyMessage) (vec : ℕ → BitVec 32) (w : W)

def InVec : Prop :=
  0 ≤ msg.vscpVecSize.toInt ∧ msg.vscpVecSize.toInt ≤ V.scpvecNr

structure VsafecopyRight : Prop where
  bounded : doVsafecopy V m s caller msg vec w ≠ .error .outOfBounds
  refused : ∀ r, fetchVec m s caller msg w = .error r →
    doVsafecopy V m s caller msg vec w = .ok (r, w)
  ordered : InVec V msg → ∀ words, fetchVec m s caller msg w = .ok words →
    ∃ r w', doVsafecopy V m s caller msg vec w = .ok (r, w') ∧
      Performs (vsafecopyElement V m s caller) (elements words 0 msg.vscpVecSize.toInt.toNat)
        w r w'

def Overruns : Prop :=
  ∃ words, fetchVec m s caller msg w = .ok words ∧
    (24 * V.scpvecNr < (vecBytes msg.vscpVecSize).toNat ∨
      V.scpvecNr < msg.vscpVecSize.toInt ∧
        ∃ w', Performs (vsafecopyElement V m s caller)
          (elements (copyOver vec words (vecBytes msg.vscpVecSize)) 0 V.scpvecNr) w .OK w')

variable {V m s caller msg vec w}

theorem vecBytes_in_range (h : InVec V msg) :
    (vecBytes msg.vscpVecSize).toNat = 24 * msg.vscpVecSize.toInt.toNat := by
  obtain ⟨hlow, hhigh⟩ := h
  have hfits := V.scpvecNr_fits
  have hsize : msg.vscpVecSize.toInt = msg.vscpVecSize.toNat := by
    rw [BitVec.toInt_eq_toNat_cond] at hlow ⊢
    split at hlow <;> omega
  have h24 : (24 : BitVec 32).toNat = 24 := rfl
  rw [vecBytes, BitVec.toNat_mul, h24, Nat.mod_eq_of_lt (by omega), hsize]
  omega

variable (vec) in
theorem doVsafecopy_copied {words : ℕ → BitVec 32} (hfetch : fetchVec m s caller msg w = .ok words)
    (hfits : (vecBytes msg.vscpVecSize).toNat ≤ 24 * V.scpvecNr) :
    doVsafecopy V m s caller msg vec w = vsafecopyLoop V m s caller
      (copyOver vec words (vecBytes msg.vscpVecSize)) msg.vscpVecSize.toInt.toNat 0 w := by
  rw [doVsafecopy, hfetch]
  exact if_neg (not_lt.mpr hfits)

theorem vsafecopyRight (h : ¬ Overruns V m s caller msg vec w) :
    VsafecopyRight V m s caller msg vec w := by
  cases hfetch : fetchVec m s caller msg w with
  | error r =>
    have hresult : doVsafecopy V m s caller msg vec w = .ok (r, w) := by rw [doVsafecopy, hfetch]
    refine ⟨by rw [hresult]; rintro ⟨⟩, fun r' hr' => ?_, fun _ words hwords => ?_⟩
    · rw [hfetch] at hr'
      cases hr'
      exact hresult
    · rw [hfetch] at hwords
      cases hwords
  | ok words =>
    have hfits : (vecBytes msg.vscpVecSize).toNat ≤ 24 * V.scpvecNr :=
      not_lt.mp fun hlong => h ⟨words, hfetch, .inl hlong⟩
    have hloop := doVsafecopy_copied vec hfetch hfits
    refine ⟨?_, fun r' hr' => ?_, fun hin words' hwords => ?_⟩
    · rw [hloop]
      by_cases hels : msg.vscpVecSize.toInt ≤ V.scpvecNr
      · have hinside : 0 + msg.vscpVecSize.toInt.toNat ≤ V.scpvecNr := by omega
        obtain ⟨r, w', hresult, -⟩ := loop_inside m s caller
          (copyOver vec words (vecBytes msg.vscpVecSize)) hinside w
        rw [hresult]
        rintro ⟨⟩
      · obtain ⟨r, w', hperforms⟩ := performs_total (vsafecopyElement V m s caller)
          (elements (copyOver vec words (vecBytes msg.vscpVecSize)) 0 V.scpvecNr) w
        rw [loop_beyond (Nat.zero_add _) (by omega) w hperforms, if_neg]
        · rintro ⟨⟩
        · rintro rfl
          exact h ⟨words, hfetch, .inr ⟨not_le.mp hels, w', hperforms⟩⟩
    · rw [hfetch] at hr'
      cases hr'
    · rw [hfetch] at hwords
      cases hwords
      have hbytes := vecBytes_in_range hin
      have hsame : elements (copyOver vec words (vecBytes msg.vscpVecSize)) 0
          msg.vscpVecSize.toInt.toNat = elements words 0 msg.vscpVecSize.toInt.toNat := by
        refine elements_congr fun k hk => ?_
        rw [copyOver, if_pos (by omega)]
      have hlen : 0 + msg.vscpVecSize.toInt.toNat ≤ V.scpvecNr := by
        have := hin.2
        omega
      rw [hloop, ← hsame]
      exact loop_inside m s caller _ hlen w

theorem Overruns.wrong (h : Overruns V m s caller msg vec w) :
    doVsafecopy V m s caller msg vec w = .error .outOfBounds := by
  obtain ⟨words, hfetch, hover⟩ := h
  by_cases hlong : 24 * V.scpvecNr < (vecBytes msg.vscpVecSize).toNat
  · rw [doVsafecopy, hfetch]
    exact if_pos hlong
  · obtain ⟨hels, w', hperforms⟩ := hover.resolve_left hlong
    rw [doVsafecopy_copied vec hfetch (not_lt.mp hlong),
      loop_beyond (Nat.zero_add _) (by omega) w hperforms, if_pos rfl]

theorem vsafecopyRight_iff :
    VsafecopyRight V m s caller msg vec w ↔ ¬ Overruns V m s caller msg vec w :=
  ⟨fun hright hover => hright.bounded hover.wrong, vsafecopyRight⟩

end Right

def VsafecopyHeaders.sample : VsafecopyHeaders where
  toSafecopyHeaders := .sample
  cpfRead := 1
  cpfWrite := 2
  scpvecNr := 64
  scpvecNr_fits := by decide

def zeroMachine : CopyMachine Headers.sample Unit where
  grants _ := magicForAny
  copy _ _ _ _ := (.OK, ())
  copyIn _ _ _ := .ok fun _ => 0

theorem long_vector_overruns :
    ¬ ∀ (H : Headers) (V : VsafecopyHeaders) (m : CopyMachine H Unit) (s : KState H ℕ)
      (caller : Slot H) (msg : VsafecopyMessage) (vec : ℕ → BitVec 32),
      VsafecopyRight V m s caller msg vec () := by
  intro hall
  exact (hall .sample .sample zeroMachine (KState.sample fun _ => 0) (5 : Fin 12) ⟨4096, 65⟩
    fun _ => 0).bounded rfl

end Kernel
