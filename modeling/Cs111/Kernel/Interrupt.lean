import Mathlib.Data.BitVec
import Cs111.Lib.Chain
import Cs111.Lib.Runs

namespace Kernel
open Chain

structure IrqHook (ι : Type) where
  next : Option ι
  irq : ℤ
  id : BitVec 32

structure IrqState (ι : Type) (n : ℕ) where
  irqHandlers : Fin n → Option ι
  hook : ι → IrqHook ι
  irqActids : Fin n → BitVec 32
  masked : Fin n → Bool

inductive IrqEvent (ι : Type) where
  | putIrqHandler (hook : ι) (irq : ℤ)
  | rmIrqHandler (hook : ι)
  | irqHandle (irq : ℤ) (results : ι → Bool)
  | enableIrq (hook : ι)
  | disableIrq (hook : ι)

def vector (n : ℕ) (irq : ℤ) : Option (Fin n) :=
  if h : 0 ≤ irq ∧ irq < n then some ⟨irq.toNat, by omega⟩ else none

-- for (id = 1; id != 0; id <<= 1) if (!(bitmap & id)) break;
def lowestId (bitmap : BitVec 32) : ℕ → BitVec 32 → BitVec 32
  | 0, id => id
  | fuel + 1, id => if id = 0 ∨ bitmap &&& id = 0 then id else lowestId bitmap fuel (id <<< 1)

namespace IrqState
variable {ι : Type} {n : ℕ}

def line (s : IrqState ι n) (v : Fin n) : Links ι := ⟨s.irqHandlers v, fun i => (s.hook i).next⟩

def hwIntrMask (s : IrqState ι n) (v : Fin n) : IrqState ι n :=
  { s with masked := Function.update s.masked v true }

def hwIntrUnmask (s : IrqState ι n) (v : Fin n) : IrqState ι n :=
  { s with masked := Function.update s.masked v false }

def setActids (s : IrqState ι n) (v : Fin n) (actids : BitVec 32) : IrqState ι n :=
  { s with irqActids := Function.update s.irqActids v actids }

variable [DecidableEq ι]

def setCell (s : IrqState ι n) (v : Fin n) : Cell ι → Option ι → IrqState ι n
  | .head, p => { s with irqHandlers := Function.update s.irqHandlers v p }
  | .link i, p => { s with hook := Function.update s.hook i { s.hook i with next := p } }

def findEnd (s : IrqState ι n) (v : Fin n) (hook : ι) :
    ℕ → Cell ι → BitVec 32 → Option (Option (Cell ι × BitVec 32))
  | 0, _, _ => none
  | fuel + 1, line, bitmap =>
    match (s.line v).get line with
    | none => some (some (line, bitmap))
    | some h => if hook = h then some none
      else findEnd s v hook fuel (.link h) (bitmap ||| (s.hook h).id)

def clearActid (s : IrqState ι n) (v : Fin n) (id : BitVec 32) : IrqState ι n :=
  let cleared := s.setActids v (s.irqActids v &&& ~~~id)
  if s.irqActids v &&& ~~~id = 0 then cleared.hwIntrUnmask v else cleared

def removeId (v : Fin n) (id : BitVec 32) : ℕ → IrqState ι n → Cell ι → Option (IrqState ι n)
  | 0, _, _ => none
  | fuel + 1, s, line =>
    match (s.line v).get line with
    | none => some s
    | some h => if (s.hook h).id = id then
        let s := s.setCell v line (s.hook h).next
        removeId v id fuel
          (if s.irqActids v &&& id ≠ 0 then s.setActids v (s.irqActids v &&& ~~~id) else s) line
      else removeId v id fuel s (.link h)

def callHandlers (v : Fin n) (results : ι → Bool) :
    ℕ → IrqState ι n → Option ι → Option (IrqState ι n)
  | 0, _, _ => none
  | _ + 1, s, none => some s
  | fuel + 1, s, some h =>
    let s := s.setActids v (s.irqActids v ||| (s.hook h).id)
    if results h then do
      let w ← vector n (s.hook h).irq
      let s := s.setActids w (s.irqActids w &&& ~~~(s.hook h).id)
      callHandlers v results fuel s (s.hook h).next
    else callHandlers v results fuel s (s.hook h).next

variable [Fintype ι]

def putIrqHandler (s : IrqState ι n) (hook : ι) (irq : ℤ) : Option (IrqState ι n) := do
  let v ← vector n irq
  match ← s.findEnd v hook (Fintype.card ι + 1) .head 0 with
  | none => some s
  | some (line, bitmap) =>
    let id := lowestId bitmap 32 1
    if id = 0 then none
    else
      let s := { s with hook := Function.update s.hook hook ⟨none, irq, id⟩ }
      some ((s.setCell v line (some hook)).clearActid v id)

def rmIrqHandler (s : IrqState ι n) (hook : ι) : Option (IrqState ι n) := do
  let v ← vector n (s.hook hook).irq
  let s ← removeId v (s.hook hook).id (Fintype.card ι + 1) s .head
  if s.irqHandlers v = none then some (s.hwIntrMask v)
  else if s.irqActids v = 0 then some (s.hwIntrUnmask v)
  else some s

def irqHandle (s : IrqState ι n) (irq : ℤ) (results : ι → Bool) : Option (IrqState ι n) := do
  let v ← vector n irq
  let s := s.hwIntrMask v
  if s.irqHandlers v = none then some s
  else
    let s ← callHandlers v results (Fintype.card ι + 1) s (s.irqHandlers v)
    if s.irqActids v = 0 then some (s.hwIntrUnmask v) else some s

def enableIrq (s : IrqState ι n) (hook : ι) : Option (IrqState ι n) := do
  let v ← vector n (s.hook hook).irq
  some (s.clearActid v (s.hook hook).id)

def disableIrq (s : IrqState ι n) (hook : ι) : Option (Bool × IrqState ι n) := do
  let v ← vector n (s.hook hook).irq
  if s.irqActids v &&& (s.hook hook).id ≠ 0 then some (false, s)
  else some (true, (s.setActids v (s.irqActids v ||| (s.hook hook).id)).hwIntrMask v)

def handleEvent (s : IrqState ι n) : IrqEvent ι → Option (IrqState ι n)
  | .putIrqHandler hook irq => s.putIrqHandler hook irq
  | .rmIrqHandler hook => s.rmIrqHandler hook
  | .irqHandle irq results => s.irqHandle irq results
  | .enableIrq hook => s.enableIrq hook
  | .disableIrq hook => (s.disableIrq hook).map Prod.snd

end IrqState

structure IrqLine {ι : Type} {n : ℕ} (cascadeIrq : Fin n) (s : IrqState ι n) (v : Fin n)
    (l : List ι) : Prop where
  holds : (s.line v).Holds l
  irq : ∀ h ∈ l, (s.hook h).irq = v
  single : ∀ h ∈ l, ∃ i < 32, (s.hook h).id = BitVec.twoPow 32 i
  distinct : ∀ h ∈ l, ∀ h' ∈ l, (s.hook h).id = (s.hook h').id → h = h'
  active : ∀ i, (s.irqActids v).getLsbD i = true → ∃ h ∈ l, (s.hook h).id.getLsbD i = true
  unmasked : l ≠ [] → (s.masked v = false ↔ s.irqActids v = 0)
  idle : l = [] → v ≠ cascadeIrq → s.masked v = true

section Lines
variable {ι : Type} {n : ℕ} {cascadeIrq v w : Fin n} {s s' : IrqState ι n} {l : List ι} {h : ι}

theorem IrqLine.reg (hline : IrqLine cascadeIrq s v l) (hmem : h ∈ l) :
    vector n (s.hook h).irq = some v := by
  have hirq := hline.irq h hmem
  have hrange : 0 ≤ (v : ℤ) ∧ (v : ℤ) < n := by omega
  simp [vector, hirq, hrange]

theorem IrqLine.relink {l' : List ι} (hline : IrqLine cascadeIrq s v l) (hsub : l' ⊆ l)
    (hholds : (s'.line v).Holds l')
    (hhook : ∀ h, (s'.hook h).irq = (s.hook h).irq ∧ (s'.hook h).id = (s.hook h).id)
    (hactive : ∀ i, (s'.irqActids v).getLsbD i = true → ∃ h ∈ l', (s.hook h).id.getLsbD i = true)
    (hunmasked : l' ≠ [] → (s'.masked v = false ↔ s'.irqActids v = 0))
    (hidle : l' = [] → v ≠ cascadeIrq → s'.masked v = true) : IrqLine cascadeIrq s' v l' where
  holds := hholds
  irq i hi := by rw [(hhook i).1, hline.irq i (hsub hi)]
  single i hi := by rw [(hhook i).2]; exact hline.single i (hsub hi)
  distinct i hi j hj hid := by
    rw [(hhook i).2, (hhook j).2] at hid
    exact hline.distinct i (hsub hi) j (hsub hj) hid
  active i hi := by
    obtain ⟨h, hmem, hbit⟩ := hactive i hi
    exact ⟨h, hmem, by rwa [(hhook h).2]⟩
  unmasked := hunmasked
  idle := hidle

theorem IrqLine.frame (hline : IrqLine cascadeIrq s v l)
    (hhead : s'.irqHandlers v = s.irqHandlers v)
    (hhook : s'.hook = s.hook)
    (hactive : ∀ i, (s'.irqActids v).getLsbD i = true → ∃ h ∈ l, (s.hook h).id.getLsbD i = true)
    (hunmasked : l ≠ [] → (s'.masked v = false ↔ s'.irqActids v = 0))
    (hidle : l = [] → v ≠ cascadeIrq → s'.masked v = true) : IrqLine cascadeIrq s' v l := by
  refine hline.relink (fun _ => id) ?_ (fun h => by simp [hhook]) hactive hunmasked hidle
  exact hline.holds.congr hhead fun i _ => by simp [IrqState.line, hhook]

theorem IrqLine.same (hline : IrqLine cascadeIrq s v l) (hhead : s'.irqHandlers v = s.irqHandlers v)
    (hhook : ∀ h ∈ l, s'.hook h = s.hook h) (hactids : s'.irqActids v = s.irqActids v)
    (hmasked : s'.masked v = s.masked v) : IrqLine cascadeIrq s' v l where
  holds := hline.holds.congr hhead fun i hi => by
    change (s'.hook i).next = (s.hook i).next
    rw [hhook i hi]
  irq i hi := by rw [hhook i hi, hline.irq i hi]
  single i hi := by rw [hhook i hi]; exact hline.single i hi
  distinct i hi j hj hid := by
    rw [hhook i hi, hhook j hj] at hid
    exact hline.distinct i hi j hj hid
  active i hi := by
    rw [hactids] at hi
    obtain ⟨h, hmem, hbit⟩ := hline.active i hi
    exact ⟨h, hmem, by rwa [hhook h hmem]⟩
  unmasked := by rw [hactids, hmasked]; exact hline.unmasked
  idle := by rw [hmasked]; exact hline.idle

section Clear
variable {id : BitVec 32}

@[simp] theorem clearActid_hook : (s.clearActid v id).hook = s.hook := by
  simp only [IrqState.clearActid]
  split <;> rfl

@[simp] theorem clearActid_handlers : (s.clearActid v id).irqHandlers = s.irqHandlers := by
  simp only [IrqState.clearActid]
  split <;> rfl

@[simp] theorem clearActid_actids :
    (s.clearActid v id).irqActids v = s.irqActids v &&& ~~~id := by
  simp only [IrqState.clearActid]
  split <;> exact Function.update_self ..

theorem clearActid_other (hvw : w ≠ v) : (s.clearActid v id).irqActids w = s.irqActids w ∧
    (s.clearActid v id).masked w = s.masked w := by
  simp only [IrqState.clearActid]
  split
  · exact ⟨Function.update_of_ne hvw .., Function.update_of_ne hvw ..⟩
  · exact ⟨Function.update_of_ne hvw .., rfl⟩

theorem clearActid_unmasked (hmask : s.irqActids v ≠ 0 → s.masked v = true) :
    (s.clearActid v id).masked v = false ↔ (s.clearActid v id).irqActids v = 0 := by
  rw [clearActid_actids]
  by_cases hzero : s.irqActids v &&& ~~~id = 0
  · have hcleared : s.clearActid v id = (s.setActids v (s.irqActids v &&& ~~~id)).hwIntrUnmask v :=
      if_pos hzero
    rw [hcleared]
    exact iff_of_true (Function.update_self ..) hzero
  · have hset : s.irqActids v ≠ 0 := by
      intro h0
      simp [h0] at hzero
    have hkept : s.clearActid v id = s.setActids v (s.irqActids v &&& ~~~id) := if_neg hzero
    rw [hkept]
    exact iff_of_false (by simp [IrqState.setActids, hmask hset]) hzero

end Clear

theorem bit_of_clear {x id : BitVec 32} {i : ℕ} (hbit : (x &&& ~~~id).getLsbD i = true) :
    x.getLsbD i = true ∧ id.getLsbD i = false := by
  rw [BitVec.getLsbD_and, BitVec.getLsbD_not] at hbit
  grind

theorem IrqLine.cleared {id : BitVec 32} (hline : IrqLine cascadeIrq s v l) (hne : l ≠ []) :
    IrqLine cascadeIrq (s.clearActid v id) v l := by
  refine hline.frame (by simp) (by simp) ?_ ?_ (fun hnil => absurd hnil hne)
  · intro i hi
    rw [clearActid_actids] at hi
    exact hline.active i (bit_of_clear hi).1
  · intro _
    refine clearActid_unmasked fun hset => ?_
    simpa using fun hopen => hset ((hline.unmasked hne).mp hopen)

theorem IrqLine.clearedOther {id : BitVec 32} (hline : IrqLine cascadeIrq s w l) (hvw : w ≠ v) :
    IrqLine cascadeIrq (s.clearActid v id) w l :=
  hline.same (by simp) (by simp) (clearActid_other hvw).1 (clearActid_other hvw).2

theorem inUse_getLsbD {i : ℕ} {bitmap : BitVec 32} :
    (l.foldl (fun b j => b ||| (s.hook j).id) bitmap).getLsbD i =
      (bitmap.getLsbD i || l.any fun j => (s.hook j).id.getLsbD i) := by
  induction l generalizing bitmap with
  | nil => simp
  | cons j l ih => rw [List.foldl_cons, ih, BitVec.getLsbD_or, List.any_cons, Bool.or_assoc]

theorem and_not_of_disjoint {x id : BitVec 32} (hdisj : x &&& id = 0) : x &&& ~~~id = x := by
  ext i hi
  have hbit := congrArg (fun y => y[i]) hdisj
  simp only [BitVec.getElem_and, BitVec.getElem_not] at hbit ⊢
  grind

theorem setActids_same {x : BitVec 32} (hx : s.irqActids v = x) : s.setActids v x = s := by
  rw [IrqState.setActids, ← hx, Function.update_eq_self]

theorem callHandlers_spec (results : ι → Bool) {p : Option ι} {post : List ι} {fuel : ℕ}
    (hirq : ∀ i ∈ post, vector n (s.hook i).irq = some v)
    (hpath : Chain.Path (s.line v).next p post) (hfuel : post.length < fuel) :
    ∃ x, IrqState.callHandlers v results fuel s p = some (s.setActids v x) ∧
      ∀ i, x.getLsbD i = true →
        (s.irqActids v).getLsbD i = true ∨ ∃ h ∈ post, (s.hook h).id.getLsbD i = true := by
  induction post generalizing s p fuel with
  | nil =>
    obtain ⟨fuel, rfl⟩ : ∃ m, fuel = m + 1 := ⟨fuel - 1, by simp at hfuel; omega⟩
    obtain rfl : p = none := hpath
    exact ⟨s.irqActids v, by rw [setActids_same rfl, IrqState.callHandlers], fun _ => .inl⟩
  | cons h post ih =>
    obtain ⟨fuel, rfl⟩ : ∃ m, fuel = m + 1 := ⟨fuel - 1, by simp at hfuel; omega⟩
    obtain ⟨rfl, hrest⟩ : p = some h ∧ Chain.Path (s.line v).next (s.hook h).next post := hpath
    have hstep : ∃ y, IrqState.callHandlers v results (fuel + 1) s (some h) =
        IrqState.callHandlers v results fuel (s.setActids v y) (s.hook h).next ∧
        ∀ i, y.getLsbD i = true →
          (s.irqActids v).getLsbD i = true ∨ (s.hook h).id.getLsbD i = true := by
      cases hres : results h with
      | false =>
        refine ⟨s.irqActids v ||| (s.hook h).id, ?_, fun i hi => ?_⟩
        · simp [IrqState.callHandlers, hres, IrqState.setActids]
        · simpa using hi
      | true =>
        refine ⟨(s.irqActids v ||| (s.hook h).id) &&& ~~~(s.hook h).id, ?_, fun i hi => ?_⟩
        · simp [IrqState.callHandlers, hres, IrqState.setActids, hirq h List.mem_cons_self]
        · simpa using (bit_of_clear hi).1
    obtain ⟨y, hcall, hy⟩ := hstep
    obtain ⟨x, hx, hbits⟩ := ih (s := s.setActids v y)
      (fun i hi => hirq i (List.mem_cons_of_mem h hi)) hrest (by simpa using hfuel)
    refine ⟨x, ?_, fun i hi => ?_⟩
    · rw [hcall, hx]
      simp [IrqState.setActids]
    · rcases hbits i hi with hact | ⟨k, hk, hbit⟩
      · rw [show (s.setActids v y).irqActids v = y from Function.update_self ..] at hact
        rcases hy i hact with hact | hbit
        · exact .inl hact
        · exact .inr ⟨h, List.mem_cons_self, hbit⟩
      · exact .inr ⟨k, List.mem_cons_of_mem h hk, hbit⟩

theorem lowestId_spec (bitmap : BitVec 32) (k fuel : ℕ) (hfuel : k + fuel = 32) :
    (∃ i < 32, lowestId bitmap fuel (BitVec.twoPow 32 k) = BitVec.twoPow 32 i ∧
      bitmap.getLsbD i = false) ∨
    (lowestId bitmap fuel (BitVec.twoPow 32 k) = 0 ∧
      ∀ i, k ≤ i → i < 32 → bitmap.getLsbD i = true) := by
  induction fuel generalizing k with
  | zero =>
    obtain rfl : k = 32 := hfuel
    exact .inr ⟨rfl, fun i hlo hhi => absurd hhi (by omega)⟩
  | succ fuel ih =>
    have hpow : BitVec.twoPow 32 k ≠ 0 := by
      intro h0
      have hbit := congrArg (fun y => y.getLsbD k) h0
      simp [BitVec.getLsbD_twoPow] at hbit
      omega
    cases hk : bitmap.getLsbD k with
    | false =>
      refine .inl ⟨k, by omega, ?_, hk⟩
      simp [lowestId, BitVec.and_twoPow, hk]
    | true =>
      have hnext : lowestId bitmap (fuel + 1) (BitVec.twoPow 32 k) =
          lowestId bitmap fuel (BitVec.twoPow 32 (k + 1)) := by
        have hshift : BitVec.twoPow 32 k <<< 1 = BitVec.twoPow 32 (k + 1) := by
          simp [BitVec.twoPow, ← BitVec.shiftLeft_add]
        rw [lowestId, BitVec.and_twoPow, hk, hshift]
        exact if_neg (by simpa using hpow)
      rw [hnext]
      rcases ih (k + 1) (by omega) with hfound | ⟨hzero, hall⟩
      · exact .inl hfound
      · refine .inr ⟨hzero, fun i hlo hhi => ?_⟩
        rcases Nat.eq_or_lt_of_le hlo with rfl | hlt
        · exact hk
        · exact hall i hlt hhi

theorem freshId (hline : IrqLine cascadeIrq s v l) (hlen : l.length < 32) :
    ∃ i < 32, lowestId (l.foldl (fun b j => b ||| (s.hook j).id) 0) 32 1 = BitVec.twoPow 32 i ∧
      ∀ h ∈ l, (s.hook h).id.getLsbD i = false := by
  rcases lowestId_spec (l.foldl (fun b j => b ||| (s.hook j).id) 0) 0 32 rfl with
    ⟨i, hi, hid, hbit⟩ | ⟨-, hall⟩
  · refine ⟨i, hi, hid, fun h hmem => ?_⟩
    rw [inUse_getLsbD, Bool.or_eq_false_iff, List.any_eq_false] at hbit
    simpa using hbit.2 h hmem
  · -- each of the 32 bits is the id of some hook on the line
    have hsub : (List.range 32).map (BitVec.twoPow 32) ⊆ l.map fun h => (s.hook h).id := by
      intro x hx
      obtain ⟨i, hi, rfl⟩ := List.mem_map.mp hx
      have hi := List.mem_range.mp hi
      have hbit := hall i (Nat.zero_le i) hi
      rw [inUse_getLsbD, Bool.or_eq_true, List.any_eq_true] at hbit
      rcases hbit with h0 | ⟨h, hmem, hbit⟩
      · simp at h0
      · refine List.mem_map.mpr ⟨h, hmem, ?_⟩
        obtain ⟨k, hk, hid⟩ := hline.single h hmem
        rw [hid, BitVec.getLsbD_twoPow] at hbit
        simp only [Bool.and_eq_true, decide_eq_true_eq] at hbit
        rw [hid, hbit.2]
    have hnodup : ((List.range 32).map (BitVec.twoPow 32)).Nodup := by decide
    have hle := (List.subperm_of_subset hnodup hsub).length_le
    simp only [List.length_map, List.length_range] at hle
    omega

section Walks
variable [DecidableEq ι] {x : Cell ι} {p : Option ι} {post pre : List ι} {fuel : ℕ}
  {bitmap id : BitVec 32} {results : ι → Bool}

theorem setCell_line : (s.setCell v x p).line v = (s.line v).set x p := by
  cases x with
  | head => simp [IrqState.setCell, IrqState.line, Links.set]
  | link i =>
    simp only [IrqState.setCell, IrqState.line, Links.set, Links.mk.injEq, true_and]
    funext j
    by_cases hj : j = i
    · rw [hj, Function.update_self, Function.update_self]
    · rw [Function.update_of_ne hj, Function.update_of_ne hj]

theorem findEnd_spec (bitmap : BitVec 32)
    (hpath : Chain.Path (s.line v).next ((s.line v).get x) post) (hfuel : post.length < fuel) :
    s.findEnd v h fuel x bitmap = if h ∈ post then some none
      else some (some (cellFrom x post, post.foldl (fun b i => b ||| (s.hook i).id) bitmap)) := by
  induction post generalizing x fuel bitmap with
  | nil =>
    obtain ⟨fuel, rfl⟩ : ∃ m, fuel = m + 1 := ⟨fuel - 1, by simp at hfuel; omega⟩
    have hnone : (s.line v).get x = none := hpath
    simp [IrqState.findEnd, hnone, cellFrom]
  | cons i post ih =>
    obtain ⟨fuel, rfl⟩ : ∃ m, fuel = m + 1 := ⟨fuel - 1, by simp at hfuel; omega⟩
    have hsome : (s.line v).get x = some i := hpath.1
    by_cases hi : h = i
    · simp [IrqState.findEnd, hsome, hi]
    · simp only [IrqState.findEnd, hsome, hi, if_false, List.mem_cons, false_or]
      exact ih _ (x := .link i) hpath.2 (by simpa using hfuel)

@[simp] theorem setCell_actids : (s.setCell v x p).irqActids = s.irqActids := by cases x <;> rfl

@[simp] theorem setCell_masked : (s.setCell v x p).masked = s.masked := by cases x <;> rfl

theorem setCell_hook (i : ι) : ((s.setCell v x p).hook i).irq = (s.hook i).irq ∧
    ((s.setCell v x p).hook i).id = (s.hook i).id := by
  cases x with
  | head => exact ⟨rfl, rfl⟩
  | link j =>
    by_cases hj : i = j
    · subst hj
      simp [IrqState.setCell]
    · simp [IrqState.setCell, Function.update_of_ne hj]

theorem setCell_handlers (hvw : w ≠ v) : (s.setCell v x p).irqHandlers w = s.irqHandlers w := by
  cases x with
  | head => exact Function.update_of_ne hvw ..
  | link i => rfl

theorem setCell_hook_of_notMem (hmem : h ∉ pre) :
    (s.setCell v (cellFrom .head pre) p).hook h = s.hook h := by
  cases pre with
  | nil => rfl
  | cons i pre =>
    obtain ⟨j, hj, hcell⟩ := cellFrom_link i pre
    rw [cellFrom, hcell]
    refine Function.update_of_ne ?_ ..
    rintro rfl
    exact hmem hj

theorem removeId_skip (hpath : Chain.Path (s.line v).next ((s.line v).get x) (pre ++ post))
    (hpre : ∀ i ∈ pre, (s.hook i).id ≠ id) :
    IrqState.removeId v id (pre.length + fuel) s x =
      IrqState.removeId v id fuel s (cellFrom x pre) := by
  induction pre generalizing x with
  | nil => simp [cellFrom]
  | cons i pre ih =>
    have hsome : (s.line v).get x = some i := hpath.1
    have hlen : (i :: pre).length + fuel = pre.length + fuel + 1 := by
      simp only [List.length_cons]
      omega
    rw [hlen]
    simp only [IrqState.removeId, hsome, hpre i List.mem_cons_self, if_false]
    exact ih (x := .link i) hpath.2 fun j hj => hpre j (List.mem_cons_of_mem i hj)

theorem removeId_none (hpath : Chain.Path (s.line v).next ((s.line v).get x) post)
    (hpost : ∀ i ∈ post, (s.hook i).id ≠ id) :
    IrqState.removeId v id (post.length + (fuel + 1)) s x = some s := by
  have hwhole : Chain.Path (s.line v).next ((s.line v).get x) (post ++ []) := by
    rwa [List.append_nil]
  rw [removeId_skip hwhole hpost]
  have hend : (s.line v).get (cellFrom x post) = none := path_cellFrom hwhole
  simp [IrqState.removeId, hend]

end Walks

section Relinking
variable [DecidableEq ι] {pre post : List ι} {fuel : ℕ}

def IrqState.unhooked (s : IrqState ι n) (v : Fin n) (pre : List ι) (h : ι) : IrqState ι n :=
  (s.setCell v (cellFrom .head pre) (s.hook h).next).setActids v
    (s.irqActids v &&& ~~~(s.hook h).id)

theorem unhooked_other (pre : List ι) (hvw : w ≠ v) :
    (s.unhooked v pre h).irqHandlers w = s.irqHandlers w ∧
    (s.unhooked v pre h).irqActids w = s.irqActids w ∧
    (s.unhooked v pre h).masked w = s.masked w :=
  ⟨setCell_handlers hvw, (Function.update_of_ne hvw ..).trans (congrFun setCell_actids w),
    congrFun setCell_masked w⟩

theorem removeId_found (fuel : ℕ) (hline : IrqLine cascadeIrq s v (pre ++ h :: post)) :
    IrqState.removeId v (s.hook h).id (pre.length + (post.length + (fuel + 1) + 1)) s .head =
      some (s.unhooked v pre h) := by
  have hfresh : h ∉ pre ++ post :=
    (List.nodup_cons.mp (List.perm_middle.nodup_iff.mp (path_nodup hline.holds))).1
  have hother : ∀ i ∈ pre ++ post, (s.hook i).id ≠ (s.hook h).id := by
    intro i hi hid
    have hmem : i ∈ pre ++ h :: post := by
      rcases List.mem_append.mp hi with hi | hi
      · exact List.mem_append_left _ hi
      · exact List.mem_append_right _ (List.mem_cons_of_mem h hi)
    obtain rfl := hline.distinct i hmem h (by simp) hid
    exact hfresh hi
  have hget : (s.line v).get (cellFrom .head pre) = some h := hline.holds.get
  have hclear : (if s.irqActids v &&& (s.hook h).id ≠ 0 then
      (s.setCell v (cellFrom .head pre) (s.hook h).next).setActids v
        (s.irqActids v &&& ~~~(s.hook h).id)
      else s.setCell v (cellFrom .head pre) (s.hook h).next) = s.unhooked v pre h := by
    by_cases hbit : s.irqActids v &&& (s.hook h).id = 0
    · rw [if_neg (not_not.mpr hbit), IrqState.unhooked, setActids_same]
      rw [setCell_actids, and_not_of_disjoint hbit]
    · rw [if_pos hbit]
      rfl
  have hrest : Chain.Path ((s.unhooked v pre h).line v).next
      (((s.unhooked v pre h).line v).get (cellFrom .head pre)) post := by
    have hunlink := hline.holds.unlink
    rw [show (s.line v).next h = (s.hook h).next from rfl, ← setCell_line] at hunlink
    exact path_cellFrom (x := .head) hunlink
  rw [removeId_skip (x := .head) hline.holds fun i hi => hother i (List.mem_append_left post hi)]
  rw [IrqState.removeId, hget]
  simp only [if_true, setCell_actids]
  rw [hclear]
  refine removeId_none hrest fun i hi => ?_
  rw [show ((s.unhooked v pre h).hook i).id = (s.hook i).id from (setCell_hook i).2]
  exact hother i (List.mem_append_right pre hi)

def IrqState.linked (s : IrqState ι n) (v : Fin n) (l : List ι) (h : ι) (irq : ℤ)
    (id : BitVec 32) : IrqState ι n :=
  IrqState.setCell { s with hook := Function.update s.hook h ⟨none, irq, id⟩ } v
    (cellFrom .head l) (some h)

theorem linked_hook {irq : ℤ} {id : BitVec 32} {k : ι} (hk : k ≠ h) :
    ((s.linked v l h irq id).hook k).irq = (s.hook k).irq ∧
      ((s.linked v l h irq id).hook k).id = (s.hook k).id := by
  obtain ⟨hirq, hid⟩ := setCell_hook
    (s := { s with hook := Function.update s.hook h ⟨none, irq, id⟩ }) (v := v)
    (x := cellFrom .head l) (p := some h) k
  have hold : Function.update s.hook h ⟨none, irq, id⟩ k = s.hook k := Function.update_of_ne hk ..
  exact ⟨hirq.trans (congrArg IrqHook.irq hold), hid.trans (congrArg IrqHook.id hold)⟩

theorem linked_hook_self {irq : ℤ} {id : BitVec 32} :
    ((s.linked v l h irq id).hook h).irq = irq ∧ ((s.linked v l h irq id).hook h).id = id := by
  obtain ⟨hirq, hid⟩ := setCell_hook
    (s := { s with hook := Function.update s.hook h ⟨none, irq, id⟩ }) (v := v)
    (x := cellFrom .head l) (p := some h) h
  have hnew : Function.update s.hook h ⟨none, irq, id⟩ h = ⟨none, irq, id⟩ :=
    Function.update_self ..
  exact ⟨hirq.trans (congrArg IrqHook.irq hnew), hid.trans (congrArg IrqHook.id hnew)⟩

theorem linked_holds {irq : ℤ} {id : BitVec 32} (hline : IrqLine cascadeIrq s v l) (hmem : h ∉ l) :
    ((s.linked v l h irq id).line v).Holds (l ++ [h]) := by
  rw [IrqState.linked, setCell_line]
  refine Links.Holds.append (hline.holds.congr rfl fun i hi => ?_) hmem ?_
  · have hold : Function.update s.hook h ⟨none, irq, id⟩ i = s.hook i :=
      Function.update_of_ne (ne_of_mem_of_not_mem hi hmem) ..
    exact congrArg IrqHook.next hold
  · have hnew : Function.update s.hook h ⟨none, irq, id⟩ h = ⟨none, irq, id⟩ :=
      Function.update_self ..
    exact congrArg IrqHook.next hnew

theorem IrqLine.linked {i : ℕ} (hline : IrqLine cascadeIrq s v l) (hmem : h ∉ l) (hi : i < 32)
    (hfresh : ∀ k ∈ l, (s.hook k).id.getLsbD i = false) :
    IrqLine cascadeIrq ((s.linked v l h v (BitVec.twoPow 32 i)).clearActid v (BitVec.twoPow 32 i)) v
      (l ++ [h]) := by
  have hne : ∀ k ∈ l, k ≠ h := fun k hk he => hmem (he ▸ hk)
  have hnew : ∀ k ∈ l, (s.hook k).id ≠ BitVec.twoPow 32 i := by
    intro k hk hid
    have hbit := hfresh k hk
    simp [hid, hi] at hbit
  have hactids : (s.linked v l h v (BitVec.twoPow 32 i)).irqActids = s.irqActids := setCell_actids
  have hmasked : (s.linked v l h v (BitVec.twoPow 32 i)).masked = s.masked := setCell_masked
  have hactive : ∀ j, (s.irqActids v).getLsbD j = true → l ≠ [] := by
    intro j hj hnil
    obtain ⟨k, hk, -⟩ := hline.active j hj
    simp [hnil] at hk
  constructor
  · refine (linked_holds hline hmem).congr (congrFun clearActid_handlers v) fun k _ => ?_
    exact congrArg IrqHook.next (congrFun clearActid_hook k)
  · intro k hk
    rw [clearActid_hook]
    rcases List.mem_append.mp hk with hk | hk
    · rw [(linked_hook (hne k hk)).1, hline.irq k hk]
    · rw [List.mem_singleton.mp hk, linked_hook_self.1]
  · intro k hk
    rw [clearActid_hook]
    rcases List.mem_append.mp hk with hk | hk
    · rw [(linked_hook (hne k hk)).2]
      exact hline.single k hk
    · rw [List.mem_singleton.mp hk, linked_hook_self.2]
      exact ⟨i, hi, rfl⟩
  · intro k hk k' hk' hid
    rw [clearActid_hook] at hid
    rcases List.mem_append.mp hk with hk | hk <;> rcases List.mem_append.mp hk' with hk' | hk'
    · rw [(linked_hook (hne k hk)).2, (linked_hook (hne k' hk')).2] at hid
      exact hline.distinct k hk k' hk' hid
    · rw [(linked_hook (hne k hk)).2, List.mem_singleton.mp hk', linked_hook_self.2] at hid
      exact absurd hid (hnew k hk)
    · rw [List.mem_singleton.mp hk, linked_hook_self.2, (linked_hook (hne k' hk')).2] at hid
      exact absurd hid.symm (hnew k' hk')
    · rw [List.mem_singleton.mp hk, List.mem_singleton.mp hk']
  · intro j hj
    rw [clearActid_actids, hactids] at hj
    obtain ⟨k, hk, hbit⟩ := hline.active j (bit_of_clear hj).1
    exact ⟨k, List.mem_append_left _ hk, by rwa [clearActid_hook, (linked_hook (hne k hk)).2]⟩
  · intro _
    refine clearActid_unmasked fun hset => ?_
    rw [hactids] at hset
    rw [hmasked]
    have hnonempty : l ≠ [] := by
      rintro rfl
      refine hset (BitVec.eq_of_getLsbD_eq fun j _ => ?_)
      have hzero : (s.irqActids v).getLsbD j ≠ true := fun hj => hactive j hj rfl
      simpa using hzero
    simpa using fun hopen => hset ((hline.unmasked hnonempty).mp hopen)
  · exact fun hnil => absurd hnil (by simp)

end Relinking

section Steps
variable {L : Fin n → List ι}

theorem IrqLine.length [Fintype ι] (hline : IrqLine cascadeIrq s v l) :
    l.length < Fintype.card ι + 1 :=
  Nat.lt_succ_of_le (path_length_le hline.holds)

theorem enabled (hlines : ∀ v, IrqLine cascadeIrq s v (L v)) (hmem : h ∈ L v) :
    ∃ s', s.enableIrq h = some s' ∧ ∀ v, IrqLine cascadeIrq s' v (L v) := by
  refine ⟨s.clearActid v (s.hook h).id, by simp [IrqState.enableIrq, (hlines v).reg hmem],
    fun w => ?_⟩
  by_cases hw : w = v
  · subst hw
    exact (hlines w).cleared (List.ne_nil_of_mem hmem)
  · exact (hlines w).clearedOther hw

theorem IrqLine.disabled (hline : IrqLine cascadeIrq s v l) (hmem : h ∈ l) :
    IrqLine cascadeIrq ((s.setActids v (s.irqActids v ||| (s.hook h).id)).hwIntrMask v) v l := by
  have hactids : ((s.setActids v (s.irqActids v ||| (s.hook h).id)).hwIntrMask v).irqActids v =
      s.irqActids v ||| (s.hook h).id := Function.update_self ..
  refine hline.frame rfl rfl ?_ ?_ fun hnil => absurd hnil (List.ne_nil_of_mem hmem)
  · intro i hi
    rw [hactids, BitVec.getLsbD_or, Bool.or_eq_true] at hi
    rcases hi with hact | hid
    · exact hline.active i hact
    · exact ⟨h, hmem, hid⟩
  · intro _
    rw [hactids]
    refine iff_of_false (by simp [IrqState.hwIntrMask]) fun hzero => ?_
    obtain ⟨i, hi, hid⟩ := hline.single h hmem
    have hbit := congrArg (fun y => y.getLsbD i) hzero
    simp [hid, hi] at hbit

theorem disabled (hlines : ∀ v, IrqLine cascadeIrq s v (L v)) (hmem : h ∈ L v) :
    ∃ b s', s.disableIrq h = some (b, s') ∧ ∀ v, IrqLine cascadeIrq s' v (L v) := by
  by_cases hset : s.irqActids v &&& (s.hook h).id = 0
  · refine ⟨true, (s.setActids v (s.irqActids v ||| (s.hook h).id)).hwIntrMask v, ?_, fun w => ?_⟩
    · simp [IrqState.disableIrq, (hlines v).reg hmem, hset]
    · by_cases hw : w = v
      · subst hw
        exact (hlines w).disabled hmem
      · exact (hlines w).same rfl (fun _ _ => rfl) (Function.update_of_ne hw ..)
          (Function.update_of_ne hw ..)
  · refine ⟨false, s, ?_, hlines⟩
    simpa [IrqState.disableIrq, (hlines v).reg hmem] using hset

theorem vector_some {irq : ℤ} (hrange : 0 ≤ irq ∧ irq < n) :
    ∃ v : Fin n, vector n irq = some v ∧ (v : ℤ) = irq :=
  ⟨⟨irq.toNat, by omega⟩, dif_pos hrange, by simp; omega⟩

theorem settled (x : BitVec 32) :
    ((if x = 0 then s.hwIntrUnmask v else s).masked v = false ↔ x = 0 ∨ s.masked v = false) := by
  by_cases hx : x = 0
  · simp [hx, IrqState.hwIntrUnmask]
  · rw [if_neg hx]
    simp only [hx, false_or]

theorem IrqLine.handled {x : BitVec 32} (hline : IrqLine cascadeIrq s v l) (hne : l ≠ [])
    (hbits : ∀ i, x.getLsbD i = true →
      (s.irqActids v).getLsbD i = true ∨ ∃ h ∈ l, (s.hook h).id.getLsbD i = true) :
    IrqLine cascadeIrq (if x = 0 then ((s.hwIntrMask v).setActids v x).hwIntrUnmask v
      else (s.hwIntrMask v).setActids v x) v l := by
  have hhook : (if x = 0 then ((s.hwIntrMask v).setActids v x).hwIntrUnmask v
      else (s.hwIntrMask v).setActids v x).hook = s.hook := by split <;> rfl
  have hactids : (if x = 0 then ((s.hwIntrMask v).setActids v x).hwIntrUnmask v
      else (s.hwIntrMask v).setActids v x).irqActids v = x := by
    split <;> exact Function.update_self ..
  refine hline.frame (by split <;> rfl) hhook ?_ ?_ fun hnil => absurd hnil hne
  · intro i hi
    rw [hactids] at hi
    rcases hbits i hi with hact | hid
    · exact hline.active i hact
    · exact hid
  · intro _
    rw [settled, hactids]
    simp [IrqState.setActids, IrqState.hwIntrMask]

theorem IrqLine.unhooked [DecidableEq ι] {pre post : List ι}
    (hline : IrqLine cascadeIrq s v (pre ++ h :: post))
    (hhead : s'.irqHandlers v = (s.unhooked v pre h).irqHandlers v)
    (hhook : s'.hook = (s.unhooked v pre h).hook)
    (hactids : s'.irqActids v = (s.unhooked v pre h).irqActids v)
    (hunmasked : pre ++ post ≠ [] → (s'.masked v = false ↔ s'.irqActids v = 0))
    (hidle : pre ++ post = [] → s'.masked v = true) :
    IrqLine cascadeIrq s' v (pre ++ post) := by
  refine hline.relink ?_ ?_ ?_ ?_ hunmasked fun hnil _ => hidle hnil
  · intro i hi
    rcases List.mem_append.mp hi with hi | hi
    · exact List.mem_append_left _ hi
    · exact List.mem_append_right _ (List.mem_cons_of_mem h hi)
  · have hunlink := hline.holds.unlink
    rw [show (s.line v).next h = (s.hook h).next from rfl, ← setCell_line] at hunlink
    exact hunlink.congr hhead fun i _ => by simp [IrqState.line, hhook, IrqState.unhooked,
      IrqState.setActids]
  · intro i
    rw [hhook]
    exact setCell_hook i
  · intro i hi
    rw [hactids, show (s.unhooked v pre h).irqActids v = s.irqActids v &&& ~~~(s.hook h).id from
      Function.update_self ..] at hi
    obtain ⟨hact, hcleared⟩ := bit_of_clear hi
    obtain ⟨k, hk, hbit⟩ := hline.active i hact
    have hkh : k ≠ h := by
      rintro rfl
      rw [hcleared] at hbit
      cases hbit
    refine ⟨k, ?_, hbit⟩
    simpa [hkh] using hk

variable [Fintype ι]

theorem handled {irq : ℤ} (results : ι → Bool) (hlines : ∀ v, IrqLine cascadeIrq s v (L v))
    (hrange : 0 ≤ irq ∧ irq < n) :
    ∃ s', s.irqHandle irq results = some s' ∧ ∀ v, IrqLine cascadeIrq s' v (L v) := by
  obtain ⟨v, hv, -⟩ := vector_some hrange
  have hline := hlines v
  cases hl : L v with
  | nil =>
    have hnone : (s.hwIntrMask v).irqHandlers v = none := by
      have hholds := hline.holds
      rw [hl] at hholds
      exact hholds
    refine ⟨s.hwIntrMask v, by simp [IrqState.irqHandle, hv, hnone], fun w => ?_⟩
    by_cases hw : w = v
    · subst hw
      refine hline.frame rfl rfl hline.active (fun hne => absurd hl hne) fun _ _ => ?_
      exact Function.update_self ..
    · exact (hlines w).same rfl (fun _ _ => rfl) rfl (Function.update_of_ne hw ..)
  | cons h l =>
    have hsome : (s.hwIntrMask v).irqHandlers v ≠ none := by
      have hholds := hline.holds
      rw [hl] at hholds
      exact fun hnone => Option.some_ne_none h (hholds.1.symm.trans hnone)
    obtain ⟨x, hcall, hbits⟩ := callHandlers_spec (s := s.hwIntrMask v) results
      (fun i hi => hline.reg hi) hline.holds hline.length
    have hcall' : IrqState.callHandlers v results (Fintype.card ι + 1) (s.hwIntrMask v)
        ((s.hwIntrMask v).irqHandlers v) = some ((s.hwIntrMask v).setActids v x) := hcall
    refine ⟨if x = 0 then ((s.hwIntrMask v).setActids v x).hwIntrUnmask v
      else (s.hwIntrMask v).setActids v x, ?_, fun w => ?_⟩
    · have hact : ((s.hwIntrMask v).setActids v x).irqActids v = x := Function.update_self ..
      simp only [IrqState.irqHandle, hv, Option.bind_eq_bind, Option.bind_some, if_neg hsome,
        hcall', hact]
      split <;> rfl
    · by_cases hw : w = v
      · subst hw
        exact hline.handled (by simp [hl]) hbits
      · refine (hlines w).same ?_ (fun h _ => ?_) ?_ ?_
        · split <;> rfl
        · split <;> rfl
        · split <;> exact Function.update_of_ne hw ..
        · split
          · exact (Function.update_of_ne hw ..).trans (Function.update_of_ne hw ..)
          · exact Function.update_of_ne hw ..

variable [DecidableEq ι]

theorem removed (hlines : ∀ v, IrqLine cascadeIrq s v (L v)) (hmem : h ∈ L v) :
    ∃ s', ∃ L' : Fin n → List ι, s.rmIrqHandler h = some s' ∧
      ∀ v, IrqLine cascadeIrq s' v (L' v) := by
  obtain ⟨pre, post, hl⟩ := List.append_of_mem hmem
  have hline := hlines v
  rw [hl] at hline
  have hfuel : ∃ m, Fintype.card ι + 1 = pre.length + (post.length + (m + 1) + 1) := by
    have hlen := hline.length
    simp only [List.length_append, List.length_cons] at hlen
    exact ⟨Fintype.card ι - pre.length - post.length - 1, by omega⟩
  obtain ⟨m, hm⟩ := hfuel
  have hfound := removeId_found m hline
  rw [← hm] at hfound
  have hother : ∀ w, w ≠ v → IrqLine cascadeIrq (s.unhooked v pre h) w (L w) := by
    intro w hw
    obtain ⟨hhead, hact, hmasked⟩ := unhooked_other (s := s) (h := h) pre hw
    refine (hlines w).same hhead (fun i hi => setCell_hook_of_notMem fun hpre => hw ?_) hact hmasked
    have hi' := (hlines w).irq i hi
    rw [hline.irq i (List.mem_append_left _ hpre)] at hi'
    exact Fin.ext (by exact_mod_cast hi'.symm)
  have hl' : ∀ w, w ≠ v → Function.update L v (pre ++ post) w = L w := fun w hw =>
    Function.update_of_ne hw ..
  have hact : (s.unhooked v pre h).irqActids v = s.irqActids v &&& ~~~(s.hook h).id :=
    Function.update_self ..
  have hmasked : (s.unhooked v pre h).masked v = s.masked v := congrFun setCell_masked v
  have hpath : ((s.unhooked v pre h).line v).Holds (pre ++ post) := by
    have hunlink := hline.holds.unlink
    rwa [show (s.line v).next h = (s.hook h).next from rfl, ← setCell_line] at hunlink
  by_cases hnone : (s.unhooked v pre h).irqHandlers v = none
  · refine ⟨(s.unhooked v pre h).hwIntrMask v, Function.update L v (pre ++ post), ?_, fun w => ?_⟩
    · simp [IrqState.rmIrqHandler, (hlines v).reg hmem, hfound, hnone]
    · by_cases hw : w = v
      · subst hw
        rw [Function.update_self]
        refine hline.unhooked rfl rfl rfl (fun hne => ?_) fun _ => Function.update_self ..
        obtain ⟨i, rest, hcons⟩ := List.exists_cons_of_ne_nil hne
        rw [hcons] at hpath
        exact absurd (hnone.symm.trans hpath.1) (by simp)
      · rw [hl' w hw]
        exact (hother w hw).same rfl (fun _ _ => rfl) rfl (Function.update_of_ne hw ..)
  · refine ⟨if (s.unhooked v pre h).irqActids v = 0 then (s.unhooked v pre h).hwIntrUnmask v
      else s.unhooked v pre h, Function.update L v (pre ++ post), ?_, fun w => ?_⟩
    · simp only [IrqState.rmIrqHandler, (hlines v).reg hmem, hfound, hnone, Option.bind_eq_bind,
        Option.bind_some, if_false]
      split <;> rfl
    · by_cases hw : w = v
      · subst hw
        rw [Function.update_self]
        have hkept : (if (s.unhooked w pre h).irqActids w = 0 then
            (s.unhooked w pre h).hwIntrUnmask w else s.unhooked w pre h).irqActids w =
            (s.unhooked w pre h).irqActids w := by split <;> rfl
        refine hline.unhooked (by split <;> rfl) (by split <;> rfl) hkept (fun _ => ?_)
          fun hnil => ?_
        · rw [settled, hkept, hmasked, hact]
          refine or_iff_left_of_imp fun hopen => ?_
          rw [(hline.unmasked (by simp)).mp hopen]
          exact BitVec.zero_and
        · rw [hnil] at hpath
          exact absurd hpath hnone
      · rw [hl' w hw]
        refine (hother w hw).same ?_ (fun i _ => ?_) ?_ ?_
        · split <;> rfl
        · split <;> rfl
        · split <;> rfl
        · split
          · exact Function.update_of_ne hw ..
          · rfl

theorem registered {irq : ℤ} (hlines : ∀ v, IrqLine cascadeIrq s v (L v))
    (hrange : 0 ≤ irq ∧ irq < n) (honly : ∀ v, h ∈ L v → (v : ℤ) = irq)
    (hroom : ∀ v : Fin n, (v : ℤ) = irq → (L v).length < 32) :
    ∃ s', ∃ L' : Fin n → List ι, s.putIrqHandler h irq = some s' ∧
      ∀ v, IrqLine cascadeIrq s' v (L' v) := by
  obtain ⟨v, hv, rfl⟩ := vector_some hrange
  have hline := hlines v
  have hwalk := findEnd_spec (x := .head) (h := h) 0 hline.holds hline.length
  by_cases hmem : h ∈ L v
  · rw [if_pos hmem] at hwalk
    refine ⟨s, L, ?_, hlines⟩
    simp only [IrqState.putIrqHandler, hv, hwalk, Option.bind_eq_bind, Option.bind_some]
  · rw [if_neg hmem] at hwalk
    obtain ⟨i, hi, hid, hfresh⟩ := freshId hline (hroom v rfl)
    have hpow : BitVec.twoPow 32 i ≠ 0 := by
      intro h0
      have hbit := congrArg (fun y => y.getLsbD i) h0
      simp [hi] at hbit
    refine ⟨(s.linked v (L v) h v (BitVec.twoPow 32 i)).clearActid v (BitVec.twoPow 32 i),
      Function.update L v (L v ++ [h]), ?_, fun w => ?_⟩
    · simp only [IrqState.putIrqHandler, hv, hwalk, hid, Option.bind_eq_bind, Option.bind_some,
        if_neg hpow]
      rfl
    · by_cases hw : w = v
      · subst hw
        rw [Function.update_self]
        exact hline.linked hmem hi hfresh
      · rw [Function.update_of_ne hw]
        refine IrqLine.clearedOther ?_ hw
        refine (hlines w).same (setCell_handlers hw) (fun k hk => ?_)
          (congrFun setCell_actids w) (congrFun setCell_masked w)
        have hkh : k ≠ h := by
          rintro rfl
          exact hw (Fin.ext (by exact_mod_cast honly w hk))
        have hkl : k ∉ L v := by
          intro hkv
          have hirq := (hlines w).irq k hk
          rw [hline.irq k hkv] at hirq
          exact hw (Fin.ext (by exact_mod_cast hirq.symm))
        rw [IrqState.linked, setCell_hook_of_notMem hkl]
        exact Function.update_of_ne hkh ..

end Steps

end Lines

section System
variable {ι : Type} [DecidableEq ι] [Fintype ι] {n : ℕ}

def intrInit (cascadeIrq : Fin n) (s : IrqState ι n) : Prop :=
  (∀ v, s.irqHandlers v = none) ∧ (∀ v, s.irqActids v = 0) ∧
    ∀ v, s.masked v = decide (v ≠ cascadeIrq)

def irqSystem (cascadeIrq : Fin n) : TransitionSystem (IrqState ι n) (IrqEvent ι) where
  initial := intrInit cascadeIrq
  step s e s' := s.handleEvent e = some s'

def IrqState.Registered (s : IrqState ι n) (hook : ι) : Prop :=
  ∃ v l, (s.line v).Holds l ∧ hook ∈ l

def byIrqctl : List (IrqState ι n × IrqEvent ι) → IrqState ι n → IrqEvent ι → Prop
  | _, s, .putIrqHandler hook irq => (0 ≤ irq ∧ irq < n) ∧ ∀ v l, (s.line v).Holds l →
      (hook ∈ l → (v : ℤ) = irq) ∧ ((v : ℤ) = irq → l.length < 32)
  | _, _, .irqHandle irq _ => 0 ≤ irq ∧ irq < n
  | _, s, .rmIrqHandler hook => s.Registered hook
  | _, s, .enableIrq hook => s.Registered hook
  | _, s, .disableIrq hook => s.Registered hook

variable {cascadeIrq : Fin n} {s s' : IrqState ι n} {e : IrqEvent ι}
  {past : List (IrqState ι n × IrqEvent ι)} {L : Fin n → List ι}

omit [DecidableEq ι] [Fintype ι] in
theorem lines_registered {h : ι} (hlines : ∀ v, IrqLine cascadeIrq s v (L v))
    (hreg : s.Registered h) : ∃ v, h ∈ L v := by
  obtain ⟨v, l, hholds, hmem⟩ := hreg
  obtain rfl := path_unique hholds (hlines v).holds
  exact ⟨v, hmem⟩

theorem lines_step (hlines : ∀ v, IrqLine cascadeIrq s v (L v)) (hok : byIrqctl past s e) :
    ∃ s', s.handleEvent e = some s' ∧
      ∃ L' : Fin n → List ι, ∀ v, IrqLine cascadeIrq s' v (L' v) := by
  cases e with
  | putIrqHandler hook irq =>
    obtain ⟨s', L', hput, hlines'⟩ := registered hlines hok.1
      (fun v => (hok.2 v (L v) (hlines v).holds).1) (fun v => (hok.2 v (L v) (hlines v).holds).2)
    exact ⟨s', hput, L', hlines'⟩
  | rmIrqHandler hook =>
    obtain ⟨v, hmem⟩ := lines_registered hlines hok
    obtain ⟨s', L', hrm, hlines'⟩ := removed hlines hmem
    exact ⟨s', hrm, L', hlines'⟩
  | irqHandle irq results =>
    obtain ⟨s', hhandle, hlines'⟩ := handled results hlines hok
    exact ⟨s', hhandle, L, hlines'⟩
  | enableIrq hook =>
    obtain ⟨v, hmem⟩ := lines_registered hlines hok
    obtain ⟨s', henable, hlines'⟩ := enabled hlines hmem
    exact ⟨s', henable, L, hlines'⟩
  | disableIrq hook =>
    obtain ⟨v, hmem⟩ := lines_registered hlines hok
    obtain ⟨b, s', hdisable, hlines'⟩ := disabled hlines hmem
    exact ⟨s', by simp [IrqState.handleEvent, hdisable], L, hlines'⟩

omit [DecidableEq ι] [Fintype ι] in
theorem lines_start (hinit : intrInit cascadeIrq s) (v : Fin n) : IrqLine cascadeIrq s v [] where
  holds := hinit.1 v
  irq h hmem := by cases hmem
  single h hmem := by cases hmem
  distinct h hmem := by cases hmem
  active i hi := by simp [hinit.2.1 v] at hi
  unmasked hne := absurd rfl hne
  idle _ hv := by simp [hinit.2.2 v, hv]

theorem run_lines (hrun : (irqSystem cascadeIrq).Run byIrqctl past s) :
    ∃ L : Fin n → List ι, ∀ v, IrqLine cascadeIrq s v (L v) := by
  refine hrun.invariant
    (P := fun s => ∃ L : Fin n → List ι, ∀ v, IrqLine cascadeIrq s v (L v)) ?_ ?_
  · exact fun s hinit => ⟨fun _ => [], lines_start hinit⟩
  · intro past s e s' hlines hok hstep
    obtain ⟨L, hlines⟩ := hlines
    obtain ⟨t, ht, hlines'⟩ := lines_step hlines hok
    obtain rfl := Option.some.inj (ht.symm.trans hstep)
    exact hlines'

theorem irq_lines_kept (hrun : (irqSystem cascadeIrq).Run byIrqctl past s) :
    (∀ h, ∀ v v' l l', (s.line v).Holds l → (s.line v').Holds l' → h ∈ l → h ∈ l' → v = v') ∧
    (∀ v, ∃ l, (s.line v).Holds l ∧
      (∀ h ∈ l, ∃ i < 32, (s.hook h).id = BitVec.twoPow 32 i) ∧
      l.Pairwise (fun h h' => (s.hook h).id ≠ (s.hook h').id) ∧
      (l ≠ [] → (s.masked v = false ↔ s.irqActids v = 0)) ∧
      (l = [] → v ≠ cascadeIrq → s.masked v = true)) ∧
    ∀ e, byIrqctl past s e → ∃ s', s.handleEvent e = some s' := by
  obtain ⟨L, hlines⟩ := run_lines hrun
  refine ⟨fun h v v' l l' hl hl' hmem hmem' => ?_, fun v => ⟨L v, (hlines v).holds,
    (hlines v).single, ?_, (hlines v).unmasked, (hlines v).idle⟩, fun e hok => ?_⟩
  · obtain rfl := path_unique hl (hlines v).holds
    obtain rfl := path_unique hl' (hlines v').holds
    have hirq := (hlines v).irq h hmem
    rw [(hlines v').irq h hmem'] at hirq
    exact Fin.ext (by exact_mod_cast hirq.symm)
  · refine (path_nodup (hlines v).holds).imp_of_mem ?_
    exact fun hmem hmem' hne hid => hne ((hlines v).distinct _ hmem _ hmem' hid)
  · obtain ⟨s', hs', -⟩ := lines_step hlines hok
    exact ⟨s', hs'⟩

end System

section Examples

def quietIrqs (cascadeIrq : Fin 16) : IrqState (Fin 2) 16 where
  irqHandlers _ := none
  hook _ := ⟨none, 0, 0⟩
  irqActids _ := 0
  masked v := decide (v ≠ cascadeIrq)

theorem quiet_put (cascadeIrq : Fin 16) :
    byIrqctl [] (quietIrqs cascadeIrq) (.putIrqHandler 0 3) := by
  refine ⟨by decide, fun v l hl => ?_⟩
  have hnil : ((quietIrqs cascadeIrq).line v).Holds [] := rfl
  obtain rfl := path_unique hl hnil
  exact ⟨fun hmem => absurd hmem List.not_mem_nil, fun _ => by decide⟩

def firstHook (cascadeIrq : Fin 16) : IrqState (Fin 2) 16 :=
  ((quietIrqs cascadeIrq).putIrqHandler 0 3).getD (quietIrqs cascadeIrq)

theorem firstHook_run (cascadeIrq : Fin 16) : (irqSystem cascadeIrq).Run byIrqctl
    [(quietIrqs cascadeIrq, .putIrqHandler 0 3)] (firstHook cascadeIrq) :=
  .next (.start ⟨fun _ => rfl, fun _ => rfl, fun _ => rfl⟩) (quiet_put cascadeIrq) rfl

theorem irq_lines_kept_first : (firstHook 2).masked 3 = false ∧
    ∃ s', (firstHook 2).handleEvent (.irqHandle 3 fun _ => false) = some s' :=
  ⟨rfl, (irq_lines_kept (firstHook_run 2)).2.2 _ (by exact ⟨by decide, by decide⟩)⟩

theorem cascade_line_open : ∃ (past : List (IrqState (Fin 2) 16 × IrqEvent (Fin 2)))
    (s : IrqState (Fin 2) 16), (irqSystem 2).Run byIrqctl past s ∧ past ≠ [] ∧
      (s.line 2).Holds [] ∧ s.masked 2 = false :=
  ⟨_, firstHook 2, firstHook_run 2, by simp, rfl, rfl⟩

example : (((firstHook 2).putIrqHandler 1 3).bind fun s => (s.irqHandle 3 (· == 0)).bind fun s =>
    some (s.masked 3, s.irqActids 3, (s.hook 1).id)) = some (true, 2, 2) := by decide

end Examples

end Kernel
