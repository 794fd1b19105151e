import Cs111.Mfs.Cache

namespace Mfs

section Sorted
variable {key : ℕ → ℕ}

theorem siftDown_perm (gap : ℕ) (fuel i : ℕ) (q : Array ℕ) :
    (siftDown key gap fuel i q).Perm q := by
  induction fuel generalizing i q with
  | zero => exact .refl q
  | succ fuel ih =>
    rw [siftDown]
    split
    · rename_i h
      dsimp only
      split
      · split
        · exact (ih _ _).trans (Array.swap_perm ..)
        · exact Array.swap_perm ..
      · exact .refl q
    · exact .refl q

theorem gapPass_perm (gap : ℕ) (q : Array ℕ) : (gapPass key gap q).Perm q := by
  have hfold : ∀ (js : List ℕ) (q : Array ℕ),
      (js.foldl (fun q j => siftDown key gap (j + 1) (j - gap) q) q).Perm q := by
    intro js
    induction js with
    | nil => exact fun q => .refl q
    | cons j js ih => exact fun q => (ih _).trans (siftDown_perm ..)
  exact hfold _ q

theorem gapPasses_perm (fuel gap : ℕ) (q : Array ℕ) : (gapPasses key fuel gap q).Perm q := by
  induction fuel generalizing gap q with
  | zero => exact .refl q
  | succ fuel ih =>
    rw [gapPasses]
    split
    · exact .refl q
    · exact (ih _ _).trans (gapPass_perm ..)

theorem shellSort_perm (q : List ℕ) : (shellSort key q).Perm q := by
  have h : (gapPasses key (firstGap q.length q.length 1) (firstGap q.length q.length 1)
      q.toArray).Perm q.toArray := gapPasses_perm ..
  exact Array.perm_iff_toList_perm.mp h

end Sorted

section Runs
variable {α : Type*} {C : CacheConfig} {c : BufCache α} {q : List ℕ} {fuel : ℕ}

theorem runLength_pos (hq : q ≠ []) : 0 < runLength C c q := by
  obtain ⟨first, q, rfl⟩ := List.exists_cons_of_ne_nil hq
  obtain ⟨k, hk⟩ : ∃ k, C.nrIoreqs = k + 1 := ⟨C.nrIoreqs - 1, by have := C.ioreqs_pos; omega⟩
  rw [runLength, hk, List.take_succ_cons, List.zipIdx_cons, List.takeWhile_cons]
  simp

theorem writeRuns_eq (h : q.length ≤ fuel) : writeRuns C fuel q c = q.foldl writeBlock c := by
  induction fuel generalizing q c with
  | zero =>
    rw [List.length_eq_zero_iff.mp (Nat.le_zero.mp h)]
    rfl
  | succ fuel ih =>
    by_cases hq : q = []
    · subst hq
      rfl
    · have hpos := runLength_pos (C := C) (c := c) hq
      rw [writeRuns, ih, ← List.foldl_append, List.take_append_drop]
      · rw [List.length_drop]
        omega
      · exact hq

end Runs

section Content
variable {α : Type*} (C : CacheConfig)

def Holds (c : BufCache α) (i dev block : ℕ) : Prop :=
  i < C.nrBufs ∧ dev ≠ NO_DEV ∧ (c.buf i).bDev = dev ∧ (c.buf i).bBlocknr = block

def Waits (c : BufCache α) (pending : ℕ → Option ℕ) (i dev block : ℕ) : Prop :=
  pending i = some dev ∧ (c.buf i).bBlocknr = block

structure Content (c : BufCache α) (last : ℕ → ℕ → Option α) (pending : ℕ → Option ℕ) : Prop where
  unique : ∀ i j dev block, Holds C c i dev block → Holds C c j dev block → i = j
  content : ∀ i dev block d, Holds C c i dev block → last dev block = some d → (c.buf i).data = d
  clean : ∀ i dev block d, Holds C c i dev block → (c.buf i).bDirt = false →
    last dev block = some d → c.disk dev block = d
  away : ∀ dev block d, dev ≠ NO_DEV → (∀ i, ¬ Holds C c i dev block) → last dev block = some d →
    c.disk dev block = d ∧ ∀ e, C.vmcache dev = true → c.vm dev block = some e → e = d
  out : ∀ i dev block, Holds C c i dev block → C.vmcache dev = true → c.vm dev block = none
  waiting : ∀ i dev block, Waits c pending i dev block → i < C.nrBufs ∧ dev ≠ NO_DEV ∧
    (c.buf i).bDev = NO_DEV ∧ (c.buf i).bCount ≠ 0
  apart : ∀ i dev block, Waits c pending i dev block → (∀ j, ¬ Holds C c j dev block) ∧
    (C.vmcache dev = true → c.vm dev block = none) ∧
    ∀ j, Waits c pending j dev block → i = j

end Content

section Keeping
variable {α : Type*} {C : CacheConfig} {c c' : BufCache α} {last last' : ℕ → ℕ → Option α}
  {pending pending' : ℕ → Option ℕ} {bp dev block : ℕ} {b : Buf α}

theorem holds_update (hbuf : c'.buf = Function.update c.buf bp b) {i d n : ℕ} : Holds C c' i d n ↔
    (i = bp ∧ bp < C.nrBufs ∧ d ≠ NO_DEV ∧ b.bDev = d ∧ b.bBlocknr = n) ∨
    (i ≠ bp ∧ Holds C c i d n) := by
  rw [Holds, Holds, hbuf]
  by_cases hi : i = bp
  · subst hi
    rw [Function.update_self]
    tauto
  · rw [Function.update_of_ne hi]
    tauto

theorem Content.same (h : Content C c last pending) (hbuf : c'.buf = c.buf) (hdisk : c'.disk = c.disk)
    (hvm : c'.vm = c.vm) : Content C c' last pending := by
  have hholds : ∀ i d n, Holds C c' i d n ↔ Holds C c i d n := fun i d n => by
    rw [Holds, Holds, hbuf]
  have hwaits : ∀ i d n, Waits c' pending i d n ↔ Waits c pending i d n := fun i d n => by
    rw [Waits, Waits, hbuf]
  constructor
  · simpa only [hholds] using h.unique
  · simpa only [hholds, hbuf] using h.content
  · simpa only [hholds, hbuf, hdisk] using h.clean
  · simpa only [hholds, hdisk, hvm] using h.away
  · simpa only [hholds, hvm] using h.out
  · simpa only [hwaits, hbuf] using h.waiting
  · simpa only [hwaits, hholds, hvm] using h.apart

theorem Content.fewer (h : Content C c last pending) (hp : ∀ i d, pending' i = some d →
    pending i = some d) : Content C c last pending' :=
  { h with
    waiting := fun i d n hw => h.waiting i d n ⟨hp i d hw.1, hw.2⟩
    apart := fun i d n hw => by
      obtain ⟨hnone, hvm, huniq⟩ := h.apart i d n ⟨hp i d hw.1, hw.2⟩
      exact ⟨hnone, hvm, fun j hj => huniq j ⟨hp j d hj.1, hj.2⟩⟩ }

theorem dropped_some {i d : ℕ} (hi : Function.update pending bp none i = some d) :
    i ≠ bp ∧ pending i = some d := by
  by_cases hib : i = bp
  · subst hib
    rw [Function.update_self] at hi
    cases hi
  · rw [Function.update_of_ne hib] at hi
    exact ⟨hib, hi⟩

theorem Content.dropped (h : Content C c last pending) (bp : ℕ) :
    Content C c last (Function.update pending bp none) :=
  h.fewer fun _ _ hi => (dropped_some hi).2

theorem Content.unnamed (h : Content C c last pending) (hbuf : c'.buf = Function.update c.buf bp b)
    (hdisk : c'.disk = c.disk) (hvm : c'.vm = c.vm) (hdev : b.bDev = NO_DEV)
    (hclean : (c.buf bp).bDev ≠ NO_DEV → (c.buf bp).bDirt = false)
    (hwait : pending bp ≠ none → b.bBlocknr = (c.buf bp).bBlocknr ∧ b.bCount ≠ 0) :
    Content C c' last pending := by
  have hholds : ∀ {i d n}, Holds C c' i d n → i ≠ bp ∧ Holds C c i d n := by
    intro i d n hi
    rcases (holds_update hbuf).mp hi with ⟨-, -, hd, he, -⟩ | hi
    · exact absurd (he.symm.trans hdev) hd
    · exact hi
  have hbufne : ∀ {i}, i ≠ bp → c'.buf i = c.buf i := fun hi => by
    rw [hbuf, Function.update_of_ne hi]
  have hwaits : ∀ {i d n}, Waits c' pending i d n → Waits c pending i d n := by
    rintro i d n ⟨hp, hn⟩
    refine ⟨hp, ?_⟩
    by_cases hi : i = bp
    · subst hi
      rw [hbuf, Function.update_self] at hn
      rw [← (hwait (by rw [hp]; simp)).1, hn]
    · rwa [hbufne hi] at hn
  constructor
  · exact fun i j d n hi hj => h.unique i j d n (hholds hi).2 (hholds hj).2
  · intro i d n e hi hlast
    rw [hbufne (hholds hi).1]
    exact h.content i d n e (hholds hi).2 hlast
  · intro i d n e hi hdirt hlast
    rw [hbufne (hholds hi).1] at hdirt
    rw [hdisk]
    exact h.clean i d n e (hholds hi).2 hdirt hlast
  · intro d n e hd hnone hlast
    rw [hdisk, hvm]
    by_cases hheld : Holds C c bp d n
    · refine ⟨h.clean bp d n e hheld (hclean (by rw [hheld.2.2.1]; exact hd)) hlast, ?_⟩
      intro e' hcache hsome
      rw [h.out bp d n hheld hcache] at hsome
      cases hsome
    · refine h.away d n e hd (fun i hi => ?_) hlast
      have hi' : i ≠ bp := fun he => hheld (he ▸ hi)
      exact hnone i ((holds_update hbuf).mpr (.inr ⟨hi', hi⟩))
  · intro i d n hi hcache
    rw [hvm]
    exact h.out i d n (hholds hi).2 hcache
  · intro i d n hw
    obtain ⟨hlt, hd, hnodev, hcount⟩ := h.waiting i d n (hwaits hw)
    refine ⟨hlt, hd, ?_⟩
    by_cases hi : i = bp
    · subst hi
      rw [hbuf, Function.update_self]
      exact ⟨hdev, (hwait (by rw [hw.1]; simp)).2⟩
    · rw [hbufne hi]
      exact ⟨hnodev, hcount⟩
  · intro i d n hw
    obtain ⟨hnone, hvm', huniq⟩ := h.apart i d n (hwaits hw)
    exact ⟨fun j hj => hnone j (hholds hj).2, by rw [hvm]; exact hvm',
      fun j hj => huniq j (hwaits hj)⟩

theorem Content.named (h : Content C c last pending) (hbuf : c'.buf = Function.update c.buf bp b)
    (hdisk : c'.disk = c.disk) (hbp : bp < C.nrBufs) (hold : (c.buf bp).bDev = NO_DEV)
    (hdev : dev ≠ NO_DEV) (hname : b.bDev = dev ∧ b.bBlocknr = block)
    (hnone : ∀ i, ¬ Holds C c i dev block) (hfree : ∀ i, ¬ Waits c pending i dev block)
    (hwait : pending bp = none) (hvm : ∀ d n, ¬ (d = dev ∧ n = block) → c'.vm d n = c.vm d n)
    (hout : C.vmcache dev = true → c'.vm dev block = none)
    (hlast : ∀ d n, ¬ (d = dev ∧ n = block) → last' d n = last d n)
    (hdata : ∀ d, last' dev block = some d →
      b.data = d ∧ (b.bDirt = false → c.disk dev block = d)) : Content C c' last' pending := by
  have hbufne : ∀ {i}, i ≠ bp → c'.buf i = c.buf i := fun hi => by
    rw [hbuf, Function.update_of_ne hi]
  have hself : c'.buf bp = b := by rw [hbuf, Function.update_self]
  have hholds : ∀ {i d n}, Holds C c' i d n →
      (i = bp ∧ d = dev ∧ n = block) ∨ (i ≠ bp ∧ Holds C c i d n ∧ ¬ (d = dev ∧ n = block)) := by
    intro i d n hi
    rcases (holds_update hbuf).mp hi with ⟨hi, -, -, hd, hn⟩ | ⟨hi, hheld⟩
    · exact .inl ⟨hi, hd.symm.trans hname.1, hn.symm.trans hname.2⟩
    · refine .inr ⟨hi, hheld, ?_⟩
      rintro ⟨rfl, rfl⟩
      exact hnone i hheld
  have hheld : Holds C c' bp dev block := by
    rw [Holds, hself]
    exact ⟨hbp, hdev, hname⟩
  have hwaits : ∀ {i d n}, Waits c' pending i d n → i ≠ bp ∧ Waits c pending i d n ∧
      ¬ (d = dev ∧ n = block) := by
    rintro i d n ⟨hp, hn⟩
    have hi : i ≠ bp := by
      rintro rfl
      rw [hwait] at hp
      cases hp
    rw [hbufne hi] at hn
    refine ⟨hi, ⟨hp, hn⟩, ?_⟩
    rintro ⟨rfl, rfl⟩
    exact hfree i ⟨hp, hn⟩
  constructor
  · intro i j d n hi hj
    rcases hholds hi with ⟨rfl, rfl, rfl⟩ | ⟨-, hi, hne⟩
    · rcases hholds hj with ⟨rfl, -, -⟩ | ⟨-, -, hne⟩
      · rfl
      · exact absurd ⟨rfl, rfl⟩ hne
    · rcases hholds hj with ⟨-, rfl, rfl⟩ | ⟨-, hj, -⟩
      · exact absurd ⟨rfl, rfl⟩ hne
      · exact h.unique i j d n hi hj
  · intro i d n e hi hl
    rcases hholds hi with ⟨rfl, rfl, rfl⟩ | ⟨hib, hi, hne⟩
    · rw [hself]
      exact (hdata e hl).1
    · rw [hbufne hib]
      exact h.content i d n e hi ((hlast d n hne).symm.trans hl)
  · intro i d n e hi hdirt hl
    rw [hdisk]
    rcases hholds hi with ⟨rfl, rfl, rfl⟩ | ⟨hib, hi, hne⟩
    · rw [hself] at hdirt
      exact (hdata e hl).2 hdirt
    · rw [hbufne hib] at hdirt
      exact h.clean i d n e hi hdirt ((hlast d n hne).symm.trans hl)
  · intro d n e hd hno hl
    have hne : ¬ (d = dev ∧ n = block) := by
      rintro ⟨rfl, rfl⟩
      exact hno bp hheld
    rw [hdisk, hvm d n hne]
    refine h.away d n e hd (fun i hi => ?_) ((hlast d n hne).symm.trans hl)
    have hib : i ≠ bp := by
      rintro rfl
      exact hd (hi.2.2.1.symm.trans hold)
    exact hno i ((holds_update hbuf).mpr (.inr ⟨hib, hi⟩))
  · intro i d n hi hcache
    rcases hholds hi with ⟨rfl, rfl, rfl⟩ | ⟨-, hi, hne⟩
    · exact hout hcache
    · rw [hvm d n hne]
      exact h.out i d n hi hcache
  · intro i d n hw
    obtain ⟨hib, hw', -⟩ := hwaits hw
    rw [hbufne hib]
    exact h.waiting i d n hw'
  · intro i d n hw
    obtain ⟨hib, hw', hne⟩ := hwaits hw
    obtain ⟨hno, hvm', huniq⟩ := h.apart i d n hw'
    refine ⟨fun j hj => ?_, fun hcache => (hvm d n hne).trans (hvm' hcache),
      fun j hj => huniq j (hwaits hj).2.1⟩
    rcases hholds hj with ⟨-, hd, hn⟩ | ⟨-, hj, -⟩
    · exact hne ⟨hd, hn⟩
    · exact hno j hj

theorem Content.counted (h : Content C c last pending)
    (hsame : ∀ i, (c'.buf i).bDev = (c.buf i).bDev ∧ (c'.buf i).bBlocknr = (c.buf i).bBlocknr ∧
      (c'.buf i).bDirt = (c.buf i).bDirt ∧ (c'.buf i).data = (c.buf i).data)
    (hdisk : c'.disk = c.disk) (hvm : c'.vm = c.vm)
    (hcount : ∀ i, pending i ≠ none → (c.buf i).bCount ≠ 0 → (c'.buf i).bCount ≠ 0) :
    Content C c' last pending := by
  have hholds : ∀ i d n, Holds C c' i d n ↔ Holds C c i d n := fun i d n => by
    rw [Holds, Holds, (hsame i).1, (hsame i).2.1]
  have hwaits : ∀ i d n, Waits c' pending i d n ↔ Waits c pending i d n := fun i d n => by
    rw [Waits, Waits, (hsame i).2.1]
  constructor
  · simpa only [hholds] using h.unique
  · simpa only [hholds, (hsame _).2.2.2] using h.content
  · simpa only [hholds, (hsame _).2.2.1, hdisk] using h.clean
  · simpa only [hholds, hdisk, hvm] using h.away
  · simpa only [hholds, hvm] using h.out
  · intro i d n hw
    obtain ⟨hlt, hd, hnodev, hused⟩ := h.waiting i d n ((hwaits i d n).mp hw)
    exact ⟨hlt, hd, (hsame i).1.trans hnodev, hcount i (by rw [hw.1]; simp) hused⟩
  · simpa only [hwaits, hholds, hvm] using h.apart

theorem write_buf (c : BufCache α) (bp : ℕ) : (writeBlock c bp).buf =
    Function.update c.buf bp { c.buf bp with bDirt := false } := by
  rw [writeBlock]
  dsimp only
  split <;> rfl

theorem write_disk (hdev : (c.buf bp).bDev ≠ NO_DEV) :
    (writeBlock c bp).disk (c.buf bp).bDev (c.buf bp).bBlocknr = (c.buf bp).data ∧
    ∀ d n, ¬ (d = (c.buf bp).bDev ∧ n = (c.buf bp).bBlocknr) →
      (writeBlock c bp).disk d n = c.disk d n := by
  have hdisk : (writeBlock c bp).disk = Function.update c.disk (c.buf bp).bDev
      (Function.update (c.disk (c.buf bp).bDev) (c.buf bp).bBlocknr (c.buf bp).data) := by
    rw [writeBlock]
    dsimp only
    rw [if_neg hdev]
    rfl
  rw [hdisk]
  refine ⟨by rw [Function.update_self, Function.update_self], fun d n hne => ?_⟩
  by_cases hd : d = (c.buf bp).bDev
  · subst hd
    rw [Function.update_self, Function.update_of_ne fun hn => hne ⟨rfl, hn⟩]
  · rw [Function.update_of_ne hd]

theorem Content.written (h : Content C c last pending) (hbp : bp < C.nrBufs) :
    Content C (writeBlock c bp) last pending := by
  have hvm : (writeBlock c bp).vm = c.vm := by
    rw [writeBlock]
    dsimp only
    split <;> rfl
  by_cases hdev : (c.buf bp).bDev = NO_DEV
  · have hdisk : (writeBlock c bp).disk = c.disk := by
      rw [writeBlock]
      dsimp only
      rw [if_pos hdev]
      rfl
    refine h.unnamed (write_buf c bp) hdisk hvm hdev (fun hne => absurd hdev hne) fun hp => ⟨rfl, ?_⟩
    obtain ⟨d, hd⟩ := Option.ne_none_iff_exists'.mp hp
    exact (h.waiting bp d _ ⟨hd, rfl⟩).2.2.2
  · have hself : Holds C c bp (c.buf bp).bDev (c.buf bp).bBlocknr := ⟨hbp, hdev, rfl, rfl⟩
    obtain ⟨hhere, hthere⟩ := write_disk hdev
    have hsame : ∀ i, ((writeBlock c bp).buf i).bDev = (c.buf i).bDev ∧
        ((writeBlock c bp).buf i).bBlocknr = (c.buf i).bBlocknr ∧
        ((writeBlock c bp).buf i).data = (c.buf i).data ∧
        ((writeBlock c bp).buf i).bCount = (c.buf i).bCount := by
      intro i
      rw [write_buf]
      by_cases hi : i = bp
      · subst hi
        rw [Function.update_self]
        exact ⟨rfl, rfl, rfl, rfl⟩
      · rw [Function.update_of_ne hi]
        exact ⟨rfl, rfl, rfl, rfl⟩
    have hholds : ∀ i d n, Holds C (writeBlock c bp) i d n ↔ Holds C c i d n := fun i d n => by
      rw [Holds, Holds, (hsame i).1, (hsame i).2.1]
    have hwaits : ∀ i d n, Waits (writeBlock c bp) pending i d n ↔ Waits c pending i d n :=
      fun i d n => by rw [Waits, Waits, (hsame i).2.1]
    constructor
    · simpa only [hholds] using h.unique
    · simpa only [hholds, (hsame _).2.2.1] using h.content
    · intro i d n e hi hdirt hl
      rw [hholds] at hi
      by_cases hib : i = bp
      · subst hib
        rw [← hi.2.2.1, ← hi.2.2.2] at hl ⊢
        rw [hhere]
        exact h.content i _ _ e hself hl
      · rw [write_buf, Function.update_of_ne hib] at hdirt
        refine (hthere d n ?_).trans (h.clean i d n e hi hdirt hl)
        rintro ⟨rfl, rfl⟩
        exact hib (h.unique i bp _ _ hi hself)
    · intro d n e hd hno hl
      simp only [hholds] at hno
      have hne : ¬ (d = (c.buf bp).bDev ∧ n = (c.buf bp).bBlocknr) := by
        rintro ⟨rfl, rfl⟩
        exact hno bp hself
      rw [hthere d n hne, hvm]
      exact h.away d n e hd hno hl
    · simpa only [hholds, hvm] using h.out
    · simpa only [hwaits, hsame] using h.waiting
    · simpa only [hwaits, hholds, hvm] using h.apart

structure Flushed (c c' : BufCache α) : Prop where
  links : SameLinks c c'
  vm : c'.vm = c.vm
  buf : ∀ i, c'.buf i = c.buf i ∨ c'.buf i = { c.buf i with bDirt := false }

theorem Flushed.trans {c'' : BufCache α} (h : Flushed c c') (h' : Flushed c' c'') :
    Flushed c c'' := by
  refine ⟨h.links.trans h'.links, h'.vm.trans h.vm, fun i => ?_⟩
  rcases h'.buf i with hi | hi <;> rcases h.buf i with hj | hj <;> rw [hi, hj]
  · exact .inl rfl
  · exact .inr rfl
  · exact .inr rfl
  · exact .inr rfl

theorem flushed_write (c : BufCache α) (bp : ℕ) : Flushed c (writeBlock c bp) ∧
    ((writeBlock c bp).buf bp).bDirt = false := by
  refine ⟨⟨?_, ?_, fun i => ?_⟩, ?_⟩
  · rw [writeBlock]
    dsimp only
    split <;> exact ⟨rfl, rfl, rfl, rfl, rfl, rfl, rfl⟩
  · rw [writeBlock]
    dsimp only
    split <;> rfl
  · rw [write_buf]
    by_cases hi : i = bp
    · subst hi
      exact .inr (Function.update_self ..)
    · exact .inl (Function.update_of_ne hi ..)
  · rw [write_buf, Function.update_self]

theorem Content.writes (h : Content C c last pending) {q : List ℕ} (hq : ∀ i ∈ q, i < C.nrBufs) :
    Content C (q.foldl writeBlock c) last pending ∧ Flushed c (q.foldl writeBlock c) ∧
    ∀ i ∈ q, ((q.foldl writeBlock c).buf i).bDirt = false := by
  induction q generalizing c with
  | nil => exact ⟨h, ⟨SameLinks.refl c, rfl, fun _ => .inl rfl⟩, fun i hi => by cases hi⟩
  | cons j q ih =>
    obtain ⟨hflush, hdirt⟩ := flushed_write c j
    obtain ⟨hkept, hrest, hclean⟩ := ih (h.written (hq j List.mem_cons_self))
      fun i hi => hq i (List.mem_cons_of_mem j hi)
    refine ⟨hkept, hflush.trans hrest, fun i hi => ?_⟩
    rcases List.mem_cons.mp hi with rfl | hi
    · rcases hrest.buf i with hb | hb
      · rw [List.foldl_cons, hb]
        exact hdirt
      · rw [List.foldl_cons, hb]
    · exact hclean i hi

theorem Content.flushed (h : Content C c last pending) (dev : ℕ) :
    Content C (flushall C dev c) last pending ∧ Flushed c (flushall C dev c) ∧
    ∀ i < C.nrBufs, (c.buf i).bDev = dev → ((flushall C dev c).buf i).bDirt = false := by
  have hperm : (shellSort (blocknrOf c) ((List.range C.nrBufs).filter fun i =>
      (c.buf i).bDirt ∧ (c.buf i).bDev = dev)).Perm _ := shellSort_perm _
  rw [flushall]
  rw [writeRuns_eq hperm.length_eq.le]
  obtain ⟨hkept, hflush, hclean⟩ := h.writes (q := shellSort (blocknrOf c)
    ((List.range C.nrBufs).filter fun i => (c.buf i).bDirt ∧ (c.buf i).bDev = dev)) fun i hi =>
      List.mem_range.mp (List.mem_filter.mp (hperm.mem_iff.mp hi)).1
  refine ⟨hkept, hflush, fun i hi hdev => ?_⟩
  by_cases hdirt : (c.buf i).bDirt = true
  · exact hclean i (hperm.mem_iff.mpr (List.mem_filter.mpr ⟨List.mem_range.mpr hi, by
      simp [hdirt, hdev]⟩))
  · rcases hflush.buf i with hb | hb <;> rw [hb]
    simpa using hdirt

theorem Content.modified (h : Content C c last pending) (hbp : bp < C.nrBufs) (d : α) :
    Content C (modifyBlock bp d c) (if (c.buf bp).bDev = NO_DEV then last else
      Function.update last (c.buf bp).bDev (Function.update (last (c.buf bp).bDev)
        (c.buf bp).bBlocknr (some d))) pending := by
  split
  · rename_i hdev
    have hbuf : (modifyBlock bp d c).buf =
        Function.update c.buf bp { c.buf bp with data := d, bDirt := true } := rfl
    refine h.unnamed hbuf rfl rfl hdev (fun hne => absurd hdev hne) fun hp => ⟨rfl, ?_⟩
    obtain ⟨d', hd⟩ := Option.ne_none_iff_exists'.mp hp
    exact (h.waiting bp d' _ ⟨hd, rfl⟩).2.2.2
  · rename_i hdev
    have hself : Holds C c bp (c.buf bp).bDev (c.buf bp).bBlocknr := ⟨hbp, hdev, rfl, rfl⟩
    have hlast : ∀ d' n, ¬ (d' = (c.buf bp).bDev ∧ n = (c.buf bp).bBlocknr) →
        Function.update last (c.buf bp).bDev (Function.update (last (c.buf bp).bDev)
          (c.buf bp).bBlocknr (some d)) d' n = last d' n := by
      intro d' n hne
      by_cases hd : d' = (c.buf bp).bDev
      · subst hd
        rw [Function.update_self, Function.update_of_ne fun hn => hne ⟨rfl, hn⟩]
      · rw [Function.update_of_ne hd]
    have hbufne : ∀ {i}, i ≠ bp → (modifyBlock bp d c).buf i = c.buf i := fun hi =>
      Function.update_of_ne hi ..
    have hbufself : (modifyBlock bp d c).buf bp = { c.buf bp with data := d, bDirt := true } :=
      Function.update_self ..
    have hholds : ∀ i d' n, Holds C (modifyBlock bp d c) i d' n ↔ Holds C c i d' n := by
      intro i d' n
      rw [Holds, Holds]
      by_cases hi : i = bp
      · subst hi
        rw [hbufself]
      · rw [hbufne hi]
    have hwaits : ∀ i d' n, Waits (modifyBlock bp d c) pending i d' n ↔ Waits c pending i d' n := by
      intro i d' n
      rw [Waits, Waits]
      by_cases hi : i = bp
      · subst hi
        rw [hbufself]
      · rw [hbufne hi]
    constructor
    · simpa only [hholds] using h.unique
    · intro i d' n e hi hl
      by_cases hib : i = bp
      · subst hib
        rw [hholds] at hi
        rw [← hi.2.2.1, ← hi.2.2.2, Function.update_self, Function.update_self] at hl
        rw [hbufself]
        exact Option.some.inj hl
      · rw [hholds] at hi
        rw [hbufne hib]
        refine h.content i d' n e hi ((hlast d' n ?_).symm.trans hl)
        rintro ⟨rfl, rfl⟩
        exact hib (h.unique i bp _ _ hi hself)
    · intro i d' n e hi hdirt hl
      rw [hholds] at hi
      have hib : i ≠ bp := by
        rintro rfl
        rw [hbufself] at hdirt
        cases hdirt
      rw [hbufne hib] at hdirt
      refine h.clean i d' n e hi hdirt ((hlast d' n ?_).symm.trans hl)
      rintro ⟨rfl, rfl⟩
      exact hib (h.unique i bp _ _ hi hself)
    · intro d' n e hd hno hl
      simp only [hholds] at hno
      refine h.away d' n e hd hno ((hlast d' n ?_).symm.trans hl)
      rintro ⟨rfl, rfl⟩
      exact hno bp hself
    · intro i d' n hi hcache
      rw [hholds] at hi
      exact h.out i d' n hi hcache
    · intro i d' n hw
      rw [hwaits] at hw
      have hkeep : ((modifyBlock bp d c).buf i).bDev = (c.buf i).bDev ∧
          ((modifyBlock bp d c).buf i).bCount = (c.buf i).bCount := by
        by_cases hi : i = bp
        · subst hi
          rw [hbufself]
          exact ⟨rfl, rfl⟩
        · rw [hbufne hi]
          exact ⟨rfl, rfl⟩
      rw [hkeep.1, hkeep.2]
      exact h.waiting i d' n hw
    · intro i d' n hw
      rw [hwaits] at hw
      simp only [hholds, hwaits]
      exact h.apart i d' n hw

theorem Content.invalidated (h : Content C c last pending) (device : ℕ) :
    Content C (invalidate C device c)
      (fun d n => if d = device then some (c.disk d n) else last d n) pending := by
  have hbuf : ∀ i, (invalidate C device c).buf i = if i < C.nrBufs ∧ (c.buf i).bDev = device then
      { c.buf i with bDev := NO_DEV } else c.buf i := fun _ => rfl
  have hholds : ∀ {i d n}, Holds C (invalidate C device c) i d n →
      Holds C c i d n ∧ d ≠ device ∧ (invalidate C device c).buf i = c.buf i := by
    rintro i d n ⟨hi, hd, hdev, hn⟩
    rw [hbuf] at hdev hn ⊢
    split at hdev
    · exact absurd hdev.symm hd
    · rename_i hne
      rw [if_neg hne] at hn ⊢
      exact ⟨⟨hi, hd, hdev, hn⟩, fun he => hne ⟨hi, hdev.trans he⟩, rfl⟩
  have hkeep : ∀ i, ((invalidate C device c).buf i).bBlocknr = (c.buf i).bBlocknr ∧
      ((invalidate C device c).buf i).bCount = (c.buf i).bCount ∧
      ((c.buf i).bDev = NO_DEV → ((invalidate C device c).buf i).bDev = NO_DEV) := by
    intro i
    rw [hbuf]
    split
    · exact ⟨rfl, rfl, fun _ => rfl⟩
    · exact ⟨rfl, rfl, id⟩
  have hwaits : ∀ {i d n}, Waits (invalidate C device c) pending i d n ↔ Waits c pending i d n := by
    intro i d n
    rw [Waits, Waits, (hkeep i).1]
  constructor
  · exact fun i j d n hi hj => h.unique i j d n (hholds hi).1 (hholds hj).1
  · intro i d n e hi hl
    obtain ⟨hheld, hne, hb⟩ := hholds hi
    rw [if_neg hne] at hl
    rw [hb]
    exact h.content i d n e hheld hl
  · intro i d n e hi hdirt hl
    obtain ⟨hheld, hne, hb⟩ := hholds hi
    rw [if_neg hne] at hl
    rw [hb] at hdirt
    exact h.clean i d n e hheld hdirt hl
  · intro d n e hd hno hl
    refine ⟨?_, fun e' _ hvm => by cases hvm⟩
    by_cases hdev : d = device
    · rw [if_pos hdev] at hl
      exact Option.some.inj hl
    · rw [if_neg hdev] at hl
      refine (h.away d n e hd (fun i hi => hno i ?_) hl).1
      have hb : (invalidate C device c).buf i = c.buf i := by
        rw [hbuf, if_neg fun hand => hdev (hi.2.2.1.symm.trans hand.2)]
      rw [Holds, hb]
      exact hi
  · exact fun i d n _ _ => rfl
  · intro i d n hw
    obtain ⟨hi, hd, hnodev, hcount⟩ := h.waiting i d n (hwaits.mp hw)
    exact ⟨hi, hd, (hkeep i).2.2 hnodev, by rw [(hkeep i).2.1]; exact hcount⟩
  · intro i d n hw
    obtain ⟨hno, -, huniq⟩ := h.apart i d n (hwaits.mp hw)
    exact ⟨fun j hj => hno j (hholds hj).1, fun _ => rfl, fun j hj => huniq j (hwaits.mp hj)⟩

theorem Content.vm (h : Content C c last pending) (hbuf : c'.buf = c.buf) (hdisk : c'.disk = c.disk)
    (hvm : ∀ d n, c'.vm d n = none ∨ c'.vm d n = c.vm d n ∨
      ((∀ i, ¬ Holds C c i d n) ∧ (∀ i, ¬ Waits c pending i d n) ∧
        ∀ e, last d n = some e → c'.vm d n = some e)) :
    Content C c' last pending := by
  have hholds : ∀ i d n, Holds C c' i d n ↔ Holds C c i d n := fun i d n => by
    rw [Holds, Holds, hbuf]
  have hwaits : ∀ i d n, Waits c' pending i d n ↔ Waits c pending i d n := fun i d n => by
    rw [Waits, Waits, hbuf]
  constructor
  · simpa only [hholds] using h.unique
  · simpa only [hholds, hbuf] using h.content
  · simpa only [hholds, hbuf, hdisk] using h.clean
  · intro d n e hd hno hl
    simp only [hholds] at hno
    obtain ⟨heq, hsame⟩ := h.away d n e hd hno hl
    rw [hdisk]
    refine ⟨heq, fun e' hcache hsome => ?_⟩
    rcases hvm d n with hv | hv | ⟨-, -, hv⟩
    · rw [hv] at hsome
      cases hsome
    · rw [hv] at hsome
      exact hsame e' hcache hsome
    · rw [hv e hl] at hsome
      exact (Option.some.inj hsome).symm
  · intro i d n hi hcache
    rw [hholds] at hi
    rcases hvm d n with hv | hv | ⟨hno, -, -⟩
    · exact hv
    · rw [hv]
      exact h.out i d n hi hcache
    · exact absurd hi (hno i)
  · simpa only [hwaits, hbuf] using h.waiting
  · intro i d n hw
    simp only [hwaits, hholds] at hw ⊢
    obtain ⟨hno, hnone, huniq⟩ := h.apart i d n hw
    refine ⟨hno, fun hcache => ?_, huniq⟩
    rcases hvm d n with hv | hv | ⟨-, hno', -⟩
    · exact hv
    · rw [hv]
      exact hnone hcache
    · exact absurd hw (hno' i)

end Keeping

end Mfs
