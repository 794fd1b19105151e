import Cs111.Vfs.Select

namespace Vfs.Select
open Tally TransitionSystem

section Books
variable (C : SelectConfig)

def Live (u : Option ℕ) (s : SelState) (t : ℕ) : Prop :=
  (s.selecttab t).requestor ≠ none ∨ u = some t

instance (u : Option ℕ) (s : SelState) (t : ℕ) : Decidable (Live u s t) :=
  inferInstanceAs (Decidable (_ ∨ _))

def refs (f : ℕ) (e : SelectEntry) : ℕ := tally C.OPEN_MAX (· = some f) e.filps

def held (u : Option ℕ) (f : ℕ) (s : SelState) (t : ℕ) : ℕ :=
  if Live u s t then refs C f (s.selecttab t) else 0

def Wanted (u : Option ℕ) (s : SelState) (f : ℕ) (op : SelOp) : Prop :=
  ∃ t, Live u s t ∧ ∃ fd, (s.selecttab t).filps fd = some f ∧ op ∈ (s.selecttab t).ops fd

structure Booked (u : Option ℕ) (s : SelState) : Prop where
  slot : ∀ t, Live u s t → t < C.MAXSELECTS
  within : ∀ t, Live u s t → ∀ fd f, (s.selecttab t).filps fd = some f →
    fd < (s.selecttab t).nfds ∧ fd < C.OPEN_MAX
  dead : ∀ t < C.MAXSELECTS, ¬ Live u s t → ∀ fd < (s.selecttab t).nfds,
    (s.selecttab t).filps fd = none
  quiet : ∀ t, (s.selecttab t).requestor ≠ none →
    (s.selecttab t).nreadyfds = 0 ∧ (s.selecttab t).deferred = false
  selectors : ∀ f, (s.filp f).filpSelectors = total C.MAXSELECTS id (held C u f s)
  ops : ∀ f op, op ∈ (s.filp f).filpSelectOps ↔ Wanted u s f op
  dmap : ∀ major, s.dmapSelFilp major = none

structure Cancelling (u : Option ℕ) (mine : ℕ → Prop) (t : ℕ) (fds : List ℕ) (s : SelState) :
    Prop where
  live : Live u s t
  slot : ∀ t', Live u s t' → t' < C.MAXSELECTS
  others : ∀ t', t' ≠ t → Live u s t' → ∀ fd f, (s.selecttab t').filps fd = some f → ¬ mine f
  within : ∀ t', t' ≠ t → Live u s t' → ∀ fd f, (s.selecttab t').filps fd = some f →
    fd < (s.selecttab t').nfds ∧ fd < C.OPEN_MAX
  own : ∀ fd f, (s.selecttab t).filps fd = some f → mine f ∧ fd ∈ fds ∧ fd < C.OPEN_MAX
  dead : ∀ t' < C.MAXSELECTS, ¬ Live u s t' → ∀ fd < (s.selecttab t').nfds,
    (s.selecttab t').filps fd = none
  selectors : ∀ f, (s.filp f).filpSelectors = total C.MAXSELECTS id (held C u f s)
  ops : ∀ f, ¬ mine f → ∀ op, op ∈ (s.filp f).filpSelectOps ↔ Wanted u s f op
  rest : ∀ f, mine f → ∀ op ∈ (s.filp f).filpSelectOps,
    ∃ fd, (s.selecttab t).filps fd = some f ∧ op ∈ (s.selecttab t).ops fd

end Books

structure Cancelled (t : ℕ) (s s' : SelState) : Prop where
  others : ∀ t', t' ≠ t → s'.selecttab t' = s.selecttab t'
  own : s'.selecttab t = { s.selecttab t with filps := (s'.selecttab t).filps }
  filp : ∀ f, s'.filp f = { s.filp f with
    filpSelectors := (s'.filp f).filpSelectors, filpSelectOps := (s'.filp f).filpSelectOps }
  dmap : s'.dmapSelFilp = s.dmapSelFilp
  replied : s'.replied = s.replied

section Cancel
variable {C : SelectConfig} {s s' s'' : SelState} {u u' : Option ℕ} {mine : ℕ → Prop}
  {t fd f : ℕ} {fds : List ℕ}

theorem entry_setEntry {se : SelectEntry} (t' : ℕ) : (setEntry t se s).selecttab t' =
    if t' = t then se else s.selecttab t' := Function.update_apply _ _ _ _

theorem filp_setFilp {x : Filp} (g : ℕ) : (setFilp f x s).filp g =
    if g = f then x else s.filp g := Function.update_apply _ _ _ _

theorem Cancelled.refl (t : ℕ) (s : SelState) : Cancelled t s s :=
  ⟨fun _ _ => rfl, rfl, fun _ => rfl, rfl, rfl⟩

theorem Cancelled.trans (h : Cancelled t s s') (h' : Cancelled t s' s'') : Cancelled t s s'' where
  others t' ht := (h'.others t' ht).trans (h.others t' ht)
  own := by rw [h'.own, h.own]
  filp g := by rw [h'.filp, h.filp]
  dmap := h'.dmap.trans h.dmap
  replied := h'.replied.trans h.replied

theorem Cancelled.requestor (h : Cancelled t s s') (t' : ℕ) :
    (s'.selecttab t').requestor = (s.selecttab t').requestor := by
  by_cases ht : t' = t
  · rw [ht, h.own]
  · rw [h.others t' ht]

theorem Cancelled.live_iff (h : Cancelled t s s') (t' : ℕ) : Live u s' t' ↔ Live u s t' := by
  rw [Live, Live, h.requestor]

theorem mem_remainOps {op : SelOp} : op ∈ remainOps C f s ↔
    ∃ t < C.MAXSELECTS, (s.selecttab t).requestor = none ∧ ∃ fd < (s.selecttab t).nfds,
      (s.selecttab t).filps fd = some f ∧ op ∈ (s.selecttab t).ops fd := by
  unfold remainOps
  rw [Finset.mem_biUnion]
  constructor
  · rintro ⟨t, ht, hop⟩
    split at hop
    · cases hop
    · next hnone =>
      obtain ⟨fd, hfd, hop⟩ := Finset.mem_biUnion.mp hop
      split at hop
      · next hf =>
        exact ⟨t, Finset.mem_range.mp ht, Classical.not_not.mp hnone, fd, Finset.mem_range.mp hfd,
          hf, hop⟩
      · cases hop
  · rintro ⟨t, ht, hnone, fd, hfd, hf, hop⟩
    refine ⟨t, Finset.mem_range.mpr ht, ?_⟩
    rw [if_neg fun h => h hnone]
    refine Finset.mem_biUnion.mpr ⟨fd, Finset.mem_range.mpr hfd, ?_⟩
    rw [if_pos hf]
    exact hop

def dropFd (C : SelectConfig) (t fd f : ℕ) (s : SelState) : SelState :=
  let s := setFilp f { s.filp f with filpSelectors := (s.filp f).filpSelectors - 1 } s
  let s := setEntry t { s.selecttab t with
    filps := Function.update (s.selecttab t).filps fd none } s
  selectReevaluate C f s

theorem entry_dropFd (t' : ℕ) : (dropFd C t fd f s).selecttab t' =
    if t' = t then { s.selecttab t with filps := Function.update (s.selecttab t).filps fd none }
    else s.selecttab t' := entry_setEntry t'

theorem filp_dropFd (g : ℕ) : (dropFd C t fd f s).filp g =
    if g = f then { s.filp f with
      filpSelectors := (s.filp f).filpSelectors - 1
      filpSelectOps := remainOps C f (dropFd C t fd f s) }
    else s.filp g := by
  have hself : (setFilp f { s.filp f with filpSelectors := (s.filp f).filpSelectors - 1 } s).filp f =
      { s.filp f with filpSelectors := (s.filp f).filpSelectors - 1 } := Function.update_self _ _ _
  unfold dropFd selectReevaluate
  dsimp only
  rw [filp_setFilp]
  split
  · rw [show (setEntry t _ (setFilp f { s.filp f with
      filpSelectors := (s.filp f).filpSelectors - 1 } s)).filp f = _ from hself]
    rfl
  · next hg => exact (filp_setFilp g).trans (if_neg hg)

theorem dropFd_cancelled : Cancelled t s (dropFd C t fd f s) := by
  refine ⟨fun t' ht => ?_, ?_, fun g => ?_, rfl, rfl⟩
  · rw [entry_dropFd, if_neg ht]
  · rw [entry_dropFd, if_pos rfl]
  · rw [filp_dropFd]
    split
    · next hg => rw [hg]
    · rfl

theorem held_dropFd (hlive : Live u s t) (hfd : (s.selecttab t).filps fd = some f)
    (hlt : fd < C.OPEN_MAX) (g : ℕ) : held C u g (dropFd C t fd f s) =
      Function.update (held C u g s) t (refs C g (s.selecttab t) - if g = f then 1 else 0) := by
  funext t'
  have hcancelled : Cancelled t s (dropFd C t fd f s) := dropFd_cancelled
  rw [held, Function.update_apply]
  by_cases ht : t' = t
  · rw [if_pos ht, ht, if_pos ((hcancelled.live_iff t).mpr hlive), entry_dropFd, if_pos rfl, refs, refs]
    dsimp only
    by_cases hg : g = f
    · subst hg
      have hleave := tally_leave (p := (· = some g)) (f := (s.selecttab t).filps) (v := none) hlt hfd
        (by simp)
      rw [if_pos rfl]
      omega
    · have hsame := tally_same (p := (· = some g)) (f := (s.selecttab t).filps) (v := none) hlt
        (by rw [hfd]; simp [Ne.symm hg])
      rw [hsame, if_neg hg, Nat.sub_zero]
  · rw [if_neg ht, held, entry_dropFd, if_neg ht]
    exact if_congr (hcancelled.live_iff t') rfl rfl

theorem refs_pos (hfd : (s.selecttab t).filps fd = some f) (hlt : fd < C.OPEN_MAX) :
    0 < refs C f (s.selecttab t) := tally_pos hlt hfd

theorem Cancelling.drop (h : Cancelling C u mine t (fd :: fds) s)
    (hfd : (s.selecttab t).filps fd = some f) : 0 < (s.filp f).filpSelectors ∧
      Cancelling C u mine t fds (dropFd C t fd f s) := by
  obtain ⟨hmine, -, hlt⟩ := h.own fd f hfd
  have hcancelled : Cancelled t s (dropFd C t fd f s) := dropFd_cancelled
  have hslot := h.slot t h.live
  have hheld : held C u f s t = refs C f (s.selecttab t) := if_pos h.live
  have hpos : 0 < (s.filp f).filpSelectors := by
    have hle : held C u f s t ≤ total C.MAXSELECTS id (held C u f s) :=
      weight_le (w := id) (f := held C u f s) hslot
    have := refs_pos hfd hlt
    rw [h.selectors]
    omega
  have hown : ∀ fd' g, ((dropFd C t fd f s).selecttab t).filps fd' = some g →
      fd' ≠ fd ∧ (s.selecttab t).filps fd' = some g := by
    intro fd' g hg
    rw [entry_dropFd, if_pos rfl] at hg
    dsimp only at hg
    rw [Function.update_apply] at hg
    split at hg
    · cases hg
    · next hne => exact ⟨hne, hg⟩
  refine ⟨hpos, ⟨(hcancelled.live_iff t).mpr h.live,
    fun t' ht => h.slot t' ((hcancelled.live_iff t').mp ht), fun t' ht hl fd' g hg => ?_,
    fun t' ht hl fd' g hg => ?_, fun fd' g hg => ?_, fun t' ht hl fd' hfd' => ?_, fun g => ?_, fun g hg op => ?_,
    fun g hg op hop => ?_⟩⟩
  · rw [hcancelled.others t' ht] at hg
    exact h.others t' ht ((hcancelled.live_iff t').mp hl) fd' g hg
  · rw [hcancelled.others t' ht] at hg ⊢
    exact h.within t' ht ((hcancelled.live_iff t').mp hl) fd' g hg
  · obtain ⟨hne, hg⟩ := hown fd' g hg
    obtain ⟨hm, hmem, hbound⟩ := h.own fd' g hg
    exact ⟨hm, (List.mem_cons.mp hmem).resolve_left hne, hbound⟩
  · have hne : t' ≠ t := by
      rintro rfl
      exact hl ((hcancelled.live_iff t').mpr h.live)
    rw [hcancelled.others t' hne] at hfd' ⊢
    exact h.dead t' ht (fun hl' => hl ((hcancelled.live_iff t').mpr hl')) fd' hfd'
  · have htotal := total_update (w := id) (f := held C u g s)
      (v := refs C g (s.selecttab t) - if g = f then 1 else 0) hslot
    rw [← held_dropFd h.live hfd hlt g] at htotal
    have hg : held C u g s t = refs C g (s.selecttab t) := if_pos h.live
    rw [filp_dropFd]
    split
    · next hgf =>
      subst hgf
      have := refs_pos hfd hlt
      have hsel := h.selectors g
      rw [if_pos rfl] at htotal
      simp only [id] at htotal
      dsimp only
      omega
    · next hgf =>
      have hsel := h.selectors g
      rw [if_neg hgf] at htotal
      simp only [id] at htotal
      omega
  · have hgf : g ≠ f := by
      rintro rfl
      exact hg hmine
    rw [filp_dropFd, if_neg hgf, h.ops g hg op]
    constructor
    · rintro ⟨t', hl, fd', hf', hop⟩
      have hne : t' ≠ t := by
        rintro rfl
        exact hg (h.own fd' g hf').1
      refine ⟨t', (hcancelled.live_iff t').mpr hl, fd', ?_⟩
      rw [hcancelled.others t' hne]
      exact ⟨hf', hop⟩
    · rintro ⟨t', hl, fd', hf', hop⟩
      have hne : t' ≠ t := by
        rintro rfl
        exact hg (h.own fd' g (hown fd' g hf').2).1
      rw [hcancelled.others t' hne] at hf' hop
      exact ⟨t', (hcancelled.live_iff t').mp hl, fd', hf', hop⟩
  · by_cases hgf : g = f
    · subst hgf
      rw [filp_dropFd, if_pos rfl] at hop
      obtain ⟨t', ht', hnone, fd', hfd', hf', hop⟩ := mem_remainOps.mp hop
      by_cases hne : t' = t
      · subst hne
        exact ⟨fd', hf', hop⟩
      · -- an entry in which nobody waits holds nothing, or it is the one that is being filled
        rw [hcancelled.others t' hne] at hfd' hf'
        by_cases hl : Live u s t'
        · exact absurd hg (h.others t' hne hl fd' g hf')
        · rw [h.dead t' ht' hl fd' hfd'] at hf'
          cases hf'
    · rw [filp_dropFd, if_neg hgf] at hop
      obtain ⟨fd', hf', hop⟩ := h.rest g hg op hop
      have hne : fd' ≠ fd := by
        rintro rfl
        rw [hfd] at hf'
        exact hgf (Option.some.inj hf').symm
      refine ⟨fd', ?_, ?_⟩
      · rw [entry_dropFd, if_pos rfl]
        exact (Function.update_of_ne hne _ _).trans hf'
      · rw [entry_dropFd, if_pos rfl]
        exact hop

theorem cancelFds_none {fds : List ℕ} (h : (s.selecttab t).filps fd = none) :
    cancelFds C t (fd :: fds) s = cancelFds C t fds s := by
  rw [cancelFds]
  simp only [h]

theorem cancelFds_some {fds : List ℕ} (h : (s.selecttab t).filps fd = some f) :
    cancelFds C t (fd :: fds) s = if (s.filp f).filpSelectors < 1 then cancelFds C t fds s
      else cancelFds C t fds (dropFd C t fd f s) := by
  rw [cancelFds]
  simp only [h]
  rfl

theorem cancelFds_cancelled (fds : List ℕ) : Cancelled t s (cancelFds C t fds s) := by
  induction fds generalizing s with
  | nil => exact .refl t s
  | cons fd fds ih =>
    cases hf : (s.selecttab t).filps fd with
    | none =>
      rw [cancelFds_none hf]
      exact ih
    | some f =>
      rw [cancelFds_some hf]
      split
      · exact ih
      · have hfirst : Cancelled t s (dropFd C t fd f s) := dropFd_cancelled
        exact hfirst.trans ih

theorem cancelFds_cancelling (fds : List ℕ) (h : Cancelling C u mine t fds s) :
    Cancelling C u mine t [] (cancelFds C t fds s) := by
  induction fds generalizing s with
  | nil => exact h
  | cons fd fds ih =>
    cases hf : (s.selecttab t).filps fd with
    | none =>
      rw [cancelFds_none hf]
      refine ih { h with own := fun fd' g hg => ?_ }
      obtain ⟨hm, hmem, hbound⟩ := h.own fd' g hg
      refine ⟨hm, (List.mem_cons.mp hmem).resolve_left ?_, hbound⟩
      rintro rfl
      rw [hf] at hg
      cases hg
    | some f =>
      obtain ⟨hpos, hdrop⟩ := h.drop hf
      rw [cancelFds_some hf, if_neg (by omega)]
      exact ih hdrop

def Apart (u : Option ℕ) (s : SelState) (t : ℕ) : Prop :=
  ∀ t', t' ≠ t → Live u s t' → ∀ fd fd' f, (s.selecttab t').filps fd = some f →
    (s.selecttab t).filps fd' ≠ some f

structure SameBooks (e e' : SelectEntry) : Prop where
  requestor : e'.requestor = e.requestor
  ops : e'.ops = e.ops
  filps : e'.filps = e.filps
  nfds : e'.nfds = e.nfds

theorem SameBooks.refl (e : SelectEntry) : SameBooks e e := ⟨rfl, rfl, rfl, rfl⟩

theorem Booked.cancelling (h : Booked C u s) (hl : Live u s t) (happart : Apart u s t) :
    Cancelling C u (fun f => ∃ fd, (s.selecttab t).filps fd = some f) t
      (List.range (s.selecttab t).nfds) s := by
  refine ⟨hl, h.slot, fun t' ht hl' fd f hf => ?_, fun t' _ hl' => h.within t' hl',
    fun fd f hf => ?_, h.dead, h.selectors,
    fun f _ op => h.ops f op, fun f hf op hop => ?_⟩
  · rintro ⟨fd', hf'⟩
    exact happart t' ht hl' fd fd' f hf hf'
  · obtain ⟨hlt, hbound⟩ := h.within t hl fd f hf
    exact ⟨⟨fd, hf⟩, List.mem_range.mpr hlt, hbound⟩
  · obtain ⟨fd', hf'⟩ := hf
    obtain ⟨t', hl', fd, hfd, hop⟩ := (h.ops f op).mp hop
    by_cases ht : t' = t
    · subst ht
      exact ⟨fd, hfd, hop⟩
    · exact absurd hf' (happart t' ht hl' fd fd' f hfd)

structure SameTable (s s' : SelState) : Prop where
  entry : ∀ t, SameBooks (s.selecttab t) (s'.selecttab t)
  selectors : ∀ f, (s'.filp f).filpSelectors = (s.filp f).filpSelectors
  ops : ∀ f, (s'.filp f).filpSelectOps = (s.filp f).filpSelectOps

theorem SameTable.live_iff (h : SameTable s s') (t : ℕ) : Live u s' t ↔ Live u s t := by
  rw [Live, Live, (h.entry t).requestor]

theorem SameTable.held (h : SameTable s s') : held C u f s' = held C u f s := by
  funext t
  unfold Select.held refs
  rw [(h.entry t).filps]
  exact if_congr (h.live_iff t) rfl rfl

theorem SameTable.wanted (h : SameTable s s') {op : SelOp} :
    Wanted u s' f op ↔ Wanted u s f op := by
  refine exists_congr fun t => and_congr (h.live_iff t) (exists_congr fun fd => ?_)
  rw [(h.entry t).filps, (h.entry t).ops]

theorem SameTable.setEntry {e : SelectEntry} (h : SameBooks (s.selecttab t) e) :
    SameTable s (setEntry t e s) := by
  refine ⟨fun t' => ?_, fun _ => rfl, fun _ => rfl⟩
  rw [entry_setEntry]
  split
  · next ht =>
    rw [ht]
    exact h
  · exact .refl _

theorem Cancelling.same (h : Cancelling C u mine t fds s) (hs : SameTable s s') :
    Cancelling C u mine t fds s' := by
  refine ⟨(hs.live_iff t).mpr h.live, fun t' hl => h.slot t' ((hs.live_iff t').mp hl),
    fun t' ht hl fd f hf => ?_, fun t' ht hl fd f hf => ?_, fun fd f hf => ?_,
    fun t' ht hl fd hfd => ?_, fun f => ?_, fun f hf op => ?_, fun f hf op hop => ?_⟩
  · rw [(hs.entry t').filps] at hf
    exact h.others t' ht ((hs.live_iff t').mp hl) fd f hf
  · rw [(hs.entry t').filps] at hf
    rw [(hs.entry t').nfds]
    exact h.within t' ht ((hs.live_iff t').mp hl) fd f hf
  · rw [(hs.entry t).filps] at hf
    exact h.own fd f hf
  · rw [(hs.entry t').nfds] at hfd
    rw [(hs.entry t').filps]
    exact h.dead t' ht (fun hl' => hl ((hs.live_iff t').mpr hl')) fd hfd
  · rw [hs.selectors, hs.held]
    exact h.selectors f
  · rw [hs.ops, hs.wanted]
    exact h.ops f hf op
  · rw [hs.ops] at hop
    rw [(hs.entry t).filps, (hs.entry t).ops]
    exact h.rest f hf op hop

theorem Cancelling.booked (h : Cancelling C u mine t [] s)
    (hu : ∀ t', t' ≠ t → (u' = some t' ↔ u = some t')) (hu' : u' ≠ some t)
    (hquiet : ∀ t', t' ≠ t → (s.selecttab t').requestor ≠ none →
      (s.selecttab t').nreadyfds = 0 ∧ (s.selecttab t').deferred = false)
    (hdmap : ∀ major, s.dmapSelFilp major = none) (hfilp : s'.filp = s.filp)
    (hdmap' : s'.dmapSelFilp = s.dmapSelFilp)
    (hothers : ∀ t', t' ≠ t → s'.selecttab t' = s.selecttab t')
    (hfree : (s'.selecttab t).requestor = none)
    (hnone : ∀ fd < (s'.selecttab t).nfds, (s'.selecttab t).filps fd = none) :
    Booked C u' s' := by
  have hown : ∀ fd, (s.selecttab t).filps fd = none := by
    intro fd
    cases hf : (s.selecttab t).filps fd with
    | none => rfl
    | some f => exact absurd (h.own fd f hf).2.1 List.not_mem_nil
  have hlive : ∀ t', Live u' s' t' ↔ t' ≠ t ∧ Live u s t' := by
    intro t'
    by_cases ht : t' = t
    · subst ht
      exact ⟨fun hl => absurd hfree (hl.resolve_right hu'), fun hl => absurd rfl hl.1⟩
    · rw [Live, Live, hothers t' ht]
      exact ⟨fun hl => ⟨ht, hl.imp_right (hu t' ht).mp⟩, fun hl => hl.2.imp_right (hu t' ht).mpr⟩
  have hwanted : ∀ {f op}, Wanted u' s' f op ↔ Wanted u s f op := by
    intro f op
    constructor
    · rintro ⟨t', hl, hrest⟩
      obtain ⟨ht, hl⟩ := (hlive t').mp hl
      rw [hothers t' ht] at hrest
      exact ⟨t', hl, hrest⟩
    · rintro ⟨t', hl, fd, hf, hop⟩
      have ht : t' ≠ t := by
        rintro rfl
        rw [hown] at hf
        cases hf
      refine ⟨t', (hlive t').mpr ⟨ht, hl⟩, fd, ?_⟩
      rw [hothers t' ht]
      exact ⟨hf, hop⟩
  refine ⟨fun t' hl => h.slot t' ((hlive t').mp hl).2, fun t' hl fd f hf => ?_,
    fun t' ht hl fd hfd => ?_, fun t' hreq => ?_, fun f => ?_, fun f op => ?_, fun major => ?_⟩
  · obtain ⟨ht, hl⟩ := (hlive t').mp hl
    rw [hothers t' ht] at hf ⊢
    exact h.within t' ht hl fd f hf
  · by_cases hne : t' = t
    · subst hne
      exact hnone fd hfd
    · rw [hothers t' hne] at hfd ⊢
      exact h.dead t' ht (fun hl' => hl ((hlive t').mpr ⟨hne, hl'⟩)) fd hfd
  · have ht : t' ≠ t := by
      rintro rfl
      exact hreq hfree
    rw [hothers t' ht] at hreq ⊢
    exact hquiet t' ht hreq
  · rw [hfilp, h.selectors f]
    refine total_congr fun t' _ => ?_
    unfold held
    by_cases ht : t' = t
    · subst ht
      rw [if_pos h.live, if_neg fun hl => ((hlive t').mp hl).1 rfl]
      have hzero : refs C f (s.selecttab t') = 0 := tally_zero_iff.mpr fun fd _ hf => by
        rw [hown] at hf
        cases hf
      exact hzero
    · rw [hothers t' ht]
      exact if_congr ⟨fun hl => (hlive t').mpr ⟨ht, hl⟩, fun hl => ((hlive t').mp hl).2⟩ rfl rfl
  · rw [hfilp, hwanted]
    by_cases hf : mine f
    · constructor
      · intro hop
        obtain ⟨fd, hfd, -⟩ := h.rest f hf op hop
        rw [hown] at hfd
        cases hfd
      · rintro ⟨t', hl, fd, hfd, -⟩
        by_cases ht : t' = t
        · subst ht
          rw [hown] at hfd
          cases hfd
        · exact absurd hf (h.others t' ht hl fd f hfd)
    · exact h.ops f hf op
  · rw [hdmap']
    exact hdmap major

end Cancel

end Vfs.Select
