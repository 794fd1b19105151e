import Cs111.Vfs.SelectBooks

namespace Vfs.Select
open Tally TransitionSystem

structure Fewer (s s' : SelState) : Prop where
  entry : ∀ t, s'.selecttab t = s.selecttab t ∨
    (s.selecttab t).requestor ≠ none ∧ (s'.selecttab t).requestor = none
  dev : ∀ f, (s'.filp f).dev = (s.filp f).dev
  fdtype : ∀ f, (s'.filp f).fdtype = (s.filp f).fdtype

def Ready (u : Option ℕ) (s : SelState) (test : SelectEntry → Prop) : Prop :=
  ∀ t, (s.selecttab t).requestor ≠ none → test (s.selecttab t) → Apart u s t

def Idle (u : Option ℕ) (s : SelState) : Prop := ∀ t, u = some t → (s.selecttab t).requestor = none

section Free
variable {C : SelectConfig} {s s' s'' : SelState} {u : Option ℕ} {mine : ℕ → Prop} {t fd f : ℕ}
  {test test' : SelectEntry → Prop} {ops : Ops}

theorem Fewer.refl (s : SelState) : Fewer s s := ⟨fun _ => .inl rfl, fun _ => rfl, fun _ => rfl⟩

theorem Fewer.trans (h : Fewer s s') (h' : Fewer s' s'') : Fewer s s'' where
  entry t := by
    rcases h'.entry t with heq | ⟨hsome, hnone⟩
    · rw [heq]
      exact h.entry t
    · rcases h.entry t with heq | ⟨-, hfree⟩
      · rw [heq] at hsome
        exact .inr ⟨hsome, hnone⟩
      · exact absurd hfree hsome
  dev f := (h'.dev f).trans (h.dev f)
  fdtype f := (h'.fdtype f).trans (h.fdtype f)

theorem Fewer.waiting (h : Fewer s s') (ht : (s'.selecttab t).requestor ≠ none) :
    s'.selecttab t = s.selecttab t := (h.entry t).resolve_right fun hfree => ht hfree.2

theorem Fewer.free (h : Fewer s s') (ht : (s.selecttab t).requestor = none) :
    s'.selecttab t = s.selecttab t := (h.entry t).resolve_right fun hfree => hfree.1 ht

theorem live_none {t : ℕ} : Live none s t ↔ (s.selecttab t).requestor ≠ none :=
  ⟨fun h => h.resolve_right (fun h => by cases h), .inl⟩

theorem idle_none : Idle none s := fun _ h => by cases h

theorem Idle.fewer (hi : Idle u s) (h : Fewer s s') : Idle u s' := by
  intro t ht
  rw [h.free (hi t ht)]
  exact hi t ht

theorem Idle.ne (hi : Idle u s) (ht : (s.selecttab t).requestor ≠ none) : u ≠ some t :=
  fun hu => ht (hi t hu)

theorem Ready.fewer (hr : Ready u s test) (hi : Idle u s) (h : Fewer s s') : Ready u s' test := by
  intro t ht htest t' hne hl fd fd' f hf
  have hsame := h.waiting ht
  have hsame' : s'.selecttab t' = s.selecttab t' := by
    rcases hl with hl | hl
    · exact h.waiting hl
    · exact h.free (hi t' hl)
  rw [hsame] at ht htest ⊢
  rw [Live, hsame'] at hl
  rw [hsame'] at hf
  exact hr t ht htest t' hne hl fd fd' f hf

theorem Ready.mono (hr : Ready u s test) (h : ∀ t, test' (s.selecttab t) → test (s.selecttab t)) :
    Ready u s test' := fun t ht htest => hr t ht (h t htest)

theorem cancelAll_spec (h : Cancelling C u mine t (List.range (s.selecttab t).nfds) s) :
    Cancelling C u mine t [] (selectCancelAll C t s) ∧
      (∀ t', t' ≠ t → (selectCancelAll C t s).selecttab t' = s.selecttab t') ∧
      ((selectCancelAll C t s).selecttab t).requestor = (s.selecttab t).requestor ∧
      (∀ g, ((selectCancelAll C t s).filp g).dev = (s.filp g).dev ∧
        ((selectCancelAll C t s).filp g).fdtype = (s.filp g).fdtype) ∧
      (selectCancelAll C t s).dmapSelFilp = s.dmapSelFilp := by
  have hend := cancelFds_cancelling _ h
  have hframe : Cancelled t s (cancelFds C t (List.range (s.selecttab t).nfds) s) :=
    cancelFds_cancelled _
  unfold selectCancelAll
  dsimp only
  refine ⟨hend.same (.setEntry ⟨rfl, rfl, rfl, rfl⟩), fun t' ht => ?_, ?_, fun g => ?_, hframe.dmap⟩
  · rw [entry_setEntry, if_neg ht]
    exact hframe.others t' ht
  · rw [entry_setEntry, if_pos rfl]
    exact hframe.requestor t
  · have hdev := congrArg Filp.dev (hframe.filp g)
    have hfdtype := congrArg Filp.fdtype (hframe.filp g)
    exact ⟨hdev, hfdtype⟩

theorem Cancelling.none (h : Cancelling C u mine t [] s) (fd : ℕ) :
    (s.selecttab t).filps fd = none := by
  cases hf : (s.selecttab t).filps fd with
  | none => rfl
  | some f => exact absurd (h.own fd f hf).2.1 List.not_mem_nil

theorem freed_booked (h : Cancelling C u mine t (List.range (s.selecttab t).nfds) s)
    (hu : u ≠ some t)
    (hquiet : ∀ t', t' ≠ t → (s.selecttab t').requestor ≠ none →
      (s.selecttab t').nreadyfds = 0 ∧ (s.selecttab t').deferred = false)
    (hdmap : ∀ major, s.dmapSelFilp major = none)
    (hfilp : s'.filp = (selectCancelAll C t s).filp)
    (hdmap' : s'.dmapSelFilp = (selectCancelAll C t s).dmapSelFilp)
    (hentry : s'.selecttab = Function.update (selectCancelAll C t s).selecttab t
      { (selectCancelAll C t s).selecttab t with requestor := none }) :
    Booked C u s' ∧ Fewer s s' ∧ (s'.selecttab t).requestor = none := by
  obtain ⟨hend, hothers, -, hdev, hdmap₀⟩ := cancelAll_spec h
  have hself : s'.selecttab t = { (selectCancelAll C t s).selecttab t with requestor := none } := by
    rw [hentry, Function.update_self]
  have hrest : ∀ t', t' ≠ t → s'.selecttab t' = (selectCancelAll C t s).selecttab t' :=
    fun t' ht => by rw [hentry, Function.update_of_ne ht]
  refine ⟨hend.booked (fun _ _ => Iff.rfl) hu (fun t' ht hreq => ?_) (fun major => ?_) hfilp hdmap'
    hrest ?_ fun fd _ => ?_, ⟨fun t' => ?_, fun f => ?_, fun f => ?_⟩, ?_⟩
  · rw [hothers t' ht] at hreq ⊢
    exact hquiet t' ht hreq
  · rw [hdmap₀]
    exact hdmap major
  · rw [hself]
  · rw [hself]
    exact hend.none fd
  · by_cases ht : t' = t
    · rw [ht, hself]
      exact .inr ⟨h.live.resolve_right hu, rfl⟩
    · exact .inl ((hrest t' ht).trans (hothers t' ht))
  · rw [hfilp, (hdev f).1]
  · rw [hfilp, (hdev f).2]
  · rw [hself]

theorem selectReturn_booked {r : Option Errno}
    (h : Cancelling C u mine t (List.range (s.selecttab t).nfds) s) (hu : u ≠ some t)
    (hquiet : ∀ t', t' ≠ t → (s.selecttab t').requestor ≠ none →
      (s.selecttab t').nreadyfds = 0 ∧ (s.selecttab t').deferred = false)
    (hdmap : ∀ major, s.dmapSelFilp major = none) :
    Booked C u (selectReturn C t r s) ∧ Fewer s (selectReturn C t r s) ∧
      ((selectReturn C t r s).selecttab t).requestor = none := by
  obtain ⟨-, -, hreq, -, -⟩ := cancelAll_spec h
  have hlive := h.live.resolve_right hu
  rw [← hreq] at hlive
  obtain ⟨p, hp⟩ := Option.ne_none_iff_exists'.mp hlive
  unfold selectReturn wakeup
  dsimp only
  rw [hp]
  exact freed_booked h hu hquiet hdmap rfl rfl rfl

theorem Booked.return {r : Option Errno} {e : SelectEntry} (h : Booked C u s)
    (hi : Idle u s) (ht : (s.selecttab t).requestor ≠ none) (happart : Apart u s t)
    (he : SameBooks (s.selecttab t) e) :
    Booked C u (selectReturn C t r (setEntry t e s)) ∧
      Fewer s (selectReturn C t r (setEntry t e s)) ∧
      ((selectReturn C t r (setEntry t e s)).selecttab t).requestor = none := by
  have hother : ∀ t', t' ≠ t → (setEntry t e s).selecttab t' = s.selecttab t' := fun t' hne => by
    rw [entry_setEntry, if_neg hne]
  have hself : (setEntry t e s).selecttab t = e := by rw [entry_setEntry, if_pos rfl]
  have hcancel : Cancelling C u (fun f => ∃ fd, (s.selecttab t).filps fd = some f) t
      (List.range ((setEntry t e s).selecttab t).nfds) (setEntry t e s) := by
    rw [hself, he.nfds]
    exact (h.cancelling (.inl ht) happart).same (.setEntry he)
  obtain ⟨hbooked, hfewer, hfree⟩ := selectReturn_booked (r := r) hcancel (hi.ne ht)
    (fun t' hne hreq => by
      rw [hother t' hne] at hreq ⊢
      exact h.quiet t' hreq) h.dmap
  refine ⟨hbooked, ⟨fun t' => ?_, hfewer.dev, hfewer.fdtype⟩, hfree⟩
  by_cases hne : t' = t
  · rw [hne]
    exact .inr ⟨ht, hfree⟩
  · rw [← hother t' hne]
    exact hfewer.entry t'

theorem satisfy_same (f : ℕ) (ops : Ops) (e : SelectEntry) : SameBooks e (satisfy f ops e) := by
  unfold satisfy
  have hfold : ∀ (fds : List ℕ) (e' : SelectEntry), SameBooks e e' →
      SameBooks e (fds.foldl (fun e fd =>
        if e.filps fd = some f ∧ e.ops fd ∩ ops ≠ ∅ then ops2tab ops fd e else e) e') := by
    intro fds
    induction fds with
    | nil => exact fun _ h => h
    | cons fd fds ih =>
      intro e' h
      refine ih _ ?_
      dsimp only
      split
      · exact ⟨h.requestor, h.ops, h.filps, h.nfds⟩
      · exact h
  exact hfold _ e (.refl e)

theorem slots_booked {step : ℕ → SelState → SelState} (slots : List ℕ) (h : Booked C u s)
    (hi : Idle u s) (hr : Ready u s test)
    (hstep : ∀ s₁ t, Booked C u s₁ → Idle u s₁ → Ready u s₁ test → Fewer s s₁ →
      Booked C u (step t s₁) ∧ Fewer s₁ (step t s₁)) :
    Booked C u (slots.foldl (fun s t => step t s) s) ∧
      Fewer s (slots.foldl (fun s t => step t s) s) := by
  have hall : ∀ (slots : List ℕ) (s₁ : SelState), Booked C u s₁ → Fewer s s₁ →
      Booked C u (slots.foldl (fun s t => step t s) s₁) ∧
        Fewer s (slots.foldl (fun s t => step t s) s₁) := by
    intro slots
    induction slots with
    | nil => exact fun s₁ hb hf => ⟨hb, hf⟩
    | cons t slots ih =>
      intro s₁ hb hf
      obtain ⟨hb', hf'⟩ := hstep s₁ t hb (hi.fewer hf) (hr.fewer hi hf) hf
      exact ih _ hb' (hf.trans hf')
  exact hall slots s h (.refl s)

theorem callbackSlot_booked (h : Booked C u s) (hi : Idle u s) (hr : Ready u s (wants f ops))
    (t : ℕ) : Booked C u (callbackSlot C f ops t s) ∧ Fewer s (callbackSlot C f ops t s) := by
  unfold callbackSlot
  split
  · exact ⟨h, .refl s⟩
  · next ht =>
    split
    · next hwants =>
      obtain ⟨hb, hf, -⟩ := h.return hi ht (hr t ht hwants) (satisfy_same f ops _)
      exact ⟨hb, hf⟩
    · exact ⟨h, .refl s⟩

theorem selectCallback_booked (h : Booked C u s) (hi : Idle u s) (hr : Ready u s (wants f ops)) :
    Booked C u (selectCallback C f ops s) ∧ Fewer s (selectCallback C f ops s) :=
  slots_booked _ h hi hr fun _ t hb hi hr _ => callbackSlot_booked hb hi hr t

def onDevice (s : SelState) (major minor : ℕ) (ops : Ops) (e : SelectEntry) : Prop :=
  ∃ fd f, e.filps fd = some f ∧ (s.filp f).dev = some (major, minor) ∧ ops ∩ e.ops fd ≠ ∅

theorem notifiedSlot_booked {major minor : ℕ} (h : Booked C none s)
    (hr : Ready none s (onDevice s major minor ops)) (t : ℕ) :
    Booked C none (notifiedSlot C major minor ops t s) ∧
      Fewer s (notifiedSlot C major minor ops t s) := by
  unfold notifiedSlot
  split
  · exact ⟨h, .refl s⟩
  · refine slots_booked _ h idle_none hr fun s₁ fd hb _ hr₁ hf => ?_
    split
    · exact ⟨hb, .refl s₁⟩
    · next f hfd =>
      split
      · next hdev =>
        refine selectCallback_booked hb idle_none (hr₁.mono fun t' hwants => ?_)
        obtain ⟨fd', -, hf', hops⟩ := hwants
        refine ⟨fd', f, hf', (hf.dev f).symm.trans hdev.1, fun hempty => hops ?_⟩
        rw [← Finset.inter_assoc, Finset.inter_comm _ ops, hempty, Finset.empty_inter]
      · exact ⟨hb, .refl s₁⟩

theorem selectNotified_booked {major minor : ℕ} (h : Booked C none s)
    (hr : Ready none s (onDevice s major minor ops)) :
    Booked C none (selectNotified C major minor ops s) := by
  refine (slots_booked _ h idle_none hr fun s₁ t hb _ hr₁ hf => ?_).1
  refine notifiedSlot_booked hb (hr₁.mono fun t' hdev => ?_) t
  obtain ⟨fd, f, hfd, hdev, hops⟩ := hdev
  exact ⟨fd, f, hfd, (hf.dev f).symm.trans hdev, hops⟩

theorem selectForget_booked {p : ℕ} (h : Booked C none s)
    (hr : Ready none s fun e => e.requestor = some p) : Booked C none (selectForget C p s) := by
  unfold selectForget
  split
  · exact h
  · next t hfind =>
    have hp : (s.selecttab t).requestor = some p := by
      have hfound := List.find?_some hfind
      exact of_decide_eq_true hfound
    have hne : (s.selecttab t).requestor ≠ none := by
      rw [hp]
      exact fun h => by cases h
    have hcancel := h.cancelling (.inl hne) (hr t hne hp)
    have hfreed : Booked C none (setEntry t { (selectCancelAll C t s).selecttab t with
        requestor := none } (selectCancelAll C t s)) ∧ _ :=
      freed_booked hcancel (fun h => by cases h) (fun t' _ hreq => h.quiet t' hreq) h.dmap rfl rfl rfl
    exact hfreed.1

theorem selectTimeoutCheck_booked (h : Booked C none s)
    (hr : (s.selecttab t).requestor ≠ none → (s.selecttab t).expiry = true → Apart none s t) :
    Booked C none (selectTimeoutCheck C t s) := by
  unfold selectTimeoutCheck
  split
  · exact h
  · next ht =>
    split
    · exact h
    · next hexpiry =>
      have he : SameBooks (s.selecttab t) { s.selecttab t with expiry := false } :=
        ⟨rfl, rfl, rfl, rfl⟩
      exact (h.return idle_none ht (hr ht (Bool.not_eq_false _ ▸ hexpiry)) he).1

def driverOf (driven : ℕ → Bool) (e : SelectEntry) : Prop :=
  ∃ fd f, e.filps fd = some f ∧ driven f = true

theorem selectUnsuspend_booked {driven : ℕ → Bool} (h : Booked C none s)
    (hr : Ready none s (driverOf driven)) : Booked C none (selectUnsuspend C driven s) := by
  refine (slots_booked _ h idle_none hr fun s₁ t hb _ hr₁ _ => ?_).1
  unfold unsuspendSlot
  split
  · exact ⟨hb, .refl s₁⟩
  · next ht =>
    split
    · next hdriven =>
      obtain ⟨fd, -, f, hf, hd⟩ := hdriven
      have hself : setEntry t (s₁.selecttab t) s₁ = s₁ := by
        unfold setEntry
        rw [Function.update_eq_self]
      have hreturn := hb.return (r := some .EAGAIN) idle_none ht (hr₁ t ht ⟨fd, f, hf, hd⟩) (.refl _)
      rw [hself] at hreturn
      exact ⟨hreturn.1, hreturn.2.1⟩
    · exact ⟨hb, .refl s₁⟩

theorem ops2tab_none {e : SelectEntry} (hnone : ops ∩ e.ops fd = ∅) : ops2tab ops fd e = e := by
  unfold ops2tab
  rw [hnone]
  simp

theorem clearOps_none (h : Booked C none s) (hnone : ∀ op ∈ ops, ¬ Wanted none s f op) :
    clearOps f ops s = s := by
  have hsame : (s.filp f).filpSelectOps \ ops = (s.filp f).filpSelectOps := by
    refine Finset.sdiff_eq_self_of_disjoint (Finset.disjoint_left.mpr fun op hop hops => ?_)
    exact hnone op hops ((h.ops f op).mp hop)
  unfold clearOps
  rw [hsame]
  split
  · rfl
  · unfold setFilp
    rw [Function.update_eq_self]

theorem selectReply2_booked {major minor : ℕ} {status : Option Ops} (h : Booked C none s)
    (hnone : ∀ ops, status = some ops → ∀ t, (s.selecttab t).requestor ≠ none →
      ¬ onDevice s major minor ops (s.selecttab t)) : selectReply2 C major minor status s = s := by
  have hslot : ∀ t, reply2Slot C major minor status t s = s := by
    intro t
    unfold reply2Slot
    split
    · rfl
    · next ht =>
      have hfold : ∀ (step : SelState → ℕ → SelState) (fds : List ℕ), (∀ i, step s i = s) →
          fds.foldl step s = s := by
        intro step fds hstep
        induction fds with
        | nil => rfl
        | cons i fds ih =>
          rw [List.foldl_cons, hstep i]
          exact ih
      dsimp only
      rw [hfold]
      · rw [(h.quiet t ht).1]
        rfl
      · intro i
        split
        · next f ops hf =>
          split
          · next hdev =>
            have hclear : clearOps f ops s = s :=
              clearOps_none h fun op hop ⟨t', hlive, fd, hfd, hw⟩ =>
                hnone ops rfl t' (live_none.mp hlive) ⟨fd, f, hfd, hdev, fun hempty =>
                  Finset.notMem_empty op (hempty ▸ Finset.mem_inter.mpr ⟨hop, hw⟩)⟩
            have hentry : ops2tab ops i (s.selecttab t) = s.selecttab t := by
              refine ops2tab_none ?_
              by_contra hne
              exact hnone ops rfl t ht ⟨i, f, hf, hdev, hne⟩
            rw [hclear, hentry]
            unfold setEntry
            rw [Function.update_eq_self]
          · rfl
        · rfl
  unfold selectReply2 forSlots
  generalize List.range C.MAXSELECTS = slots
  induction slots with
  | nil => rfl
  | cons t slots ih =>
    rw [List.foldl_cons, hslot t]
    exact ih

end Free

end Vfs.Select

namespace Vfs.Select
open Tally

def noted (t fd f : ℕ) (ops : Ops) (s : SelState) : SelState :=
  setFilp f { s.filp f with filpSelectOps := (s.filp f).filpSelectOps ∪ ops }
    (setEntry t { s.selecttab t with
      filps := Function.update (s.selecttab t).filps fd (some f) } s)

section Noted
variable {C : SelectConfig} {s : SelState} {t t' fd f g k : ℕ} {ops ops' : Ops}

theorem entry_noted (t' : ℕ) : (noted t fd f ops s).selecttab t' = if t' = t then
    { s.selecttab t with filps := Function.update (s.selecttab t).filps fd (some f) }
    else s.selecttab t' := entry_setEntry t'

theorem filp_noted (g : ℕ) : (noted t fd f ops s).filp g = if g = f then
    { s.filp f with filpSelectOps := (s.filp f).filpSelectOps ∪ ops } else s.filp g := filp_setFilp g

theorem remainOps_congr {s s' : SelState} (h : s.selecttab = s'.selecttab) :
    remainOps C g s = remainOps C g s' := by
  unfold remainOps
  rw [h]

theorem remainOps_noted (hg : g ≠ f) (hnone : (s.selecttab t).filps fd = none) :
    remainOps C g (noted t fd f ops s) = remainOps C g s := by
  unfold remainOps
  refine Finset.biUnion_congr rfl fun t' _ => ?_
  rw [entry_noted]
  by_cases ht : t' = t
  · rw [if_pos ht, ht]
    refine if_congr Iff.rfl rfl (Finset.biUnion_congr rfl fun fd' _ => ?_)
    by_cases hfd : fd' = fd
    · subst hfd
      have hnew : Function.update (s.selecttab t).filps fd' (some f) fd' = some f :=
        Function.update_self _ _ _
      rw [if_neg fun h => hg (Option.some.inj (hnew.symm.trans h)).symm,
        if_neg fun h => by rw [hnone] at h; cases h]
    · have hold : Function.update (s.selecttab t).filps fd (some f) fd' = (s.selecttab t).filps fd' :=
        Function.update_of_ne hfd _ _
      exact if_congr (iff_of_eq (congrArg (· = some g) hold)) rfl rfl
  · rw [if_neg ht]

theorem setEntry_noted {e : SelectEntry} (ht : t' ≠ t) :
    setEntry t' e (noted t fd f ops s) = noted t fd f ops (setEntry t' e s) := by
  have hself : (setEntry t' e s).selecttab t = s.selecttab t :=
    (entry_setEntry t).trans (if_neg (Ne.symm ht))
  refine SelState.ext (funext fun x => ?_) rfl rfl rfl
  rw [entry_setEntry, entry_noted, entry_noted, hself, entry_setEntry]
  by_cases hx : x = t
  · rw [if_neg (hx.trans_ne (Ne.symm ht)), if_pos hx, if_pos hx]
  · rw [if_neg hx, if_neg hx]

theorem dropFd_noted (ht : t' ≠ t) (hg : g ≠ f) (hnone : (s.selecttab t).filps fd = none) :
    dropFd C t' k g (noted t fd f ops s) = noted t fd f ops (dropFd C t' k g s) := by
  have hself : (dropFd C t' k g s).selecttab t = s.selecttab t := by
    rw [entry_dropFd, if_neg (Ne.symm ht)]
  have htable : (dropFd C t' k g (noted t fd f ops s)).selecttab =
      (noted t fd f ops (dropFd C t' k g s)).selecttab := by
    funext x
    rw [entry_dropFd, entry_noted, entry_noted, entry_noted, hself, if_neg ht, entry_dropFd]
    by_cases hx : x = t
    · rw [if_neg (hx.trans_ne (Ne.symm ht)), if_pos hx, if_pos hx]
    · rw [if_neg hx, if_neg hx]
  refine SelState.ext htable (funext fun x => ?_) rfl rfl
  rw [filp_dropFd, filp_noted, filp_noted, filp_noted, if_neg hg, filp_dropFd, filp_dropFd,
    if_neg (Ne.symm hg), remainOps_congr htable, remainOps_noted hg (by rw [hself, hnone])]
  by_cases hx : x = g
  · rw [if_pos hx, if_pos hx, if_neg (hx.trans_ne hg)]
  · rw [if_neg hx, if_neg hx]

theorem cancelFds_noted (fds : List ℕ) (ht : t' ≠ t) (hnone : (s.selecttab t).filps fd = none)
    (hnames : ∀ k, (s.selecttab t').filps k ≠ some f) :
    cancelFds C t' fds (noted t fd f ops s) = noted t fd f ops (cancelFds C t' fds s) := by
  induction fds generalizing s with
  | nil => rfl
  | cons k fds ih =>
    have hother : (noted t fd f ops s).selecttab t' = s.selecttab t' := by
      rw [entry_noted, if_neg ht]
    cases hk : (s.selecttab t').filps k with
    | none =>
      rw [cancelFds_none hk, cancelFds_none (by rw [hother, hk])]
      exact ih hnone hnames
    | some g =>
      have hg : g ≠ f := fun h => hnames k (h ▸ hk)
      rw [cancelFds_some hk, cancelFds_some (by rw [hother, hk]), filp_noted, if_neg hg]
      split
      · exact ih hnone hnames
      · rw [dropFd_noted ht hg hnone]
        refine ih ?_ fun k' => ?_
        · rw [entry_dropFd, if_neg (Ne.symm ht)]
          exact hnone
        · rw [entry_dropFd, if_pos rfl]
          dsimp only
          rw [Function.update_apply]
          split
          · exact fun h => by cases h
          · exact hnames k'

theorem selectCancelAll_noted (ht : t' ≠ t) (hnone : (s.selecttab t).filps fd = none)
    (hnames : ∀ k, (s.selecttab t').filps k ≠ some f) :
    selectCancelAll C t' (noted t fd f ops s) = noted t fd f ops (selectCancelAll C t' s) := by
  unfold selectCancelAll
  dsimp only
  rw [entry_noted, if_neg ht, cancelFds_noted _ ht hnone hnames, entry_noted, if_neg ht,
    setEntry_noted ht]

theorem selectReturn_noted (ht : t' ≠ t) (hnone : (s.selecttab t).filps fd = none)
    (hnames : ∀ k, (s.selecttab t').filps k ≠ some f) :
    selectReturn C t' none (noted t fd f ops s) = noted t fd f ops (selectReturn C t' none s) := by
  unfold selectReturn wakeup
  dsimp only
  rw [selectCancelAll_noted ht hnone hnames, entry_noted, if_neg ht]
  cases ((selectCancelAll C t' s).selecttab t').requestor with
  | none => rfl
  | some p =>
    exact setEntry_noted (s := { selectCancelAll C t' s with
      replied := (p, .ok ((selectCancelAll C t' s).selecttab t').nreadyfds) ::
        (selectCancelAll C t' s).replied }) ht

theorem callbackSlot_noted (hidle : (s.selecttab t).requestor = none)
    (hnone : (s.selecttab t).filps fd = none)
    (hnames : (s.selecttab t').requestor ≠ none → wants g ops' (s.selecttab t') →
      ∀ k, (s.selecttab t').filps k ≠ some f) :
    callbackSlot C g ops' t' (noted t fd f ops s) = noted t fd f ops (callbackSlot C g ops' t' s) := by
  unfold callbackSlot
  by_cases ht : t' = t
  · rw [entry_noted, if_pos ht, ht, if_pos hidle, if_pos hidle]
  · rw [entry_noted, if_neg ht]
    split
    · rfl
    · next hreq =>
      split
      · next hwants =>
        have hself : (setEntry t' (satisfy g ops' (s.selecttab t')) s).selecttab t =
            s.selecttab t := (entry_setEntry t).trans (if_neg (Ne.symm ht))
        rw [setEntry_noted ht, selectReturn_noted ht (by rw [hself, hnone])]
        intro k
        rw [entry_setEntry, if_pos rfl, (satisfy_same g ops' _).filps]
        exact hnames hreq hwants k
      · rfl

def Unnamed (s : SelState) (f : ℕ) (test : SelectEntry → Prop) : Prop :=
  ∀ t, (s.selecttab t).requestor ≠ none → test (s.selecttab t) → ∀ k, (s.selecttab t).filps k ≠ some f

theorem Unnamed.fewer {s' : SelState} {test : SelectEntry → Prop} (h : Unnamed s f test)
    (hf : Fewer s s') : Unnamed s' f test := by
  intro t ht htest
  have hsame := hf.waiting ht
  rw [hsame] at ht htest ⊢
  exact h t ht htest

theorem selectCallback_noted (h : Booked C (some t) s) (hi : Idle (some t) s)
    (hnone : (s.selecttab t).filps fd = none) (hr : Ready (some t) s (wants g ops'))
    (hnames : Unnamed s f (wants g ops')) :
    selectCallback C g ops' (noted t fd f ops s) = noted t fd f ops (selectCallback C g ops' s) := by
  unfold selectCallback forSlots
  generalize List.range C.MAXSELECTS = slots
  induction slots generalizing s with
  | nil => rfl
  | cons t' slots ih =>
    obtain ⟨hb, hf⟩ := callbackSlot_booked (C := C) h hi hr t'
    rw [List.foldl_cons, List.foldl_cons, callbackSlot_noted (hi t rfl) hnone (hnames t')]
    exact ih hb (hi.fewer hf) (by rw [hf.free (hi t rfl), hnone]) (hr.fewer hi hf) (hnames.fewer hf)

theorem released_noted {released : List (ℕ × Ops)} (h : Booked C (some t) s) (hi : Idle (some t) s)
    (hnone : (s.selecttab t).filps fd = none)
    (hr : ∀ x ∈ released, Ready (some t) s (wants x.1 x.2) ∧ Unnamed s f (wants x.1 x.2)) :
    ∃ s', released.foldl (fun s x => selectCallback C x.1 x.2 s) (noted t fd f ops s) =
      noted t fd f ops s' ∧ Booked C (some t) s' ∧ Fewer s s' := by
  induction released generalizing s with
  | nil => exact ⟨s, rfl, h, .refl s⟩
  | cons x released ih =>
    obtain ⟨hready, hnames⟩ := hr x List.mem_cons_self
    obtain ⟨hb, hf⟩ := selectCallback_booked (C := C) h hi hready
    rw [List.foldl_cons, selectCallback_noted h hi hnone hready hnames]
    obtain ⟨s', heq, hb', hf'⟩ := ih hb (hi.fewer hf) (by rw [hf.free (hi t rfl), hnone])
      fun y hy =>
        have hy := hr y (List.mem_cons_of_mem x hy)
        ⟨hy.1.fewer hi hf, hy.2.fewer hf⟩
    exact ⟨s', heq, hb', hf.trans hf'⟩

end Noted

end Vfs.Select
