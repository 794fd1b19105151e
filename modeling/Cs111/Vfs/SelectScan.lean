import Cs111.Vfs.SelectSteps

namespace Vfs.Select
open Tally TransitionSystem

def Selected (a : SelectArgs) (sets : ℕ → Ops) (fd : ℕ) : Prop := (fd : ℤ) < a.nfds ∧ sets fd ≠ ∅

def Goes (s : SelState) (a : SelectArgs) (sets : ℕ → Ops) (fd : ℕ) : Prop :=
  Selected a sets fd → a.getFilp fd ≠ .error .EBADF ∧
    ∀ f, a.getFilp fd = .ok f → (s.filp f).fdtype ≠ none

def Reached (s : SelState) (a : SelectArgs) (sets : ℕ → Ops) (fd : ℕ) : Prop :=
  Selected a sets fd ∧ ∀ fd' < fd, Goes s a sets fd'

def Fresh (s : SelState) (a : SelectArgs) (sets : ℕ → Ops) : Prop :=
  ∀ fd f, Reached s a sets fd → a.getFilp fd = .ok f → ∀ t, (s.selecttab t).requestor ≠ none →
    ∀ fd', (s.selecttab t).filps fd' ≠ some f

def asked (s : SelState) (f : ℕ) : Prop :=
  (s.filp f).fdtype = some .GENERAL ∨ (s.filp f).fdtype = some .PIPE

def Sleeps (s : SelState) (a : SelectArgs) (sets : ℕ → Ops) : Prop :=
  (∀ w, a.timeout = .ok w → w ≠ .poll) ∧ ∀ fd, Selected a sets fd →
    ∃ f ready, a.getFilp fd = .ok f ∧ asked s f ∧ a.answer fd = some ready ∧ ready ∩ sets fd = ∅

def Aside (s : SelState) (a : SelectArgs) (sets : ℕ → Ops) (fd : ℕ) (test : SelectEntry → Prop) :
    Prop :=
  ∀ t, (s.selecttab t).requestor ≠ none → test (s.selecttab t) → Apart none s t ∧
    ∀ fd' ≤ fd, Reached s a sets fd' → ∀ f, a.getFilp fd' = .ok f →
      ∀ k, (s.selecttab t).filps k ≠ some f

def Plain (s : SelState) (a : SelectArgs) (sets : ℕ → Ops) : Prop :=
  ∀ fd f, Reached s a sets fd → a.getFilp fd = .ok f → (s.filp f).fdtype ≠ some .ASYNCH ∧
    (asked s f → a.answer fd ≠ none) ∧
    ((s.filp f).fdtype = some .PIPE → ∀ x ∈ a.released fd, Aside s a sets fd (wants x.1 x.2)) ∧
    ((s.filp f).fdtype = none → ∀ fd' < fd, Selected a sets fd' → ∀ f', a.getFilp fd' ≠ .ok f')

section Fill
variable {C : SelectConfig} {s s' s₀ : SelState} {t fd f n limit : ℕ} {a : SelectArgs}
  {sets : ℕ → Ops}

theorem live_some {t' : ℕ} (ht : t' ≠ t) : Live (some t) s t' ↔ (s.selecttab t').requestor ≠ none :=
  ⟨fun h => h.resolve_right fun h => ht (Option.some.inj h).symm, .inl⟩

theorem only_filled {t' : ℕ} (ht : t' ≠ t) : (none : Option ℕ) = some t' ↔ some t = some t' := by
  simp [Ne.symm ht]

theorem Booked.enter (h : Booked C (some t) s) (hreq : (s.selecttab t).requestor = none)
    (hnfds : (s.selecttab t).nfds ≤ fd) (hfd : fd < C.OPEN_MAX)
    (hothers : ∀ t', t' ≠ t → s'.selecttab t' = s.selecttab t')
    (hreq' : (s'.selecttab t).requestor = none) (hops : (s'.selecttab t).ops = (s.selecttab t).ops)
    (hfilps : (s'.selecttab t).filps = Function.update (s.selecttab t).filps fd (some f))
    (hn : (s'.selecttab t).nfds = fd + 1)
    (hsel : ∀ g, (s'.filp g).filpSelectors = (s.filp g).filpSelectors + if g = f then 1 else 0)
    (hselops : ∀ g, (s'.filp g).filpSelectOps = if g = f then
      (s.filp f).filpSelectOps ∪ (s.selecttab t).ops fd else (s.filp g).filpSelectOps)
    (hdmap : s'.dmapSelFilp = s.dmapSelFilp) : Booked C (some t) s' := by
  have hlive : ∀ t', Live (some t) s' t' ↔ Live (some t) s t' := by
    intro t'
    by_cases ht : t' = t
    · rw [ht]
      exact ⟨fun _ => .inr rfl, fun _ => .inr rfl⟩
    · rw [live_some ht, live_some ht, hothers t' ht]
  have hslot := h.slot t (.inr rfl)
  have hempty : (s.selecttab t).filps fd = none := by
    cases hf : (s.selecttab t).filps fd with
    | none => rfl
    | some g =>
      have := (h.within t (.inr rfl) fd g hf).1
      omega
  have hheld : ∀ g, held C (some t) g s' =
      Function.update (held C (some t) g s) t (refs C g (s.selecttab t) + if g = f then 1 else 0) := by
    intro g
    funext t'
    rw [held, Function.update_apply]
    by_cases ht : t' = t
    · rw [if_pos ht, ht, if_pos (.inr rfl), refs, refs, hfilps]
      by_cases hg : g = f
      · subst hg
        rw [if_pos rfl]
        exact tally_enter hfd (by rw [hempty]; simp) rfl
      · rw [if_neg hg]
        exact tally_same hfd (by rw [hempty]; simp [Ne.symm hg])
    · rw [if_neg ht, held, hothers t' ht]
      exact if_congr (hlive t') rfl rfl
  refine ⟨fun t' hl => h.slot t' ((hlive t').mp hl), fun t' hl fd' g hg => ?_,
    fun t' ht hl fd' hfd' => ?_, fun t' hr => ?_, fun g => ?_, fun g op => ?_, fun major => ?_⟩
  · by_cases ht : t' = t
    · subst ht
      rw [hfilps, Function.update_apply] at hg
      rw [hn]
      split at hg
      · next hfd' =>
        rw [hfd']
        exact ⟨Nat.lt_succ_self fd, hfd⟩
      · obtain ⟨hlt, hbound⟩ := h.within t' (.inr rfl) fd' g hg
        exact ⟨by omega, hbound⟩
    · rw [hothers t' ht] at hg ⊢
      exact h.within t' ((hlive t').mp hl) fd' g hg
  · have hne : t' ≠ t := by
      rintro rfl
      exact hl (.inr rfl)
    rw [hothers t' hne] at hfd' ⊢
    exact h.dead t' ht (fun hl' => hl ((hlive t').mpr hl')) fd' hfd'
  · have hne : t' ≠ t := by
      rintro rfl
      exact hr hreq'
    rw [hothers t' hne] at hr ⊢
    exact h.quiet t' hr
  · have htotal := total_update (w := id) (f := held C (some t) g s)
      (v := refs C g (s.selecttab t) + if g = f then 1 else 0) hslot
    rw [← hheld g] at htotal
    have hself : held C (some t) g s t = refs C g (s.selecttab t) := if_pos (.inr rfl)
    have hold := h.selectors g
    simp only [id] at htotal
    rw [hsel g]
    omega
  · rw [hselops g]
    have hrest : Wanted (some t) s' g op ↔
        Wanted (some t) s g op ∨ g = f ∧ op ∈ (s.selecttab t).ops fd := by
      constructor
      · rintro ⟨t', hl, fd', hf', hop⟩
        by_cases ht : t' = t
        · subst ht
          rw [hfilps, Function.update_apply] at hf'
          rw [hops] at hop
          split at hf'
          · next hfd' =>
            rw [hfd'] at hop
            exact .inr ⟨(Option.some.inj hf').symm, hop⟩
          · exact .inl ⟨t', .inr rfl, fd', hf', hop⟩
        · rw [hothers t' ht] at hf' hop
          exact .inl ⟨t', (hlive t').mp hl, fd', hf', hop⟩
      · rintro (⟨t', hl, fd', hf', hop⟩ | ⟨rfl, hop⟩)
        · refine ⟨t', (hlive t').mpr hl, fd', ?_⟩
          by_cases ht : t' = t
          · subst ht
            rw [hfilps, hops, Function.update_apply]
            split
            · next hfd' =>
              rw [hfd', hempty] at hf'
              cases hf'
            · exact ⟨hf', hop⟩
          · rw [hothers t' ht]
            exact ⟨hf', hop⟩
        · refine ⟨t, .inr rfl, fd, ?_, ?_⟩
          · rw [hfilps, Function.update_self]
          · rw [hops]
            exact hop
    rw [hrest]
    split
    · next hg =>
      subst hg
      rw [Finset.mem_union, h.ops]
      exact or_congr Iff.rfl ⟨fun hop => ⟨rfl, hop⟩, fun hop => hop.2⟩
    · next hg =>
      rw [h.ops]
      exact ⟨.inl, fun hw => hw.resolve_right fun h => hg h.1⟩
  · rw [hdmap]
    exact h.dmap major

structure Filling (C : SelectConfig) (s₀ : SelState) (a : SelectArgs) (sets : ℕ → Ops) (block : Bool)
    (t fd : ℕ) (s : SelState) : Prop where
  booked : Booked C (some t) s
  requestor : (s.selecttab t).requestor = none
  asks : (s.selecttab t).ops = sets
  nfds : (s.selecttab t).nfds ≤ fd
  own : ∀ fd' f, (s.selecttab t).filps fd' = some f →
    fd' < fd ∧ Reached s₀ a sets fd' ∧ a.getFilp fd' = .ok f
  goes : ∀ fd' < fd, Goes s₀ a sets fd'
  others : ∀ t', t' ≠ t → s.selecttab t' = s₀.selecttab t' ∨ (s.selecttab t').requestor = none
  files : ∀ f, (s.filp f).fdtype = (s₀.filp f).fdtype
  deferred : (s.selecttab t).deferred = false
  blocks : (s.selecttab t).block = block
  ready : Sleeps s₀ a sets → (s.selecttab t).nreadyfds = 0

variable {block : Bool}

theorem Filling.apart (h : Filling C s₀ a sets block t fd s) (hfresh : Fresh s₀ a sets) :
    Apart (some t) s t := by
  intro t' ht hl fd₁ fd₂ f hf hf'
  obtain ⟨-, hsel, hget⟩ := h.own fd₂ f hf'
  have hreq := (live_some ht).mp hl
  rw [(h.others t' ht).resolve_right hreq] at hf hreq
  exact hfresh fd₂ f hsel hget t' hreq fd₁ hf

theorem Filling.cancel (h : Filling C s₀ a sets block t fd s) (hfresh : Fresh s₀ a sets) :
    Booked C none (selectCancelAll C t s) := by
  obtain ⟨hend, hothers, hreq, -, hdmap⟩ :=
    cancelAll_spec (h.booked.cancelling (.inr rfl) (h.apart hfresh))
  refine hend.booked (fun t' ht => only_filled ht)
    (fun h => by cases h) (fun t' ht hr => ?_) (fun major => ?_) rfl rfl (fun _ _ => rfl)
    (hreq.trans h.requestor) fun fd' _ => hend.none fd'
  · rw [hothers t' ht] at hr ⊢
    exact h.booked.quiet t' hr
  · rw [hdmap]
    exact h.booked.dmap major

theorem Filling.goes_next (h : Filling C s₀ a sets block t fd s) (hgoes : Goes s₀ a sets fd) :
    ∀ fd' < fd + 1, Goes s₀ a sets fd' := by
  intro fd' hfd'
  rcases Nat.lt_succ_iff_lt_or_eq.mp hfd' with hlt | rfl
  · exact h.goes fd' hlt
  · exact hgoes

theorem Filling.next (h : Filling C s₀ a sets block t fd s) (hgoes : Goes s₀ a sets fd) :
    Filling C s₀ a sets block t (fd + 1) s :=
  { h with
    nfds := Nat.le_succ_of_le h.nfds
    goes := h.goes_next hgoes
    own := fun fd' f hf =>
      have hown := h.own fd' f hf
      ⟨Nat.lt_succ_of_lt hown.1, hown.2⟩ }

theorem Booked.refill {e : SelectEntry} (h : Booked C (some t) s)
    (hreq : (s.selecttab t).requestor = none) (he : SameBooks (s.selecttab t) e) :
    Booked C (some t) (setEntry t e s) := by
  have hs : SameTable s (setEntry t e s) := .setEntry he
  refine ⟨fun t' hl => h.slot t' ((hs.live_iff t').mp hl), fun t' hl fd f hf => ?_,
    fun t' ht hl fd hfd => ?_, fun t' hr => ?_, fun f => ?_, fun f op => ?_, h.dmap⟩
  · rw [(hs.entry t').filps] at hf
    rw [(hs.entry t').nfds]
    exact h.within t' ((hs.live_iff t').mp hl) fd f hf
  · rw [(hs.entry t').nfds] at hfd
    rw [(hs.entry t').filps]
    exact h.dead t' ht (fun hl' => hl ((hs.live_iff t').mpr hl')) fd hfd
  · rw [(hs.entry t').requestor] at hr
    have hne : t' ≠ t := by
      rintro rfl
      exact hr hreq
    rw [entry_setEntry, if_neg hne]
    exact h.quiet t' hr
  · rw [hs.selectors, hs.held]
    exact h.selectors f
  · rw [hs.ops, hs.wanted]
    exact h.ops f op

theorem selectRequest_plain {type : FdType} (ops : Ops) (b : Bool) {answer : Option Ops}
    (released : List (ℕ × Ops)) (s : SelState) (htype : type ≠ .ASYNCH)
    (hanswer : type = .GENERAL ∨ type = .PIPE → answer ≠ none) :
    ∃ w s', selectRequest C type f ops b answer released s = (.ok w, s') ∧
      (type = .GENERAL ∨ type = .PIPE → answer = some w) ∧
      (s' = s ∨ type = .PIPE ∧ s' = released.foldl (fun s x => selectCallback C x.1 x.2 s) s) := by
  cases type with
  | FILE =>
    refine ⟨ops, s, rfl, ?_, .inl rfl⟩
    rintro (h | h) <;> cases h
  | GENERAL =>
    obtain ⟨w, rfl⟩ := Option.ne_none_iff_exists'.mp (hanswer (.inl rfl))
    exact ⟨w, s, rfl, fun _ => rfl, .inl rfl⟩
  | PIPE =>
    obtain ⟨w, rfl⟩ := Option.ne_none_iff_exists'.mp (hanswer (.inr rfl))
    exact ⟨w, _, rfl, fun _ => rfl, .inr ⟨rfl, rfl⟩⟩
  | ASYNCH => exact absurd rfl htype

theorem Filling.idle (h : Filling C s₀ a sets block t fd s) : Idle (some t) s :=
  fun _ ht => Option.some.inj ht ▸ h.requestor

theorem Filling.empty (h : Filling C s₀ a sets block t fd s) : (s.selecttab t).filps fd = none := by
  cases hf : (s.selecttab t).filps fd with
  | none => rfl
  | some f => exact absurd (h.own fd f hf).1 (lt_irrefl fd)

theorem Filling.fewer (h : Filling C s₀ a sets block t fd s) (hb : Booked C (some t) s')
    (hf : Fewer s s') : Filling C s₀ a sets block t fd s' := by
  have hself := hf.free h.requestor
  refine ⟨hb, ?_, ?_, ?_, ?_, h.goes, fun t' ht => ?_, fun f => (hf.fdtype f).trans (h.files f),
    ?_, ?_, ?_⟩
  · rw [hself, h.requestor]
  · rw [hself, h.asks]
  · rw [hself]
    exact h.nfds
  · rw [hself]
    exact h.own
  · rcases hf.entry t' with heq | ⟨-, hnone⟩
    · rw [heq]
      exact h.others t' ht
    · exact .inr hnone
  · rw [hself, h.deferred]
  · rw [hself, h.blocks]
  · rw [hself]
    exact h.ready

theorem Filling.aside {test : SelectEntry → Prop} (h : Filling C s₀ a sets block t fd s)
    (hreached : Reached s₀ a sets fd) (hget : a.getFilp fd = .ok f)
    (haside : Aside s₀ a sets fd test) : Ready (some t) s test ∧ Unnamed s f test := by
  have hsame : ∀ t', (s.selecttab t').requestor ≠ none → s.selecttab t' = s₀.selecttab t' := by
    intro t' hreq
    have ht : t' ≠ t := by
      rintro rfl
      exact hreq h.requestor
    exact (h.others t' ht).resolve_right hreq
  refine ⟨fun t' hreq htest t'' hne hl fd₁ fd₂ f' hf₁ hf₂ => ?_, fun t' hreq htest k => ?_⟩
  · have heq := hsame t' hreq
    rw [heq] at hreq htest hf₂
    obtain ⟨happart, hnames⟩ := haside t' hreq htest
    by_cases ht : t'' = t
    · rw [ht] at hf₁
      obtain ⟨hlt, hreached', hget'⟩ := h.own fd₁ f' hf₁
      exact hnames fd₁ hlt.le hreached' f' hget' fd₂ hf₂
    · have hreq' := (live_some ht).mp hl
      have heq' := hsame t'' hreq'
      rw [heq'] at hreq' hf₁
      exact happart t'' hne (.inl hreq') fd₁ fd₂ f' hf₁ hf₂
  · have heq := hsame t' hreq
    rw [heq] at hreq htest ⊢
    exact (haside t' hreq htest).2 fd le_rfl hreached f hget k

theorem Filling.enter (h : Filling C s₀ a sets block t fd s) (hfd : fd < C.OPEN_MAX)
    (hsel : Reached s₀ a sets fd) (hget : a.getFilp fd = .ok f) (hgoes : Goes s₀ a sets fd)
    (hothers : ∀ t', t' ≠ t → s'.selecttab t' = s.selecttab t')
    (hentry : s'.selecttab t = { s.selecttab t with
      filps := Function.update (s.selecttab t).filps fd (some f)
      ready := (s'.selecttab t).ready
      nreadyfds := (s'.selecttab t).nreadyfds })
    (hready : Sleeps s₀ a sets → (s'.selecttab t).nreadyfds = 0)
    (hfilp : ∀ g, s'.filp g = if g = f then { s.filp f with
      filpSelectOps := (s.filp f).filpSelectOps ∪ sets fd } else s.filp g)
    (hdmap : s'.dmapSelFilp = s.dmapSelFilp) :
    Filling C s₀ a sets block t (fd + 1) (enter t fd f s') := by
  have hself : (Select.enter t fd f s').selecttab t = { s'.selecttab t with nfds := fd + 1 } :=
    (entry_setEntry t).trans (if_pos rfl)
  have hother : ∀ t', t' ≠ t → (Select.enter t fd f s').selecttab t' = s.selecttab t' :=
    fun t' ht => ((entry_setEntry t').trans (if_neg ht)).trans (hothers t' ht)
  have hf : s'.filp f = { s.filp f with
      filpSelectOps := (s.filp f).filpSelectOps ∪ sets fd } := by
    rw [hfilp, if_pos rfl]
  have hfile : ∀ g, (Select.enter t fd f s').filp g = if g = f then { s.filp f with
      filpSelectOps := (s.filp f).filpSelectOps ∪ sets fd
      filpSelectors := (s.filp f).filpSelectors + 1 } else s.filp g := by
    intro g
    refine (filp_setFilp g).trans ?_
    split
    · exact congrArg (fun x : Filp => { x with filpSelectors := x.filpSelectors + 1 }) hf
    · next hg => exact (hfilp g).trans (if_neg hg)
  refine ⟨h.booked.enter (f := f) h.requestor h.nfds hfd hother ?_ ?_ ?_ ?_ (fun g => ?_)
    (fun g => ?_) hdmap, ?_, ?_, ?_, fun fd' g hg => ?_, h.goes_next hgoes,
    fun t' ht => ?_, fun g => ?_, ?_, ?_, fun hsleeps => ?_⟩
  · rw [hself, hentry]
    exact h.requestor
  · rw [hself, hentry]
  · rw [hself, hentry]
  · rw [hself]
  · rw [hfile]
    split
    · next hg => rw [hg]
    · rfl
  · rw [hfile, h.asks]
    split
    · rfl
    · rfl
  · rw [hself, hentry]
    exact h.requestor
  · rw [hself, hentry]
    exact h.asks
  · rw [hself]
  · rw [hself, hentry] at hg
    dsimp only at hg
    rw [Function.update_apply] at hg
    split at hg
    · next hfd' =>
      rw [hfd', ← Option.some.inj hg]
      exact ⟨Nat.lt_succ_self fd, hsel, hget⟩
    · obtain ⟨hlt, hrest⟩ := h.own fd' g hg
      exact ⟨Nat.lt_succ_of_lt hlt, hrest⟩
  · rw [hother t' ht]
    exact h.others t' ht
  · rw [hfile]
    split
    · next hg =>
      rw [hg]
      exact h.files f
    · exact h.files g
  · rw [hself, hentry]
    exact h.deferred
  · rw [hself, hentry]
    exact h.blocks
  · rw [hself]
    exact hready hsleeps

theorem Filling.blank (h : Filling C s₀ a sets block t fd s)
    (hnone : ∀ fd' f, (s.selecttab t).filps fd' ≠ some f) (hfilp : s'.filp = s.filp)
    (hdmap : s'.dmapSelFilp = s.dmapSelFilp)
    (hothers : ∀ t', t' ≠ t → s'.selecttab t' = s.selecttab t')
    (hfree : (s'.selecttab t).requestor = none)
    (hfilps : ∀ fd' < (s'.selecttab t).nfds, (s'.selecttab t).filps fd' = none) :
    Booked C none s' := by
  have happart : Apart (some t) s t := fun t' _ _ fd₁ fd₂ f _ hf => hnone fd₂ f hf
  have hcancel := h.booked.cancelling (.inr rfl) happart
  refine Cancelling.booked { hcancel with own := fun fd' f hf => absurd hf (hnone fd' f) }
    (fun t' ht => only_filled ht)
    (fun h => by cases h) (fun t' _ hr => h.booked.quiet t' hr) h.booked.dmap hfilp hdmap hothers hfree hfilps

theorem Filling.refused {r : Errno} (h : Filling C s₀ a sets block t fd s)
    (hsel : Selected a sets fd) (hother : r ≠ .EBADF) (hget : a.getFilp fd = .error r) :
    Filling C s₀ a sets block t (fd + 1)
      (setEntry t (ops2tab allOps fd (s.selecttab t)) s) := by
  have hgoes : Goes s₀ a sets fd := by
    refine fun _ => ⟨fun hbad => ?_, fun f hok => ?_⟩
    · exact hother (Except.error.inj (hget.symm.trans hbad))
    · rw [hget] at hok
      cases hok
  have hbooks : SameBooks (s.selecttab t) (ops2tab allOps fd (s.selecttab t)) := ⟨rfl, rfl, rfl, rfl⟩
  have hself : (setEntry t (ops2tab allOps fd (s.selecttab t)) s).selecttab t =
      ops2tab allOps fd (s.selecttab t) := (entry_setEntry t).trans (if_pos rfl)
  refine Filling.next ⟨h.booked.refill h.requestor hbooks, ?_, ?_, ?_, fun fd' f hf => ?_,
    h.goes, fun t' ht => ?_, h.files, ?_, ?_, fun hsleeps => ?_⟩ hgoes
  · rw [hself]
    exact h.requestor
  · rw [hself]
    exact h.asks
  · rw [hself]
    exact h.nfds
  · rw [hself] at hf
    exact h.own fd' f hf
  · rw [entry_setEntry, if_neg ht]
    exact h.others t' ht
  · rw [hself]
    exact h.deferred
  · rw [hself]
    exact h.blocks
  · obtain ⟨f, w, hok, -⟩ := hsleeps.2 fd hsel
    rw [hget] at hok
    cases hok

theorem Filling.unsupported (h : Filling C s₀ a sets block t fd s) (hfile : s'.filp = s.filp)
    (hdmap : s'.dmapSelFilp = s.dmapSelFilp)
    (hothers : ∀ t', t' ≠ t → s'.selecttab t' = s.selecttab t')
    (hself : s'.selecttab t = { s.selecttab t with
      filps := Function.update (s.selecttab t).filps fd (some f) })
    (hfirst : ∀ fd' < fd, Selected a sets fd' → ∀ g, a.getFilp fd' ≠ .ok g) : Booked C none s' := by
  have hnone : ∀ fd' g, (s.selecttab t).filps fd' ≠ some g := by
    intro fd' g hg
    obtain ⟨hlt, hreached, hget⟩ := h.own fd' g hg
    exact hfirst fd' hlt hreached.1 g hget
  refine h.blank hnone hfile hdmap hothers ?_ fun fd' hfd' => ?_
  · rw [hself]
    exact h.requestor
  · rw [hself] at hfd' ⊢
    dsimp only at hfd' ⊢
    have := h.nfds
    rw [Function.update_of_ne (by omega)]
    cases hg : (s.selecttab t).filps fd' with
    | none => rfl
    | some g => exact absurd hg (hnone fd' g)

theorem scan_filling (block : Bool) (hlimit : a.nfds.toNat ≤ C.OPEN_MAX) (hplain : Plain s₀ a sets)
    (hkeeps : Fresh s₀ a sets ∨ Sleeps s₀ a sets) : ∀ n fd s,
    Filling C s₀ a sets block t fd s → fd + n = a.nfds.toNat →
    ∀ r s', scan C t a n fd s = (r, s') → (r ≠ none → Booked C none s') ∧
      (r = none → Filling C s₀ a sets block t a.nfds.toNat s') := by
  intro n
  induction n with
  | zero =>
    intro fd s h hn r s' hscan
    obtain ⟨rfl, rfl⟩ := Prod.mk.inj hscan
    exact ⟨fun hr => absurd rfl hr, fun _ => hn ▸ h⟩
  | succ n ih =>
    intro fd s h hn r s' hscan
    have hn' : fd + 1 + n = a.nfds.toNat := by omega
    unfold scan at hscan
    dsimp only at hscan
    rw [h.asks] at hscan
    split at hscan
    · next hops => exact ih (fd + 1) s (h.next fun hsel => absurd hops hsel.2) hn' r s' hscan
    next hops =>
    have hsel : Selected a sets fd := ⟨by omega, hops⟩
    have hreached : Reached s₀ a sets fd := ⟨hsel, h.goes⟩
    split at hscan
    · -- the call ends, so that it does not sleep
      next hget =>
      obtain ⟨rfl, rfl⟩ := Prod.mk.inj hscan
      refine ⟨fun _ => h.cancel (hkeeps.resolve_right fun hsleeps => ?_), fun hr => by cases hr⟩
      obtain ⟨f, w, hok, -⟩ := hsleeps.2 fd hsel
      rw [hget] at hok
      cases hok
    · next r' hother hget =>
      exact ih (fd + 1) _ (h.refused hsel (fun he => hother he) hget) hn' r s' hscan
    · next f hget =>
      obtain ⟨hasynch, hanswer, hreleased, hfirst⟩ := hplain fd f hreached hget
      generalize hs₁ : setEntry t { s.selecttab t with
        ops := sets, filps := Function.update (s.selecttab t).filps fd (some f) } s = s₁ at hscan
      have hself : s₁.selecttab t = { s.selecttab t with
          filps := Function.update (s.selecttab t).filps fd (some f) } := by
        rw [← hs₁, ← h.asks]
        exact (entry_setEntry t).trans (if_pos rfl)
      have hother : ∀ t', t' ≠ t → s₁.selecttab t' = s.selecttab t' := by
        intro t' ht
        rw [← hs₁]
        exact (entry_setEntry t').trans (if_neg ht)
      have hfile : s₁.filp = s.filp := by
        rw [← hs₁]
        rfl
      have hdmap : s₁.dmapSelFilp = s.dmapSelFilp := by
        rw [← hs₁]
        rfl
      have hlt : fd < C.OPEN_MAX := by omega
      rw [hfile] at hscan
      split at hscan
      · next htype =>
        obtain ⟨rfl, rfl⟩ := Prod.mk.inj hscan
        exact ⟨fun _ => h.unsupported hfile hdmap hother hself
          (hfirst ((h.files f).symm.trans htype)), fun hr => by cases hr⟩
      · next type htype =>
        have htype : (s₀.filp f).fdtype = some type := (h.files f).symm.trans htype
        have hgoes : Goes s₀ a sets fd := by
          refine fun _ => ⟨fun hbad => ?_, fun f' hok => ?_⟩
          · rw [hget] at hbad
            cases hbad
          · obtain rfl : f = f' := Except.ok.inj (hget.symm.trans hok)
            rw [htype]
            exact fun h => by cases h
        split at hscan
        · next hsub =>
          refine ih (fd + 1) _ (h.enter hlt hreached hget hgoes hother ?_ (fun hsleeps => ?_) (fun g => ?_)
            hdmap) hn' r s' hscan
          · rw [hself]
          · rw [hself]
            exact h.ready hsleeps
          · rw [hfile, Finset.union_eq_left.mpr hsub]
            split
            · next hg => rw [hg]
            · rfl
        · have hs₂ : setFilp f { s.filp f with
              filpSelectOps := (s.filp f).filpSelectOps ∪ sets fd } s₁ = noted t fd f (sets fd) s := by
            rw [← hs₁, ← h.asks]
            rfl
          rw [hs₂] at hscan
          have hanswer' : type = .GENERAL ∨ type = .PIPE → a.answer fd ≠ none := by
            rintro (rfl | rfl)
            · exact hanswer (.inl htype)
            · exact hanswer (.inr htype)
          obtain ⟨w, s₃, hrequest, hw, hs₃⟩ := selectRequest_plain (C := C) (f := f)
            ((s.filp f).filpSelectOps ∪ sets fd) ((noted t fd f (sets fd) s).selecttab t).block
            (a.released fd) (noted t fd f (sets fd) s)
            (fun h => hasynch (htype.trans (congrArg some h))) hanswer'
          -- the callbacks of a pipe leave the entry that is being filled alone
          have hmid : ∃ s₂, s₃ = noted t fd f (sets fd) s₂ ∧ Filling C s₀ a sets block t fd s₂ := by
            rcases hs₃ with rfl | ⟨hpipe, rfl⟩
            · exact ⟨s, rfl, h⟩
            · obtain ⟨s₂, heq, hb, hf⟩ := released_noted (f := f) (C := C) h.booked h.idle h.empty
                fun x hx => h.aside hreached hget
                  (hreleased (htype.trans (congrArg some hpipe)) x hx)
              exact ⟨s₂, heq, h.fewer hb hf⟩
          obtain ⟨s₂, rfl, h₂⟩ := hmid
          rw [hrequest] at hscan
          dsimp only at hscan
          refine ih (fd + 1) _ (h₂.enter hlt hreached hget hgoes (fun t' ht => ?_) ?_
            (fun hsleeps => ?_) (fun g => ?_) ?_) hn' r s' hscan
          · split
            · rw [entry_noted, if_neg ht]
            · rw [entry_setEntry, if_neg ht, entry_noted, if_neg ht]
          · split
            · rw [entry_noted, if_pos rfl]
            · rw [entry_setEntry, if_pos rfl, entry_noted, if_pos rfl]
              rfl
          · obtain ⟨f', ready, hget', hasks, hready, hempty⟩ := hsleeps.2 fd hsel
            obtain rfl : f = f' := Except.ok.inj (hget.symm.trans hget')
            have htype' : type = .GENERAL ∨ type = .PIPE := hasks.imp
              (fun h => Option.some.inj (htype.symm.trans h))
              fun h => Option.some.inj (htype.symm.trans h)
            obtain rfl : ready = w := Option.some.inj (hready.symm.trans (hw htype'))
            rw [if_pos hempty, entry_noted, if_pos rfl]
            exact h₂.ready hsleeps
          · split
            · exact filp_noted g
            · exact filp_noted g
          · split
            · rfl
            · rfl

end Fill

end Vfs.Select
