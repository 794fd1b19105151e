import Cs111.Vfs.SelectScan

namespace Vfs.Select
open Tally TransitionSystem

def Admitted (C : SelectConfig) (s : SelState) (a : SelectArgs) (sets : ℕ → Ops) : Prop :=
  (0 ≤ a.nfds ∧ a.nfds ≤ C.OPEN_MAX) ∧ (∃ t < C.MAXSELECTS, (s.selecttab t).requestor = none) ∧
    a.sets = .ok sets ∧ ∃ timeout, a.timeout = .ok timeout

def KeepsBooks (C : SelectConfig) (s : SelState) : Request → Prop
  | .select a => ∀ sets, Admitted C s a sets → Plain s a sets ∧ (Fresh s a sets ∨ Sleeps s a sets)
  | .callback f ops => Ready none s (wants f ops)
  | .notified major minor ops => Ready none s (onDevice s major minor ops)
  | .reply2 major minor status => ∀ ops, status = some ops → ∀ t, (s.selecttab t).requestor ≠ none →
      ¬ onDevice s major minor ops (s.selecttab t)
  | .timeout t => (s.selecttab t).requestor ≠ none → (s.selecttab t).expiry = true → Apart none s t
  | .forget p => Ready none s fun e => e.requestor = some p
  | .driverDeath driven => Ready none s (driverOf driven)
  | _ => True

section Call
variable {C : SelectConfig} {s s' : SelState} {u : Option ℕ} {t : ℕ} {a : SelectArgs}
  {e e' : SelectEntry}

@[simp] theorem setEntry_self : (setEntry t e s).selecttab t = e := Function.update_self _ _ _

@[simp] theorem setEntry_setEntry : setEntry t e' (setEntry t e s) = setEntry t e' s := by
  unfold setEntry
  rw [Function.update_idem]

theorem Booked.answerTo {p : ℕ} {r : Except Errno ℕ} (h : Booked C u s) :
    Booked C u (answerTo p r s) :=
  ⟨h.slot, h.within, h.dead, h.quiet, h.selectors, h.ops, h.dmap⟩

theorem Booked.wiped (h : Booked C none s) (ht : t < C.MAXSELECTS)
    (hreq : (s.selecttab t).requestor = none) (he : e.requestor = none)
    (hfilps : ∀ fd, e.filps fd = none) (hu : u = none ∨ u = some t) :
    Booked C u (setEntry t e s) := by
  have hlive : ∀ t', t' ≠ t → (Live u (setEntry t e s) t' ↔ Live none s t') := by
    intro t' hne
    rw [Live, Live, entry_setEntry, if_neg hne]
    rcases hu with rfl | rfl
    · exact Iff.rfl
    · exact or_congr_right ⟨fun h => absurd (Option.some.inj h).symm hne, fun h => by cases h⟩
  have hdead : ¬ Live none s t := fun hl => live_none.mp hl hreq
  refine ⟨fun t' hl => ?_, fun t' hl fd f hf => ?_, fun t' ht' hl fd hfd => ?_, fun t' hr => ?_,
    fun f => ?_, fun f op => ?_, h.dmap⟩
  · by_cases hne : t' = t
    · rw [hne]
      exact ht
    · exact h.slot t' ((hlive t' hne).mp hl)
  · rw [entry_setEntry] at hf ⊢
    split at hf
    · rw [hfilps] at hf
      cases hf
    · next hne =>
      rw [if_neg hne]
      exact h.within t' ((hlive t' hne).mp hl) fd f hf
  · rw [entry_setEntry] at hfd ⊢
    split
    · exact hfilps fd
    · next hne =>
      rw [if_neg hne] at hfd
      exact h.dead t' ht' (fun hl' => hl ((hlive t' hne).mpr hl')) fd hfd
  · rw [entry_setEntry] at hr ⊢
    split at hr
    · exact absurd he hr
    · next hne =>
      rw [if_neg hne]
      exact h.quiet t' hr
  · have hsel := h.selectors f
    refine hsel.trans (total_congr fun t' _ => ?_)
    unfold held
    by_cases hne : t' = t
    · subst hne
      rw [if_neg hdead, entry_setEntry, if_pos rfl]
      have hzero : refs C f e = 0 := tally_zero_iff.mpr fun fd _ hf => by
        rw [hfilps] at hf
        cases hf
      rw [hzero]
      split <;> rfl
    · rw [entry_setEntry, if_neg hne]
      exact if_congr (hlive t' hne).symm rfl rfl
  · refine (h.ops f op).trans (exists_congr fun t' => ?_)
    by_cases hne : t' = t
    · subst hne
      refine ⟨fun hw => absurd hw.1 hdead, ?_⟩
      rintro ⟨-, fd, hf, -⟩
      rw [entry_setEntry, if_pos rfl, hfilps] at hf
      cases hf
    · rw [entry_setEntry, if_neg hne, hlive t' hne]

theorem Booked.active (h : Booked C (some t) s) (hops : e.ops = (s.selecttab t).ops)
    (hfilps : e.filps = (s.selecttab t).filps) (hnfds : e.nfds = (s.selecttab t).nfds) (he : e.requestor ≠ none)
    (hready : e.nreadyfds = 0) (hdeferred : e.deferred = false) :
    Booked C none (setEntry t e s) := by
  have hlive : ∀ t', Live none (setEntry t e s) t' ↔ Live (some t) s t' := by
    intro t'
    rw [live_none, entry_setEntry]
    split
    · next hne =>
      rw [hne]
      exact ⟨fun _ => .inr rfl, fun _ => he⟩
    · next hne => exact (live_some hne).symm
  have hsame : ∀ t', ((setEntry t e s).selecttab t').ops = (s.selecttab t').ops ∧
      ((setEntry t e s).selecttab t').filps = (s.selecttab t').filps ∧
      ((setEntry t e s).selecttab t').nfds = (s.selecttab t').nfds := by
    intro t'
    rw [entry_setEntry]
    split
    · next hne =>
      rw [hne]
      exact ⟨hops, hfilps, hnfds⟩
    · exact ⟨rfl, rfl, rfl⟩
  refine ⟨fun t' hl => h.slot t' ((hlive t').mp hl), fun t' hl fd f hf => ?_,
    fun t' ht hl fd hfd => ?_, fun t' hr => ?_, fun f => ?_, fun f op => ?_, h.dmap⟩
  · rw [(hsame t').2.1] at hf
    rw [(hsame t').2.2]
    exact h.within t' ((hlive t').mp hl) fd f hf
  · rw [(hsame t').2.2] at hfd
    rw [(hsame t').2.1]
    exact h.dead t' ht (fun hl' => hl ((hlive t').mpr hl')) fd hfd
  · rw [entry_setEntry] at hr ⊢
    split at hr
    · next hne =>
      rw [if_pos hne]
      exact ⟨hready, hdeferred⟩
    · next hne =>
      rw [if_neg hne]
      exact h.quiet t' hr
  · have hsel := h.selectors f
    refine hsel.trans (total_congr fun t' _ => ?_)
    unfold held refs
    rw [(hsame t').2.1]
    exact if_congr (hlive t').symm rfl rfl
  · refine (h.ops f op).trans (exists_congr fun t' => ?_)
    rw [hlive, (hsame t').1, (hsame t').2.1]

theorem Booked.filling (h : Booked C none s) (ht : t < C.MAXSELECTS)
    (hreq : (s.selecttab t).requestor = none) (sets : ℕ → Ops) (block : Bool) :
    Filling C s a sets block t 0 (setEntry t { wipeSelect (s.selecttab t) with
      ops := sets, block := block, expiry := false } s) := by
  refine ⟨h.wiped ht hreq hreq (fun _ => rfl) (.inr rfl), ?_, ?_, ?_, fun fd f hf => ?_,
    fun _ hlt => absurd hlt (Nat.not_lt_zero _),
    fun t' hne => .inl ((entry_setEntry t').trans (if_neg hne)), fun _ => rfl, ?_, ?_, fun _ => ?_⟩
  · rw [setEntry_self]
    exact hreq
  · rw [setEntry_self]
  · rw [setEntry_self]
    rfl
  · rw [setEntry_self] at hf
    cases hf
  · rw [setEntry_self]
    rfl
  · rw [setEntry_self]
  · rw [setEntry_self]
    rfl

theorem doSelect_booked (h : Booked C none s) (hkeeps : KeepsBooks C s (.select a)) :
    Booked C none (doSelect C a s) := by
  unfold doSelect
  split
  · exact h.answerTo
  next hrange =>
  split
  · exact h.answerTo
  next t hfind =>
  have ht : t < C.MAXSELECTS := List.mem_range.mp (List.mem_of_find?_eq_some hfind)
  have hreq : (s.selecttab t).requestor = none := by
    have hfound := List.find?_some hfind
    exact of_decide_eq_true hfound
  simp only [setEntry_self, setEntry_setEntry]
  split
  · exact Booked.answerTo (h.wiped ht hreq hreq (fun _ => rfl) (.inl rfl))
  next sets hsets =>
  split
  · exact Booked.answerTo (h.wiped ht hreq hreq (fun _ => rfl) (.inl rfl))
  next timeout htimeout =>
  obtain ⟨hplain, hfresh⟩ :=
    hkeeps sets ⟨⟨by omega, by omega⟩, ⟨t, ht, hreq⟩, hsets, timeout, htimeout⟩
  have hlimit : a.nfds.toNat ≤ C.OPEN_MAX := by omega
  have hall := scan_filling _ hlimit hplain hfresh a.nfds.toNat 0 _
    (h.filling ht hreq sets (decide (timeout ≠ .poll))) (Nat.zero_add _)
  split
  · next r s' hscan =>
    exact Booked.answerTo ((hall _ _ hscan).1 fun h => by cases h)
  · next s' hscan =>
    have hfill := (hall _ _ hscan).2 rfl
    split
    · next hready =>
      refine Booked.answerTo (hfill.cancel (hfresh.resolve_right fun hsleeps => ?_))
      have hblock : (s'.selecttab t).block = true := by
        rw [hfill.blocks]
        exact decide_eq_true (hsleeps.1 timeout htimeout)
      have hzero := hfill.ready hsleeps
      rcases hready with hpos | ⟨hno, -⟩
      · omega
      · exact hno hblock
    · next hready =>
      have hzero : (s'.selecttab t).nreadyfds = 0 := by omega
      exact hfill.booked.active rfl rfl rfl (fun h => by cases h) hzero hfill.deferred

theorem openFilp_booked {f : ℕ} {fdtype : Option FdType} {dev : Option (ℕ × ℕ)}
    (h : Booked C none s)
    (hunused : ∀ t, (s.selecttab t).requestor ≠ none → ∀ fd, (s.selecttab t).filps fd ≠ some f) :
    Booked C none (openFilp f fdtype dev s) := by
  refine ⟨h.slot, h.within, h.dead, h.quiet, fun g => ?_, fun g op => ?_, h.dmap⟩
  · unfold openFilp
    rw [filp_setFilp]
    split
    · next hg =>
      refine (total_zero fun t _ => ?_).symm
      unfold held
      split
      · next hl =>
        have hzero : refs C g (s.selecttab t) = 0 :=
          tally_zero_iff.mpr fun fd _ hf => hunused t (live_none.mp hl) fd (hg ▸ hf)
        exact hzero
      · rfl
    · exact h.selectors g
  · unfold openFilp
    rw [filp_setFilp]
    split
    · next hg =>
      refine ⟨fun hop => absurd hop (Finset.notMem_empty op), ?_⟩
      rintro ⟨t, hl, fd, hf, -⟩
      exact absurd (hg ▸ hf) (hunused t (live_none.mp hl) fd)
    · exact h.ops g op

theorem handle_booked {req : Request} (h : Booked C none s) (hsent : Sent C s req)
    (hkeeps : KeepsBooks C s req) (hstep : handle C s req = some s') : Booked C none s' := by
  cases req with
  | select a => exact Option.some.inj hstep ▸ doSelect_booked h hkeeps
  | callback f ops => exact Option.some.inj hstep ▸ (selectCallback_booked h idle_none hkeeps).1
  | notified major minor ops => exact Option.some.inj hstep ▸ selectNotified_booked h hkeeps
  | reply1 major minor status =>
    have hnobody : selectReply1 C major minor status s = some s := by
      unfold selectReply1
      rw [h.dmap major]
    exact Option.some.inj (hnobody.symm.trans hstep) ▸ h
  | reply2 major minor status =>
    have hnobody : selectReply2 C major minor status s = s := selectReply2_booked h hkeeps
    exact (hnobody.symm.trans (Option.some.inj hstep)) ▸ h
  | timeout t => exact Option.some.inj hstep ▸ selectTimeoutCheck_booked h hkeeps
  | forget p => exact Option.some.inj hstep ▸ selectForget_booked h hkeeps
  | driverDeath driven => exact Option.some.inj hstep ▸ selectUnsuspend_booked h hkeeps
  | openFilp f fdtype dev => exact Option.some.inj hstep ▸ openFilp_booked h hsent.2

theorem Initial.booked (h : Initial s) : Booked C none s := by
  have hdead : ∀ t, ¬ Live none s t := fun t hl => live_none.mp hl (h.requestor t)
  refine ⟨fun t hl => absurd hl (hdead t), fun t hl => absurd hl (hdead t), fun t _ _ fd hfd => ?_,
    fun t hr => absurd (h.requestor t) hr, fun f => ?_, fun f op => ?_, h.dmap⟩
  · rw [h.nfds] at hfd
    exact absurd hfd (Nat.not_lt_zero fd)
  · rw [h.selectors]
    exact (total_zero fun t _ => if_neg (hdead t)).symm
  · rw [h.ops]
    exact ⟨fun hop => absurd hop (Finset.notMem_empty op), fun ⟨t, hl, _⟩ => absurd hl (hdead t)⟩

end Call

section Wake
variable {C : SelectConfig} {s : SelState} {t p f : ℕ} {ops : Ops}

theorem cancelAll_replied : (selectCancelAll C t s).replied = s.replied :=
  (cancelFds_cancelled (List.range (s.selecttab t).nfds)).replied

theorem cancelAll_others {t' : ℕ} (ht : t' ≠ t) :
    (selectCancelAll C t s).selecttab t' = s.selecttab t' :=
  ((entry_setEntry t').trans (if_neg ht)).trans
    ((cancelFds_cancelled (List.range (s.selecttab t).nfds)).others t' ht)

theorem cancelAll_requestor :
    ((selectCancelAll C t s).selecttab t).requestor = (s.selecttab t).requestor := by
  unfold selectCancelAll
  rw [setEntry_self]
  exact (cancelFds_cancelled (List.range (s.selecttab t).nfds)).requestor t

theorem selectReturn_answers (hp : (s.selecttab t).requestor = some p) :
    (∃ n, (selectReturn C t none s).replied = (p, .ok n) :: s.replied) ∧
      ∀ t', t' ≠ t → (selectReturn C t none s).selecttab t' = s.selecttab t' := by
  unfold selectReturn wakeup
  dsimp only
  rw [cancelAll_requestor, hp]
  refine ⟨⟨_, congrArg _ cancelAll_replied⟩, fun t' ht => ?_⟩
  exact ((entry_setEntry t').trans (if_neg ht)).trans (cancelAll_others ht)

theorem satisfied_requestor (f : ℕ) (ops : Ops) :
    ((setEntry t (satisfy f ops (s.selecttab t)) s).selecttab t).requestor =
      (s.selecttab t).requestor := by
  rw [setEntry_self, (satisfy_same f ops _).requestor]

theorem callbackSlot_others {t' : ℕ} (ht : t ≠ t') :
    (callbackSlot C f ops t' s).selecttab t = s.selecttab t := by
  unfold callbackSlot
  split
  · rfl
  · next hreq =>
    split
    · obtain ⟨q, hq⟩ := Option.ne_none_iff_exists'.mp hreq
      have hq' := (satisfied_requestor f ops).trans hq
      rw [(selectReturn_answers hq').2 t ht, entry_setEntry, if_neg ht]
    · rfl

theorem callbackSlot_replied (t' : ℕ) :
    ∃ new, (callbackSlot C f ops t' s).replied = new ++ s.replied := by
  unfold callbackSlot
  split
  · exact ⟨[], rfl⟩
  · next hreq =>
    split
    · obtain ⟨q, hq⟩ := Option.ne_none_iff_exists'.mp hreq
      have hq' := (satisfied_requestor f ops).trans hq
      obtain ⟨n, hn⟩ := (selectReturn_answers hq').1
      exact ⟨[(q, .ok n)], hn⟩
    · exact ⟨[], rfl⟩

theorem callbackSlot_wakes (hp : (s.selecttab t).requestor = some p)
    (hw : wants f ops (s.selecttab t)) :
    ∃ n, (callbackSlot C f ops t s).replied = (p, .ok n) :: s.replied := by
  unfold callbackSlot
  rw [if_neg (by rw [hp]; exact fun h => by cases h), if_pos hw]
  have hp' := (satisfied_requestor f ops).trans hp
  exact (selectReturn_answers hp').1

theorem selectCallback_wakes (ht : t < C.MAXSELECTS) (hp : (s.selecttab t).requestor = some p)
    (hw : wants f ops (s.selecttab t)) :
    ∃ new n, (selectCallback C f ops s).replied = new ++ s.replied ∧ (p, .ok n) ∈ new := by
  have hkeep : ∀ (slots : List ℕ) (s : SelState),
      ∃ new, (slots.foldl (fun s t => callbackSlot C f ops t s) s).replied = new ++ s.replied := by
    intro slots
    induction slots with
    | nil => exact fun _ => ⟨[], rfl⟩
    | cons t slots ih =>
      intro s
      obtain ⟨first, hfirst⟩ := callbackSlot_replied t
      obtain ⟨rest, hrest⟩ := ih (callbackSlot C f ops t s)
      exact ⟨rest ++ first, by rw [List.foldl_cons, hrest, hfirst, List.append_assoc]⟩
  have hslots : ∀ slots : List ℕ, t ∈ slots → ∀ s : SelState,
      (s.selecttab t).requestor = some p → wants f ops (s.selecttab t) →
      ∃ new n, (slots.foldl (fun s t => callbackSlot C f ops t s) s).replied = new ++ s.replied ∧
        (p, .ok n) ∈ new := by
    intro slots
    induction slots with
    | nil => exact fun hmem => absurd hmem List.not_mem_nil
    | cons t' slots ih =>
      intro hmem s hp hw
      by_cases htt : t = t'
      · subst htt
        obtain ⟨n, hn⟩ := callbackSlot_wakes (C := C) hp hw
        obtain ⟨rest, hrest⟩ := hkeep slots (callbackSlot C f ops t s)
        refine ⟨rest ++ [(p, .ok n)], n, ?_, List.mem_append_right _ List.mem_cons_self⟩
        rw [List.foldl_cons, hrest, hn, List.append_assoc, List.singleton_append]
      · have hsame : (callbackSlot C f ops t' s).selecttab t = s.selecttab t :=
          callbackSlot_others htt
        obtain ⟨new, n, hnew, hmem'⟩ := ih ((List.mem_cons.mp hmem).resolve_left htt)
          (callbackSlot C f ops t' s) (by rw [hsame, hp]) (by rw [hsame]; exact hw)
        obtain ⟨first, hfirst⟩ := callbackSlot_replied t'
        refine ⟨new ++ first, n, ?_, List.mem_append_left _ hmem'⟩
        rw [List.foldl_cons, hnew, hfirst, List.append_assoc]
  exact hslots _ (List.mem_range.mpr ht) s hp hw

end Wake

section Runs
variable (C : SelectConfig)

def selectorsOf (s : SelState) (f : ℕ) : ℕ :=
  total C.MAXSELECTS id fun t =>
    if (s.selecttab t).requestor ≠ none then refs C f (s.selecttab t) else 0

structure BooksRight (s : SelState) : Prop where
  selectors : ∀ f, (s.filp f).filpSelectors = selectorsOf C s f
  ops : ∀ f op, op ∈ (s.filp f).filpSelectOps ↔ ∃ t < C.MAXSELECTS,
    (s.selecttab t).requestor ≠ none ∧
      ∃ fd, (s.selecttab t).filps fd = some f ∧ op ∈ (s.selecttab t).ops fd
  wakes : ∀ f ops t p, t < C.MAXSELECTS → (s.selecttab t).requestor = some p →
    wants f ops (s.selecttab t) →
      ∃ new n, (selectCallback C f ops s).replied = new ++ s.replied ∧ (p, .ok n) ∈ new

variable {C}

theorem Booked.right {s : SelState} (h : Booked C none s) : BooksRight C s := by
  refine ⟨fun f => (h.selectors f).trans (total_congr fun t _ => if_congr live_none rfl rfl),
    fun f op => (h.ops f op).trans ⟨?_, ?_⟩, fun f ops t p => selectCallback_wakes⟩
  · rintro ⟨t, hl, hrest⟩
    exact ⟨t, h.slot t hl, live_none.mp hl, hrest⟩
  · rintro ⟨t, -, hreq, hrest⟩
    exact ⟨t, live_none.mpr hreq, hrest⟩

end Runs

section Sleepers

def tty (fd : ℕ) : Ops := if fd = 0 then {.SEL_RD} else ∅

def readTty (p : ℕ) : SelectArgs where
  p := p
  nfds := 1
  sets := .ok tty
  timeout := .ok .forever
  getFilp _ := .ok 0
  answer _ := some ∅
  released _ := []
  copied := .ok ()

def noSelects : SelState where
  selecttab _ := ⟨none, fun _ => ∅, fun _ => ∅, fun _ => none, false, 0, 0, 0, false, false⟩
  filp _ := ⟨none, none, 0, 0, ∅, false, false, false⟩
  dmapSelFilp _ := none
  replied := []

def twoSelects : SelectConfig := ⟨2, 1⟩

def ttyOpen : SelState := openFilp 0 (some .GENERAL) (some (4, 0)) noSelects

def oneSleeps : SelState := doSelect twoSelects (readTty 0) ttyOpen

theorem noSelects_initial : Initial noSelects :=
  ⟨fun _ => rfl, fun _ => rfl, fun _ => rfl, fun _ => rfl, fun _ => rfl⟩

theorem ttyOpen_sent : Sent twoSelects noSelects (.openFilp 0 (some .GENERAL) (some (4, 0))) :=
  ⟨rfl, fun _ h => absurd rfl h⟩

theorem readTty_keeps : KeepsBooks twoSelects ttyOpen (.select (readTty 0)) := by
  rintro sets ⟨-, -, hsets, -⟩
  obtain rfl : tty = sets := Except.ok.inj hsets
  refine ⟨fun fd f _ hget => ?_, .inr ⟨fun w hw => ?_, fun fd _ => ⟨0, ∅, rfl, .inl rfl, rfl, ?_⟩⟩⟩
  · obtain rfl : 0 = f := Except.ok.inj hget
    exact ⟨by decide, fun _ => Option.some_ne_none _, fun _ x hx => absurd hx List.not_mem_nil,
      fun h => by cases h⟩
  · obtain rfl : .forever = w := Except.ok.inj hw
    decide
  · exact Finset.empty_inter _

def openTty : Request := .openFilp 0 (some .GENERAL) (some (4, 0))

theorem oneSleeps_run {ok : List (SelState × Request) → SelState → Request → Prop}
    (hopen : ok [] noSelects openTty)
    (hselect : ok [(noSelects, openTty)] ttyOpen (.select (readTty 0))) :
    Run (selectSystem twoSelects) ok [(ttyOpen, .select (readTty 0)), (noSelects, openTty)]
      oneSleeps := by
  have hfirst : Run (selectSystem twoSelects) ok [(noSelects, openTty)] ttyOpen :=
    .next (.start noSelects_initial) hopen ⟨ttyOpen_sent, rfl⟩
  exact .next hfirst hselect ⟨trivial, rfl⟩

end Sleepers

end Vfs.Select
