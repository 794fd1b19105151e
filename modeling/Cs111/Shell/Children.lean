import Cs111.Shell.Shell

namespace Shell
open TransitionSystem

def Stage.inLoop : Stage → Bool
  | .reading | .forking _ | .parent _ _ => true
  | .child _ | .program | .left | .ended _ => false

def InLoop (s : State) (p : Pid) : Prop := ∃ x, s p = some x ∧ x.stage.inLoop = true

def HasLeft (s : State) (p : Pid) : Prop :=
  ∃ x, s p = some x ∧ (x.stage = .left ∨ ∃ st, x.stage = .ended st)

def OneShell (shell : Pid) (s : State) : Prop :=
  (∀ p, InLoop s p → p = shell) ∧ (InLoop s shell ∨ HasLeft s shell)

def keepsChild : Event → Prop
  | .fails _ => False
  | _ => True

section Loops
variable {s s' : State} {p q i shell : Pid} {e : Event}

theorem inLoop_set {x : Process} (h : InLoop (s.set p x) i) :
    (i = p ∧ x.stage.inLoop = true) ∨ InLoop s i := by
  obtain ⟨y, hy, hloop⟩ := h
  rcases set_some hy with ⟨rfl, rfl⟩ | ⟨-, hy⟩
  · exact .inl ⟨rfl, hloop⟩
  · exact .inr ⟨y, hy, hloop⟩

theorem inLoop_of_stage {x : Process} (hx : s p = some x) (h : x.stage.inLoop = true) :
    InLoop s p := ⟨x, hx, h⟩

theorem step_inLoop (h : Step s p e s') (he : keepsChild e) (hi : InLoop s' i) : InLoop s i := by
  cases h with
  | blank hx hstage =>
    rcases inLoop_set hi with ⟨rfl, -⟩ | hi
    · exact inLoop_of_stage hx (by rw [hstage]; rfl)
    · exact hi
  | exit =>
    rcases inLoop_set hi with ⟨-, hloop⟩ | hi
    · cases hloop
    · exact hi
  | command hx hstage =>
    rcases inLoop_set hi with ⟨rfl, -⟩ | hi
    · exact inLoop_of_stage hx (by rw [hstage]; rfl)
    · exact hi
  | eof =>
    rcases inLoop_set hi with ⟨-, hloop⟩ | hi
    · cases hloop
    · exact hi
  | noFork hx hstage =>
    rcases inLoop_set hi with ⟨rfl, -⟩ | hi
    · exact inLoop_of_stage hx (by rw [hstage]; rfl)
    · exact hi
  | fork hx hstage =>
    rcases inLoop_set hi with ⟨-, hloop⟩ | hi
    · cases hloop
    · rcases inLoop_set hi with ⟨rfl, -⟩ | hi
      · exact inLoop_of_stage hx (by rw [hstage]; rfl)
      · exact hi
  | fails => cases he
  | execs =>
    rcases inLoop_set hi with ⟨-, hloop⟩ | hi
    · cases hloop
    · exact hi
  | reaps hx hstage =>
    rcases inLoop_set hi with ⟨rfl, -⟩ | ⟨y, hy, hloop⟩
    · exact inLoop_of_stage hx (by rw [hstage]; rfl)
    · exact ⟨y, (removed_some hy).2, hloop⟩
  | noneEnded hx hstage =>
    rcases inLoop_set hi with ⟨rfl, -⟩ | hi
    · exact inLoop_of_stage hx (by rw [hstage]; rfl)
    · exact hi
  | ends =>
    rcases inLoop_set hi with ⟨-, hloop⟩ | ⟨y, hy, hloop⟩
    · cases hloop
    · obtain ⟨z, hz, hsame, -⟩ := orphan_some hy
      exact ⟨z, hz, hsame ▸ hloop⟩

structure Shelled (shell : Pid) (s : State) : Prop where
  here : ∃ x, s shell = some x ∧ x.parent = none
  one : OneShell shell s

theorem step_other (h : Step s p e s') (hi : shell ≠ p) {x : Process} (hx : s shell = some x)
    (hroot : x.parent = none) : s' shell = some x := by
  have horphan : s.orphan p shell = some x := by
    rw [State.orphan, hx, Option.map_some, if_neg (by rw [hroot]; nofun)]
  cases h with
  | @fork _ _ q _ _ hfresh =>
    have hq : shell ≠ q := by
      rintro rfl
      rw [hx] at hfresh
      cases hfresh
    rw [set_of_ne hq, set_of_ne hi]
    exact hx
  | @reaps _ y _ _ q _ _ _ hy hparent =>
    have hq : shell ≠ q := by
      rintro rfl
      obtain rfl := Option.some.inj (hx.symm.trans hy)
      rw [hroot] at hparent
      cases hparent
    rw [set_of_ne hi, Function.update_of_ne hq]
    exact hx
  | ends =>
    rw [set_of_ne hi]
    exact horphan
  | _ =>
    rw [set_of_ne hi]
    exact hx

theorem step_shelled (hs : Shelled shell s) (h : Step s p e s') (he : keepsChild e) :
    Shelled shell s' := by
  obtain ⟨⟨x, hx, hroot⟩, hone, hthere⟩ := hs
  have hone' : ∀ i, InLoop s' i → i = shell := fun i hi => hone i (step_inLoop h he hi)
  by_cases hp : shell = p
  · subst hp
    -- the shell's own steps: it stays in the loop, or leaves it
    have hstays : ∀ {stage args}, s' shell = some { x with stage := stage, args := args } →
        stage.inLoop = true ∨ stage = .left ∨ (∃ st, stage = .ended st) → Shelled shell s' := by
      rintro stage args hx' hstage
      refine ⟨⟨_, hx', hroot⟩, hone', ?_⟩
      rcases hstage with hloop | hleft
      · exact .inl ⟨_, hx', hloop⟩
      · exact .inr ⟨_, hx', hleft⟩
    have hnotchild : ∀ {c}, x.stage ≠ .child c := by
      intro c hchild
      rcases hthere with ⟨y, hy, hloop⟩ | ⟨y, hy, hleft⟩
      · obtain rfl := Option.some.inj (hx.symm.trans hy)
        rw [hchild] at hloop
        cases hloop
      · obtain rfl := Option.some.inj (hx.symm.trans hy)
        rw [hchild] at hleft
        rcases hleft with hleft | ⟨st, hleft⟩
        · cases hleft
        · cases hleft
    cases h with
    | blank hy hstage =>
      obtain rfl := Option.some.inj (hx.symm.trans hy)
      exact hstays set_self (.inl (by rw [hstage]; rfl))
    | exit hy =>
      obtain rfl := Option.some.inj (hx.symm.trans hy)
      exact hstays set_self (.inr (.inl rfl))
    | command hy =>
      obtain rfl := Option.some.inj (hx.symm.trans hy)
      exact hstays set_self (.inl rfl)
    | eof hy =>
      obtain rfl := Option.some.inj (hx.symm.trans hy)
      exact hstays set_self (.inr (.inl rfl))
    | noFork hy =>
      obtain rfl := Option.some.inj (hx.symm.trans hy)
      exact hstays set_self (.inl rfl)
    | @fork _ _ q hy _ hfresh =>
      obtain rfl := Option.some.inj (hx.symm.trans hy)
      have hq : shell ≠ q := by
        rintro rfl
        rw [hx] at hfresh
        cases hfresh
      exact hstays ((set_of_ne hq).trans set_self) (.inl rfl)
    | fails => cases he
    | execs hy hstage =>
      obtain rfl := Option.some.inj (hx.symm.trans hy)
      exact absurd hstage hnotchild
    | reaps hy =>
      obtain rfl := Option.some.inj (hx.symm.trans hy)
      exact hstays set_self (.inl rfl)
    | noneEnded hy =>
      obtain rfl := Option.some.inj (hx.symm.trans hy)
      exact hstays set_self (.inl rfl)
    | @ends _ st hy =>
      obtain rfl := Option.some.inj (hx.symm.trans hy)
      exact hstays set_self (.inr (.inr ⟨st, rfl⟩))
  · have hx' := step_other h hp hx hroot
    refine ⟨⟨x, hx', hroot⟩, hone', ?_⟩
    refine hthere.imp ?_ ?_
    · rintro ⟨y, hy, hloop⟩
      exact ⟨y, hx'.trans (hx.symm.trans hy), hloop⟩
    · rintro ⟨y, hy, hleft⟩
      exact ⟨y, hx'.trans (hx.symm.trans hy), hleft⟩

theorem started_shelled (shell : Pid) : Shelled shell (started shell) := by
  have hself : started shell shell = some ⟨none, List.replicate numargs none, .reading⟩ :=
    Function.update_self ..
  refine ⟨⟨_, hself, rfl⟩, fun p hp => ?_, .inl ⟨_, hself, rfl⟩⟩
  obtain ⟨x, hx, -⟩ := hp
  by_contra hne
  rw [started, Function.update_of_ne hne] at hx
  cases hx

end Loops

theorem oneShell_reads {shell : Pid} {past : List (State × Pid × Event)} {s : State}
    (h : Run (shellSystem shell) (fun _ _ e => keepsChild e.2) past s) : OneShell shell s := by
  have hshelled : Shelled shell s := by
    refine h.invariant (P := Shelled shell) ?_ ?_
    · rintro s rfl
      exact started_shelled shell
    · intro _ s e s' hs hok hstep
      exact step_shelled hs hstep hok
  exact hshelled.one

def listing : Command := ⟨["ls"], true, false, none, none⟩

def pausing : Command := ⟨["sleep"], false, true, none, none⟩

def freshArgs : Args := List.replicate numargs none

def readArgs (words : List String) : Args := getLine freshArgs words

theorem run_next {ok : List (State × Pid × Event) → State → Pid × Event → Prop} {shell p : Pid}
    {past : List (State × Pid × Event)} {s s' : State} {e : Event}
    (h : Run (shellSystem shell) ok past s) (hok : ok past s (p, e)) (hs : Step s p e s') :
    Run (shellSystem shell) ok ((s, p, e) :: past) s' := .next h hok hs

def shellAt (args : Args) (stage : Stage) : Process := ⟨none, args, stage⟩

theorem run_listing (ok : List (State × Pid × Event) → State → Pid × Event → Prop)
    (hok : ∀ past s words, ok past s (1, .reads words))
    (hfork : ∀ past, ok past ((started 1).set 1 (shellAt (readArgs ["ls"]) (.forking listing)))
      (1, .forks (some 2))) :
    ∃ past, Run (shellSystem 1) ok past
      ((((started 1).set 1 (shellAt (readArgs ["ls"]) (.forking listing))).set 1
        (shellAt (readArgs ["ls"]) (.parent listing 2))).set 2
        ⟨some 1, readArgs ["ls"], .child listing⟩) := by
  have hshell : started 1 1 = some (shellAt freshArgs .reading) := Function.update_self ..
  have hread : Step (started 1) 1 (.reads ["ls"])
      ((started 1).set 1 (shellAt (readArgs ["ls"]) (.forking listing))) :=
    .command hshell rfl rfl (by decide) rfl
  have hfree : (started 1).set 1 (shellAt (readArgs ["ls"]) (.forking listing)) 2 = none := by
    rw [set_of_ne (by decide), started, Function.update_of_ne (by decide)]
  exact ⟨_, .next (.next (.start rfl) (hok _ _ _) hread) (hfork _) (.fork set_self rfl hfree)⟩

theorem oneShell_reads_listing : ∃ past s, Run (shellSystem 1) (fun _ _ e => keepsChild e.2) past s ∧
    (∃ x, s 2 = some x ∧ x.stage = .child listing) ∧ OneShell 1 s := by
  obtain ⟨past, hrun⟩ := run_listing (fun _ _ e => keepsChild e.2)
    (fun _ _ _ => trivial) fun _ => trivial
  exact ⟨past, _, hrun, ⟨_, set_self, rfl⟩, oneShell_reads hrun⟩

theorem second_shell_reads : ∃ past s, Run (shellSystem 1) always past s ∧ ¬ OneShell 1 s := by
  obtain ⟨past, hrun⟩ := run_listing always (fun _ _ _ => trivial) fun _ => trivial
  have hfailed : Run (shellSystem 1) always ((_, 2, .fails .exec) :: past) _ :=
    run_next hrun trivial (.fails (c := listing) set_self rfl trivial)
  refine ⟨_, _, hfailed, fun hone => ?_⟩
  have hloops := hone.1 2 ⟨_, set_self, rfl⟩
  cases hloops

def WaitsForChild (s : State) (p : Pid) (e : Event) : Prop :=
  ∀ x, s p = some x →
    (∀ c child q z st, x.stage = .parent c child → c.background = false → e = .waits (some q) →
      s q = some z → z.stage = .ended st → ∃ y, s child = some y ∧ y.stage = .ended st) ∧
    ∀ c, x.stage = .child c → c.background = false → ∀ why, e ≠ .fails why

def NoChildren (s : State) (p : Pid) : Prop := ∀ q y, s q = some y → y.parent ≠ some p

def StartsAlone (s : State) (p : Pid) (e : Event) : Prop :=
  ∀ x c, s p = some x → c.background = false →
    (x.stage = .forking c → (∃ q, e = .forks (some q)) → NoChildren s p) ∧
    (x.stage = .child c → keepsChild e)

section Waiting
variable {s s' : State} {p q i : Pid} {e : Event}

def OnlyChild (s : State) : Prop :=
  ∀ p x c child, s p = some x → x.stage = .parent c child → c.background = false →
    ∀ q y, s q = some y → y.parent = some p → q = child

theorem OnlyChild.less (h : OnlyChild s)
    (hless : ∀ i y, s' i = some y → ∃ z, s i = some z ∧
      (y.parent = z.parent ∨ y.parent = none) ∧ ∀ c child, y.stage = .parent c child →
        z.stage = .parent c child) : OnlyChild s' := by
  intro p x c child hx hstage hfore q y hy hparent
  obtain ⟨x₀, hx₀, -, hback⟩ := hless p x hx
  obtain ⟨y₀, hy₀, hsame | hnone, -⟩ := hless q y hy
  · exact h p x₀ c child hx₀ (hback _ _ hstage) hfore q y₀ hy₀ (hsame.symm.trans hparent)
  · rw [hnone] at hparent
    cases hparent

theorem less_set {x y : Process} (hx : s p = some x) (hparent : y.parent = x.parent)
    (hstage : ∀ c child, y.stage ≠ .parent c child) : ∀ i z, s.set p y i = some z → ∃ w, s i = some w ∧
      (z.parent = w.parent ∨ z.parent = none) ∧ ∀ c child, z.stage = .parent c child →
        w.stage = .parent c child := by
  intro i z hz
  rcases set_some hz with ⟨rfl, rfl⟩ | ⟨-, hz⟩
  · exact ⟨x, hx, .inl hparent, fun c child hyes => absurd hyes (hstage c child)⟩
  · exact ⟨z, hz, .inl rfl, fun _ _ hyes => hyes⟩

theorem fork_only {x : Process} {c : Command} (h : OnlyChild s) (hx : s p = some x)
    (halone : c.background = false → NoChildren s p) :
    OnlyChild ((s.set p { x with stage := .parent c q }).set q
      { parent := some p, args := x.args, stage := .child c }) := by
  intro i y c' child hy hstage hfore j z hz hparent
  have hchild : (j = q ∧ z.parent = some p) ∨ ∃ w, s j = some w ∧ w.parent = z.parent := by
    rcases set_some hz with ⟨hj, rfl⟩ | ⟨-, hz⟩
    · exact .inl ⟨hj, rfl⟩
    · rcases set_some hz with ⟨rfl, rfl⟩ | ⟨-, hz⟩
      · exact .inr ⟨x, hx, rfl⟩
      · exact .inr ⟨z, hz, rfl⟩
  rcases set_some hy with ⟨-, rfl⟩ | ⟨-, hy⟩
  · cases hstage
  · rcases set_some hy with ⟨rfl, rfl⟩ | ⟨hip, hy⟩
    · cases hstage
      rcases hchild with ⟨hj, -⟩ | ⟨w, hw, hsame⟩
      · exact hj
      · exact absurd (hsame.trans hparent) (halone hfore j w hw)
    · rcases hchild with ⟨-, hp⟩ | ⟨w, hw, hsame⟩
      · exact absurd (Option.some.inj (hparent.symm.trans hp)) hip
      · exact h i y c' child hy hstage hfore j w hw (hsame.trans hparent)

theorem step_only (h : OnlyChild s) (hs : Step s p e s') (halone : StartsAlone s p e) :
    OnlyChild s' := by
  cases hs with
  | blank hx hstage => exact h.less (less_set hx rfl (by rw [hstage]; nofun))
  | exit hx => exact h.less (less_set hx rfl nofun)
  | command hx => exact h.less (less_set hx rfl nofun)
  | eof hx => exact h.less (less_set hx rfl nofun)
  | noFork hx => exact h.less (less_set hx rfl nofun)
  | @fork x c q hx hstage =>
    exact fork_only h hx fun hfore => (halone x c hx hfore).1 hstage ⟨q, rfl⟩
  | fails hx => exact h.less (less_set hx rfl nofun)
  | execs hx => exact h.less (less_set hx rfl nofun)
  | @reaps x y c child q st hx hstage hy =>
    refine h.less fun i z hz => ?_
    rcases set_some hz with ⟨rfl, rfl⟩ | ⟨-, hz⟩
    · exact ⟨x, hx, .inl rfl, nofun⟩
    · exact ⟨z, (removed_some hz).2, .inl rfl, fun _ _ hyes => hyes⟩
  | noneEnded hx => exact h.less (less_set hx rfl nofun)
  | @ends x st hx =>
    refine h.less fun i z hz => ?_
    rcases set_some hz with ⟨rfl, rfl⟩ | ⟨-, hz⟩
    · exact ⟨x, hx, .inl rfl, nofun⟩
    · obtain ⟨w, hw, hsame, hparent⟩ := orphan_some hz
      exact ⟨w, hw, hparent, fun _ _ hyes => hsame ▸ hyes⟩

theorem step_waits (h : OnlyChild s) (hs : Step s p e s') (halone : StartsAlone s p e) :
    WaitsForChild s p e := by
  intro x hx
  constructor
  · rintro c child q z st hstage hfore rfl hz hended
    cases hs with
    | reaps hx' hstage' hy hparent =>
      obtain rfl := Option.some.inj (hx.symm.trans hx')
      obtain rfl := Option.some.inj (hz.symm.trans hy)
      obtain rfl := h p x c child hx hstage hfore q z hz hparent
      exact ⟨z, hz, hended⟩
  · rintro c hstage hfore why rfl
    exact (halone x c hx hfore).2 hstage

end Waiting

theorem foreground_waited {shell : Pid} {past : List (State × Pid × Event)} {s s' : State}
    {p : Pid} {e : Event}
    (h : Run (shellSystem shell) (fun _ s e => StartsAlone s e.1 e.2) ((s, p, e) :: past) s') :
    WaitsForChild s p e := by
  cases h with
  | next hrun halone hstep =>
    refine step_waits ?_ hstep halone
    refine hrun.invariant (P := OnlyChild) ?_ ?_
    · rintro s rfl p x c child hx hstage
      rw [started] at hx
      by_cases hp : p = shell
      · subst hp
        rw [Function.update_self] at hx
        obtain rfl := Option.some.inj hx
        cases hstage
      · rw [Function.update_of_ne hp] at hx
        cases hx
    · intro _ s e s' hs hok hstep
      exact step_only hs hstep hok

theorem foreground_waited_listing : ∃ past s s',
    Run (shellSystem 1) (fun _ s e => StartsAlone s e.1 e.2) ((s, 1, .waits (some 2)) :: past) s' ∧
    WaitsForChild s 1 (.waits (some 2)) := by
  have halone : ∀ {s : State} {p e}, (∀ q, e ≠ .forks (some q)) → keepsChild e →
      StartsAlone s p e :=
    fun hnofork hkeeps x c _ _ => ⟨fun _ ⟨q, hq⟩ => absurd hq (hnofork q), fun _ => hkeeps⟩
  obtain ⟨past, hrun⟩ := run_listing (fun _ s e => StartsAlone s e.1 e.2)
    (fun _ _ _ => halone nofun trivial) (fun past x c hx hfore => by
      refine ⟨fun _ _ q y hy hparent => ?_, fun _ => trivial⟩
      rcases set_some hy with ⟨-, rfl⟩ | ⟨hq, hy⟩
      · cases hparent
      · rw [started, Function.update_of_ne hq] at hy
        cases hy)
  have hexecs := run_next (p := 2) (e := .execs) hrun (halone nofun trivial)
    (.execs (c := listing) rfl rfl (by decide))
  have hends := run_next (p := 2) (e := .ends 0) hexecs (halone nofun trivial)
    (.ends rfl (.inl rfl))
  have hwaits : Run (shellSystem 1) _ ((_, 1, .waits (some 2)) :: _) _ :=
    run_next hends (halone nofun trivial) (.reaps rfl rfl rfl rfl rfl)
  exact ⟨_, _, _, hwaits, foreground_waited hwaits⟩

def pausingArgs : Args := readArgs ["sleep", "&"]

def listingArgs : Args := getLine pausingArgs ["ls"]

def paused : State :=
  ((((started 1).set 1 (shellAt pausingArgs (.forking pausing))).set 1
    (shellAt pausingArgs (.parent pausing 2))).set 2 ⟨some 1, pausingArgs, .child pausing⟩).set 1
    (shellAt pausingArgs .reading)

theorem run_paused : ∃ past, Run (shellSystem 1) always past paused := by
  have hreads : Step (started 1) 1 (.reads ["sleep", "&"])
      ((started 1).set 1 (shellAt pausingArgs (.forking pausing))) :=
    .command (x := shellAt freshArgs .reading) rfl rfl rfl (by decide) rfl
  have hforks : Step ((started 1).set 1 (shellAt pausingArgs (.forking pausing))) 1
      (.forks (some 2)) _ :=
    .fork (x := shellAt pausingArgs (.forking pausing)) rfl rfl rfl
  refine ⟨_, run_next (run_next (run_next (.start rfl) trivial hreads) trivial hforks) trivial
    (.noneEnded (x := shellAt pausingArgs (.parent pausing 2)) rfl rfl rfl ?_)⟩
  intro q y st hy hparent hended
  rcases set_some hy with ⟨-, rfl⟩ | ⟨-, hy⟩
  · cases hended
  · rcases set_some hy with ⟨-, rfl⟩ | ⟨hq, hy⟩
    · cases hended
    · rcases set_some hy with ⟨-, rfl⟩ | ⟨-, hy⟩
      · cases hended
      · rw [started, Function.update_of_ne hq] at hy
        cases hy

theorem background_child_reaped : ∃ past s s' p e,
    Run (shellSystem 1) always ((s, p, e) :: past) s' ∧ ¬ WaitsForChild s p e := by
  obtain ⟨past, hrun⟩ := run_paused
  have hreads : Step paused 1 (.reads ["ls"])
      (paused.set 1 (shellAt listingArgs (.forking listing))) :=
    .command (x := shellAt pausingArgs .reading) rfl rfl rfl (by decide) rfl
  have hforks : Step (paused.set 1 (shellAt listingArgs (.forking listing))) 1
      (.forks (some 3)) _ :=
    .fork (x := shellAt listingArgs (.forking listing)) rfl rfl rfl
  have hforked := run_next (run_next hrun trivial hreads) trivial hforks
  have hended := run_next (p := 2) (e := .ends 5) hforked trivial
    (.ends (x := ⟨some 1, pausingArgs, .child pausing⟩) rfl (.inr (.inr ⟨pausing, rfl⟩)))
  have hwaits : Run (shellSystem 1) always ((_, 1, .waits (some 2)) :: _) _ :=
    run_next hended trivial (.reaps (x := shellAt listingArgs (.parent listing 3)) rfl rfl rfl rfl
      rfl)
  refine ⟨_, _, _, _, _, hwaits, fun hwaited => ?_⟩
  obtain ⟨y, hy, hyended⟩ := (hwaited _ rfl).1 listing 3 2 _ 5 rfl rfl rfl rfl rfl
  cases hy
  cases hyended

end Shell
