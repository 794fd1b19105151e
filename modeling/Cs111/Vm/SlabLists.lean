import Cs111.Lib.Doubly
import Cs111.Vm.Slaballoc

namespace Slab
variable {s s' : Slabs} {f : Sdh} {n p i : ℕ} {l l₁ l₂ : SlabList} {h : Option ℕ}

def next (s : Slabs) (p : ℕ) : Option ℕ := (s.heap p).bind (·.next)

def prev (s : Slabs) (p : ℕ) : Option ℕ := (s.heap p).bind (·.prev)

def Sdh.bare (f : Sdh) : Sdh := { f with next := none, prev := none }

def bare (s : Slabs) (p : ℕ) : Option Sdh := (s.heap p).map (·.bare)

section Pages

@[simp] theorem next_setPage : next (setPage s p f) = Function.update (next s) p f.next := by
  funext q
  by_cases hq : q = p
  · subst hq
    simp [next, setPage]
  · simp [next, setPage, Function.update_of_ne hq]

@[simp] theorem prev_setPage : prev (setPage s p f) = Function.update (prev s) p f.prev := by
  funext q
  by_cases hq : q = p
  · subst hq
    simp [prev, setPage]
  · simp [prev, setPage, Function.update_of_ne hq]

@[simp] theorem bare_setPage : bare (setPage s p f) = Function.update (bare s) p (some f.bare) := by
  funext q
  by_cases hq : q = p
  · subst hq
    simp [bare, setPage]
  · simp [bare, setPage, Function.update_of_ne hq]

@[simp] theorem listHead_setPage : (setPage s p f).listHead = s.listHead := rfl
@[simp] theorem next_setHead : next (setHead s i l h) = next s := rfl
@[simp] theorem prev_setHead : prev (setHead s i l h) = prev s := rfl
@[simp] theorem bare_setHead : bare (setHead s i l h) = bare s := rfl

theorem bare_isSome : (bare s p).isSome = (s.heap p).isSome := by simp [bare]

theorem page_ok (hp : (bare s p).isSome) : ∃ f, page s p = .ok f ∧ s.heap p = some f ∧
    bare s p = some f.bare ∧ next s p = f.next ∧ prev s p = f.prev := by
  rw [bare_isSome] at hp
  obtain ⟨f, hf⟩ := Option.isSome_iff_exists.mp hp
  exact ⟨f, by rw [page, hf], hf, by rw [bare, hf]; rfl, by rw [next, hf]; rfl, by rw [prev, hf]; rfl⟩

theorem page_bare {g : Sdh} (hp : bare s p = some g) : ∃ f, page s p = .ok f ∧ f.bare = g := by
  obtain ⟨f, hf, -, hbare, -⟩ := page_ok (s := s) (p := p) (by rw [hp]; rfl)
  exact ⟨f, hf, Option.some.inj (hbare.symm.trans hp)⟩

end Pages

structure SameBare (s s' : Slabs) : Prop where
  bare : bare s' = bare s
  pages : s'.pages = s.pages

section Writes
variable {L : List ℕ}

theorem set_next_ok (hp : (bare s p).isSome) (v : Option ℕ) :
    ∃ s', modify s p (fun g => { g with next := v }) = .ok s' ∧
      next s' = Function.update (next s) p v ∧ prev s' = prev s ∧ SameBare s s' ∧
      s'.listHead = s.listHead := by
  obtain ⟨f, hf, -, hbare, -, hprev⟩ := page_ok hp
  refine ⟨setPage s p { f with next := v }, by rw [modify, hf]; rfl, next_setPage, ?_, ⟨?_, rfl⟩, rfl⟩
  · rw [prev_setPage, ← hprev, Function.update_eq_self]
  · rw [bare_setPage, show ({ f with next := v } : Sdh).bare = f.bare from rfl, ← hbare,
      Function.update_eq_self]

theorem set_prev_ok (hp : (bare s p).isSome) (v : Option ℕ) :
    ∃ s', modify s p (fun g => { g with prev := v }) = .ok s' ∧
      next s' = next s ∧ prev s' = Function.update (prev s) p v ∧ SameBare s s' ∧
      s'.listHead = s.listHead := by
  obtain ⟨f, hf, -, hbare, hnext, -⟩ := page_ok hp
  refine ⟨setPage s p { f with prev := v }, by rw [modify, hf]; rfl, ?_, prev_setPage, ⟨?_, rfl⟩, rfl⟩
  · rw [next_setPage, ← hnext, Function.update_eq_self]
  · rw [bare_setPage, show ({ f with prev := v } : Sdh).bare = f.bare from rfl, ← hbare,
      Function.update_eq_self]

theorem unlinkNode_ok (hl : Doubly.Holds (next s) (prev s) h none L) (hn : n ∈ L)
    (hpages : ∀ p ∈ L, (bare s p).isSome) :
    ∃ s', unlinkNode s n = .ok s' ∧ next s' = Doubly.detach (next s) (prev s) n ∧
      prev s' = Doubly.detach (prev s) (next s) n ∧ SameBare s s' ∧ s'.listHead = s.listHead := by
  obtain ⟨f, hf, -, -, hnext, hprev⟩ := page_ok (hpages n hn)
  obtain ⟨s₁, hs₁, hnext₁, hprev₁, hbare₁, hhead₁⟩ : ∃ s₁,
      modifyIf s f.prev (fun g => { g with next := f.next }) = .ok s₁ ∧
      next s₁ = Doubly.detach (next s) (prev s) n ∧ prev s₁ = prev s ∧ SameBare s s₁ ∧
      s₁.listHead = s.listHead := by
    rw [Doubly.detach, hprev, hnext]
    cases hp : f.prev with
    | none => exact ⟨s, rfl, rfl, rfl, ⟨rfl, rfl⟩, rfl⟩
    | some p => exact set_next_ok (hpages p (hl.prev_mem hn (hprev.trans hp)).1) _
  obtain ⟨s₂, hs₂, hnext₂, hprev₂, hbare₂, hhead₂⟩ : ∃ s₂,
      modifyIf s₁ f.next (fun g => { g with prev := f.prev }) = .ok s₂ ∧
      next s₂ = next s₁ ∧ prev s₂ = Doubly.detach (prev s) (next s) n ∧ SameBare s₁ s₂ ∧
      s₂.listHead = s₁.listHead := by
    rw [Doubly.detach, hprev, hnext, ← hprev₁]
    cases hp : f.next with
    | none => exact ⟨s₁, rfl, rfl, rfl, ⟨rfl, rfl⟩, rfl⟩
    | some p =>
      refine set_prev_ok ?_ _
      rw [hbare₁.bare]
      exact hpages p (hl.next_mem hn (hnext.trans hp)).1
  refine ⟨s₂, ?_, hnext₂.trans hnext₁, hprev₂,
    ⟨hbare₂.bare.trans hbare₁.bare, hbare₂.pages.trans hbare₁.pages⟩, hhead₂.trans hhead₁⟩
  rw [unlinkNode, hf]
  simp only [bind, Except.bind, hs₁, hs₂]

theorem addHead_ok (hn : (bare s n).isSome)
    (hh : ∀ m, s.listHead i l = some m → (bare s m).isSome) :
    ∃ s', addHead s n i l = .ok s' ∧ next s' = Function.update (next s) n (s.listHead i l) ∧
      (prev s' = match s.listHead i l with
        | none => Function.update (prev s) n none
        | some m => Function.update (Function.update (prev s) n none) m (some n)) ∧
      bare s' = Function.update (bare s) n ((bare s n).map fun f => { f with list := l }) ∧
      s'.listHead = (setHead s i l (some n)).listHead ∧ s'.pages = s.pages := by
  obtain ⟨f, hf, -, hbare, -⟩ := page_ok hn
  have hmod : modify s n (fun f => { f with next := s.listHead i l, prev := none, list := l }) =
      .ok (setPage s n { f with next := s.listHead i l, prev := none, list := l }) := by
    rw [modify, hf]
    rfl
  have hbare' : bare (setPage s n { f with next := s.listHead i l, prev := none, list := l }) =
      Function.update (bare s) n ((bare s n).map fun f => { f with list := l }) := by
    rw [bare_setPage, hbare]
    rfl
  cases hm : s.listHead i l with
  | none =>
    rw [hm] at hmod hbare'
    refine ⟨setHead (setPage s n { f with next := none, prev := none, list := l }) i l (some n),
      ?_, ?_, ?_, hbare', rfl, rfl⟩
    · simp only [addHead, hm, hmod]
      rfl
    · rw [next_setHead, next_setPage]
    · rw [prev_setHead, prev_setPage]
  | some m =>
    rw [hm] at hmod hbare'
    have hsome : (bare (setHead (setPage s n { f with next := some m, prev := none, list := l }) i l
        (some n)) m).isSome := by
      rw [bare_setHead, hbare']
      by_cases hmn : m = n
      · subst hmn
        rw [Function.update_self, Option.isSome_map]
        exact hn
      · rw [Function.update_of_ne hmn]
        exact hh m hm
    obtain ⟨s', hs', hnext, hprev, hsame, hhead⟩ := set_prev_ok hsome (some n)
    refine ⟨s', ?_, ?_, ?_, hsame.bare.trans hbare', hhead, hsame.pages⟩
    · simp only [addHead, hm, hmod]
      exact hs'
    · rw [hnext, next_setHead, next_setPage]
    · rw [hprev, prev_setHead, prev_setPage]

end Writes

def set2 {α : Type*} (f : ℕ → SlabList → α) (i : ℕ) (l : SlabList) (v : α) : ℕ → SlabList → α :=
  Function.update f i (Function.update (f i) l v)

section Set2
variable {α : Type*} {f : ℕ → SlabList → α} {i' : ℕ} {l' : SlabList} {v : α}

@[simp] theorem set2_self : set2 f i l v i l = v := by simp [set2]

theorem set2_ne (h : ¬ (i' = i ∧ l' = l)) : set2 f i l v i' l' = f i' l' := by
  by_cases hi : i' = i
  · subst hi
    rw [set2, Function.update_self, Function.update_of_ne fun hl => h ⟨rfl, hl⟩]
  · rw [set2, Function.update_of_ne hi]

theorem mem_set2 {L : ℕ → SlabList → List ℕ} {xs : List ℕ} {q : ℕ}
    (h : q ∈ set2 L i l xs i' l') : (i' = i ∧ l' = l ∧ q ∈ xs) ∨ (¬ (i' = i ∧ l' = l) ∧ q ∈ L i' l') := by
  by_cases hil : i' = i ∧ l' = l
  · obtain ⟨rfl, rfl⟩ := hil
    rw [set2_self] at h
    exact .inl ⟨rfl, rfl, h⟩
  · rw [set2_ne hil] at h
    exact .inr ⟨hil, h⟩

end Set2

structure Linked (s : Slabs) (L : ℕ → SlabList → List ℕ) : Prop where
  lists : ∀ i l, Doubly.Holds (next s) (prev s) (s.listHead i l) none (L i l)
  apart : ∀ {i l i' l' p}, p ∈ L i l → p ∈ L i' l' → i = i' ∧ l = l'
  pages : ∀ {i l p}, p ∈ L i l → (bare s p).isSome

section Linked
variable {L : ℕ → SlabList → List ℕ}

theorem Linked.take (h : Linked s L) (hn : n ∈ L i l)
    (hnext : next s' = Doubly.detach (next s) (prev s) n)
    (hprev : prev s' = Doubly.detach (prev s) (next s) n) (hbare : bare s' = bare s)
    (hhead : s'.listHead = set2 s.listHead i l
      (if s.listHead i l = some n then next s n else s.listHead i l)) :
    Linked s' (set2 L i l ((L i l).erase n)) := by
  have hsub : ∀ {i' l' p}, p ∈ set2 L i l ((L i l).erase n) i' l' → p ∈ L i' l' := by
    intro i' l' p hp
    rcases mem_set2 hp with ⟨rfl, rfl, hp⟩ | ⟨-, hp⟩
    · exact List.mem_of_mem_erase hp
    · exact hp
  refine ⟨fun i' l' => ?_, fun hp hp' => h.apart (hsub hp) (hsub hp'), fun hp => ?_⟩
  · rw [hnext, hprev, hhead]
    by_cases hil : i' = i ∧ l' = l
    · obtain ⟨rfl, rfl⟩ := hil
      rw [set2_self, set2_self]
      exact (h.lists i' l').detach hn
    · rw [set2_ne hil, set2_ne hil]
      exact (h.lists i l).detach_other hn (h.lists i' l') fun p hp hp' => hil (h.apart hp hp')
  · rw [hbare]
    exact h.pages (hsub hp)

theorem Linked.take_notMem (h : Linked s L) (hn : n ∈ L i l) (i' : ℕ) (l' : SlabList) :
    n ∉ set2 L i l ((L i l).erase n) i' l' := by
  intro hmem
  rcases mem_set2 hmem with ⟨-, -, hmem⟩ | ⟨hil, hmem⟩
  · exact (h.lists i l).nodup.not_mem_erase hmem
  · exact hil (h.apart hmem hn)

theorem Linked.put (h : Linked s L) (hn : ∀ i l, n ∉ L i l) (hpage : (bare s n).isSome) (i : ℕ)
    (l : SlabList) : ∃ s', addHead s n i l = .ok s' ∧ Linked s' (set2 L i l (n :: L i l)) ∧
      bare s' = Function.update (bare s) n ((bare s n).map fun f => { f with list := l }) ∧
      s'.pages = s.pages := by
  have hheads : ∀ m, s.listHead i l = some m → m ∈ L i l := fun m hm => (h.lists i l).head_mem hm
  obtain ⟨s', hs', hnext, hprev, hbare, hhead, hpages⟩ :=
    addHead_ok hpage fun m hm => h.pages (hheads m hm)
  have hold : ∀ q, q ≠ n → next s' q = next s q := fun q hq => by
    rw [hnext, Function.update_of_ne hq]
  have hback : ∀ q, q ≠ n → s.listHead i l ≠ some q → prev s' q = prev s q := by
    intro q hq hhq
    rw [hprev]
    cases hm : s.listHead i l with
    | none => exact Function.update_of_ne hq ..
    | some m =>
      have hqm : q ≠ m := fun he => hhq (by rw [hm, he])
      simp only [Function.update_of_ne hqm, Function.update_of_ne hq]
  have hne : ∀ {q i l}, q ∈ L i l → q ≠ n := fun hq he => hn _ _ (he ▸ hq)
  refine ⟨s', hs', ⟨fun i' l' => ?_, fun {i₁ l₁ i₂ l₂ p} hp hp' => ?_, fun {i' l' p} hp => ?_⟩, hbare,
    hpages⟩
  · rw [hhead]
    by_cases hil : i' = i ∧ l' = l
    · obtain ⟨rfl, rfl⟩ := hil
      rw [set2_self, show (setHead s i' l' (some n)).listHead i' l' = some n from set2_self]
      refine (h.lists i' l').push (hn i' l') (fun q hq => hold q (hne hq)) ?_ ?_
        (fun q hq hhq => hback q (hne hq) hhq) fun m hm => ?_
      · rw [hnext, Function.update_self]
      · rw [hprev]
        cases hm : s.listHead i' l' with
        | none => exact Function.update_self ..
        | some m =>
          have hnm : n ≠ m := (hne (hheads m hm)).symm
          simp only [Function.update_of_ne hnm, Function.update_self]
      · rw [hprev, hm]
        exact Function.update_self ..
    · rw [set2_ne hil, show (setHead s i l (some n)).listHead i' l' = s.listHead i' l' from set2_ne hil]
      exact (h.lists i' l').congr (fun q hq => hold q (hne hq))
        fun q hq => hback q (hne hq) fun hhq => hil (h.apart hq (hheads q hhq))
  · rcases mem_set2 hp with ⟨rfl, rfl, hq⟩ | ⟨hil, hq⟩ <;>
      rcases mem_set2 hp' with ⟨rfl, rfl, hq'⟩ | ⟨hil', hq'⟩
    · exact ⟨rfl, rfl⟩
    · exact h.apart ((List.mem_cons.mp hq).resolve_left (hne hq')) hq'
    · exact h.apart hq ((List.mem_cons.mp hq').resolve_left (hne hq))
    · exact h.apart hq hq'
  · rw [hbare]
    by_cases hpn : p = n
    · subst hpn
      rw [Function.update_self, Option.isSome_map]
      exact hpage
    · rw [Function.update_of_ne hpn]
      rcases mem_set2 hp with ⟨rfl, rfl, hp⟩ | ⟨-, hp⟩
      · exact h.pages ((List.mem_cons.mp hp).resolve_left hpn)
      · exact h.pages hp

def moved (L : ℕ → SlabList → List ℕ) (i : ℕ) (l₁ l₂ : SlabList) (n : ℕ) : ℕ → SlabList → List ℕ :=
  set2 (set2 L i l₁ ((L i l₁).erase n)) i l₂ (n :: set2 L i l₁ ((L i l₁).erase n) i l₂)

theorem Linked.move (h : Linked s L) (hn : n ∈ L i l₁) (l₂ : SlabList)
    (hnext : next s' = Doubly.detach (next s) (prev s) n)
    (hprev : prev s' = Doubly.detach (prev s) (next s) n) (hsame : SameBare s s')
    (hhead : s'.listHead = set2 s.listHead i l₁
      (if s.listHead i l₁ = some n then next s n else s.listHead i l₁)) :
    ∃ s'', addHead s' n i l₂ = .ok s'' ∧ Linked s'' (moved L i l₁ l₂ n) ∧
      bare s'' = Function.update (bare s) n ((bare s n).map fun f => { f with list := l₂ }) ∧
      s''.pages = s.pages := by
  have htaken := h.take hn hnext hprev hsame.bare hhead
  have hpage : (bare s' n).isSome := by
    rw [hsame.bare]
    exact h.pages hn
  obtain ⟨s'', hs'', hlinked, hbare, hpages⟩ := htaken.put (h.take_notMem hn) hpage i l₂
  refine ⟨s'', hs'', hlinked, ?_, hpages.trans hsame.pages⟩
  rw [hbare, hsame.bare]

theorem Linked.moveHead_linked (h : Linked s L) (hn : s.listHead i l₁ = some n) (l₂ : SlabList) :
    ∃ s', moveHead s i l₁ l₂ = .ok s' ∧ Linked s' (moved L i l₁ l₂ n) ∧
      bare s' = Function.update (bare s) n ((bare s n).map fun f => { f with list := l₂ }) ∧
      s'.pages = s.pages := by
  have hmem : n ∈ L i l₁ := (h.lists i l₁).head_mem hn
  obtain ⟨f, hf, -, -, hfnext, -⟩ := page_ok (h.pages hmem)
  obtain ⟨s₁, hs₁, hnext, hprev, hsame, hhead⟩ := unlinkNode_ok (s := setHead s i l₁ f.next)
    (h.lists i l₁) hmem fun p hp => h.pages hp
  have hhead' : s₁.listHead = set2 s.listHead i l₁
      (if s.listHead i l₁ = some n then next s n else s.listHead i l₁) := by
    rw [hhead, if_pos hn, hfnext]
    rfl
  obtain ⟨s₂, hs₂, hlinked⟩ := h.move hmem l₂ hnext hprev ⟨hsame.bare, hsame.pages⟩ hhead'
  refine ⟨s₂, ?_, hlinked⟩
  simp only [moveHead, removeHead, hn, hf, hs₁, bind, Except.bind, pure, Except.pure]
  exact hs₂

theorem Linked.changeList_linked (h : Linked s L) (hn : n ∈ L i l₁) {g : Sdh} (hg : bare s n = some g)
    (hlist : g.list = l₁) (l₂ : SlabList) : ∃ s', changeList s n i l₁ l₂ = .ok s' ∧ Linked s' (moved L i l₁ l₂ n) ∧
      bare s' = Function.update (bare s) n (some { g with list := l₂ }) ∧ s'.pages = s.pages := by
  obtain ⟨f, hf, hfg⟩ := page_bare hg
  have hflist : f.list = l₁ := by
    rw [← hlist, ← hfg]
    rfl
  obtain ⟨s₁, hs₁, hnext, hprev, hsame, hhead⟩ := unlinkNode_ok (h.lists i l₁) hn fun p hp => h.pages hp
  obtain ⟨f₁, hf₁, -, -, hf₁next, -⟩ := page_ok (s := s₁) (p := n) (by rw [hsame.bare, hg]; rfl)
  have hstays : f₁.next = next s n := by
    rw [← hf₁next, hnext, Doubly.detach_eq (fun m hm => ((h.lists i l₁).prev_mem hn hm).2)
      (fun hin => ((h.lists i l₁).next_mem hn hin).2), Doubly.bypass]
    split <;> rfl
  have hhead' : (if s₁.listHead i l₁ = some n then setHead s₁ i l₁ f₁.next else s₁).listHead =
      set2 s.listHead i l₁ (if s.listHead i l₁ = some n then next s n else s.listHead i l₁) := by
    rw [hhead]
    split
    · rw [hstays, ← hhead]
      rfl
    · rw [hhead, set2, Function.update_eq_self, Function.update_eq_self]
  obtain ⟨s₂, hs₂, hlinked, hbare, hpages⟩ := h.move hn l₂
    (show next (if s₁.listHead i l₁ = some n then setHead s₁ i l₁ f₁.next else s₁) = _ by
      split <;> exact hnext)
    (by split <;> exact hprev) (by split <;> exact ⟨hsame.bare, hsame.pages⟩) hhead'
  refine ⟨s₂, ?_, hlinked, by rw [hbare, hg]; rfl, hpages⟩
  simp only [changeList, hf, hs₁, hf₁, bind, Except.bind]
  rw [if_neg (by simpa using hflist)]
  exact hs₂

end Linked

end Slab
