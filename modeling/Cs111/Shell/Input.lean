import Cs111.Shell.History
import Mathlib.Logic.Relation
import Mathlib.Tactic.SplitIfs

namespace Shell
open Relation

def newline : UInt8 := 10

def byteChar (b : UInt8) : Char := Char.ofNat b.toNat

def isWordByte (b : UInt8) : Bool :=
  (byteChar b).isAlphanum || ['/', '.', '-', '='].contains (byteChar b)

def isSpecialByte (b : UInt8) : Bool := "()><|&;*".toList.contains (byteChar b)

def yytext (bytes : List UInt8) : String := String.ofList (bytes.map byteChar)

def endWord (word : List UInt8) (words : List String) : List String :=
  if word = [] then words else words ++ [yytext word]

def yylexFrom (word : List UInt8) (words : List String) :
    List UInt8 → Option (List String × List UInt8)
  | [] => none
  | b :: rest =>
    if isWordByte b then yylexFrom (word ++ [b]) words rest
    else if isSpecialByte b then yylexFrom [] (endWord word words ++ [yytext [b]]) rest
    else if b = newline then some (endWord word words, rest)
    else yylexFrom [] (endWord word words) rest

def yylex : List UInt8 → Option (List String × List UInt8) := yylexFrom [] []

def linesFrom (word : List UInt8) (words : List String) : List UInt8 → List (List String)
  | [] => []
  | b :: rest =>
    if isWordByte b then linesFrom (word ++ [b]) words rest
    else if isSpecialByte b then linesFrom [] (endWord word words ++ [yytext [b]]) rest
    else if b = newline then endWord word words :: linesFrom [] [] rest
    else linesFrom [] (endWord word words) rest

def lines : List UInt8 → List (List String) := linesFrom [] []

structure Reader where
  args : Args
  input : List UInt8

def Executes (r : Reader) (args : Args) (rest : List UInt8) (c : Command) : Prop :=
  ∃ words word tail behind, yylex r.input = some (words, rest) ∧ args = getLine r.args words ∧
    args = some word :: tail ∧ word ≠ "exit" ∧ parseArgs (args ++ behind) = .executes c

inductive Round : Reader → Reader → Prop
  | blank {r words rest tail} : yylex r.input = some (words, rest) →
      getLine r.args words = none :: tail → Round r ⟨getLine r.args words, rest⟩
  | command {r args rest c} : Executes r args rest c → Round r ⟨args, rest⟩

inductive NullFollowed : Reader → Prop
  -- args[0], and get_line has returned NULL
  | args {r} : yylex r.input = none → NullFollowed r
  -- cmds[0] in execute
  | command {r args rest c} : Executes r args rest c → c.commands = [] → NullFollowed r

def NullSafe (r : Reader) : Prop := ∀ r', ReflTransGen Round r r' → ¬ NullFollowed r'

def opensCommand (line : List String) : Prop :=
  ∀ word, line.head? = some word → isOperator word = false

def LeavesInTime (lines : List (List String)) : Prop :=
  ∃ before line after, lines = before ++ line :: after ∧ line.head? = some "exit" ∧
    ∀ earlier ∈ before, opensCommand earlier

section Lexer

theorem yylexFrom_lines (word : List UInt8) (words : List String) (input : List UInt8) :
    (yylexFrom word words input = none ∧ linesFrom word words input = []) ∨
    ∃ line rest, yylexFrom word words input = some (line, rest) ∧
      linesFrom word words input = line :: lines rest := by
  induction input generalizing word words with
  | nil => exact .inl ⟨rfl, rfl⟩
  | cons b rest ih =>
    simp only [yylexFrom, linesFrom]
    split
    · exact ih _ _
    · split
      · exact ih _ _
      · split
        · exact .inr ⟨_, _, rfl, rfl⟩
        · exact ih _ _

theorem yylex_none {input : List UInt8} (h : lines input = []) : yylex input = none := by
  rcases yylexFrom_lines [] [] input with ⟨hnone, -⟩ | ⟨line, rest, -, hlines⟩
  · exact hnone
  · rw [← lines, h] at hlines
    cases hlines

theorem yylex_some {input : List UInt8} {line : List String} {more : List (List String)}
    (h : lines input = line :: more) : ∃ rest, yylex input = some (line, rest) ∧ lines rest = more := by
  rcases yylexFrom_lines [] [] input with ⟨-, hlines⟩ | ⟨line', rest, hlex, hlines⟩
  · rw [← lines, h] at hlines
    cases hlines
  · rw [← lines, h] at hlines
    cases hlines
    exact ⟨rest, hlex, rfl⟩

end Lexer

section Commands
variable {args : Args} {words : List String} {c d : Command}

theorem parseLoop_closed (h : parseLoop args c = some d) (hclosed : c.isCommand = false) :
    d.commands = c.commands := by
  fun_induction parseLoop args c with
  | case1 => cases h
  | case2 => simp_all
  | case3 => cases h
  | case4 c file rest ih => exact ih h rfl
  | case5 => cases h
  | case6 c _ file rest ih => exact ih h rfl
  | case7 c rest _ _ ih => exact ih h rfl
  | case8 c arg rest _ _ _ hopen ih => simp [hclosed] at hopen
  | case9 c arg rest _ _ _ _ ih => exact ih h hclosed

theorem parseLoop_operator {word : String} (hword : isOperator word = true)
    (h : parseLoop (some word :: args) c = some d) : d.commands = c.commands := by
  simp only [isOperator, Bool.or_eq_true, beq_iff_eq] at hword
  rcases hword with (rfl | rfl) | rfl
  · cases args with
    | nil => simp [parseLoop] at h
    | cons file args =>
      simp only [parseLoop, ↓reduceIte] at h
      exact (parseLoop_closed h rfl).trans rfl
  · cases args with
    | nil => simp [parseLoop] at h
    | cons file args =>
      simp only [parseLoop, String.reduceEq, ↓reduceIte] at h
      exact (parseLoop_closed h rfl).trans rfl
  · rw [parseLoop_background] at h
    exact (parseLoop_closed h rfl).trans rfl

theorem parseLoop_argv (behind : Args) (h : parseLoop (words.map some ++ none :: behind) c = some d) :
    d.commands = (c.store (argv words)).commands := by
  induction words generalizing c with
  | nil =>
    simp only [List.map_nil, List.nil_append, parseLoop, Option.some.injEq] at h
    simp [h]
  | cons word words ih =>
    cases hword : isOperator word with
    | true =>
      rw [store_operator hword]
      exact parseLoop_operator hword h
    | false =>
      rw [List.map_cons, List.cons_append, parseLoop_word hword] at h
      rw [ih h, store_argv hword]

theorem parseLoop_ends : ∀ (l : Args) (c : Command), ∃ d, parseLoop (l ++ [none, none]) c = some d
  | [], c => ⟨c, by simp [parseLoop]⟩
  | none :: l, c => ⟨c, by simp [parseLoop]⟩
  | [some arg], c => by
    rw [List.singleton_append, parseLoop.eq_def]
    simp only [parseLoop]
    split_ifs <;> exact ⟨_, rfl⟩
  | some arg :: file :: l, c => by
    rw [List.cons_append, parseLoop.eq_def]
    simp only [List.cons_append]
    split_ifs
    · exact parseLoop_ends l _
    · exact parseLoop_ends l _
    · exact parseLoop_ends (file :: l) _
    · exact parseLoop_ends (file :: l) _
    · exact parseLoop_ends (file :: l) _

theorem parseArgs_line {words : List String} {behind : Args}
    (h : parseArgs (getLine args words ++ behind) = .executes d) :
    d.commands = argv (keptWords words) := by
  rw [getLine_eq, List.append_assoc, List.cons_append, parseArgs, parseArgsLoop_executes] at h
  simpa [Command.store] using parseLoop_argv _ h.1

theorem parseArgs_ends (args : Args) (words : List String) :
    ∃ d, parseArgs (getLine args words ++ [none, none]) = .executes d := by
  obtain ⟨d, hd⟩ := parseLoop_ends (getLine args words) ⟨[], true, false, none, none⟩
  have hcommands : d.commands = argv (keptWords words) := by
    rw [getLine_eq, List.append_assoc, List.cons_append] at hd
    simpa [Command.store] using parseLoop_argv _ hd
  refine ⟨d, parseArgsLoop_executes.mpr ⟨hd, ?_⟩⟩
  simpa [Command.roomy, hcommands] using kept_argv_roomy words

end Commands

section Rounds
variable {r : Reader} {args : Args} {line : List String} {word : String} {rest rest' : List UInt8}

theorem nullSafe_step (r : Reader) :
    NullSafe r ↔ ¬ NullFollowed r ∧ ∀ r', Round r r' → NullSafe r' := by
  constructor
  · intro h
    exact ⟨h r .refl, fun r' hround r'' hrun => h r'' (.head hround hrun)⟩
  · rintro ⟨hhere, hnext⟩ r' hrun
    rcases ReflTransGen.cases_head hrun with rfl | ⟨r'', hround, hrun⟩
    · exact hhere
    · exact hnext r'' hround r' hrun

theorem getLine_head (args : Args) (line : List String) :
    (getLine args line).head? = some line.head? := by
  rw [getLine_eq]
  cases line <;> simp [keptWords, numargs]

theorem argv_kept_nil (h : argv (keptWords line) = []) (hword : line.head? = some word) :
    isOperator word = true := by
  cases line with
  | nil => simp at hword
  | cons first line =>
    simp only [List.head?_cons, Option.some.injEq] at hword
    subst hword
    by_contra hop
    rw [Bool.not_eq_true] at hop
    simp [keptWords, numargs, argv_word hop] at h

theorem line_executes (hlex : yylex r.input = some (line, rest)) (hword : line.head? = some word)
    (hexit : word ≠ "exit") :
    ∃ d, Executes r (getLine r.args line) rest d ∧ d.commands = argv (keptWords line) := by
  obtain ⟨d, hd⟩ := parseArgs_ends r.args line
  have hhead := getLine_head r.args line
  rw [hword, List.head?_eq_some_iff] at hhead
  obtain ⟨tail, htail⟩ := hhead
  exact ⟨d, ⟨line, word, tail, _, hlex, rfl, htail, hexit, hd⟩, parseArgs_line hd⟩

theorem executes_line {d : Command} (hlex : yylex r.input = some (line, rest))
    (h : Executes r args rest' d) : args = getLine r.args line ∧ rest' = rest ∧
      ∃ word, line.head? = some word ∧ word ≠ "exit" ∧ d.commands = argv (keptWords line) := by
  obtain ⟨words, word, tail, behind, hlex', rfl, htail, hexit, hparse⟩ := h
  rw [hlex, Option.some.injEq, Prod.mk.injEq] at hlex'
  obtain ⟨rfl, rfl⟩ := hlex'
  have hhead := getLine_head r.args line
  rw [htail, List.head?_cons, Option.some.injEq] at hhead
  exact ⟨rfl, rfl, word, hhead.symm, hexit, parseArgs_line hparse⟩

end Rounds

section Leaves
variable {line : List String} {more : List (List String)}

theorem leaves_nil : ¬ LeavesInTime [] := by
  rintro ⟨before, line, after, h, -⟩
  simp at h

theorem leaves_exit (h : line.head? = some "exit") : LeavesInTime (line :: more) :=
  ⟨[], line, more, rfl, h, by simp⟩

theorem leaves_cons (h : line.head? ≠ some "exit") :
    LeavesInTime (line :: more) ↔ opensCommand line ∧ LeavesInTime more := by
  constructor
  · rintro ⟨before, leaving, after, hsplit, hexit, hbefore⟩
    cases before with
    | nil =>
      rw [List.nil_append, List.cons.injEq] at hsplit
      exact absurd (hsplit.1 ▸ hexit) h
    | cons first before =>
      rw [List.cons_append, List.cons.injEq] at hsplit
      obtain ⟨rfl, rfl⟩ := hsplit
      exact ⟨hbefore line (by simp), before, leaving, after, rfl, hexit,
        fun earlier hmem => hbefore earlier (by simp [hmem])⟩
  · rintro ⟨hopens, before, leaving, after, rfl, hexit, hbefore⟩
    refine ⟨line :: before, leaving, after, rfl, hexit, fun earlier hmem => ?_⟩
    rcases List.mem_cons.mp hmem with rfl | hmem
    · exact hopens
    · exact hbefore earlier hmem

end Leaves

section Streams
variable {r : Reader} {line : List String} {word : String} {rest : List UInt8}

theorem nullSafe_end (hlex : yylex r.input = none) : ¬ NullSafe r :=
  fun h => h r .refl (.args hlex)

theorem nullSafe_blank (hlex : yylex r.input = some (line, rest)) (hblank : line.head? = none) :
    NullSafe r ↔ NullSafe ⟨getLine r.args line, rest⟩ := by
  have hhead := getLine_head r.args line
  rw [hblank, List.head?_eq_some_iff] at hhead
  obtain ⟨tail, htail⟩ := hhead
  rw [nullSafe_step]
  constructor
  · exact fun h => h.2 _ (.blank hlex htail)
  · refine fun h => ⟨?_, ?_⟩
    · rintro (hnone | ⟨hexec, -⟩)
      · simp [hlex] at hnone
      · obtain ⟨-, -, word, hword, -⟩ := executes_line hlex hexec
        simp [hblank] at hword
    · rintro r' (⟨hlex', -⟩ | hexec)
      · rw [hlex, Option.some.injEq, Prod.mk.injEq] at hlex'
        obtain ⟨rfl, rfl⟩ := hlex'
        exact h
      · obtain ⟨-, -, word, hword, -⟩ := executes_line hlex hexec
        simp [hblank] at hword

theorem nullSafe_exit (hlex : yylex r.input = some (line, rest))
    (hexit : line.head? = some "exit") : NullSafe r := by
  rw [nullSafe_step]
  have hnoexec : ∀ args rest' c, ¬ Executes r args rest' c := by
    intro args rest' c hexec
    obtain ⟨-, -, word, hword, hne, -⟩ := executes_line hlex hexec
    rw [hexit, Option.some.injEq] at hword
    exact hne hword.symm
  constructor
  · rintro (hnone | ⟨hexec, -⟩)
    · simp [hlex] at hnone
    · exact hnoexec _ _ _ hexec
  · rintro r' (⟨hlex', hnull⟩ | hexec)
    · rw [hlex, Option.some.injEq, Prod.mk.injEq] at hlex'
      obtain ⟨rfl, rfl⟩ := hlex'
      have hhead := getLine_head r.args line
      simp [hnull, hexit] at hhead
    · exact absurd hexec (hnoexec _ _ _)

theorem nullSafe_command (hlex : yylex r.input = some (line, rest))
    (hword : line.head? = some word) (hexit : word ≠ "exit") :
    NullSafe r ↔ isOperator word = false ∧ NullSafe ⟨getLine r.args line, rest⟩ := by
  obtain ⟨d, hexec, hcommands⟩ := line_executes hlex hword hexit
  rw [nullSafe_step]
  constructor
  · rintro ⟨hhere, hnext⟩
    refine ⟨?_, hnext _ (.command hexec)⟩
    by_contra hop
    rw [Bool.not_eq_false] at hop
    refine hhere (.command hexec (hcommands.trans ?_))
    obtain ⟨tail, rfl⟩ := List.head?_eq_some_iff.mp hword
    simp [keptWords, numargs, argv_operator hop]
  · rintro ⟨hop, hnext⟩
    refine ⟨?_, ?_⟩
    · rintro (hnone | ⟨hexec', hnil⟩)
      · simp [hlex] at hnone
      · obtain ⟨-, -, word', -, -, hcommands'⟩ := executes_line hlex hexec'
        have hoperator := argv_kept_nil (hcommands'.symm.trans hnil) hword
        simp [hop] at hoperator
    · rintro r' (⟨hlex', hnull⟩ | hexec')
      · rw [hlex, Option.some.injEq, Prod.mk.injEq] at hlex'
        obtain ⟨rfl, rfl⟩ := hlex'
        have hhead := getLine_head r.args line
        simp [hnull, hword] at hhead
      · obtain ⟨rfl, rfl, -⟩ := executes_line hlex hexec'
        exact hnext

end Streams

theorem nullSafe_from (input : List UInt8) (read : List (List String)) (args : Args)
    (h : lines input = read) : NullSafe ⟨args, input⟩ ↔ LeavesInTime read := by
  induction read generalizing input args with
  | nil => simp [nullSafe_end (r := ⟨args, input⟩) (yylex_none h), leaves_nil]
  | cons line more ih =>
    obtain ⟨rest, hlex, hrest⟩ := yylex_some h
    cases hhead : line.head? with
    | none =>
      have hopens : opensCommand line := by simp [opensCommand, hhead]
      rw [nullSafe_blank (r := ⟨args, input⟩) hlex hhead, leaves_cons (by simp [hhead]), ih _ _ hrest]
      simp [hopens]
    | some word =>
      by_cases hexit : word = "exit"
      · subst hexit
        simp [nullSafe_exit (r := ⟨args, input⟩) hlex hhead, leaves_exit hhead]
      · rw [nullSafe_command (r := ⟨args, input⟩) hlex hhead hexit,
          leaves_cons (by simpa [hhead] using hexit), ih _ _ hrest]
        simp [opensCommand, hhead]

end Shell
