import Cs111.Shell.Children

namespace Shell

def commandsSize : ℕ := 64

inductive Parsed where
  | executes (c : Command)
  | pastArgs
  | pastCommands
  deriving DecidableEq

def Command.roomy (c : Command) : Bool := decide (c.commands.length < commandsSize)

def parseArgsLoop : Args → Command → Parsed
  | [], _ => .pastArgs
  | none :: _, c => if c.roomy then .executes c else .pastCommands
  | some arg :: rest, c =>
    if arg = "<" then
      match rest with
      | [] => .pastArgs
      | file :: rest => parseArgsLoop rest { c with inFilename := file, isCommand := false }
    else if arg = ">" then
      match rest with
      | [] => .pastArgs
      | file :: rest => parseArgsLoop rest { c with outFilename := file, isCommand := false }
    else if arg = "&" then parseArgsLoop rest { c with background := true, isCommand := false }
    else if c.isCommand then
      if c.roomy then parseArgsLoop rest { c with commands := c.commands ++ [arg] }
      else .pastCommands
    else parseArgsLoop rest c

def parseArgs (args : Args) : Parsed := parseArgsLoop args ⟨[], true, false, none, none⟩

def entriesRead : Args → ℕ → List ℕ
  | [], i => [i]
  | none :: _, i => [i]
  | some arg :: rest, i =>
    if arg = "<" ∨ arg = ">" then
      match rest with
      | [] => [i, i + 1]
      | _ :: rest => i :: (i + 1) :: entriesRead rest (i + 2)
    else i :: entriesRead rest (i + 1)

def isOperator (word : String) : Bool := word == "<" || word == ">" || word == "&"

def Command.store (c : Command) (words : List String) : Command :=
  { c with commands := c.commands ++ if c.isCommand then words else [] }

section Refines
variable {args rest : Args} {c d : Command} {arg : String}

theorem parseLoop_background : parseLoop (some "&" :: rest) c =
    parseLoop rest { c with background := true, isCommand := false } := by
  rw [parseLoop.eq_def]
  simp

@[simp] theorem store_nil (c : Command) : c.store [] = c := by simp [Command.store]

theorem store_closed (h : c.isCommand = false) (words : List String) : c.store words = c := by
  cases c
  simp_all [Command.store]

theorem store_cons (c : Command) (word : String) (words : List String) :
    c.store (word :: words) = (c.store [word]).store words := by
  cases h : c.isCommand <;> simp [Command.store, h]

theorem parseLoop_word (harg : isOperator arg = false) :
    parseLoop (some arg :: rest) c = parseLoop rest (c.store [arg]) := by
  simp only [isOperator, Bool.or_eq_false_iff, beq_eq_false_iff_ne] at harg
  rw [parseLoop.eq_def]
  cases h : c.isCommand
  · simp [harg, h, store_closed h]
  · simp [harg, h, Command.store]

theorem parseLoop_length (h : parseLoop args c = some d) :
    c.commands.length ≤ d.commands.length := by
  fun_induction parseLoop args c with
  | case1 => cases h
  | case2 => simp_all
  | case3 => cases h
  | case4 c file rest ih => simpa using ih h
  | case5 => cases h
  | case6 c _ file rest ih => simpa using ih h
  | case7 c rest _ _ ih => simpa using ih h
  | case8 c arg rest _ _ _ _ ih =>
    have hlonger := ih h
    simp only [List.length_append, List.length_singleton] at hlonger
    omega
  | case9 c arg rest _ _ _ _ ih => exact ih h

theorem parseArgsLoop_executes :
    parseArgsLoop args c = .executes d ↔ parseLoop args c = some d ∧ d.roomy = true := by
  fun_induction parseArgsLoop args c with
  | case1 => simp [parseLoop]
  | case2 _ c hroomy =>
    simp only [Parsed.executes.injEq, parseLoop, Option.some.injEq, iff_self_and]
    rintro rfl
    exact hroomy
  | case3 _ c hfull =>
    simp only [reduceCtorEq, parseLoop, Option.some.injEq, false_iff, not_and]
    rintro rfl
    exact hfull
  | case4 => simp [parseLoop]
  | case5 c file rest ih => simpa [parseLoop] using ih
  | case6 => simp [parseLoop]
  | case7 c _ file rest ih => simpa [parseLoop] using ih
  | case8 rest c _ _ ih => simpa [parseLoop_background] using ih
  | case9 arg rest c hin hout hamp hcommand _ ih =>
    have hstore : c.store [arg] = { c with commands := c.commands ++ [arg] } := by
      simp [Command.store, hcommand]
    rw [parseLoop_word (by simp [isOperator, hin, hout, hamp]), hstore]
    exact ih
  | case10 arg rest c hin hout hamp hcommand hfull =>
    have hstore : c.store [arg] = { c with commands := c.commands ++ [arg] } := by
      simp [Command.store, hcommand]
    rw [parseLoop_word (by simp [isOperator, hin, hout, hamp]), hstore]
    refine ⟨nofun, fun ⟨hparse, hroomy⟩ => ?_⟩
    have hlonger := parseLoop_length hparse
    simp only [List.length_append, List.length_singleton] at hlonger
    simp only [Command.roomy, decide_eq_true_eq] at hfull hroomy
    omega
  | case11 arg rest c hin hout hamp hcommand ih =>
    rw [parseLoop_word (by simp [isOperator, hin, hout, hamp]), store_closed (by simpa using hcommand)]
    exact ih

end Refines

inductive Operator where
  | input (file : Option String)
  | output (file : Option String)
  | background
  deriving DecidableEq

def operators : List String → List Operator
  | [] => []
  | [word] =>
    if word = "<" then [.input none]
    else if word = ">" then [.output none]
    else if word = "&" then [.background]
    else []
  | word :: file :: words =>
    if word = "<" then .input (some file) :: operators words
    else if word = ">" then .output (some file) :: operators words
    else if word = "&" then .background :: operators (file :: words)
    else operators (file :: words)

namespace Operator

def input? : Operator → Option (Option String)
  | .input file => some file
  | _ => none

def output? : Operator → Option (Option String)
  | .output file => some file
  | _ => none

def isBackground : Operator → Bool
  | .background => true
  | _ => false

def dangles : Operator → Bool
  | .input file => file.isNone
  | .output file => file.isNone
  | .background => false

end Operator

def dangling (words : List String) : Bool := (operators words).any Operator.dangles

def argv (words : List String) : List String := words.takeWhile fun word => !isOperator word

def expected (words : List String) : Command where
  commands := argv words
  isCommand := (operators words).isEmpty
  background := (operators words).any Operator.isBackground
  outFilename := ((operators words).filterMap Operator.output?).getLast?.getD none
  inFilename := ((operators words).filterMap Operator.input?).getLast?.getD none

def Command.operate (c : Command) : Operator → Command
  | .input file => { c with inFilename := file, isCommand := false }
  | .output file => { c with outFilename := file, isCommand := false }
  | .background => { c with background := true, isCommand := false }

section Operate
variable {c : Command} {word : String} {words : List String} {ops : List Operator}

theorem operate_all (c : Command) (ops : List Operator) : ops.foldl Command.operate c =
    { commands := c.commands
      isCommand := c.isCommand && ops.isEmpty
      background := c.background || ops.any Operator.isBackground
      outFilename := (ops.filterMap Operator.output?).getLast?.getD c.outFilename
      inFilename := (ops.filterMap Operator.input?).getLast?.getD c.inFilename } := by
  induction ops generalizing c with
  | nil => simp
  | cons op ops ih =>
    rw [List.foldl_cons, ih]
    cases op <;> simp [Command.operate, Operator.isBackground, Operator.input?,
      Operator.output?, List.filterMap_cons, List.getLast?_cons]

@[simp] theorem argv_nil : argv [] = [] := rfl

theorem argv_word (h : isOperator word = false) : argv (word :: words) = word :: argv words := by
  simp [argv, h]

theorem argv_operator (h : isOperator word = true) : argv (word :: words) = [] := by
  simp [argv, h]

theorem store_argv (h : isOperator word = false) :
    c.store (argv (word :: words)) = (c.store [word]).store (argv words) := by
  rw [argv_word h, store_cons]

theorem store_operator (h : isOperator word = true) : c.store (argv (word :: words)) = c := by
  simp [argv_operator h]

theorem operate_store (op : Operator) (words : List String) :
    (c.operate op).store words = c.operate op := by
  apply store_closed
  cases op <;> rfl

end Operate

section Dangling
variable {word : String} {words : List String}

@[simp] theorem dangling_nil : dangling [] = false := rfl

@[simp] theorem dangling_input (file : String) (words : List String) :
    dangling ("<" :: file :: words) = dangling words := by
  simp [dangling, operators, Operator.dangles]

@[simp] theorem dangling_output (file : String) (words : List String) :
    dangling (">" :: file :: words) = dangling words := by
  simp [dangling, operators, Operator.dangles]

@[simp] theorem dangling_background (words : List String) :
    dangling ("&" :: words) = dangling words := by
  cases words <;> simp [dangling, operators, Operator.dangles]

theorem dangling_word (h : isOperator word = false) : dangling (word :: words) = dangling words := by
  simp only [isOperator, Bool.or_eq_false_iff, beq_eq_false_iff_ne] at h
  cases words <;> simp [dangling, operators, h]

theorem dangling_of_last (h : ∀ word, words.getLast? = some word → word ≠ "<" ∧ word ≠ ">") :
    dangling words = false := by
  fun_induction operators words with
  | case1 => simp
  | case2 => simp at h
  | case3 => simp at h
  | case4 => simp
  | case5 word hin hout hamp => simp [dangling, operators, hin, hout, hamp]
  | case6 file words ih =>
    simpa using ih fun word hlast => h word (by simp [List.getLast?_cons, hlast])
  | case7 file words hin ih =>
    simpa using ih fun word hlast => h word (by simp [List.getLast?_cons, hlast])
  | case8 file words hin hout ih =>
    simpa using ih fun word hlast => h word (by simp [List.getLast?_cons_cons, hlast])
  | case9 word file words hin hout hamp ih =>
    rw [dangling_word (by simp [isOperator, hin, hout, hamp])]
    exact ih fun word hlast => h word (by simp [List.getLast?_cons_cons, hlast])

end Dangling

section Reads
variable {arg : String} {rest : Args} {i : ℕ}

theorem entriesRead_file (h : arg = "<" ∨ arg = ">") (file : Option String) :
    entriesRead (some arg :: file :: rest) i = i :: (i + 1) :: entriesRead rest (i + 2) := by
  rw [entriesRead.eq_def]
  simp [h]

theorem entriesRead_word (hin : arg ≠ "<") (hout : arg ≠ ">") :
    entriesRead (some arg :: rest) i = i :: entriesRead rest (i + 1) := by
  rw [entriesRead.eq_def]
  simp [hin, hout]

theorem entriesRead_first (args : Args) (i : ℕ) : i ∈ entriesRead args i := by
  cases args with
  | nil => simp [entriesRead]
  | cons arg rest =>
    rw [entriesRead.eq_def]
    cases arg with
    | none => simp
    | some arg => cases rest <;> simp <;> split <;> simp

end Reads

section Words
variable {words : List String}

theorem parseLoop_words (behind : Args) (c : Command) (h : dangling words = false) :
    parseLoop (words.map some ++ none :: behind) c =
      some ((operators words).foldl Command.operate (c.store (argv words))) := by
  fun_induction operators words generalizing c with
  | case1 => simp [parseLoop]
  | case2 => simp [dangling, operators, Operator.dangles] at h
  | case3 => simp [dangling, operators, Operator.dangles] at h
  | case4 => simp [parseLoop, parseLoop_background, Command.operate, store_operator, isOperator]
  | case5 word hin hout hamp =>
    have hword : isOperator word = false := by simp [isOperator, hin, hout, hamp]
    simp [parseLoop_word hword, parseLoop, store_argv hword]
  | case6 file words ih =>
    have hloop := ih (c.operate (.input (some file))) (by simpa using h)
    rw [operate_store] at hloop
    simpa [parseLoop, Command.operate, store_operator, isOperator] using hloop
  | case7 file words hin ih =>
    have hloop := ih (c.operate (.output (some file))) (by simpa using h)
    rw [operate_store] at hloop
    simpa [parseLoop, Command.operate, store_operator, isOperator] using hloop
  | case8 file words hin hout ih =>
    have hloop := ih (c.operate .background) (by simpa using h)
    rw [operate_store] at hloop
    simpa [parseLoop_background, Command.operate, store_operator, isOperator] using hloop
  | case9 word file words hin hout hamp ih =>
    have hword : isOperator word = false := by simp [isOperator, hin, hout, hamp]
    have hloop := ih (c.store [word]) (by simpa [dangling_word hword] using h)
    simpa [parseLoop_word hword, store_argv hword] using hloop

theorem operators_expected : (operators words).foldl Command.operate
    (Command.store ⟨[], true, false, none, none⟩ (argv words)) = expected words := by
  rw [operate_all]
  simp [Command.store, expected]

theorem parseArgs_words (behind : Args) (h : dangling words = false) :
    parseArgs (words.map some ++ none :: behind) = .executes (expected words) ↔
      (argv words).length < commandsSize := by
  rw [parseArgs, parseArgsLoop_executes, parseLoop_words behind _ h, operators_expected]
  simp [Command.roomy, expected]

theorem entriesRead_words (behind : Args) (i : ℕ) (h : dangling words = false) :
    ∀ k ∈ entriesRead (words.map some ++ none :: behind) i, k ≤ i + words.length := by
  fun_induction operators words generalizing i with
  | case1 => simp [entriesRead]
  | case2 => simp [dangling, operators, Operator.dangles] at h
  | case3 => simp [dangling, operators, Operator.dangles] at h
  | case4 => simp [entriesRead]
  | case5 word hin hout => simp [entriesRead, hin, hout]
  | case6 file words ih =>
    have hrest := ih (i + 2) (by simpa using h)
    simp only [List.map_cons, List.cons_append, List.length_cons, entriesRead_file (.inl rfl)]
    grind
  | case7 file words hin ih =>
    have hrest := ih (i + 2) (by simpa using h)
    simp only [List.map_cons, List.cons_append, List.length_cons, entriesRead_file (.inr rfl)]
    grind
  | case8 file words hin hout ih =>
    have hrest := ih (i + 1) (by simpa using h)
    simp only [List.map_cons, List.cons_append, List.length_cons, entriesRead_word hin hout] at hrest ⊢
    grind
  | case9 word file words hin hout hamp ih =>
    have hword : isOperator word = false := by simp [isOperator, hin, hout, hamp]
    have hrest := ih (i + 1) (by simpa [dangling_word hword] using h)
    simp only [List.map_cons, List.cons_append, List.length_cons, entriesRead_word hin hout] at hrest ⊢
    grind

theorem entriesRead_dangling (behind : Args) (i : ℕ) (h : dangling words = true) :
    i + words.length + 1 ∈ entriesRead (words.map some ++ none :: behind) i := by
  fun_induction operators words generalizing i with
  | case1 => simp at h
  | case2 => simp [entriesRead, entriesRead_first]
  | case3 => simp [entriesRead, entriesRead_first]
  | case4 => simp at h
  | case5 word hin hout hamp => simp [dangling, operators, hin, hout, hamp] at h
  | case6 file words ih =>
    have hrest := ih (i + 2) (by simpa using h)
    simp only [List.map_cons, List.cons_append, List.length_cons, entriesRead_file (.inl rfl)]
    grind
  | case7 file words hin ih =>
    have hrest := ih (i + 2) (by simpa using h)
    simp only [List.map_cons, List.cons_append, List.length_cons, entriesRead_file (.inr rfl)]
    grind
  | case8 file words hin hout ih =>
    have hrest := ih (i + 1) (by simpa using h)
    simp only [List.map_cons, List.cons_append, List.length_cons, entriesRead_word hin hout] at hrest ⊢
    grind
  | case9 word file words hin hout hamp ih =>
    have hword : isOperator word = false := by simp [isOperator, hin, hout, hamp]
    have hrest := ih (i + 1) (by simpa [dangling_word hword] using h)
    simp only [List.map_cons, List.cons_append, List.length_cons, entriesRead_word hin hout] at hrest ⊢
    grind

end Words

theorem parse_executes {words : List String} (behind : Args)
    (h : ∀ word, words.getLast? = some word → word ≠ "<" ∧ word ≠ ">") :
    (∀ k ∈ entriesRead (words.map some ++ none :: behind) 0, k ≤ words.length) ∧
    (parseArgs (words.map some ++ none :: behind) = .executes (expected words) ↔
      (argv words).length < commandsSize) := by
  have hends := dangling_of_last h
  exact ⟨by simpa using entriesRead_words behind 0 hends, parseArgs_words behind hends⟩

theorem parse_executes_redirected :
    (∀ k ∈ entriesRead (["sort", "<", "&", "&"].map some ++ none :: []) 0, k ≤ 4) ∧
    (parseArgs (["sort", "<", "&", "&"].map some ++ none :: []) =
        .executes (expected ["sort", "<", "&", "&"]) ↔
      (argv ["sort", "<", "&", "&"]).length < commandsSize) :=
  parse_executes [] (by simp)

theorem long_command_overruns : ¬ ∀ (words : List String) (behind : Args),
    (∀ word, words.getLast? = some word → word ≠ "<" ∧ word ≠ ">") →
    parseArgs (words.map some ++ none :: behind) = .executes (expected words) := by
  intro hall
  have hlast : ∀ word, (List.replicate 64 "a").getLast? = some word → word ≠ "<" ∧ word ≠ ">" := by
    intro word hword
    obtain rfl := List.eq_of_mem_replicate (List.mem_of_getLast? hword)
    decide
  have hargv : argv (List.replicate 64 "a") = List.replicate 64 "a" := by
    rw [argv, List.takeWhile_replicate, if_pos (by decide)]
  have hroom := (parseArgs_words [] (dangling_of_last hlast)).mp (hall _ [] hlast)
  rw [hargv, List.length_replicate] at hroom
  exact absurd hroom (by decide)

end Shell
