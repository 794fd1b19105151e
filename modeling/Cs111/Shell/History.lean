import Cs111.Shell.Parse

namespace Shell

def argsAfter (history : List (List String)) : Args := history.foldl getLine freshArgs

def lineArgs (history : List (List String)) (line : List String) : Args :=
  getLine (argsAfter history) line

def keptWords (line : List String) : List String := line.take (numargs - 1)

def LineDetermined (line : List String) : Prop :=
  (∀ history history', parseArgs (lineArgs history line) = parseArgs (lineArgs history' line)) ∧
  ∀ history, ∀ k ∈ entriesRead (lineArgs history line) 0, k ≤ (keptWords line).length

section Lines
variable {args : Args} {line : List String}

theorem getLine_eq (args : Args) (line : List String) : getLine args line =
    (keptWords line).map some ++ none :: args.drop ((keptWords line).length + 1) := rfl

theorem kept_argv_roomy (line : List String) : (argv (keptWords line)).length < commandsSize := by
  have hargv : (argv (keptWords line)).length ≤ (keptWords line).length :=
    (List.takeWhile_sublist _).length_le
  have hkept : (keptWords line).length ≤ numargs - 1 := List.length_take_le _ _
  simp only [numargs, commandsSize] at hkept ⊢
  omega

theorem parse_line (args : Args) (h : dangling (keptWords line) = false) :
    parseArgs (getLine args line) = .executes (expected (keptWords line)) :=
  (parseArgs_words _ h).mpr (kept_argv_roomy line)

end Lines

theorem lineDetermined_iff (line : List String) :
    LineDetermined line ↔ dangling (keptWords line) = false := by
  constructor
  · rintro ⟨-, hreads⟩
    by_contra hdangling
    have hbehind := entriesRead_dangling ((argsAfter []).drop ((keptWords line).length + 1)) 0
      (by simpa using hdangling)
    have hle := hreads [] _ hbehind
    omega
  · intro h
    refine ⟨fun history history' => ?_, fun history k hk => ?_⟩
    · rw [lineArgs, lineArgs, parse_line _ h, parse_line _ h]
    · have hle := entriesRead_words ((argsAfter history).drop ((keptWords line).length + 1)) 0 h k hk
      omega

theorem stale_redirection :
    parseArgs (lineArgs [] ["cat", "<"]) = .executes ⟨["cat"], false, false, none, none⟩ ∧
    parseArgs (lineArgs [["ls", "-l", "src", ">", "notes"]] ["cat", "<"]) =
      .executes ⟨["cat"], false, false, some "notes", none⟩ ∧
    ¬ LineDetermined ["cat", "<"] := by
  refine ⟨by rfl, by rfl, fun h => ?_⟩
  have hsame := h.1 [] [["ls", "-l", "src", ">", "notes"]]
  cases hsame

end Shell
