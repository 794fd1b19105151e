import Cs111.Lib.Runs
import Mathlib.Data.Nat.Notation
import Mathlib.Data.Int.Notation
import Mathlib.Logic.Function.Basic

namespace Shell
open TransitionSystem

-- The words of a line, ended by NULL, in the one array of the lexer.
abbrev Args := List (Option String)

def numargs : ℕ := 10

-- Words that find no room are dropped; what stands behind the NULL is left from earlier lines.
def getLine (args : Args) (words : List String) : Args :=
  let words := words.take (numargs - 1)
  words.map some ++ none :: args.drop (words.length + 1)

structure Command where
  commands : List String
  isCommand : Bool
  background : Bool
  outFilename : Option String
  inFilename : Option String
  deriving DecidableEq

-- The loop of parse; none where it reads behind the array.
def parseLoop : Args → Command → Option Command
  | [], _ => none
  | none :: _, c => some c
  | some arg :: rest, c =>
    if arg = "<" then
      match rest with
      | [] => none
      | file :: rest => parseLoop rest { c with inFilename := file, isCommand := false }
    else if arg = ">" then
      match rest with
      | [] => none
      | file :: rest => parseLoop rest { c with outFilename := file, isCommand := false }
    else if arg = "&" then parseLoop rest { c with background := true, isCommand := false }
    else if c.isCommand then parseLoop rest { c with commands := c.commands ++ [arg] }
    else parseLoop rest c

def parse (args : Args) : Option Command := parseLoop args ⟨[], true, false, none, none⟩

abbrev Pid := ℕ

inductive Stage where
  | reading
  | forking (c : Command)
  | parent (c : Command) (forkstatus : Pid)
  | child (c : Command)
  | program
  | left
  | ended (execstatus : ℤ)
  deriving DecidableEq

structure Process where
  parent : Option Pid
  args : Args
  stage : Stage

abbrev State := Pid → Option Process

inductive Failure where
  | output | input | exec
  deriving DecidableEq

inductive Event where
  | reads (words : List String)
  | eof
  | forks (forkstatus : Option Pid)
  | fails (why : Failure)
  | execs
  | waits (reaped : Option Pid)
  | ends (execstatus : ℤ)
  deriving DecidableEq

def State.set (s : State) (p : Pid) (x : Process) : State := Function.update s p (some x)

def State.orphan (s : State) (p : Pid) : State := fun i =>
  (s i).map fun y => if y.parent = some p then { y with parent := none } else y

-- The branch of the child that returns from execute: the file that cannot be opened is named
-- on the line, or execvp comes back.
def Failure.possible (c : Command) : Failure → Prop
  | .output => c.outFilename.isSome = true
  | .input => c.inFilename.isSome = true
  | .exec => True

inductive Step (s : State) (p : Pid) : Event → State → Prop
  -- main: args[0] == NULL
  | blank {x words rest} : s p = some x → x.stage = .reading →
      getLine x.args words = none :: rest →
      Step s p (.reads words) (s.set p { x with args := getLine x.args words })
  | exit {x words rest} : s p = some x → x.stage = .reading →
      getLine x.args words = some "exit" :: rest →
      Step s p (.reads words) (s.set p { x with args := getLine x.args words, stage := .left })
  | command {x words word rest c} : s p = some x → x.stage = .reading →
      getLine x.args words = some word :: rest → word ≠ "exit" →
      parse (getLine x.args words) = some c →
      Step s p (.reads words) (s.set p { x with args := getLine x.args words, stage := .forking c })
  -- get_line returns NULL and main follows it
  | eof {x} : s p = some x → x.stage = .reading → Step s p .eof (s.set p { x with stage := .left })
  | noFork {x c} : s p = some x → x.stage = .forking c →
      Step s p (.forks none) (s.set p { x with stage := .reading })
  | fork {x c q} : s p = some x → x.stage = .forking c → s q = none →
      Step s p (.forks (some q)) ((s.set p { x with stage := .parent c q }).set q
        { parent := some p, args := x.args, stage := .child c })
  -- the child prints its error and returns through parse to main
  | fails {x c why} : s p = some x → x.stage = .child c → why.possible c →
      Step s p (.fails why) (s.set p { x with stage := .reading })
  -- execvp takes no NULL for a file
  | execs {x c} : s p = some x → x.stage = .child c → c.commands ≠ [] →
      Step s p .execs (s.set p { x with stage := .program })
  -- wait, and waitpid with WNOHANG, take whichever child has ended
  | reaps {x y c child q st} : s p = some x → x.stage = .parent c child → s q = some y →
      y.parent = some p → y.stage = .ended st →
      Step s p (.waits (some q)) (State.set (Function.update s q none) p { x with stage := .reading })
  | noneEnded {x c child} : s p = some x → x.stage = .parent c child → c.background = true →
      (∀ q y st, s q = some y → y.parent = some p → y.stage ≠ .ended st) →
      Step s p (.waits none) (s.set p { x with stage := .reading })
  | ends {x st} : s p = some x → (x.stage = .program ∨ x.stage = .left ∨ ∃ c, x.stage = .child c) →
      Step s p (.ends st) ((s.orphan p).set p { x with stage := .ended st })

def started (shell : Pid) : State :=
  Function.update (fun _ => none) shell (some ⟨none, List.replicate numargs none, .reading⟩)

def shellSystem (shell : Pid) : TransitionSystem State (Pid × Event) where
  initial s := s = started shell
  step s e s' := Step s e.1 e.2 s'

section Processes
variable {s : State} {p q i : Pid} {x y : Process}

theorem set_self : s.set p x p = some x := Function.update_self ..

theorem set_of_ne (h : i ≠ p) : s.set p x i = s i := Function.update_of_ne h ..

theorem set_some (h : s.set p x i = some y) : (i = p ∧ y = x) ∨ (i ≠ p ∧ s i = some y) := by
  by_cases hi : i = p
  · subst hi
    rw [set_self] at h
    exact .inl ⟨rfl, (Option.some.inj h).symm⟩
  · rw [set_of_ne hi] at h
    exact .inr ⟨hi, h⟩

theorem removed_some (h : Function.update s q none i = some y) : i ≠ q ∧ s i = some y := by
  by_cases hi : i = q
  · subst hi
    rw [Function.update_self] at h
    cases h
  · rw [Function.update_of_ne hi] at h
    exact ⟨hi, h⟩

theorem orphan_some (h : s.orphan p i = some y) :
    ∃ z, s i = some z ∧ y.stage = z.stage ∧ (y.parent = z.parent ∨ y.parent = none) := by
  obtain ⟨z, hz, rfl⟩ := Option.map_eq_some_iff.mp h
  refine ⟨z, hz, ?_⟩
  split
  · exact ⟨rfl, .inr rfl⟩
  · exact ⟨rfl, .inl rfl⟩

end Processes

end Shell
