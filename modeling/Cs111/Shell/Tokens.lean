import Cs111.Lib.Munch
import Cs111.Shell.Input

-- The rules of the scanner, and what of a line reaches the shell.
namespace Shell
open Munch

inductive LexAction where
  | push | stop | skip
  deriving DecidableEq

def isBlankByte (b : UInt8) : Bool := byteChar b == ' ' || byteChar b == '\t'

def tokenRule : Rule UInt8 LexAction := ⟨either (plus isWordByte) (one isSpecialByte), .push⟩

def newlineRule : Rule UInt8 LexAction := ⟨one (· == newline), .stop⟩

def blankRule : Rule UInt8 LexAction := ⟨plus isBlankByte, .skip⟩

def otherRule : Rule UInt8 LexAction := ⟨one (· != newline), .skip⟩

def rules : List (Rule UInt8 LexAction) := [tokenRule, newlineRule, blankRule, otherRule]

def pushArg (args : List String) (text : String) : List String :=
  if args.length < numargs - 1 then args ++ [text] else args

def lexAction : LexAction → List UInt8 → List String → List String ⊕ List String
  | .push, text, args => .inl (pushArg args (yytext text))
  | .stop, _, args => .inr args
  | .skip, _, args => .inl args

def scanLine : List UInt8 → Option (List String × List UInt8) := run rules lexAction []

section Classes
variable {b : UInt8}

theorem classes_apart (b : UInt8) : (isWordByte b → ¬ isSpecialByte b ∧ b ≠ newline) ∧
    (isSpecialByte b → b ≠ newline) ∧
    (isBlankByte b → ¬ isWordByte b ∧ ¬ isSpecialByte b ∧ b ≠ newline) := by
  have h : ∀ n : Fin 256, (isWordByte (.ofFin n) → ¬ isSpecialByte (.ofFin n) ∧
      UInt8.ofFin n ≠ newline) ∧ (isSpecialByte (.ofFin n) → UInt8.ofFin n ≠ newline) ∧
      (isBlankByte (.ofFin n) → ¬ isWordByte (.ofFin n) ∧ ¬ isSpecialByte (.ofFin n) ∧
        UInt8.ofFin n ≠ newline) := by
    decide +kernel
  exact h b.toFin

end Classes

section Longest
variable {b : UInt8} {rest : List UInt8}

theorem newlineRule_longest : newlineRule.longest (b :: rest) = if b = newline then 1 else 0 := by
  simp [newlineRule, longest_one]

theorem otherRule_longest : otherRule.longest (b :: rest) = if b = newline then 0 else 1 := by
  simp [otherRule, longest_one]

theorem blankRule_longest :
    blankRule.longest (b :: rest) = ((b :: rest).takeWhile isBlankByte).length :=
  longest_plus

theorem tokenRule_longest : tokenRule.longest (b :: rest) =
    max ((b :: rest).takeWhile isWordByte).length (if isSpecialByte b then 1 else 0) := by
  rw [tokenRule, longest_either, longest_plus, longest_one]

theorem takeWhile_none {p : UInt8 → Bool} (h : ¬ p b) :
    ((b :: rest).takeWhile p).length = 0 := by
  simp [h]

theorem takeWhile_some {p : UInt8 → Bool} (h : p b) :
    0 < ((b :: rest).takeWhile p).length := by
  simp [h]

variable (rest) in
theorem lexeme_word (h : isWordByte b) :
    lexeme rules (b :: rest) = some (.push, ((b :: rest).takeWhile isWordByte).length) := by
  obtain ⟨hspecial, hnewline⟩ := (classes_apart b).1 h
  have hblank : ¬ isBlankByte b := fun hb => ((classes_apart b).2.2 hb).1 h
  have hpos : 0 < ((b :: rest).takeWhile isWordByte).length := takeWhile_some h
  refine lexeme_first [] [newlineRule, blankRule, otherRule] ?_ hpos (by simp) ?_
  · rw [tokenRule_longest, if_neg hspecial, max_eq_left (Nat.zero_le _)]
  · simp only [List.forall_mem_cons, newlineRule_longest, blankRule_longest, otherRule_longest,
      takeWhile_none hblank, if_neg hnewline]
    exact ⟨Nat.zero_le _, Nat.zero_le _, hpos, by simp⟩

theorem lexeme_special (h : isSpecialByte b) : lexeme rules (b :: rest) = some (.push, 1) := by
  have hnewline := (classes_apart b).2.1 h
  have hword : ¬ isWordByte b := fun hw => ((classes_apart b).1 hw).1 h
  have hblank : ¬ isBlankByte b := fun hb => ((classes_apart b).2.2 hb).2.1 h
  refine lexeme_first [] [newlineRule, blankRule, otherRule] ?_ Nat.zero_lt_one (by simp) ?_
  · rw [tokenRule_longest, if_pos h, takeWhile_none hword]
    rfl
  · simp only [List.forall_mem_cons, newlineRule_longest, blankRule_longest, otherRule_longest,
      takeWhile_none hblank, if_neg hnewline]
    simp

theorem tokenRule_none (hword : ¬ isWordByte b) (hspecial : ¬ isSpecialByte b) :
    tokenRule.longest (b :: rest) = 0 := by
  rw [tokenRule_longest, if_neg hspecial, takeWhile_none hword]
  rfl

theorem lexeme_newline : lexeme rules (newline :: rest) = some (.stop, 1) := by
  refine lexeme_first [tokenRule] [blankRule, otherRule] ?_ Nat.zero_lt_one ?_ ?_
  · rw [newlineRule_longest, if_pos rfl]
  · simp only [List.forall_mem_singleton, tokenRule_none (show ¬ isWordByte newline by decide)
      (show ¬ isSpecialByte newline by decide), Nat.zero_lt_one]
  · simp only [List.forall_mem_cons, blankRule_longest, otherRule_longest,
      takeWhile_none (show ¬ isBlankByte newline by decide)]
    simp

variable (rest) in
theorem lexeme_blank (h : isBlankByte b) :
    lexeme rules (b :: rest) = some (.skip, ((b :: rest).takeWhile isBlankByte).length) := by
  obtain ⟨hword, hspecial, hnewline⟩ := (classes_apart b).2.2 h
  have hpos : 0 < ((b :: rest).takeWhile isBlankByte).length := takeWhile_some h
  refine lexeme_first [tokenRule, newlineRule] [otherRule] blankRule_longest hpos ?_ ?_
  · simp only [List.forall_mem_cons, tokenRule_none hword hspecial, newlineRule_longest,
      if_neg hnewline]
    exact ⟨hpos, hpos, by simp⟩
  · simp only [List.forall_mem_singleton, otherRule_longest, if_neg hnewline]
    exact hpos

theorem lexeme_other (hword : ¬ isWordByte b) (hspecial : ¬ isSpecialByte b)
    (hblank : ¬ isBlankByte b) (hnewline : b ≠ newline) :
    lexeme rules (b :: rest) = some (.skip, 1) := by
  refine lexeme_first [tokenRule, newlineRule, blankRule] [] ?_ Nat.zero_lt_one ?_ (by simp)
  · rw [otherRule_longest, if_neg hnewline]
  · simp only [List.forall_mem_cons, tokenRule_none hword hspecial, newlineRule_longest,
      if_neg hnewline, blankRule_longest, takeWhile_none hblank]
    simp

end Longest

section Scan
variable {b : UInt8} {bytes rest : List UInt8} {args words : List String}

theorem keptWords_push (words : List String) (text : String) :
    keptWords (words ++ [text]) = pushArg (keptWords words) text := by
  unfold keptWords pushArg
  rw [List.length_take]
  split_ifs with h
  · rw [List.take_append, List.take_of_length_le (by omega), List.take_of_length_le (by simp; omega)]
  · rw [List.take_append_of_le_length (by omega)]

theorem yylexFrom_run (h : ∀ b ∈ bytes, isWordByte b) (word : List UInt8) (words : List String) :
    yylexFrom word words (bytes ++ rest) = yylexFrom (word ++ bytes) words rest := by
  induction bytes generalizing word with
  | nil => simp
  | cons b bytes ih =>
    rw [List.cons_append, yylexFrom, if_pos (h b (.head _)), ih fun b' hb' => h b' (.tail _ hb')]
    simp

theorem yylexFrom_ended (h : ∀ b ∈ rest.head?, ¬ isWordByte b) (word : List UInt8) (words : List String) :
    yylexFrom word words rest = yylexFrom [] (endWord word words) rest := by
  cases rest with
  | nil => rfl
  | cons b rest =>
    have hb : ¬ isWordByte b := h b rfl
    simp [yylexFrom, hb, endWord]

theorem yylexFrom_blanks (h : ∀ b ∈ bytes, isBlankByte b) :
    yylexFrom [] words (bytes ++ rest) = yylexFrom [] words rest := by
  induction bytes with
  | nil => rfl
  | cons b bytes ih =>
    obtain ⟨hword, hspecial, hnewline⟩ := (classes_apart b).2.2 (h b (.head _))
    rw [List.cons_append, yylexFrom, if_neg hword, if_neg hspecial, if_neg hnewline]
    exact ih fun b' hb' => h b' (.tail _ hb')

theorem run_eq_yylexFrom (words : List String) (input : List UInt8) :
    run rules lexAction (keptWords words) input =
      (yylexFrom [] words input).map fun (line, rest) => (keptWords line, rest) := by
  match input with
  | [] => exact run_nil
  | b :: tail =>
    by_cases hword : isWordByte b
    · have hlex := lexeme_word tail hword
      have hpos : 0 < ((b :: tail).takeWhile isWordByte).length := takeWhile_some hword
      obtain ⟨text, rest, hinput, hlen, htext, hrest⟩ := split_run isWordByte (b :: tail)
      rw [hlen] at hlex hpos
      have hshort : rest.length < tail.length + 1 := by
        have := congrArg List.length hinput
        simp only [List.length_cons, List.length_append] at this
        omega
      have hne : text ≠ [] := List.ne_nil_of_length_pos hpos
      rw [run_goes hlex rfl, hinput, List.take_left, List.drop_left, ← keptWords_push,
        run_eq_yylexFrom _ rest, yylexFrom_run htext, List.nil_append,
        yylexFrom_ended hrest text words, endWord, if_neg hne]
    by_cases hspecial : isSpecialByte b
    · rw [run_goes (lexeme_special hspecial) rfl, List.take_one, List.drop_one]
      simp only [List.head?_cons, Option.toList_some, List.tail_cons, ← keptWords_push]
      rw [run_eq_yylexFrom _ tail, yylexFrom, if_neg hword, if_pos hspecial, endWord, if_pos rfl]
    by_cases hblank : isBlankByte b
    · have hlex := lexeme_blank tail hblank
      have hpos : 0 < ((b :: tail).takeWhile isBlankByte).length := takeWhile_some hblank
      obtain ⟨text, rest, hinput, hlen, htext, -⟩ := split_run isBlankByte (b :: tail)
      rw [hlen] at hlex hpos
      have hshort : rest.length < tail.length + 1 := by
        have := congrArg List.length hinput
        simp only [List.length_cons, List.length_append] at this
        omega
      rw [run_goes hlex rfl, hinput, List.drop_left, run_eq_yylexFrom _ rest,
        yylexFrom_blanks htext]
    by_cases hnewline : b = newline
    · subst hnewline
      rw [run_stops lexeme_newline rfl, yylexFrom, if_neg hword, if_neg hspecial, if_pos rfl]
      rfl
    · rw [run_goes (lexeme_other hword hspecial hblank hnewline) rfl, List.drop_one,
        List.tail_cons, run_eq_yylexFrom _ tail, yylexFrom, if_neg hword, if_neg hspecial,
        if_neg hnewline]
      rfl
termination_by input.length

theorem scanLine_eq (input : List UInt8) :
    scanLine input = (yylex input).map fun (line, rest) => (keptWords line, rest) :=
  run_eq_yylexFrom [] input

end Scan

section Lost
variable {line rest word : List UInt8} {words : List String}

def letters (words : List String) : List Char := words.flatMap String.toList

def isTokenByte (b : UInt8) : Bool := isWordByte b || isSpecialByte b

theorem letters_endWord (word : List UInt8) (words : List String) :
    letters (endWord word words) = letters words ++ word.map byteChar := by
  rw [endWord]
  split_ifs with h
  · simp [h]
  · simp [letters, yytext]

variable (rest) in
theorem yylexFrom_letters (hline : newline ∉ line) (word : List UInt8) (words : List String) :
    ∃ all, yylexFrom word words (line ++ newline :: rest) = some (all, rest) ∧
      letters all = letters words ++ word.map byteChar ++ (line.filter isTokenByte).map byteChar := by
  induction line generalizing word words with
  | nil => exact ⟨_, rfl, by simp [letters_endWord]⟩
  | cons b line ih =>
    rw [List.mem_cons, not_or] at hline
    obtain ⟨hb, hline⟩ := hline
    rw [List.cons_append, yylexFrom]
    by_cases hword : isWordByte b
    · obtain ⟨all, hall, hletters⟩ := ih hline (word ++ [b]) words
      rw [if_pos hword]
      exact ⟨all, hall, by simp [hletters, isTokenByte, hword]⟩
    by_cases hspecial : isSpecialByte b
    · obtain ⟨all, hall, hletters⟩ := ih hline [] (endWord word words ++ [yytext [b]])
      rw [if_neg hword, if_pos hspecial]
      refine ⟨all, hall, hletters.trans ?_⟩
      have hlast : letters (endWord word words ++ [yytext [b]]) =
          letters (endWord word words) ++ [byteChar b] := by simp [letters, yytext]
      rw [hlast, letters_endWord]
      simp [isTokenByte, hspecial]
    · obtain ⟨all, hall, hletters⟩ := ih hline [] (endWord word words)
      rw [if_neg hword, if_neg hspecial, if_neg (Ne.symm hb)]
      exact ⟨all, hall, by simp [hletters, letters_endWord, isTokenByte, hword, hspecial]⟩

theorem yylexFrom_nonempty {input : List UInt8} {all : List String}
    (hwords : ∀ w ∈ words, w.toList ≠ [])
    (h : yylexFrom word words input = some (all, rest)) : ∀ w ∈ all, w.toList ≠ [] := by
  have hend : ∀ (word : List UInt8) words, (∀ w ∈ words, w.toList ≠ []) →
      ∀ w ∈ endWord word words, w.toList ≠ [] := by
    intro word words hwords
    rw [endWord]
    split_ifs with h0
    · exact hwords
    · exact List.forall_mem_append.2 ⟨hwords, by simpa [yytext] using h0⟩
  induction input generalizing word words with
  | nil => cases h
  | cons b input ih =>
    rw [yylexFrom] at h
    split_ifs at h
    · exact ih hwords h
    · exact ih (List.forall_mem_append.2 ⟨hend word words hwords, by simp [yytext]⟩) h
    · cases h
      exact hend word words hwords
    · exact ih (hend word words hwords) h

theorem tokenBytes_eq (line : List UInt8) :
    line.filter isTokenByte = (line.filter fun b => !isBlankByte b).filter isTokenByte := by
  rw [List.filter_filter]
  refine List.filter_congr fun b _ => ?_
  by_cases hb : isBlankByte b
  · obtain ⟨hword, hspecial, -⟩ := (classes_apart b).2.2 hb
    simp [isTokenByte, hword, hspecial]
  · simp [hb]

theorem kept_whole_iff {all : List String} (hnonempty : ∀ w ∈ all, w.toList ≠ [])
    (hletters : letters all = (line.filter isTokenByte).map byteChar) :
    letters (keptWords all) = (line.filter fun b => !isBlankByte b).map byteChar ↔
      all.length ≤ numargs - 1 ∧ ∀ b ∈ line, isTokenByte b ∨ isBlankByte b := by
  have hparts : letters all = letters (keptWords all) ++ letters (all.drop (numargs - 1)) := by
    rw [keptWords, letters, letters, letters, ← List.flatMap_append, List.take_append_drop]
  have htoken := tokenBytes_eq line
  constructor
  · intro h
    have hlen := congrArg List.length hparts
    rw [hletters, h, List.length_append, List.length_map, List.length_map, htoken] at hlen
    have hle := List.length_filter_le isTokenByte (line.filter fun b => !isBlankByte b)
    have hdrop : letters (all.drop (numargs - 1)) = [] := List.eq_nil_of_length_eq_zero (by omega)
    have hall : ∀ b ∈ line.filter fun b => !isBlankByte b, isTokenByte b :=
      List.length_filter_eq_length_iff.1 (by omega)
    constructor
    · rw [← List.drop_eq_nil_iff]
      rw [letters, List.flatMap_eq_nil_iff] at hdrop
      exact List.eq_nil_iff_forall_not_mem.2 fun w hw =>
        hnonempty w (List.mem_of_mem_drop hw) (hdrop w hw)
    · intro b hb
      by_cases hblank : isBlankByte b
      · exact .inr hblank
      · exact .inl (hall b (by simp [hb, hblank]))
  · rintro ⟨hfew, hall⟩
    rw [keptWords, List.take_of_length_le hfew, hletters, htoken, List.filter_eq_self.2]
    intro b hb
    rw [List.mem_filter] at hb
    exact (hall b hb.1).resolve_right (by simpa using hb.2)

theorem line_tokens (hline : newline ∉ line) (rest : List UInt8) :
    ∃ all, yylex (line ++ newline :: rest) = some (all, rest) ∧
      scanLine (line ++ newline :: rest) = some (all.take (numargs - 1), rest) ∧
      letters all = (line.filter isTokenByte).map byteChar ∧
      (letters (all.take (numargs - 1)) = (line.filter fun b => !isBlankByte b).map byteChar ↔
        all.length ≤ numargs - 1 ∧ ∀ b ∈ line, isTokenByte b ∨ isBlankByte b) := by
  obtain ⟨all, hall, hletters⟩ := yylexFrom_letters rest hline [] []
  have hletters' : letters all = (line.filter isTokenByte).map byteChar := by
    simpa [letters] using hletters
  refine ⟨all, hall, by rw [scanLine_eq, yylex, hall]; rfl, hletters', ?_⟩
  exact kept_whole_iff (yylexFrom_nonempty (by simp) hall) hletters'

theorem line_tokens_ls :
    ∃ all, yylex ("ls -l".toList.map (fun c => c.toNat.toUInt8) ++ [newline]) = some (all, []) ∧
      scanLine ("ls -l".toList.map (fun c => c.toNat.toUInt8) ++ [newline]) =
        some (all.take (numargs - 1), []) ∧
      letters all = (("ls -l".toList.map fun c => c.toNat.toUInt8).filter isTokenByte).map byteChar ∧
      (letters (all.take (numargs - 1)) =
          (("ls -l".toList.map fun c => c.toNat.toUInt8).filter fun b => !isBlankByte b).map byteChar ↔
        all.length ≤ numargs - 1 ∧
          ∀ b ∈ "ls -l".toList.map fun c => c.toNat.toUInt8, isTokenByte b ∨ isBlankByte b) :=
  line_tokens (by decide) []

theorem underscore_lost :
    ¬ ∀ line rest : List UInt8, newline ∉ line → ∃ tokens,
      scanLine (line ++ newline :: rest) = some (tokens, rest) ∧
      letters tokens = (line.filter fun b => !isBlankByte b).map byteChar := by
  intro h
  obtain ⟨tokens, hscan, hletters⟩ := h [97, 95, 98] [] (by decide)
  have hlex : yylex ([97, 95, 98] ++ [newline]) = some (["a", "b"], []) := by decide
  rw [scanLine_eq, hlex] at hscan
  cases hscan
  exact absurd hletters (by decide)

end Lost

end Shell
