import CucumberCpp.DelimitedText

/-! The part of the CMake language that generated files are written in, and how it is read: one
command a line, whose arguments are words and bracket arguments with one space between them. -/
namespace CmakeLanguage

open DelimitedText

section BracketArgument

/-- The level of the opening bracket `[`, `=` as often as the level says, `[`. -/
def readOpening : List Char → Option (ℕ × List Char)
  | '[' :: text =>
    match text.dropWhile (· = '=') with
    | '[' :: rest => some ((text.takeWhile (· = '=')).length,rest)
    | _ => none
  | _ => none

/-- A newline that directly follows the opening bracket is not part of the content. -/
def dropNewline : List Char → List Char
  | '\n' :: text => text
  | text => text

/-- The content is what stands before the first closing bracket of the level. -/
def readBracketArgument (text : List Char) : Option (List Char × List Char) := do
  let (level,text) ← readOpening text
  (dropNewline text).dropInfix? (delimiter ']' '=' level)

theorem readOpening_delimiter (level : ℕ) (text : List Char) :
    readOpening (delimiter '[' '=' level ++ text) = some (level,text) := by
  have hequals : ∀ c ∈ List.replicate level '=', decide (c = '=') = true := by
    intro c hc
    simpa using List.eq_of_mem_replicate hc
  have htext : delimiter '[' '=' level ++ text =
      '[' :: (List.replicate level '=' ++ '[' :: text) := by simp [delimiter]
  rw [htext, readOpening, List.dropWhile_append_of_pos hequals,
    List.takeWhile_append_of_pos hequals]
  simp

theorem dropNewline_append {text : List Char} (h : text ≠ []) (rest : List Char) :
    dropNewline (text ++ rest) = dropNewline text ++ rest := by
  cases text with
  | nil => exact absurd rfl h
  | cons c text =>
    by_cases hc : c = '\n'
    · subst hc
      rfl
    · simp [dropNewline, hc]

/-- A text in brackets of a level that ends `value` is read as `value`, when `value` is the text
or the text after its first newline. -/
theorem readBracketArgument_delimiter {level : ℕ} {content value : List Char}
    (hends : Ends (delimiter ']' '=' level) value)
    (hcontent : dropNewline (content ++ [']']) = value ++ [']']) (rest : List Char) :
    readBracketArgument
      (delimiter '[' '=' level ++ content ++ delimiter ']' '=' level ++ rest) =
        some (value,rest) := by
  have hclosing : delimiter ']' '=' level ++ rest =
      [']'] ++ (List.replicate level '=' ++ [']'] ++ rest) := by simp [delimiter]
  have hdrop : dropNewline (content ++ (delimiter ']' '=' level ++ rest)) =
      value ++ (delimiter ']' '=' level ++ rest) := by
    rw [hclosing, ← List.append_assoc, dropNewline_append (by simp), hcontent, List.append_assoc]
  rw [List.append_assoc, List.append_assoc, readBracketArgument, readOpening_delimiter]
  simp only [Option.bind_eq_bind, Option.bind_some]
  rw [hdrop, ← List.append_assoc]
  exact hends.dropInfix?_append rest

end BracketArgument

section Arguments

def isWordCharacter (c : Char) : Bool := c.isAlpha || c == '_'

/-- An unquoted argument or an identifier, of letters and underscores. -/
def readWord (text : List Char) : Option (List Char × List Char) :=
  let word := text.takeWhile isWordCharacter
  if word = [] then none else some (word,text.dropWhile isWordCharacter)

def readArgument (text : List Char) : Option (List Char × List Char) :=
  if text.head? = some '[' then readBracketArgument text else readWord text

/-- The arguments up to the parenthesis after the last one. -/
def readArguments : ℕ → List Char → Option (List (List Char) × List Char)
  | 0, _ => none
  | fuel+1, text => do
    let (argument,text) ← readArgument text
    match text with
    | ' ' :: text =>
      let (arguments,text) ← readArguments fuel text
      pure (argument :: arguments,text)
    | ')' :: text => pure ([argument],text)
    | _ => none

structure IsWord (word : List Char) : Prop where
  ne_nil : word ≠ []
  character : ∀ c ∈ word, isWordCharacter c = true

/-- `text` is read as one argument where another one or the end of the command follows. -/
def ReadsArgument (text argument : List Char) : Prop :=
  ∀ c rest, c = ' ' ∨ c = ')' → readArgument (text ++ c :: rest) = some (argument,c :: rest)

theorem readWord_append {word : List Char} (h : IsWord word) {c : Char}
    (hc : isWordCharacter c = false) (rest : List Char) :
    readWord (word ++ c :: rest) = some (word,c :: rest) := by
  have htake : (word ++ c :: rest).takeWhile isWordCharacter = word := by
    rw [List.takeWhile_append_of_pos h.character, List.takeWhile_cons_of_neg (by simp [hc]),
      List.append_nil]
  have hdrop : (word ++ c :: rest).dropWhile isWordCharacter = c :: rest := by
    rw [List.dropWhile_append_of_pos h.character, List.dropWhile_cons_of_neg (by simp [hc])]
  simp only [readWord, htake, hdrop, if_neg h.ne_nil]

theorem readsArgument_word {word : List Char} (h : IsWord word) : ReadsArgument word word := by
  intro c rest hc
  have hword : isWordCharacter c = false := by
    rcases hc with rfl | rfl <;> decide
  have hhead : (word ++ c :: rest).head? ≠ some '[' := by
    cases word with
    | nil => exact absurd rfl h.ne_nil
    | cons d word =>
      intro hd
      rw [List.cons_append, List.head?_cons, Option.some.injEq] at hd
      have hchar := h.character d List.mem_cons_self
      rw [hd] at hchar
      revert hchar
      decide
  rw [readArgument, if_neg hhead]
  exact readWord_append h hword rest

theorem readsArgument_bracket {text argument : List Char}
    (h : ∀ rest, readBracketArgument (text ++ rest) = some (argument,rest)) :
    ReadsArgument text argument := by
  intro c rest _
  have hhead : (text ++ c :: rest).head? = some '[' := by
    by_contra hne
    have hnone : readBracketArgument (text ++ c :: rest) = none := by
      rw [readBracketArgument]
      cases hcons : text ++ c :: rest with
      | nil => rfl
      | cons d tail =>
        have hd : d ≠ '[' := by
          intro hd
          rw [hcons, hd] at hne
          exact hne rfl
        simp [readOpening, hd]
    rw [h] at hnone
    cases hnone
  rw [readArgument, if_pos hhead]
  exact h (c :: rest)

/-- Arguments with a space before each of them. -/
def separated (texts : List (List Char)) : List Char := texts.flatMap fun text => ' ' :: text

theorem separated_cons (text : List Char) (texts : List (List Char)) :
    separated (text :: texts) = ' ' :: text ++ separated texts := rfl

theorem separated_append (texts texts' : List (List Char)) :
    separated (texts ++ texts') = separated texts ++ separated texts' := List.flatMap_append

theorem length_le_length_separated (texts : List (List Char)) :
    texts.length ≤ (separated texts).length := by
  induction texts with
  | nil => exact Nat.zero_le _
  | cons text texts ih =>
    simp only [separated_cons, List.length_cons, List.length_append]
    omega

/-- `text` is read as these arguments where it follows an argument. -/
def ReadsArguments (text : List Char) (arguments : List (List Char)) : Prop :=
  ∃ texts, text = separated texts ∧ List.Forall₂ ReadsArgument texts arguments

theorem readsArguments_nil : ReadsArguments [] [] := ⟨[], rfl, .nil⟩

theorem ReadsArgument.readsArguments {text argument : List Char} (h : ReadsArgument text argument) :
    ReadsArguments (' ' :: text) [argument] := by
  refine ⟨[text], ?_, .cons h .nil⟩
  rw [separated_cons, separated, List.flatMap_nil, List.append_nil]

theorem ReadsArguments.append {text text' : List Char} {arguments arguments' : List (List Char)}
    (h : ReadsArguments text arguments) (h' : ReadsArguments text' arguments') :
    ReadsArguments (text ++ text') (arguments ++ arguments') := by
  obtain ⟨texts,rfl,hs⟩ := h
  obtain ⟨texts',rfl,hs'⟩ := h'
  exact ⟨texts ++ texts', (separated_append texts texts').symm, List.rel_append hs hs'⟩

theorem ReadsArguments.eq_nil_iff {text : List Char} {arguments : List (List Char)}
    (h : ReadsArguments text arguments) : text = [] ↔ arguments = [] := by
  obtain ⟨texts,rfl,hs⟩ := h
  cases hs <;> simp [separated]

theorem readArguments_separated {text argument : List Char} {texts arguments : List (List Char)}
    (h : ReadsArgument text argument) (hs : List.Forall₂ ReadsArgument texts arguments)
    (rest : List Char) {fuel : ℕ} (hfuel : texts.length < fuel) :
    readArguments fuel (text ++ separated texts ++ ')' :: rest) =
      some (argument :: arguments,rest) := by
  -- on the later arguments; a round reads the argument in front and the space behind it
  induction hs generalizing text argument fuel with
  | nil =>
    obtain ⟨fuel,rfl⟩ := Nat.exists_eq_add_of_lt hfuel
    have hread := h ')' rest (Or.inr rfl)
    simp [readArguments, separated, hread]
  | @cons next nextArgument texts arguments hnext _ ih =>
    obtain ⟨fuel,rfl⟩ : ∃ f, fuel = f+1 := ⟨fuel-1, by omega⟩
    rw [List.length_cons] at hfuel
    have htext : text ++ separated (next :: texts) ++ ')' :: rest =
        text ++ ' ' :: (next ++ separated texts ++ ')' :: rest) := by simp [separated_cons]
    have hlater : readArguments fuel (next ++ separated texts ++ ')' :: rest) =
        some (nextArgument :: arguments,rest) := ih hnext (by omega)
    rw [htext, readArguments, h ' ' _ (Or.inl rfl)]
    simp only [Option.bind_eq_bind, Option.bind_some]
    rw [hlater]
    rfl

end Arguments

section Commands

structure CommandInvocation where
  identifier : List Char
  arguments : List (List Char)
  deriving DecidableEq

def readCommand (text : List Char) : Option (CommandInvocation × List Char) := do
  let (identifier,text) ← readWord text
  match text with
  | '(' :: text =>
    let (arguments,text) ← readArguments text.length text
    match text with
    | '\n' :: text => pure ({ identifier := identifier, arguments := arguments },text)
    | _ => none
  | _ => none

def readCommands : ℕ → List Char → Option (List CommandInvocation)
  | _, [] => some []
  | 0, _ => none
  | fuel+1, text => do
    let (command,text) ← readCommand text
    let commands ← readCommands fuel text
    pure (command :: commands)

/-- A command takes at least one character, so that the fuel is never short. -/
def readFile (text : List Char) : Option (List CommandInvocation) :=
  readCommands text.length text

/-- `text` is read as one command, whatever follows. -/
def ReadsCommand (text : List Char) (command : CommandInvocation) : Prop :=
  ∀ rest, readCommand (text ++ rest) = some (command,rest)

def commandText (identifier text later : List Char) : List Char :=
  identifier ++ ['('] ++ text ++ later ++ [')', '\n']

theorem readsCommand_commandText {identifier text later argument : List Char}
    {arguments : List (List Char)} (hidentifier : IsWord identifier)
    (h : ReadsArgument text argument) (hs : ReadsArguments later arguments) :
    ReadsCommand (commandText identifier text later)
      { identifier := identifier, arguments := argument :: arguments } := by
  intro rest
  obtain ⟨texts,rfl,hs⟩ := hs
  have htext : commandText identifier text (separated texts) ++ rest =
      identifier ++ '(' :: (text ++ separated texts ++ ')' :: '\n' :: rest) := by
    simp [commandText]
  have hfuel : texts.length < (text ++ separated texts ++ ')' :: '\n' :: rest).length := by
    have hle := length_le_length_separated texts
    simp only [List.length_append, List.length_cons]
    omega
  rw [htext, readCommand, readWord_append hidentifier (by decide)]
  simp only [Option.bind_eq_bind, Option.bind_some]
  rw [readArguments_separated h hs ('\n' :: rest) hfuel]
  rfl

theorem ReadsCommand.ne_nil {text : List Char} {command : CommandInvocation}
    (h : ReadsCommand text command) : text ≠ [] := by
  rintro rfl
  have hnil : readCommand [] = some (command,[]) := h []
  cases hnil

theorem readCommands_flatten {texts : List (List Char)} {commands : List CommandInvocation}
    (h : List.Forall₂ ReadsCommand texts commands) {fuel : ℕ}
    (hfuel : texts.flatten.length ≤ fuel) :
    readCommands fuel texts.flatten = some commands := by
  induction h generalizing fuel with
  | nil => cases fuel <;> rfl
  | @cons text command texts commands hread _ ih =>
    obtain ⟨c,tail,rfl⟩ := List.exists_cons_of_ne_nil hread.ne_nil
    rw [List.flatten_cons, List.length_append, List.length_cons] at hfuel
    obtain ⟨fuel,rfl⟩ : ∃ f, fuel = f+1 := ⟨fuel-1, by omega⟩
    have hfirst := hread texts.flatten
    rw [List.cons_append] at hfirst
    have hlater : readCommands fuel texts.flatten = some commands := ih (by omega)
    rw [List.flatten_cons, List.cons_append]
    simp [readCommands, hfirst, hlater]

/-- A file of texts that are read as commands is read as just these commands. -/
theorem readFile_flatten {texts : List (List Char)} {commands : List CommandInvocation}
    (h : List.Forall₂ ReadsCommand texts commands) :
    readFile texts.flatten = some commands := readCommands_flatten h le_rfl

end Commands

end CmakeLanguage
