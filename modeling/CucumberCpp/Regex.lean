import CucumberCpp.BindingList
import CucumberCpp.TextLines

/-! Regular expressions with capturing groups: the texts that denote them, and matching with
backtracking, where the first alternative that leads to a match wins. Character classes and
counted repetition are left out. -/
namespace Regex

open TextLines

variable {α : Type}

inductive Expr (α : Type) where
  | empty
  | char (c : α)
  | any
  | lineStart
  | lineEnd
  | seq (r s : Expr α)
  | alt (r s : Expr α)
  | star (r : Expr α)
  | group (index : ℕ) (r : Expr α)
  deriving DecidableEq

namespace Expr

def sequence : List (Expr α) → Expr α
  | [] => .empty
  | [r] => r
  | r :: s :: rs => .seq r (sequence (s :: rs))

def alternation : List (Expr α) → Expr α
  | [] => .empty
  | [r] => r
  | r :: s :: rs => .alt r (alternation (s :: rs))

/-- The expression of a text without special characters. -/
def literal (w : List α) : Expr α := sequence (w.map char)

end Expr

section Matching

/-- A place in a text, what comes before it read backwards, and what the groups captured. -/
structure State (α : Type) where
  before : List α := []
  after : List α
  captures : List (ℕ × List α) := []
  deriving DecidableEq

def State.eat (w : List α) (s : State α) : State α :=
  { s with before := w.reverse ++ s.before, after := s.after.drop w.length }

def State.capture (index : ℕ) (w : List α) (s : State α) : State α :=
  { s with captures := BindingList.assign index w s.captures }

/-- The text that a group captured last. -/
def State.captured (s : State α) (index : ℕ) : Option (List α) :=
  BindingList.find? index s.captures

@[simp] theorem State.captured_capture (index : ℕ) (w : List α) (s : State α) :
    (s.capture index w).captured index = some w := by
  simp [captured, capture, BindingList.find?, BindingList.assign]

/-- Greedy repetition; an iteration that reads nothing is refused. -/
def iterate (step : State α → List (State α)) : ℕ → State α → List (State α)
  | 0, s => [s]
  | fuel+1, s =>
    ((step s).filter fun t => t.after.length < s.after.length).flatMap (iterate step fuel) ++ [s]

variable [DecidableEq α] (newline : α → Bool)

/-- The states that a match can end in, in the order in which backtracking comes to them. -/
def run : Expr α → State α → List (State α)
  | .empty, s => [s]
  | .char c, s =>
    match s.after with
    | [] => []
    | x :: _ => if x = c then [s.eat [x]] else []
  | .any, s =>
    match s.after with
    | [] => []
    | x :: _ => if newline x then [] else [s.eat [x]]
  | .lineStart, s => if s.before = [] then [s] else []
  | .lineEnd, s => if s.after = [] then [s] else []
  | .seq r r', s => (run r s).flatMap (run r')
  | .alt r r', s => run r s ++ run r' s
  | .star r, s => iterate (run r) s.after.length s
  | .group index r, s =>
    (run r s).map fun t => t.capture index (s.after.take (s.after.length - t.after.length))

/-- The match that begins at a place. -/
def matchAt (r : Expr α) (s : State α) : Option (State α) := (run newline r s).head?

/-- The match of a whole text. -/
def fullMatch (r : Expr α) (text : List α) : Option (State α) :=
  (run newline r { after := text }).find? fun s => s.after = []

variable {newline}

theorem run_literal (w : List α) (s : State α) :
    run newline (.literal w) s = if w <+: s.after then [s.eat w] else [] := by
  induction w generalizing s with
  | nil =>
    rw [if_pos List.nil_prefix]
    rfl
  | cons c w ih =>
    have hcons : run newline (.literal (c :: w)) s =
        (run newline (.char c) s).flatMap (run newline (.literal w)) := by
      cases w with
      | nil => simp [Expr.literal, Expr.sequence, run]
      | cons d w => rfl
    rw [hcons]
    unfold run
    split
    case h_1 hafter => simp [hafter]
    case h_2 x rest hafter =>
      have hfirst : c :: w <+: s.after ↔ c = x ∧ w <+: rest := by
        rw [hafter, List.cons_prefix_cons]
      by_cases hx : x = c
      · subst hx
        have hafter' : (s.eat [x]).after = rest := by simp [State.eat, hafter]
        have hsplit : (s.eat [x]).eat w = s.eat (x :: w) := by simp [State.eat, hafter]
        rw [if_pos rfl, List.flatMap_singleton, ih, hafter', hsplit]
        simp [hfirst]
      · rw [if_neg hx, if_neg fun h => hx (hfirst.mp h).1.symm]
        rfl

theorem run_alternation {rs : List (Expr α)} (hrs : rs ≠ []) (s : State α) :
    run newline (.alternation rs) s = rs.flatMap fun r => run newline r s := by
  induction rs with
  | nil => exact absurd rfl hrs
  | cons r rs ih =>
    cases rs with
    | nil => simp [Expr.alternation]
    | cons r' rs =>
      rw [List.flatMap_cons, ← ih (by simp)]
      rfl

/-- A group around an alternation of literals captures the literals found, in their order. -/
theorem run_group_literals {ws : List (List α)} (hws : ws ≠ []) (index : ℕ) (s : State α) :
    run newline (.group index (.alternation (ws.map .literal))) s =
      (ws.filter fun w => w <+: s.after).map fun w => (s.eat w).capture index w := by
  have htext {w : List α} (hw : w <+: s.after) :
      s.after.take (s.after.length - (s.eat w).after.length) = w := by
    obtain ⟨rest,hrest⟩ := hw
    simp [State.eat, ← hrest]
  have halternation : run newline (.alternation (ws.map .literal)) s = _ :=
    run_alternation (by simpa using hws) s
  rw [run, halternation, List.flatMap_map, List.map_flatMap]
  clear hws halternation
  induction ws with
  | nil => rfl
  | cons w ws ih =>
    rw [List.flatMap_cons, ih, run_literal, List.filter_cons]
    by_cases hw : w <+: s.after
    · simp [hw, htext hw]
    · simp [hw]

omit [DecidableEq α] in
theorem isPrefix_and_drop_eq_nil_iff {w text : List α} :
    w <+: text ∧ text.drop w.length = [] ↔ w = text := by
  constructor
  · rintro ⟨hfirst,hdrop⟩
    exact hfirst.eq_of_length_le (List.drop_eq_nil_iff.mp hdrop)
  · rintro rfl
    exact ⟨List.prefix_rfl, List.drop_length⟩

theorem find?_eq_ite (text : List α) (ws : List (List α)) :
    ws.find? (fun w => decide (w = text)) = if text ∈ ws then some text else none := by
  induction ws with
  | nil => rfl
  | cons w ws ih =>
    rw [List.find?_cons, ih]
    by_cases hw : w = text
    · simp [hw]
    · simp [hw, Ne.symm hw]

/-- Of a whole text the group captures all, when the text is one of the literals. -/
theorem fullMatch_group_literals {ws : List (List α)} (hws : ws ≠ []) (index : ℕ)
    (text : List α) :
    fullMatch newline (.group index (.alternation (ws.map .literal))) text =
      if text ∈ ws then some ((State.eat text { after := text }).capture index text)
      else none := by
  have hwhole : (fun w => decide (decide (w <+: text) = true ∧ ((fun s : State α =>
        decide (s.after = [])) ∘ fun w => (State.eat w { after := text }).capture index w) w =
          true)) = fun w => decide (w = text) := by
    funext w
    exact decide_eq_decide.mpr ((and_congr decide_eq_true_iff decide_eq_true_iff).trans
      isPrefix_and_drop_eq_nil_iff)
  unfold fullMatch
  rw [run_group_literals hws, List.find?_map, List.find?_filter, hwhole, find?_eq_ite]
  split_ifs <;> rfl

/-- The group captures the first of the literals that the text goes on with. -/
theorem matchAt_group_literals {ws : List (List α)} (hws : ws ≠ []) (index : ℕ) (s : State α) :
    matchAt newline (.group index (.alternation (ws.map .literal))) s =
      (ws.find? fun w => w <+: s.after).map fun w => (s.eat w).capture index w := by
  unfold matchAt
  rw [run_group_literals hws, List.head?_map, List.head?_filter]

end Matching

section Parsing

/-- The characters with a meaning of their own. -/
def isMetacharacter (c : Char) : Bool :=
  decide (c ∈ ['\\', '^', '$', '.', '|', '?', '*', '+', '(', ')', '[', ']', '{', '}'])

inductive Token where
  | literal (c : Char)
  | special (c : Char)
  deriving DecidableEq

/-- A backslash stands for itself nowhere, and in front of special characters only. -/
def tokens : List Char → Option (List Token)
  | [] => some []
  | [c] => if c = '\\' then none else
      some [if isMetacharacter c then .special c else .literal c]
  | c :: d :: text =>
    if c = '\\' then
      if isMetacharacter d then (tokens text).map (.literal d :: ·) else none
    else (tokens (d :: text)).map ((if isMetacharacter c then .special c else .literal c) :: ·)

/-- A group that is read: its number, its alternatives and what is read of the last one. Both
lists have their last element in front. -/
structure Frame where
  index : ℕ := 0
  alternatives : List (Expr Char) := []
  last : List (Expr Char) := []

def Frame.push (f : Frame) (r : Expr Char) : Frame := { f with last := r :: f.last }

def Frame.bar (f : Frame) : Frame :=
  { f with alternatives := .sequence f.last.reverse :: f.alternatives, last := [] }

def Frame.expr (f : Frame) : Expr Char := .alternation f.bar.alternatives.reverse

/-- The groups that are open, around the innermost one, and how many there were. -/
structure Reader where
  current : Frame := {}
  outer : List Frame := []
  groups : ℕ := 0

def Reader.push (p : Reader) (r : Expr Char) : Reader := { p with current := p.current.push r }

/-- Something that applies to what was read last. -/
def Reader.quantify (p : Reader) (f : Expr Char → Expr Char) : Option Reader :=
  match p.current.last with
  | [] => none
  | r :: rs => some { p with current := { p.current with last := f r :: rs } }

def Reader.openGroup (p : Reader) : Reader where
  current := { index := p.groups+1 }
  outer := p.current :: p.outer
  groups := p.groups+1

def Reader.closeGroup (p : Reader) : Option Reader :=
  match p.outer with
  | [] => none
  | f :: outer => some
    { p with current := f.push (.group p.current.index p.current.expr), outer := outer }

def Reader.step (p : Reader) : Token → Option Reader
  | .literal c => some (p.push (.char c))
  | .special '(' => some p.openGroup
  | .special ')' => p.closeGroup
  | .special '|' => some { p with current := p.current.bar }
  | .special '.' => some (p.push .any)
  | .special '^' => some (p.push .lineStart)
  | .special '$' => some (p.push .lineEnd)
  | .special '*' => p.quantify .star
  | .special '+' => p.quantify fun r => .seq r (.star r)
  | .special '?' => p.quantify fun r => .alt r .empty
  | .special _ => none

def Reader.finish (p : Reader) : Option (Expr Char) :=
  if p.outer.isEmpty then some p.current.expr else none

def parse (text : List Char) : Option (Expr Char) := do
  let ts ← tokens text
  let p ← ts.foldlM Reader.step {}
  p.finish

theorem tokens_cons {c : Char} (hc : c ≠ '\\') (text : List Char) :
    tokens (c :: text) =
      (tokens text).map ((if isMetacharacter c then .special c else .literal c) :: ·) := by
  cases text with
  | nil => simp [tokens, hc]
  | cons d text => exact if_neg hc

/-- An escaped text is read as its characters. -/
theorem tokens_escape_append (w text : List Char) :
    tokens (escape isMetacharacter '\\' w ++ text) =
      (tokens text).map (w.map Token.literal ++ ·) := by
  induction w with
  | nil => simp [escape]
  | cons c w ih =>
    have hrest : (tokens text).map ((c :: w).map Token.literal ++ ·) =
        (tokens (escape isMetacharacter '\\' w ++ text)).map (.literal c :: ·) := by
      rw [ih, Option.map_map]
      rfl
    rw [hrest]
    by_cases hc : isMetacharacter c = true
    · have hsplit : escape isMetacharacter '\\' (c :: w) ++ text =
          '\\' :: c :: (escape isMetacharacter '\\' w ++ text) := by
        simp [escape, hc]
      rw [hsplit]
      exact (if_pos rfl).trans (if_pos hc)
    · have hsplit : escape isMetacharacter '\\' (c :: w) ++ text =
          c :: (escape isMetacharacter '\\' w ++ text) := by
        simp [escape, hc]
      have hbackslash : c ≠ '\\' := by
        rintro rfl
        exact hc rfl
      rw [hsplit, tokens_cons hbackslash, if_neg hc]

/-- The frame of a group whose alternatives are literals; the last of them is `w`. -/
def Frame.ofLiterals (index : ℕ) (ws : List (List Char)) (w : List Char) : Frame where
  index := index
  alternatives := (ws.map Expr.literal).reverse
  last := (w.map Expr.char).reverse

theorem Frame.expr_ofLiterals (index : ℕ) (ws : List (List Char)) (w : List Char) :
    (Frame.ofLiterals index ws w).expr = .alternation ((ws ++ [w]).map .literal) := by
  simp [Frame.expr, Frame.bar, Frame.ofLiterals, Expr.literal]

theorem foldlM_literals (w : List Char) (p : Reader) :
    (w.map Token.literal).foldlM Reader.step p =
      some { p with
        current := { p.current with last := (w.map Expr.char).reverse ++ p.current.last } } := by
  induction w generalizing p with
  | nil => rfl
  | cons c w ih =>
    rw [List.map_cons, List.foldlM_cons]
    simp only [Reader.step, Option.bind_eq_bind, Option.bind_some, ih]
    simp [Reader.push, Frame.push]

/-- The alternatives that come after the first one. -/
def barred (ws : List (List Char)) : List Token :=
  ws.flatMap fun w => .special '|' :: w.map .literal

theorem exists_foldlM_barred (index : ℕ) (ks ws : List (List Char)) (w : List Char)
    (outer : List Frame) (groups : ℕ) :
    ∃ ws' w', ws' ++ [w'] = ws ++ w :: ks ∧
      (barred ks).foldlM Reader.step
          { current := .ofLiterals index ws w, outer := outer, groups := groups } =
        some { current := .ofLiterals index ws' w', outer := outer, groups := groups } := by
  induction ks generalizing ws w with
  | nil => exact ⟨ws, w, rfl, rfl⟩
  | cons k ks ih =>
    obtain ⟨ws',w',hws,hrun⟩ := ih (ws ++ [w]) k
    refine ⟨ws', w', by simpa using hws, ?_⟩
    have hbar : ({ (Frame.ofLiterals index ws w).bar with last := (k.map Expr.char).reverse } :
        Frame) = .ofLiterals index (ws ++ [w]) k := by
      simp [Frame.bar, Frame.ofLiterals, Expr.literal]
    have hhead : barred (k :: ks) = .special '|' :: (k.map Token.literal ++ barred ks) := rfl
    rw [hhead, List.foldlM_cons]
    simp only [Reader.step, Option.bind_eq_bind, Option.bind_some, List.foldlM_append,
      foldlM_literals]
    rw [← hrun, ← hbar]
    simp [Frame.bar]

theorem tokens_barred (ks : List (List Char)) :
    tokens (ks.flatMap (fun k => '|' :: escape isMetacharacter '\\' k) ++ [')']) =
      some (barred ks ++ [.special ')']) := by
  induction ks with
  | nil => rfl
  | cons k ks ih =>
    rw [List.flatMap_cons, List.cons_append, List.cons_append, List.append_assoc,
      tokens_cons (by decide), tokens_escape_append, ih]
    simp [barred, isMetacharacter]

/-- What a group with escaped texts as its alternatives is read as. -/
theorem parse_group_literals (k : List Char) (ks : List (List Char)) :
    parse ('(' :: escape isMetacharacter '\\' k ++
        ks.flatMap (fun k => '|' :: escape isMetacharacter '\\' k) ++ [')']) =
      some (.group 1 (.alternation ((k :: ks).map .literal))) := by
  have htokens : tokens ('(' :: escape isMetacharacter '\\' k ++
      ks.flatMap (fun k => '|' :: escape isMetacharacter '\\' k) ++ [')']) =
        some (.special '(' :: (k.map .literal ++ (barred ks ++ [.special ')']))) := by
    rw [List.cons_append, List.cons_append, List.append_assoc, tokens_cons (by decide),
      tokens_escape_append, tokens_barred]
    rfl
  obtain ⟨ws,w,hws,hrun⟩ := exists_foldlM_barred 1 ks [] k [{}] 1
  have hfirst : (k.map Token.literal).foldlM Reader.step (Reader.openGroup {}) =
      some { current := .ofLiterals 1 [] k, outer := [{}], groups := 1 } := by
    rw [foldlM_literals]
    simp [Reader.openGroup, Frame.ofLiterals]
  have hclose : Reader.closeGroup { current := .ofLiterals 1 ws w, outer := [{}], groups := 1 } =
      some { current := { last := [.group 1 (.alternation ((k :: ks).map .literal))] }
             outer := []
             groups := 1 } := by
    have hexpr := Frame.expr_ofLiterals 1 ws w
    rw [hws] at hexpr
    simp only [Reader.closeGroup, hexpr]
    rfl
  unfold parse
  rw [htokens, Option.bind_eq_bind, Option.bind_some, List.foldlM_cons]
  simp only [Reader.step, Option.bind_eq_bind, Option.bind_some, List.foldlM_append, hfirst, hrun,
    List.foldlM_cons, List.foldlM_nil, hclose]
  rfl

end Parsing

end Regex
