import Mathlib

/-! Texts as lists of characters: stripping, cutting into lines, escaping. -/
namespace TextLines

variable {α : Type}

section Strip

variable (p : α → Bool)

/-- A text without the characters at its ends for which `p` holds. -/
def strip (xs : List α) : List α := (xs.dropWhile p).rdropWhile p

variable {p} {xs ys : List α}

theorem strip_eq_nil_iff : strip p xs = [] ↔ ∀ x ∈ xs, p x = true := by
  unfold strip
  rw [List.rdropWhile_eq_nil_iff]
  constructor
  · intro h x hx
    by_contra hpx
    have hmem : x ∈ xs.dropWhile p := by
      rw [← List.takeWhile_append_dropWhile (p := p) (l := xs), List.mem_append] at hx
      exact hx.resolve_left fun htake => hpx (List.mem_takeWhile_imp htake)
    exact hpx (h x hmem)
  · intro h x hx
    exact h x (List.dropWhile_sublist p |>.mem hx)

theorem strip_sublist : (strip p xs).Sublist xs :=
  (List.rdropWhile_prefix p _).sublist.trans (List.dropWhile_sublist p)

theorem not_of_dropWhile_eq_cons {x : α} (h : xs.dropWhile p = x :: ys) : p x = false := by
  have hne : xs.dropWhile p ≠ [] := by simp [h]
  have hnot := List.head_dropWhile_not p hne
  simpa [h] using hnot

/-- What is stripped does not begin with a character that is stripped. -/
theorem not_of_strip_eq_cons {x : α} (h : strip p xs = x :: ys) : p x = false := by
  obtain ⟨rest,hrest⟩ := List.rdropWhile_prefix p (xs.dropWhile p)
  have hhead : xs.dropWhile p = x :: (ys ++ rest) := by
    rw [← hrest]
    exact congrArg (· ++ rest) h
  exact not_of_dropWhile_eq_cons hhead

theorem rdropWhile_append_of_forall (h : ∀ y ∈ ys, p y = true) :
    (xs ++ ys).rdropWhile p = xs.rdropWhile p := by
  unfold List.rdropWhile
  rw [List.reverse_append, List.dropWhile_append_of_pos]
  intro y hy
  exact h y (List.mem_reverse.mp hy)

theorem rdropWhile_append_of_exists {y : α} (hy : y ∈ ys) (hpy : p y = false) :
    (xs ++ ys).rdropWhile p = xs ++ ys.rdropWhile p := by
  have hne : (ys.reverse.dropWhile p).isEmpty = false := by
    rw [List.isEmpty_eq_false_iff, ne_eq, List.dropWhile_eq_nil_iff]
    intro hall
    have htrue := hall y (List.mem_reverse.mpr hy)
    rw [hpy] at htrue
    cases htrue
  unfold List.rdropWhile
  rw [List.reverse_append, List.dropWhile_append, hne, if_neg (by simp), List.reverse_append,
    List.reverse_reverse]

theorem strip_cons {x : α} (hx : p x = false) : strip p (x :: xs) = (x :: xs).rdropWhile p := by
  unfold strip
  rw [List.dropWhile_cons_of_neg (by simp [hx])]

end Strip

section Lines

variable [DecidableEq α] (sep : α)

/-- The lines of a text in which every line ends with `sep`. -/
def lines : List α → List (List α)
  | [] => []
  | x :: xs =>
    if x = sep then [] :: lines xs
    else
      match lines xs with
      | [] => [[x]]
      | l :: ls => (x :: l) :: ls

variable {sep} {xs ys : List α}

theorem lines_append (h : sep ∉ xs) : lines sep (xs ++ sep :: ys) = xs :: lines sep ys := by
  induction xs with
  | nil => exact if_pos rfl
  | cons x xs ih =>
    rw [List.mem_cons, not_or] at h
    rw [List.cons_append, lines, if_neg (Ne.symm h.1), ih h.2]

/-- Complete lines are cut independently of what follows. -/
theorem lines_append_of_complete :
    lines sep (xs ++ sep :: ys) = lines sep (xs ++ [sep]) ++ lines sep ys := by
  induction xs with
  | nil => simp [lines]
  | cons x xs ih =>
    rw [List.cons_append, List.cons_append, lines, lines, ih]
    split_ifs with hx
    · rfl
    · cases hlines : lines sep (xs ++ [sep]) with
      | nil =>
        exfalso
        cases xs with
        | nil => simp [lines] at hlines
        | cons y ys =>
          rw [List.cons_append, lines] at hlines
          split_ifs at hlines
          split at hlines <;> simp at hlines
      | cons l ls => rfl

theorem forall_mem_lines_iff {P : α → Prop} (hsep : P sep) :
    (∀ l ∈ lines sep xs, ∀ x ∈ l, P x) ↔ ∀ x ∈ xs, P x := by
  induction xs with
  | nil => simp [lines]
  | cons x xs ih =>
    rw [lines, List.forall_mem_cons, ← ih]
    split_ifs with hx
    · simp [hx, hsep]
    · cases lines sep xs <;> simp [and_assoc]

end Lines

section Escape

/-- The special characters of a text with `mark` in front of them. -/
def escape (special : α → Bool) (mark : α) (xs : List α) : List α :=
  xs.flatMap fun x => if special x then [mark,x] else [x]

variable [DecidableEq α]

/-- A text without the marks that stand in front of special characters, read from the left. -/
def unescape (special : α → Bool) (mark : α) : List α → List α
  | [] => []
  | [x] => [x]
  | x :: y :: xs =>
    if x = mark ∧ special y then y :: unescape special mark xs
    else x :: unescape special mark (y :: xs)

/-- The special characters of a text that have no mark in front of them. -/
def bareSpecials (special : α → Bool) (mark : α) : List α → List α
  | [] => []
  | [x] => [x].filter special
  | x :: y :: xs =>
    if x = mark ∧ special y then bareSpecials special mark xs
    else [x].filter special ++ bareSpecials special mark (y :: xs)

section

variable {special : α → Bool} {mark x : α}

theorem unescape_cons_of_plain (hmark : special mark = true) (hx : special x = false)
    (xs : List α) : unescape special mark (x :: xs) = x :: unescape special mark xs := by
  cases xs with
  | nil => rfl
  | cons y xs =>
    refine if_neg fun h => ?_
    rw [h.1, hmark] at hx
    cases hx

theorem bareSpecials_cons_of_plain (hmark : special mark = true) (hx : special x = false)
    (xs : List α) : bareSpecials special mark (x :: xs) = bareSpecials special mark xs := by
  cases xs with
  | nil => simp [bareSpecials, hx]
  | cons y xs =>
    have hne : ¬(x = mark ∧ special y = true) := by
      rintro ⟨rfl,_⟩
      rw [hmark] at hx
      cases hx
    simp [bareSpecials, hne, hx]

/-- Where the mark is special itself, unescaping takes back what escaping does. -/
theorem unescape_escape (hmark : special mark = true) (xs : List α) :
    unescape special mark (escape special mark xs) = xs := by
  induction xs with
  | nil => rfl
  | cons x xs ih =>
    unfold escape at *
    rw [List.flatMap_cons]
    split_ifs with hx
    · exact (if_pos ⟨rfl, hx⟩).trans (congrArg (x :: ·) ih)
    · rw [List.singleton_append, unescape_cons_of_plain hmark (by simpa using hx), ih]

theorem bareSpecials_escape (hmark : special mark = true) (xs : List α) :
    bareSpecials special mark (escape special mark xs) = [] := by
  induction xs with
  | nil => rfl
  | cons x xs ih =>
    unfold escape at *
    rw [List.flatMap_cons]
    split_ifs with hx
    · exact (if_pos ⟨rfl, hx⟩).trans ih
    · rw [List.singleton_append, bareSpecials_cons_of_plain hmark (by simpa using hx), ih]

theorem escape_injective (hmark : special mark = true) :
    Function.Injective (escape special mark) :=
  Function.LeftInverse.injective (unescape_escape hmark)

end

/-- Every occurrence of one character replaced by a text. -/
def replaceChar (c : α) (text xs : List α) : List α :=
  xs.flatMap fun x => if x = c then text else [x]

/-- One more character is escaped by replacing it. -/
theorem replaceChar_escape {special : α → Bool} {mark c : α} (hmark : mark ≠ c)
    (hc : special c = false) (xs : List α) :
    replaceChar c [mark,c] (escape special mark xs) =
      escape (fun x => special x || decide (x = c)) mark xs := by
  induction xs with
  | nil => rfl
  | cons x xs ih =>
    have hhead : replaceChar c [mark,c] (if special x then [mark,x] else [x]) =
        if special x || decide (x = c) then [mark,x] else [x] := by
      by_cases hx : x = c
      · subst hx
        simp [replaceChar, hc]
      · cases hs : special x <;> simp [replaceChar, hx, hmark]
    unfold replaceChar escape at *
    rw [List.flatMap_cons, List.flatMap_append, List.flatMap_cons, hhead, ih]

/-- Escaping one character after the other escapes them all. -/
theorem foldl_replaceChar_escape {special : α → Bool} {mark : α} {cs : List α}
    (hmark : mark ∉ cs) (hcs : cs.Nodup) (hspecial : ∀ c ∈ cs, special c = false) (xs : List α) :
    cs.foldl (fun xs c => replaceChar c [mark,c] xs) (escape special mark xs) =
      escape (fun x => special x || decide (x ∈ cs)) mark xs := by
  induction cs generalizing special with
  | nil => simp
  | cons c cs ih =>
    rw [List.mem_cons, not_or] at hmark
    rw [List.nodup_cons] at hcs
    rw [List.forall_mem_cons] at hspecial
    have hrest : ∀ d ∈ cs, (special d || decide (d = c)) = false := by
      intro d hd
      have hne : d ≠ c := fun h => hcs.1 (h ▸ hd)
      simp [hspecial.2 d hd, hne]
    rw [List.foldl_cons, replaceChar_escape hmark.1 hspecial.1, ih hmark.2 hcs.2 hrest]
    simp [Bool.or_assoc]

end Escape

end TextLines
