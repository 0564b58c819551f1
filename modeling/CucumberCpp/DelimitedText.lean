import Mathlib

/-! Texts that a delimiter ends: when the delimiter that follows a text is the first one that
a reader finds, and delimiters of a level, of which a text leaves some free. -/
namespace DelimitedText

variable {α : Type} {needle xs before after : List α}

section Ends

/-- In `xs` with `needle` after it, `needle` does not occur before the end of `xs`. -/
def Ends (needle xs : List α) : Prop :=
  ∀ before after, xs ++ needle = before ++ needle ++ after → xs.length ≤ before.length

variable [DecidableEq α]

theorem dropInfix?_eq_some : xs.dropInfix? needle = some (before,after) ↔
    xs = before ++ needle ++ after ∧
      ∀ before' after', xs = before' ++ needle ++ after' → before.length ≤ before'.length := by
  rw [List.dropInfix?_eq_some_iff]
  simp only [beq_iff_eq]
  apply and_congr
  · simp
  · exact ⟨fun h p s heq => h p needle s heq rfl, fun h p i s heq hi => h p s (hi ▸ heq)⟩

/-- What follows the delimiter does not matter to where a reader finds it. -/
theorem Ends.dropInfix?_append (h : Ends needle xs) (rest : List α) :
    (xs ++ needle ++ rest).dropInfix? needle = some (xs,rest) := by
  rw [dropInfix?_eq_some]
  refine ⟨rfl, fun before after heq => ?_⟩
  by_contra hlt
  have hprefix : before ++ needle <+: xs ++ needle := by
    refine List.prefix_of_prefix_length_le ⟨after, heq.symm⟩ ⟨rest, rfl⟩ ?_
    simp only [List.length_append]
    omega
  obtain ⟨between,hbetween⟩ := hprefix
  exact hlt (h before between hbetween.symm)

theorem ends_iff_dropInfix? :
    Ends needle xs ↔ ∃ after, (xs ++ needle).dropInfix? needle = some (xs,after) := by
  constructor
  · intro h
    have hcut := h.dropInfix?_append []
    rw [List.append_nil] at hcut
    exact ⟨[], hcut⟩
  · rintro ⟨after,h⟩
    exact (dropInfix?_eq_some.mp h).2

/-- To find the first delimiter at the length of a text is to find it at its end. -/
theorem ends_iff_length : Ends needle xs ↔
    ∃ found, (xs ++ needle).dropInfix? needle = some found ∧ found.1.length = xs.length := by
  rw [ends_iff_dropInfix?]
  constructor
  · rintro ⟨after,h⟩
    exact ⟨(xs,after), h, rfl⟩
  · rintro ⟨⟨before,after⟩,h,hlength⟩
    have hsplit := (dropInfix?_eq_some.mp h).1
    rw [List.append_assoc] at hsplit
    obtain ⟨rfl,_⟩ := List.append_inj hsplit hlength.symm
    exact ⟨after, h⟩

end Ends

section Delimiter

variable {mark fill : α} {n : ℕ}

/-- The delimiter of level `n`: two marks, and `n` times `fill` between them. -/
def delimiter (mark fill : α) (n : ℕ) : List α := mark :: (List.replicate n fill ++ [mark])

theorem length_delimiter : (delimiter mark fill n).length = n+2 := by simp [delimiter]

theorem getElem?_delimiter_last : (delimiter mark fill n)[n+1]? = some mark := by
  simp [delimiter]

theorem getElem?_delimiter_fill {i : ℕ} (h : i < n) :
    (delimiter mark fill n)[i+1]? = some fill := by
  simp [delimiter, List.getElem?_append, h]

/-- Of an occurrence that begins in the text, nothing but its last mark can reach into the
delimiter that follows. -/
theorem length_le_of_split (hne : mark ≠ fill)
    (heq : xs ++ delimiter mark fill n = before ++ delimiter mark fill n ++ after)
    (hlt : before.length < xs.length) : before.length+n+1 ≤ xs.length := by
  by_contra hgt
  -- the last mark of the occurrence would stand where the delimiter that follows has a `fill`
  have hmark : (xs ++ delimiter mark fill n)[before.length+(n+1)]? = some mark := by
    rw [heq, List.append_assoc, List.getElem?_append_right (by omega), Nat.add_sub_cancel_left,
      List.getElem?_append_left (by rw [length_delimiter]; omega), getElem?_delimiter_last]
  have hfill : (xs ++ delimiter mark fill n)[before.length+(n+1)]? = some fill := by
    obtain ⟨i,hi⟩ : ∃ i, before.length+(n+1) = xs.length+(i+1) :=
      ⟨before.length+n-xs.length, by omega⟩
    rw [hi, List.getElem?_append_right (by omega), Nat.add_sub_cancel_left,
      getElem?_delimiter_fill (by omega)]
  exact hne (Option.some.inj (hmark.symm.trans hfill))

theorem ends_delimiter_iff (hne : mark ≠ fill) :
    Ends (delimiter mark fill n) xs ↔ ¬delimiter mark fill n <:+: xs ++ [mark] := by
  have hcons : xs ++ delimiter mark fill n =
      (xs ++ [mark]) ++ (List.replicate n fill ++ [mark]) := by simp [delimiter]
  constructor
  · rintro h ⟨before,after,heq⟩
    have hle := h before (after ++ (List.replicate n fill ++ [mark])) (by
      rw [hcons, ← heq, List.append_assoc _ after])
    have hlength := congrArg List.length heq
    simp only [List.length_append, length_delimiter, List.length_singleton] at hlength
    omega
  · intro h before after heq
    by_contra hlt
    have hle := length_le_of_split hne heq (by omega)
    have hprefix : before ++ delimiter mark fill n <+: xs ++ [mark] := by
      refine List.prefix_of_prefix_length_le ⟨after, heq.symm⟩ ⟨_, hcons.symm⟩ ?_
      simp only [List.length_append, length_delimiter, List.length_singleton]
      omega
    obtain ⟨rest,hrest⟩ := hprefix
    exact h ⟨before, rest, hrest⟩

/-- A text is too short for a delimiter of its length. -/
theorem ends_delimiter_of_length_le (hne : mark ≠ fill) (h : xs.length ≤ n) :
    Ends (delimiter mark fill n) xs := by
  rw [ends_delimiter_iff hne]
  intro hinfix
  have hle := hinfix.length_le
  rw [length_delimiter, List.length_append, List.length_singleton] at hle
  omega

theorem exists_least_level (hne : mark ≠ fill) (xs : List α) (k : ℕ) :
    ∃ m, k ≤ m ∧ m ≤ max k xs.length ∧ Ends (delimiter mark fill m) xs ∧
      ∀ j, k ≤ j → j < m → ¬Ends (delimiter mark fill j) xs := by
  classical
  have hbound : k ≤ max k xs.length ∧ Ends (delimiter mark fill (max k xs.length)) xs :=
    ⟨le_max_left _ _, ends_delimiter_of_length_le hne (le_max_right _ _)⟩
  have hex : ∃ m, k ≤ m ∧ Ends (delimiter mark fill m) xs := ⟨_, hbound⟩
  refine ⟨Nat.find hex, (Nat.find_spec hex).1, Nat.find_min' hex hbound, (Nat.find_spec hex).2, ?_⟩
  intro j hk hj hends
  exact Nat.find_min hex hj ⟨hk, hends⟩

end Delimiter

end DelimitedText
