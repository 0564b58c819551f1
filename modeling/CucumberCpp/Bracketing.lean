import Mathlib

/-! Sequences of events some of which open or close a bracket, and events that belong to the
innermost bracket that is open. A bracket may stay open. -/
namespace Bracketing

/-- What the events do to the brackets. -/
structure Grammar (E B : Type) where
  opens : E → Option B
  closes : E → Option B
  inner : E → Bool
  Belongs : E → B → Prop

namespace Grammar

variable {E B : Type} [DecidableEq B] (g : Grammar E B)

def next (opened : List B) (e : E) : List B :=
  match g.opens e with
  | some b => b :: opened
  | none =>
    match g.closes e with
    | some b => opened.erase b
    | none => opened

/-- The open brackets, innermost first, after some events. -/
def openFrom (opened : List B) (es : List E) : List B := es.foldl g.next opened

/-- An event that opens, closes and needs no bracket. -/
structure Neutral (e : E) : Prop where
  opens : g.opens e = none
  closes : g.closes e = none
  inner : g.inner e = false

/-- An event that may stand in the bracket and leaves it open. -/
structure Content (b : B) (e : E) : Prop where
  opens : g.opens e = none
  closes : g.closes e = none
  belongs : g.inner e = true → g.Belongs e b

/-- Every inner event belongs to the innermost bracket, and the others that are open then are
among `final`, the outermost of them last. -/
def Attributed (final opened : List B) (es : List E) : Prop :=
  ∀ before e after, es = before ++ e :: after → g.inner e = true →
    ∃ b rest, g.openFrom opened before = b :: rest ∧ g.Belongs e b ∧ rest <:+ final

/-- From any open brackets on, the events attribute their inner ones and add what they leave
open; nothing if `settled`. -/
def Scoped (settled : Prop) (es : List E) : Prop :=
  ∀ opened, ∃ left, g.openFrom opened es = left ++ opened ∧ (settled → left = []) ∧
    ∀ final, left ++ opened <:+ final → g.Attributed final opened es

variable {g} {settled : Prop} {es es' : List E} {final opened : List B}

theorem openFrom_append : g.openFrom opened (es ++ es') = g.openFrom (g.openFrom opened es) es' :=
  List.foldl_append

theorem Content.next {b : B} {e : E} (h : g.Content b e) : g.next opened e = opened := by
  simp only [Grammar.next, h.opens, h.closes]

theorem openFrom_content {b : B} (h : ∀ e ∈ es, g.Content b e) : g.openFrom opened es = opened := by
  induction es with
  | nil => rfl
  | cons e es ih =>
    rw [List.forall_mem_cons] at h
    change g.openFrom (g.next opened e) es = opened
    rw [h.1.next, ih h.2]

theorem Attributed.append (h : g.Attributed final opened es)
    (h' : g.Attributed final (g.openFrom opened es) es') :
    g.Attributed final opened (es ++ es') := by
  intro before e after heq hinner
  rcases List.append_eq_append_iff.mp heq with ⟨mid,rfl,hes'⟩ | ⟨mid,rfl,hes'⟩
  · rw [openFrom_append]
    exact h' mid e after hes' hinner
  -- the event is the first of the second part, or still in the first part
  · cases mid with
    | nil =>
      rw [List.append_nil] at h'
      exact h' [] e after hes'.symm hinner
    | cons e' mid =>
      obtain ⟨rfl,_⟩ := List.cons.inj hes'
      exact h before e mid rfl hinner

theorem attributed_nil : g.Attributed final opened [] := by
  intro before e after h
  simp at h

theorem attributed_content {b : B} (h : ∀ e ∈ es, g.Content b e) (hfinal : opened <:+ final) :
    g.Attributed final (b :: opened) es := by
  rintro before e after rfl hinner
  have hbefore : ∀ e' ∈ before, g.Content b e' := fun e' he' => h e' (by simp [he'])
  exact ⟨b, opened, openFrom_content hbefore, (h e (by simp)).belongs hinner, hfinal⟩

theorem attributed_singleton {e : E} (h : g.inner e = false) :
    g.Attributed final opened [e] := by
  intro before e' after heq hinner
  have hmem : e' ∈ [e] := heq ▸ List.mem_append_right before List.mem_cons_self
  rw [List.mem_singleton.mp hmem, h] at hinner
  cases hinner

theorem scoped_nil : g.Scoped settled [] := fun _ =>
  ⟨[], rfl, fun _ => rfl, fun _ _ => attributed_nil⟩

theorem Scoped.append (h : g.Scoped settled es) (h' : g.Scoped settled es') :
    g.Scoped settled (es ++ es') := by
  intro opened
  obtain ⟨left,hopen,hsettled,hattributed⟩ := h opened
  obtain ⟨left',hopen',hsettled',hattributed'⟩ := h' (left ++ opened)
  refine ⟨left' ++ left, ?_, ?_, ?_⟩
  · rw [openFrom_append, hopen, hopen', List.append_assoc]
  · intro hs
    rw [hsettled hs, hsettled' hs]
    rfl
  · intro final hfinal
    -- what the first part leaves open is still open all through the second
    rw [List.append_assoc] at hfinal
    have hsuffix : left ++ opened <:+ final := (List.suffix_append left' _).trans hfinal
    refine (hattributed final hsuffix).append ?_
    rw [hopen]
    exact hattributed' final hfinal

theorem scoped_flatMap {α : Type} {f : α → List E} {xs : List α}
    (h : ∀ x ∈ xs, g.Scoped settled (f x)) : g.Scoped settled (xs.flatMap f) := by
  induction xs with
  | nil => exact scoped_nil
  | cons x xs ih =>
    rw [List.forall_mem_cons] at h
    rw [List.flatMap_cons]
    exact h.1.append (ih h.2)

theorem Neutral.scoped {e : E} (h : g.Neutral e) : g.Scoped settled [e] := by
  intro opened
  refine ⟨[], ?_, fun _ => rfl, fun _ _ => attributed_singleton h.inner⟩
  change g.next opened e = opened
  simp only [Grammar.next, h.opens, h.closes]

section

variable {b : B} {start : E}

/-- A bracket that is not closed stays open. -/
theorem scoped_unclosed (hstart : g.opens start = some b) (hinner : g.inner start = false)
    (hes : ∀ e ∈ es, g.Content b e) (hsettled : ¬settled) : g.Scoped settled (start :: es) := by
  intro opened
  have hopen : g.openFrom opened [start] = b :: opened := by
    change g.next opened start = b :: opened
    rw [Grammar.next, hstart]
  refine ⟨[b], ?_, fun hs => absurd hs hsettled, fun final hfinal => ?_⟩
  · rw [← List.singleton_append, openFrom_append, hopen, openFrom_content hes]
    rfl
  · have hsuffix : opened <:+ final := (List.suffix_cons b opened).trans hfinal
    have hcontent : g.Attributed final (b :: opened) es := attributed_content hes hsuffix
    rw [← hopen] at hcontent
    exact (attributed_singleton hinner).append hcontent

theorem scoped_bracket {finish : E} (hstart : g.opens start = some b)
    (hinner : g.inner start = false) (hes : ∀ e ∈ es, g.Content b e)
    (hopens : g.opens finish = none) (hfinish : g.closes finish = some b)
    (hinner' : g.inner finish = false) : g.Scoped settled (start :: (es ++ [finish])) := by
  intro opened
  have hopen : g.openFrom opened [start] = b :: opened := by
    change g.next opened start = b :: opened
    rw [Grammar.next, hstart]
  have hclose : g.next (b :: opened) finish = opened := by
    simp only [Grammar.next, hopens, hfinish, List.erase_cons_head]
  refine ⟨[], ?_, fun _ => rfl, fun final hfinal => ?_⟩
  · rw [← List.singleton_append, openFrom_append, hopen, openFrom_append, openFrom_content hes]
    exact hclose
  · have hcontent : g.Attributed final (b :: opened) es := attributed_content hes hfinal
    have hrest := hcontent.append (attributed_singleton hinner')
    rw [← hopen] at hrest
    exact (attributed_singleton hinner).append hrest

end

/-- From no open bracket on, only what is never closed is open besides the innermost one. -/
theorem Scoped.attributed (h : g.Scoped settled es) :
    g.Attributed (g.openFrom [] es) [] es ∧ (settled → g.openFrom [] es = []) := by
  obtain ⟨left,hopen,hsettled,hattributed⟩ := h []
  rw [hopen]
  refine ⟨hattributed _ List.suffix_rfl, fun hs => ?_⟩
  rw [hsettled hs]
  rfl

end Grammar

end Bracketing
