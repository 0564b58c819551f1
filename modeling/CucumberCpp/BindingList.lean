import Mathlib

/-! Finite maps as lists of bindings with the newest in front, where assigning to a key
removes what it was bound to before. -/
namespace BindingList

variable {κ α : Type} [DecidableEq κ]

def erase (key : κ) (bs : List (κ × α)) : List (κ × α) := bs.filter fun b => b.1 ≠ key

def assign (key : κ) (value : α) (bs : List (κ × α)) : List (κ × α) := (key,value) :: erase key bs

/-- What the first binding of a key in the list binds it to. -/
def find? (key : κ) (bs : List (κ × α)) : Option α := (bs.find? fun b => b.1 = key).map Prod.snd

theorem mem_erase {key : κ} {bs : List (κ × α)} {b : κ × α} :
    b ∈ erase key bs ↔ b ∈ bs ∧ b.1 ≠ key := by
  simp [erase]

theorem keys_erase_nodup {key : κ} {bs : List (κ × α)} (h : (bs.map Prod.fst).Nodup) :
    ((erase key bs).map Prod.fst).Nodup :=
  h.sublist (List.filter_sublist.map Prod.fst)

theorem keys_assign_nodup {key : κ} {bs : List (κ × α)} (h : (bs.map Prod.fst).Nodup)
    (value : α) : ((assign key value bs).map Prod.fst).Nodup := by
  refine List.nodup_cons.mpr ⟨?_, keys_erase_nodup h⟩
  intro hmem
  obtain ⟨b,hb,hkey⟩ := List.mem_map.mp hmem
  exact (mem_erase.mp hb).2 hkey

theorem find?_eq_some_iff {key : κ} {bs : List (κ × α)} (h : (bs.map Prod.fst).Nodup)
    {value : α} : find? key bs = some value ↔ (key,value) ∈ bs := by
  constructor
  · intro hfind
    obtain ⟨b,hb,rfl⟩ := Option.map_eq_some_iff.mp hfind
    have hkey : b.1 = key := by simpa using List.find?_some hb
    rw [← hkey]
    exact List.mem_of_find?_eq_some hb
  · intro hmem
    have hsome : (bs.find? fun b => b.1 = key).isSome :=
      List.find?_isSome.mpr ⟨(key,value), hmem, by simp⟩
    obtain ⟨b,hb⟩ := Option.isSome_iff_exists.mp hsome
    have hkey : b.1 = key := by simpa using List.find?_some hb
    have hsame : b = (key,value) :=
      List.inj_on_of_nodup_map h (List.mem_of_find?_eq_some hb) hmem hkey
    rw [find?, hb, hsame]
    rfl

/-- What can be done to one map. -/
inductive Change (κ α : Type) where
  | assign (key : κ) (value : α)
  | erase (key : κ)

def Change.key : Change κ α → κ
  | .assign key _ => key
  | .erase key => key

def Change.apply (bs : List (κ × α)) : Change κ α → List (κ × α)
  | .assign key value => BindingList.assign key value bs
  | .erase key => BindingList.erase key bs

/-- The map after some changes, from the empty one. -/
def contents (cs : List (Change κ α)) : List (κ × α) := cs.foldl Change.apply []

/-- The assignments that no later change of the same key follows, in order. -/
def live : List (Change κ α) → List (κ × α)
  | [] => []
  | .assign key value :: cs =>
    if key ∈ cs.map Change.key then live cs else (key,value) :: live cs
  | .erase _ :: cs => live cs

theorem contents_concat (cs : List (Change κ α)) (c : Change κ α) :
    contents (cs ++ [c]) = c.apply (contents cs) :=
  List.foldl_concat ..

theorem keys_contents_nodup (cs : List (Change κ α)) : ((contents cs).map Prod.fst).Nodup := by
  induction cs using List.reverseRecOn with
  | nil => exact List.nodup_nil
  | append_singleton cs c ih =>
    rw [contents_concat]
    cases c with
    | assign key value => exact keys_assign_nodup ih value
    | erase key => exact keys_erase_nodup ih

/-- A change ends what was assigned to its key before. -/
theorem live_concat (cs : List (Change κ α)) (c : Change κ α) :
    live (cs ++ [c]) = erase c.key (live cs) ++ live [c] := by
  induction cs with
  | nil => rfl
  | cons c' cs ih =>
    cases c' with
    | erase key' => exact ih
    | assign key' value' =>
      have hmem : key' ∈ (cs ++ [c]).map Change.key ↔ key' ∈ cs.map Change.key ∨ key' = c.key := by
        rw [List.map_append, List.mem_append]
        exact or_congr_right List.mem_singleton
      change (if key' ∈ (cs ++ [c]).map Change.key then live (cs ++ [c])
          else (key',value') :: live (cs ++ [c])) =
        erase c.key (if key' ∈ cs.map Change.key then live cs else (key',value') :: live cs) ++
          live [c]
      by_cases hlater : key' ∈ cs.map Change.key
      · rw [if_pos (hmem.mpr (.inl hlater)), if_pos hlater, ih]
      · rw [if_neg hlater]
        by_cases heq : key' = c.key
        · rw [if_pos (hmem.mpr (.inr heq)), ih]
          simp [erase, heq]
        · rw [if_neg (by rw [hmem]; tauto), ih]
          simp [erase, heq]

/-- The bindings in the list are the assignments that are live, the latest first. -/
theorem contents_eq_reverse_live (cs : List (Change κ α)) : contents cs = (live cs).reverse := by
  induction cs using List.reverseRecOn with
  | nil => rfl
  | append_singleton cs c ih =>
    rw [contents_concat, live_concat, ih, List.reverse_append]
    cases c with
    | assign key value =>
      simp only [Change.apply, assign, erase, List.filter_reverse]
      rfl
    | erase key =>
      simp only [Change.apply, erase, List.filter_reverse]
      rfl

theorem mem_live_iff {cs : List (Change κ α)} {key : κ} {value : α} :
    (key,value) ∈ live cs ↔
      ∃ pre post, cs = pre ++ .assign key value :: post ∧ key ∉ post.map Change.key := by
  constructor
  · intro h
    induction cs with
    | nil => simp [live] at h
    | cons c cs ih =>
      have hlater (hmem : (key,value) ∈ live cs) : ∃ pre post,
          c :: cs = pre ++ .assign key value :: post ∧ key ∉ post.map Change.key := by
        obtain ⟨pre,post,rfl,hpost⟩ := ih hmem
        exact ⟨c :: pre, post, rfl, hpost⟩
      cases c with
      | erase key' => exact hlater h
      | assign key' value' =>
        unfold live at h
        split_ifs at h with hkey
        · exact hlater h
        · rcases List.mem_cons.mp h with heq | hmem
          · obtain ⟨rfl,rfl⟩ := Prod.mk.inj heq
            exact ⟨[], cs, rfl, hkey⟩
          · exact hlater hmem
  · intro h
    obtain ⟨pre,post,rfl,hpost⟩ := h
    induction pre with
    | nil => simp [live, hpost]
    | cons c pre ih =>
      cases c with
      | erase key' => exact ih
      | assign key' value' =>
        rw [List.cons_append]
        unfold live
        split_ifs
        · exact ih
        · exact List.mem_cons_of_mem _ ih

theorem find?_contents_eq_some_iff {cs : List (Change κ α)} {key : κ} {value : α} :
    find? key (contents cs) = some value ↔ (key,value) ∈ live cs := by
  rw [find?_eq_some_iff (keys_contents_nodup cs), contents_eq_reverse_live, List.mem_reverse]

theorem find?_contents_eq_none_iff {cs : List (Change κ α)} {key : κ} :
    find? key (contents cs) = none ↔ ∀ value, (key,value) ∉ live cs := by
  rw [Option.eq_none_iff_forall_ne_some]
  apply forall_congr'
  intro value
  rw [ne_eq, find?_contents_eq_some_iff]

end BindingList
