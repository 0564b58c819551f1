import Mathlib

/-! Streams whose items declare names and refer to names. -/
namespace References

variable {I J N : Type}

/-- What an item declares and what it refers to. -/
structure Vocabulary (I N : Type) where
  declares : I → List N
  refers : I → List N

namespace Vocabulary

variable (v : Vocabulary I N)

/-- The names that a stream declares, in order. -/
def declared (items : List I) : List N := items.flatMap v.declares

/-- Every item refers to names that are known or that an item before it declared. -/
def Closed (known : N → Prop) (items : List I) : Prop :=
  ∀ pre i post, items = pre ++ i :: post → ∀ n ∈ v.refers i, known n ∨ n ∈ v.declared pre

/-- The vocabulary of items that stand for others. -/
def comap (f : J → I) : Vocabulary J N where
  declares := fun j => v.declares (f j)
  refers := fun j => v.refers (f j)

@[simp] theorem declared_nil : v.declared [] = [] := rfl

@[simp] theorem declared_cons (i : I) (items : List I) :
    v.declared (i :: items) = v.declares i ++ v.declared items :=
  List.flatMap_cons

@[simp] theorem declared_append (items items' : List I) :
    v.declared (items ++ items') = v.declared items ++ v.declared items' :=
  List.flatMap_append

theorem declared_flatMap {α : Type} (f : α → List I) (xs : List α) :
    v.declared (xs.flatMap f) = xs.flatMap fun x => v.declared (f x) :=
  List.flatMap_assoc

@[simp] theorem declared_map (f : J → I) (items : List J) :
    v.declared (items.map f) = (v.comap f).declared items :=
  List.flatMap_map f v.declares items

variable {v} {known known' : N → Prop} {items items' : List I}

theorem closed_nil : v.Closed known [] := by
  intro pre i post h
  simp at h

theorem Closed.mono (h : v.Closed known items) (hknown : ∀ n, known n → known' n) :
    v.Closed known' items := by
  intro pre i post heq n hn
  exact (h pre i post heq n hn).imp_left (hknown n)

theorem Closed.append (h : v.Closed known items)
    (h' : v.Closed (fun n => known n ∨ n ∈ v.declared items) items') :
    v.Closed known (items ++ items') := by
  intro pre i post heq n hn
  rcases List.append_eq_append_iff.mp heq with ⟨mid,rfl,hmid⟩ | ⟨mid,hmid,heq'⟩
  · have hknown := h' mid i post hmid n hn
    rw [declared_append, List.mem_append]
    tauto
  · cases mid with
    | nil =>
      rw [List.append_nil] at hmid
      subst hmid
      have hknown := h' [] i post heq'.symm n hn
      simpa using hknown
    | cons j mid =>
      obtain ⟨rfl,_⟩ := List.cons.inj heq'
      exact h pre i mid hmid n hn

/-- Streams that do not need each other's declarations. -/
theorem Closed.append_closed (h : v.Closed known items) (h' : v.Closed known items') :
    v.Closed known (items ++ items') :=
  h.append (h'.mono fun _ hn => .inl hn)

/-- Items that only refer to known names may stand in any order. -/
theorem closed_of_known (h : ∀ i ∈ items, ∀ n ∈ v.refers i, known n) : v.Closed known items := by
  intro pre i post heq n hn
  exact .inl (h i (by simp [heq]) n hn)

theorem closed_singleton {i : I} (h : ∀ n ∈ v.refers i, known n) : v.Closed known [i] :=
  closed_of_known fun j hj => by rwa [List.mem_singleton.mp hj]

theorem Closed.cons {i : I} (h : ∀ n ∈ v.refers i, known n)
    (h' : v.Closed (fun n => known n ∨ n ∈ v.declares i) items) : v.Closed known (i :: items) := by
  have hdeclared : v.declared [i] = v.declares i := by simp
  rw [← List.singleton_append]
  apply (closed_singleton h).append
  rwa [hdeclared]

theorem closed_flatMap {α : Type} {f : α → List I} {xs : List α}
    (h : ∀ x ∈ xs, v.Closed known (f x)) : v.Closed known (xs.flatMap f) := by
  induction xs with
  | nil => exact closed_nil
  | cons x xs ih =>
    rw [List.flatMap_cons]
    have hrest := ih fun y hy => h y (List.mem_cons_of_mem x hy)
    exact (h x List.mem_cons_self).append_closed hrest

theorem Closed.map {f : J → I} {js : List J} (h : (v.comap f).Closed known js) :
    v.Closed known (js.map f) := by
  intro pre i post heq n hn
  obtain ⟨pre',rest,rfl,rfl,hrest⟩ := List.map_eq_append_iff.mp heq
  obtain ⟨j,post',rfl,rfl,_⟩ := List.map_eq_cons_iff.mp hrest
  rw [declared_map]
  exact h pre' j post' rfl n hn

end Vocabulary

end References
