import Mathlib

/-! Finite maps as association lists with strictly increasing keys: iterating
over the map visits its entries in key order. -/
namespace OrderedMap

variable {κ α β : Type} [LinearOrder κ]

/-- A lookup of every element of a list that always succeeds. -/
theorem mapM_eq_some_map {γ δ : Type} {f : γ → Option δ} {g : γ → δ} {xs : List γ}
    (h : ∀ x ∈ xs, f x = some (g x)) : xs.mapM f = some (xs.map g) := by
  induction xs with
  | nil => rfl
  | cons x xs ih =>
    have hrest := ih fun y hy => h y (List.mem_cons_of_mem _ hy)
    rw [List.mapM_cons, h x List.mem_cons_self, hrest]
    rfl

theorem filterM_eq_some_filter {γ : Type} {f : γ → Option Bool} {g : γ → Bool} {xs : List γ}
    (h : ∀ x ∈ xs, f x = some (g x)) : xs.filterM f = some (xs.filter g) := by
  have haux (acc : List γ) : xs.filterAuxM f acc = some ((xs.filter g).reverse ++ acc) := by
    induction xs generalizing acc with
    | nil => rfl
    | cons x xs ih =>
      have hrest := ih fun y hy => h y (List.mem_cons_of_mem _ hy)
      unfold List.filterAuxM
      rw [h x List.mem_cons_self, Option.bind_eq_bind, Option.bind_some, hrest]
      cases hx : g x <;> simp [hx]
  unfold List.filterM
  rw [haux]
  simp

/-- A single pass to the place of `k`; `f` turns what is there into what is
there afterwards. -/
def upsertList (k : κ) (f : Option α → α) : List (κ × α) → List (κ × α)
  | [] => [(k, f none)]
  | (k',v) :: es =>
    if k < k' then (k, f none) :: (k',v) :: es
    else if k = k' then (k, f (some v)) :: es
    else (k',v) :: upsertList k f es

theorem keys_upsertList (k : κ) (f : Option α → α) (es : List (κ × α)) (x : κ) :
    x ∈ (upsertList k f es).map Prod.fst ↔ x = k ∨ x ∈ es.map Prod.fst := by
  induction es with
  | nil => simp [upsertList]
  | cons e es ih =>
    obtain ⟨k',v⟩ := e
    unfold upsertList
    split_ifs with hlt heq
    · simp
    · subst heq
      simp
    · simp only [List.map_cons, List.mem_cons, ih]
      tauto

theorem upsertList_sorted (k : κ) (f : Option α → α) (es : List (κ × α))
    (h : (es.map Prod.fst).Pairwise (· < ·)) :
    ((upsertList k f es).map Prod.fst).Pairwise (· < ·) := by
  induction es with
  | nil => simp [upsertList]
  | cons e es ih =>
    obtain ⟨k',v⟩ := e
    rw [List.map_cons, List.pairwise_cons] at h
    unfold upsertList
    split_ifs with hlt heq
    · refine List.pairwise_cons.mpr ⟨?_, List.pairwise_cons.mpr h⟩
      intro x hx
      rcases List.mem_cons.mp hx with rfl | hx
      · exact hlt
      · exact hlt.trans (h.1 x hx)
    · subst heq
      exact List.pairwise_cons.mpr h
    · refine List.pairwise_cons.mpr ⟨?_, ih h.2⟩
      intro x hx
      rcases (keys_upsertList k f es x).mp hx with rfl | hx
      · exact lt_of_le_of_ne (not_lt.mp hlt) (Ne.symm heq)
      · exact h.1 x hx

/-- An association list with strictly increasing keys. -/
structure Map (κ α : Type) [LinearOrder κ] where
  entries : List (κ × α)
  sorted : (entries.map Prod.fst).Pairwise (· < ·)

namespace Map

def empty : Map κ α := ⟨[], .nil⟩

def keys (m : Map κ α) : List κ := m.entries.map Prod.fst

def values (m : Map κ α) : List α := m.entries.map Prod.snd

def find? (m : Map κ α) (k : κ) : Option α := m.entries.lookup k

def contains (m : Map κ α) (k : κ) : Bool := (m.find? k).isSome

def upsert (m : Map κ α) (k : κ) (f : Option α → α) : Map κ α :=
  ⟨upsertList k f m.entries, upsertList_sorted k f m.entries m.sorted⟩

/-- Insert unless the key is taken. -/
def tryEmplace (m : Map κ α) (k : κ) (v : α) : Map κ α := m.upsert k fun old => old.getD v

/-- Insert, or replace what the key maps to. -/
def insertOrAssign (m : Map κ α) (k : κ) (v : α) : Map κ α := m.upsert k fun _ => v

theorem keys_nodup (m : Map κ α) : m.keys.Nodup := m.sorted.imp ne_of_lt

theorem mem_keys_of_mem {m : Map κ α} {p : κ × α} (h : p ∈ m.entries) : p.1 ∈ m.keys :=
  List.mem_map_of_mem h

theorem lookup_cons_ite (k k' : κ) (v : α) (es : List (κ × α)) :
    ((k',v) :: es).lookup k = if k = k' then some v else es.lookup k := by
  by_cases h : k = k'
  · simp [h]
  · simp [List.lookup_cons, h, beq_eq_false_iff_ne.mpr h]

theorem lookup_eq_some_iff (es : List (κ × α)) (h : (es.map Prod.fst).Nodup) (k : κ) (v : α) :
    es.lookup k = some v ↔ (k,v) ∈ es := by
  induction es with
  | nil => simp
  | cons e es ih =>
    obtain ⟨k',v'⟩ := e
    rw [List.map_cons, List.nodup_cons] at h
    rw [lookup_cons_ite, List.mem_cons, Prod.mk.injEq]
    split_ifs with hk
    · subst hk
      have hnot : (k,v) ∉ es := fun hmem => h.1 (List.mem_map.mpr ⟨(k,v), hmem, rfl⟩)
      simp [hnot, eq_comm]
    · simp [hk, ih h.2]

theorem find?_eq_some_iff (m : Map κ α) (k : κ) (v : α) :
    m.find? k = some v ↔ (k,v) ∈ m.entries :=
  lookup_eq_some_iff m.entries m.keys_nodup k v

theorem find?_isSome_iff (m : Map κ α) (k : κ) : (m.find? k).isSome ↔ k ∈ m.keys := by
  constructor
  · intro h
    obtain ⟨v,hv⟩ := Option.isSome_iff_exists.mp h
    exact mem_keys_of_mem ((m.find?_eq_some_iff k v).mp hv)
  · intro h
    obtain ⟨⟨_,v⟩,hmem,rfl⟩ := List.mem_map.mp h
    exact Option.isSome_iff_exists.mpr ⟨v, (m.find?_eq_some_iff _ v).mpr hmem⟩

@[simp] theorem find?_empty (k : κ) : (empty : Map κ α).find? k = none := rfl

theorem lookup_upsertList (k : κ) (f : Option α → α) (es : List (κ × α))
    (h : (es.map Prod.fst).Pairwise (· < ·)) (x : κ) :
    (upsertList k f es).lookup x = if x = k then some (f (es.lookup k)) else es.lookup x := by
  induction es with
  | nil => exact lookup_cons_ite x k (f none) []
  | cons e es ih =>
    obtain ⟨k',v⟩ := e
    rw [List.map_cons, List.pairwise_cons] at h
    unfold upsertList
    by_cases hlt : k < k'
    · -- the keys that follow are larger still, so `k` is not among them
      have hnone : ((k',v) :: es).lookup k = none := by
        apply List.lookup_eq_none_iff.mpr
        rintro ⟨y,w⟩ hy
        have hky : k < y := by
          rcases List.mem_cons.mp hy with he | hy
          · rw [(Prod.mk.inj he).1]
            exact hlt
          · exact hlt.trans (h.1 y (List.mem_map_of_mem (f := Prod.fst) hy))
        simpa using hky.ne
      rw [if_pos hlt, lookup_cons_ite, hnone]
    · rw [if_neg hlt]
      by_cases heq : k = k'
      · subst heq
        simp only [lookup_cons_ite, ↓reduceIte]
        split_ifs <;> rfl
      · simp only [lookup_cons_ite, ih h.2, heq, ↓reduceIte]
        split_ifs with h1 h2
        · exact absurd (h2.symm.trans h1) heq
        all_goals rfl

theorem find?_upsert (m : Map κ α) (k : κ) (f : Option α → α) (x : κ) :
    (m.upsert k f).find? x = if x = k then some (f (m.find? k)) else m.find? x :=
  lookup_upsertList k f m.entries m.sorted x

theorem find?_tryEmplace (m : Map κ α) (k : κ) (v : α) (x : κ) :
    (m.tryEmplace k v).find? x = if x = k then some ((m.find? k).getD v) else m.find? x :=
  m.find?_upsert k _ x

/-- Of the entries that are emplaced one after the other the first of each key counts. -/
theorem find?_foldl_tryEmplace (es : List (κ × α)) (m : Map κ α) (k : κ) :
    (es.foldl (fun m e => m.tryEmplace e.1 e.2) m).find? k = (m.find? k).or (es.lookup k) := by
  induction es generalizing m with
  | nil => simp
  | cons e es ih =>
    obtain ⟨k',v⟩ := e
    rw [List.foldl_cons, ih, find?_tryEmplace, lookup_cons_ite]
    split_ifs with hk
    · subst hk
      cases m.find? k <;> rfl
    · rfl

theorem find?_insertOrAssign (m : Map κ α) (k : κ) (v : α) (x : κ) :
    (m.insertOrAssign k v).find? x = if x = k then some v else m.find? x :=
  m.find?_upsert k _ x

theorem find?_foldl_insertOrAssign {es : List (κ × α)} (h : (es.map Prod.fst).Nodup)
    (m : Map κ α) (k : κ) :
    (es.foldl (fun m e => m.insertOrAssign e.1 e.2) m).find? k =
      (es.lookup k).or (m.find? k) := by
  induction es generalizing m with
  | nil => rfl
  | cons e es ih =>
    obtain ⟨k',v⟩ := e
    rw [List.map_cons, List.nodup_cons] at h
    rw [List.foldl_cons, ih h.2, find?_insertOrAssign, lookup_cons_ite]
    split_ifs with hk
    · have hnone : es.lookup k = none := by
        refine List.lookup_eq_none_iff.mpr fun p hp => ?_
        have hne : k ≠ p.1 := fun heq => h.1 (hk ▸ heq ▸ List.mem_map_of_mem hp)
        simpa using hne
      rw [hnone]
      rfl
    · rfl

theorem upsertList_of_mem (k : κ) (v : α) (es : List (κ × α)) (h : k ∈ es.map Prod.fst)
    (hsorted : (es.map Prod.fst).Pairwise (· < ·)) :
    upsertList k (fun old => old.getD v) es = es := by
  induction es with
  | nil => simp at h
  | cons e es ih =>
    obtain ⟨k',w⟩ := e
    rw [List.map_cons, List.pairwise_cons] at hsorted
    unfold upsertList
    rcases List.mem_cons.mp h with heq | hmem
    · change k = k' at heq
      rw [heq, if_neg (lt_irrefl k'), if_pos rfl]
      rfl
    · have hlt : k' < k := hsorted.1 k hmem
      rw [if_neg hlt.asymm, if_neg hlt.ne', ih hmem hsorted.2]

theorem upsertList_perm (k : κ) (f : Option α → α) (es : List (κ × α))
    (h : k ∉ es.map Prod.fst) : (upsertList k f es).Perm ((k,f none) :: es) := by
  induction es with
  | nil => rfl
  | cons e es ih =>
    obtain ⟨k',w⟩ := e
    rw [List.map_cons, List.mem_cons, not_or] at h
    unfold upsertList
    split_ifs with hlt
    · rfl
    · exact absurd ‹k = k'› h.1
    · exact ((ih h.2).cons _).trans (.swap _ _ _)

theorem mem_keys_tryEmplace (m : Map κ α) (k : κ) (v : α) (x : κ) :
    x ∈ (m.tryEmplace k v).keys ↔ x = k ∨ x ∈ m.keys :=
  keys_upsertList k _ m.entries x

/-- A key that is taken stays as it is. -/
theorem tryEmplace_of_mem {m : Map κ α} {k : κ} (h : k ∈ m.keys) (v : α) :
    m.tryEmplace k v = m := by
  have hentries := upsertList_of_mem k v m.entries h m.sorted
  unfold tryEmplace upsert
  congr 1

theorem values_tryEmplace_perm {m : Map κ α} {k : κ} (h : k ∉ m.keys) (v : α) :
    (m.tryEmplace k v).values.Perm (v :: m.values) :=
  (upsertList_perm k _ m.entries h).map Prod.snd

/-- Change every value, and no key. -/
def mapValues (f : α → β) (m : Map κ α) : Map κ β where
  entries := m.entries.map fun p => (p.1,f p.2)
  sorted := by
    have hkeys : (m.entries.map fun p => (p.1,f p.2)).map Prod.fst = m.entries.map Prod.fst := by
      rw [List.map_map]
      rfl
    rw [hkeys]
    exact m.sorted

theorem values_mapValues (f : α → β) (m : Map κ α) :
    (m.mapValues f).values = m.values.map f := by
  simp only [values, mapValues, List.map_map, Function.comp_def]

theorem keys_mapValues (f : α → β) (m : Map κ α) : (m.mapValues f).keys = m.keys := by
  simp only [keys, mapValues, List.map_map, Function.comp_def]

@[simp] theorem mapValues_empty (f : α → β) : (empty : Map κ α).mapValues f = empty := rfl

/-- A map is determined by its keys and its values. -/
theorem ext_of_values {m m' : Map κ α} (hkeys : m.keys = m'.keys) (hvalues : m.values = m'.values) :
    m = m' := by
  obtain ⟨es,hes⟩ := m
  obtain ⟨es',hes'⟩ := m'
  have hentries : es' = es := (List.zip_of_prod hkeys.symm hvalues.symm).trans
    (List.zip_of_prod rfl rfl).symm
  subst hentries
  rfl

theorem mapValues_tryEmplace (f : α → β) (m : Map κ α) (k : κ) (v : α) :
    (m.tryEmplace k v).mapValues f = (m.mapValues f).tryEmplace k (f v) := by
  have hlist (es : List (κ × α)) :
      (upsertList k (fun old => old.getD v) es).map (fun p => (p.1,f p.2)) =
        upsertList k (fun old => old.getD (f v)) (es.map fun p => (p.1,f p.2)) := by
    induction es with
    | nil => rfl
    | cons e es ih =>
      obtain ⟨k',w⟩ := e
      rw [List.map_cons]
      unfold upsertList
      split_ifs with hlt heq
      · rfl
      · rfl
      · rw [List.map_cons, ih]
  have hentries := hlist m.entries
  unfold mapValues tryEmplace upsert
  congr 1

/-- Replace every value in key order, with an effect for each of them. -/
def traverseList {M : Type → Type} [Monad M] (f : α → M β) :
    (es : List (κ × α)) → M {es' : List (κ × β) // es'.map Prod.fst = es.map Prod.fst}
  | [] => pure ⟨[], rfl⟩
  | (k,a) :: es => do
    let b ← f a
    let rest ← traverseList f es
    pure ⟨(k,b) :: rest.1, by simp [rest.2]⟩

def traverse {M : Type → Type} [Monad M] (f : α → M β) (m : Map κ α) : M (Map κ β) := do
  let es ← traverseList f m.entries
  pure ⟨es.1, by rw [es.2]; exact m.sorted⟩

end Map

end OrderedMap
