import Mathlib

/-! Grouping the elements of a list by a key, with the keys in order of first appearance. -/
namespace Grouping

section Concatenated

variable {α κ γ : Type} {key : α → κ} {part : γ → List α} {partKey : γ → κ} {cs : List γ}

/-- The first element with a property stands behind elements without it. -/
theorem exists_first_of_any {p : α → Bool} {xs : List α} (h : xs.any p = true) :
    ∃ pre x post, xs = pre ++ x :: post ∧ p x = true ∧ pre.any p = false := by
  have hsome := List.find?_isSome.mpr (List.any_eq_true.mp h)
  obtain ⟨x,hfind⟩ := Option.isSome_iff_exists.mp hsome
  obtain ⟨hx,pre,post,hxs,hnone⟩ := List.find?_eq_some_iff_append.mp hfind
  exact ⟨pre, x, post, hxs, hx, by simpa using hnone⟩

theorem exists_mem_flatMap_iff {P : α → Prop} {Q : γ → Prop}
    (h : ∀ c ∈ cs, (∃ x ∈ part c, P x) ↔ Q c) :
    (∃ x ∈ cs.flatMap part, P x) ↔ ∃ c ∈ cs, Q c := by
  constructor
  · intro hx
    obtain ⟨x,hx,hP⟩ := hx
    obtain ⟨c,hc,hxc⟩ := List.mem_flatMap.mp hx
    exact ⟨c, hc, (h c hc).mp ⟨x, hxc, hP⟩⟩
  · intro hc
    obtain ⟨c,hc,hQ⟩ := hc
    obtain ⟨x,hx,hP⟩ := (h c hc).mpr hQ
    exact ⟨x, List.mem_flatMap.mpr ⟨c, hc, hx⟩, hP⟩

/-- A place in the concatenation is a place in one of its parts. -/
theorem exists_part_of_flatMap_eq {pre post : List α} {x : α}
    (h : cs.flatMap part = pre ++ x :: post) :
    ∃ cpre c cpost xpre xpost, cs = cpre ++ c :: cpost ∧ part c = xpre ++ x :: xpost ∧
      pre = cpre.flatMap part ++ xpre ∧ post = xpost ++ cpost.flatMap part := by
  induction cs generalizing pre with
  | nil => simp at h
  | cons c cs ih =>
    rw [List.flatMap_cons] at h
    rcases List.append_eq_append_iff.mp h with ⟨l,hpre,hrest⟩ | ⟨l,hpart,hrest⟩
    · obtain ⟨cpre,c',cpost,xpre,xpost,rfl,hpart,rfl,hpost⟩ := ih hrest
      exact ⟨c :: cpre, c', cpost, xpre, xpost, rfl, hpart, by simp [hpre], hpost⟩
    · cases l with
      | nil =>
        have hrest' : cs.flatMap part = [] ++ x :: post := hrest.symm
        obtain ⟨cpre,c',cpost,xpre,xpost,rfl,hpart',hnil,hpost⟩ := ih hrest'
        refine ⟨c :: cpre, c', cpost, xpre, xpost, rfl, hpart', ?_, hpost⟩
        rw [List.flatMap_cons, List.append_assoc, ← hnil, hpart]
        simp
      | cons y l =>
        obtain ⟨rfl,hpost⟩ := List.cons.inj hrest
        exact ⟨[], c, cs, pre, l, rfl, hpart, rfl, hpost⟩

/-- An element with the same key comes later exactly when one comes later in the same part. -/
theorem exists_later_iff (hkey : ∀ c ∈ cs, ∀ x ∈ part c, key x = partKey c)
    (hcs : (cs.map partKey).Nodup) {pre post : List α} {x : α}
    (h : cs.flatMap part = pre ++ x :: post) :
    ∃ c ∈ cs, ∃ xpre xpost, part c = xpre ++ x :: xpost ∧
      ((∃ y ∈ post, key y = key x) ↔ xpost ≠ []) := by
  obtain ⟨cpre,c,cpost,xpre,xpost,rfl,hpart,_,rfl⟩ := exists_part_of_flatMap_eq h
  have hc : c ∈ cpre ++ c :: cpost := by simp
  refine ⟨c, hc, xpre, xpost, hpart, ?_⟩
  have hx := hkey c hc x (by simp [hpart])
  constructor
  · intro hlater
    obtain ⟨y,hy,hyx⟩ := hlater
    rcases List.mem_append.mp hy with hy | hy
    · exact List.ne_nil_of_mem hy
    · obtain ⟨d,hd,hyd⟩ := List.mem_flatMap.mp hy
      have hdc : partKey d = partKey c := by
        rw [← hkey d (by simp [hd]) y hyd, hyx, hx]
      rw [List.map_append, List.map_cons, List.nodup_append, List.nodup_cons] at hcs
      exact absurd (hdc ▸ List.mem_map_of_mem hd) hcs.2.1.1
  · intro hne
    obtain ⟨y,hy⟩ := List.exists_mem_of_ne_nil xpost hne
    exact ⟨y, by simp [hy], (hkey c hc y (by simp [hpart, hy])).trans hx.symm⟩

end Concatenated

variable {α κ : Type} [DecidableEq κ] (key : α → κ) (xs : List α)

/-- The keys that occur, each once, in order of first appearance. -/
def keysOf : List κ := (xs.map key).eraseDups

/-- The elements with a given key, in order. -/
def group (k : κ) : List α := xs.filter fun x => key x = k

theorem mem_keysOf (k : κ) : k ∈ keysOf key xs ↔ ∃ x ∈ xs, key x = k := by
  simp [keysOf, List.mem_eraseDups]

theorem keysOf_concat (x : α) : keysOf key (xs ++ [x]) =
    if key x ∈ xs.map key then keysOf key xs else keysOf key xs ++ [key x] := by
  unfold keysOf
  rw [List.map_append, List.eraseDups_append]
  split_ifs with h
  · have hnone : (List.map key [x]).removeAll (xs.map key) = [] := by
      simpa [List.removeAll] using h
    rw [hnone, List.eraseDups_nil, List.append_nil]
  · have hone : (List.map key [x]).removeAll (xs.map key) = [key x] := by
      simpa [List.removeAll] using h
    rw [hone]
    rfl

theorem keysOf_nodup : (keysOf key xs).Nodup := by
  induction xs using List.reverseRecOn with
  | nil => exact List.nodup_nil
  | append_singleton xs x ih =>
    rw [keysOf_concat]
    split_ifs with h
    · exact ih
    · have hnot : key x ∉ keysOf key xs := by simpa [mem_keysOf] using h
      exact List.Nodup.append ih (List.nodup_singleton _) (by simpa using hnot)

theorem group_concat (x : α) (k : κ) :
    group key (xs ++ [x]) k = if key x = k then group key xs k ++ [x] else group key xs k := by
  unfold group
  rw [List.filter_append]
  split_ifs with h <;> simp [h]

theorem group_eq_nil_iff (k : κ) : group key xs k = [] ↔ k ∉ keysOf key xs := by
  simp [group, mem_keysOf]

/-- Over any duplicate-free list that covers the keys, the groups make up the whole list. -/
theorem flatMap_group_perm_of_cover (ks : List κ) (hks : ks.Nodup) (xs : List α)
    (hall : ∀ x ∈ xs, key x ∈ ks) : (ks.flatMap (group key xs)).Perm xs := by
  induction ks generalizing xs with
  | nil =>
    have hnil : xs = [] := List.eq_nil_iff_forall_not_mem.mpr fun x hx => by simpa using hall x hx
    rw [hnil]
    rfl
  | cons k ks ih =>
    rw [List.nodup_cons] at hks
    let rest := xs.filter fun x => !decide (key x = k)
    have hrest : ∀ x ∈ rest, key x ∈ ks := by
      intro x hx
      obtain ⟨hmem,hne⟩ := List.mem_filter.mp hx
      have hne' : key x ≠ k := by simpa using hne
      exact (List.mem_cons.mp (hall x hmem)).resolve_left hne'
    have hgroups : ks.flatMap (group key xs) = ks.flatMap (group key rest) := by
      apply List.flatMap_congr
      intro k' hk'
      have hne : k' ≠ k := fun h => hks.1 (h ▸ hk')
      unfold group
      rw [List.filter_filter]
      apply List.filter_congr
      intro x _
      by_cases hx : key x = k' <;> simp [hx, hne]
    rw [List.flatMap_cons, hgroups]
    have hsplit : (group key xs k ++ ks.flatMap (group key rest)).Perm (group key xs k ++ rest) :=
      (ih hks.2 rest hrest).append_left _
    exact hsplit.trans (List.filter_append_perm (fun x => decide (key x = k)) xs)

theorem flatMap_group_perm : ((keysOf key xs).flatMap (group key xs)).Perm xs :=
  flatMap_group_perm_of_cover key _ (keysOf_nodup key xs) xs fun x hx =>
    (mem_keysOf key xs _).mpr ⟨x, hx, rfl⟩

section

variable {γ : Type} {part : γ → List α} {partKey : γ → κ} {cs : List γ}

/-- In parts with keys of their own, the elements with one part's key are that part. -/
theorem group_flatMap (hkey : ∀ c ∈ cs, ∀ x ∈ part c, key x = partKey c)
    (hcs : (cs.map partKey).Nodup) {c : γ} (hc : c ∈ cs) :
    group key (cs.flatMap part) (partKey c) = part c := by
  have hnone (ds : List γ) (hds : ∀ d ∈ ds, d ∈ cs) (hne : ∀ d ∈ ds, partKey d ≠ partKey c) :
      group key (ds.flatMap part) (partKey c) = [] := by
    apply List.filter_eq_nil_iff.mpr
    intro x hx
    obtain ⟨d,hd,hxd⟩ := List.mem_flatMap.mp hx
    simpa [hkey d (hds d hd) x hxd] using hne d hd
  obtain ⟨pre,post,rfl⟩ := List.append_of_mem hc
  rw [List.map_append, List.map_cons, List.nodup_append, List.nodup_cons] at hcs
  obtain ⟨_,⟨hpost,_⟩,hdisjoint⟩ := hcs
  have hpre := hnone pre (fun d hd => by simp [hd]) fun d hd =>
    hdisjoint _ (List.mem_map_of_mem hd) _ List.mem_cons_self
  have hpost' := hnone post (fun d hd => by simp [hd]) fun d hd h =>
    hpost (h ▸ List.mem_map_of_mem hd)
  have hself : group key (part c) (partKey c) = part c := by
    apply List.filter_eq_self.mpr
    intro x hx
    simpa using hkey c hc x hx
  unfold group at *
  rw [List.flatMap_append, List.flatMap_cons, List.filter_append, List.filter_append, hpre, hself,
    hpost', List.nil_append, List.append_nil]

end

end Grouping
