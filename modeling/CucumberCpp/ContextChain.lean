import CucumberCpp.Context

/-! A context and those above it are a chain of finite maps, in which the nearest binding
of a key counts. -/
namespace CucumberCpp

open BindingList

namespace Contexts

variable {V : Type} {history : List (Operation V)} {s : Contexts V} {ps : List (Option ℕ)}
  {n : ℕ} {path : List ℕ}

/-- What the nearest context on the path with a value for the key has for it. -/
def nearest (history : List (Operation V)) (key : String) (path : List ℕ) : Option V :=
  path.findSome? fun m => find? key (contents (changesAt m history))

namespace PathToRoot

theorem unique {path' : List ℕ} (h : PathToRoot ps n path) (h' : PathToRoot ps n path') :
    path = path' := by
  induction h generalizing path' with
  | root hroot =>
    cases h' with
    | root => rfl
    | child hchild => simp [hroot] at hchild
  | child hchild _ ih =>
    cases h' with
    | root hroot => simp [hchild] at hroot
    | child hchild' hpath' =>
      rw [hchild, Option.some.injEq, Option.some.injEq] at hchild'
      rw [ih (hchild' ▸ hpath')]

/-- Contexts that are constructed later do not stand on the path. -/
theorem append (h : PathToRoot ps n path) (qs : List (Option ℕ)) :
    PathToRoot (ps ++ qs) n path := by
  have hkeeps {m : ℕ} {parent : Option ℕ} (hm : ps[m]? = some parent) :
      (ps ++ qs)[m]? = some parent := by
    obtain ⟨hlt,_⟩ := List.getElem?_eq_some_iff.mp hm
    rw [List.getElem?_append_left hlt, hm]
  induction h with
  | root hroot => exact .root (hkeeps hroot)
  | child hchild _ ih => exact .child (hkeeps hchild) ih

end PathToRoot

/-- A lookup follows the path to the root up to the first binding. -/
theorem Built.lookup (h : Built history s) {c : Context V} (hc : s.node? n = some c) :
    ∃ path, PathToRoot (parents history) n path ∧ (∀ x ∈ path, x ≤ n) ∧ ∀ key,
      s.get n key = (nearest history key path).elim (.error (.keyNotFound key)) .ok ∧
      s.contains n key = .ok (nearest history key path).isSome := by
  -- parents are constructed before their children, so the index decreases along the chain
  induction n using Nat.strong_induction_on generalizing c with
  | _ n ih =>
    have hparent := h.parent n c hc
    cases hp : c.storage.parent? with
    | none =>
      rw [hp] at hparent
      refine ⟨[n], .root hparent, by simp, fun key => ?_⟩
      rw [get_of_node? hc, contains_of_node? hc, ContextStorage.get_eq, ContextStorage.contains_eq,
        hp, h.context n c hc, nearest, List.findSome?_cons]
      cases find? key (contents (changesAt n history)) <;> exact ⟨rfl, rfl⟩
    | some p =>
      rw [hp] at hparent
      obtain ⟨hlt,hsome⟩ := h.parentAlive n c p hc hp
      obtain ⟨cp,hcp⟩ := Option.isSome_iff_exists.mp hsome
      obtain ⟨path,hpath,hle,hlookup⟩ := ih p hlt hcp
      refine ⟨n :: path, .child hparent hpath, ?_, fun key => ?_⟩
      · intro x hx
        rcases List.mem_cons.mp hx with rfl | hx
        · exact le_rfl
        · exact (hle x hx).trans hlt.le
      · obtain ⟨hget,hcontains⟩ := hlookup key
        rw [get_of_node? hc, contains_of_node? hc, ContextStorage.get_eq,
          ContextStorage.contains_eq, hp, h.context n c hc, nearest, List.findSome?_cons]
        cases find? key (contents (changesAt n history)) with
        | some value => exact ⟨rfl, rfl⟩
        | none =>
          simp only [dif_pos hlt]
          exact ⟨hget, hcontains⟩

theorem changeAt_eq_assign_iff {op : Operation V} {key : String} {value : V} :
    op.changeAt n = some (.assign key value) ↔ op = .assign n key value := by
  constructor
  · intro h
    cases op <;> simp_all [Operation.changeAt]
  · intro h
    rw [h]
    exact if_pos rfl

theorem changes_iff {op : Operation V} {key : String} :
    op.Changes n key ↔ ∃ change, op.changeAt n = some change ∧ change.key = key := by
  constructor
  · intro h
    rcases h with ⟨value,rfl⟩ | rfl
    · exact ⟨.assign key value, if_pos rfl, rfl⟩
    · exact ⟨.erase key, if_pos rfl, rfl⟩
  · intro h
    obtain ⟨change,hchange,rfl⟩ := h
    cases change with
    | assign key value => exact .inl ⟨value, changeAt_eq_assign_iff.mp hchange⟩
    | erase key => cases op <;> simp_all [Operation.changeAt, Operation.Changes, Change.key]

theorem lookup_of_path (hrun : run history = some s)
    (hpath : PathToRoot (parents history) n path) (hn : Alive history n) (key : String) :
    s.get n key = (nearest history key path).elim (.error (.keyNotFound key)) .ok ∧
      s.contains n key = .ok (nearest history key path).isSome := by
  obtain ⟨c,hc⟩ := Option.isSome_iff_exists.mp (((alive_iff hrun).1 n).mpr hn)
  obtain ⟨path',hpath',_,hlookup⟩ := (Built.of_run hrun).lookup hc
  obtain rfl := hpath.unique hpath'
  exact hlookup key

/-- The latest assignment at a context is the live one among the changes there. -/
theorem latest_iff {key : String} {value : V} :
    Latest history n key value ↔ (key,value) ∈ live (changesAt n history) := by
  have hquiet (post : List (Operation V)) : (∀ op ∈ post, ¬op.Changes n key) ↔
      key ∉ (changesAt n post).map Change.key := by
    rw [List.mem_map]
    simp only [changes_iff, changesAt, List.mem_filterMap, not_exists, not_and]
    constructor
    · intro h change hchange
      obtain ⟨op,hop,hat⟩ := hchange
      exact h op hop change hat
    · intro h op hop change hat
      exact h change ⟨op, hop, hat⟩
  rw [mem_live_iff]
  constructor
  · intro h
    obtain ⟨pre,post,rfl,hpost⟩ := h
    refine ⟨changesAt n pre, changesAt n post, ?_, (hquiet post).mp hpost⟩
    unfold changesAt
    rw [List.filterMap_append, List.filterMap_cons_some (changeAt_eq_assign_iff.mpr rfl)]
  · intro h
    obtain ⟨pre,post,hsplit,hpost⟩ := h
    obtain ⟨pre',rest,rfl,_,hrest⟩ := List.filterMap_eq_append_iff.mp hsplit
    obtain ⟨between,op,post',rfl,_,hop,rfl⟩ := List.filterMap_eq_cons_iff.mp hrest
    refine ⟨pre' ++ between, post', ?_, (hquiet post').mpr hpost⟩
    rw [changeAt_eq_assign_iff.mp hop, List.append_assoc]

theorem nearest_eq_some_iff {key : String} {value : V} : nearest history key path = some value ↔
    ∃ below m above, path = below ++ m :: above ∧
      (∀ x ∈ below, ∀ v, ¬Latest history x key v) ∧ Latest history m key value := by
  simp only [nearest, List.findSome?_eq_some_iff, find?_contents_eq_some_iff,
    find?_contents_eq_none_iff, latest_iff]
  constructor
  · intro h
    obtain ⟨below,m,above,hpath,hm,hbelow⟩ := h
    exact ⟨below, m, above, hpath, hbelow, hm⟩
  · intro h
    obtain ⟨below,m,above,hpath,hbelow,hm⟩ := h
    exact ⟨below, m, above, hpath, hm, hbelow⟩

theorem nearest_eq_none_iff {key : String} : nearest history key path = none ↔
    ∀ m ∈ path, ∀ v, ¬Latest history m key v := by
  simp only [nearest, List.findSome?_eq_none_iff, find?_contents_eq_none_iff, latest_iff]

/-- A lookup depends on the changes along the path alone. -/
theorem Built.lookup_congr {history' : List (Operation V)} {s' : Contexts V} {c c' : Context V}
    (h : Built history s) (h' : Built history' s') (hc : s.node? n = some c)
    (hc' : s'.node? n = some c') {qs : List (Option ℕ)}
    (hparents : parents history' = parents history ++ qs)
    (hsame : ∀ path, PathToRoot (parents history) n path →
      ∀ x ∈ path, changesAt x history' = changesAt x history) (key : String) :
    s'.get n key = s.get n key ∧ s'.contains n key = s.contains n key := by
  obtain ⟨path,hpath,_,hlookup⟩ := h.lookup hc
  obtain ⟨path',hpath',_,hlookup'⟩ := h'.lookup hc'
  obtain rfl : path = path' := (hpath.append qs).unique (hparents ▸ hpath')
  have hnearest : nearest history' key path = nearest history key path := by
    unfold nearest
    have hmap := List.map_congr_left (hsame path hpath)
    have hfind := congrArg (List.findSome? fun cs => find? key (contents cs)) hmap
    simpa only [List.findSome?_map, Function.comp_def] using hfind
  rw [(hlookup key).1, (hlookup key).2, (hlookup' key).1, (hlookup' key).2, hnearest]
  exact ⟨rfl, rfl⟩

theorem parents_step {op : Operation V} (h : op.node? = some n) :
    parents (history ++ [op]) = parents history := by
  rw [parents_concat]
  cases op with
  | construct => cases h
  | constructChild => cases h
  | assign => exact List.append_nil _
  | clear => exact List.append_nil _
  | contains => exact List.append_nil _
  | get => exact List.append_nil _
  | destroy => exact List.append_nil _

theorem changesAt_step {op : Operation V} (h : op.node? = some n) {x : ℕ} (hx : x ≠ n) :
    changesAt x (history ++ [op]) = changesAt x history := by
  apply changesAt_concat_of_none
  cases op with
  | construct => rfl
  | constructChild => rfl
  | assign m =>
    obtain rfl : m = n := Option.some.inj h
    exact if_neg hx.symm
  | clear m =>
    obtain rfl : m = n := Option.some.inj h
    exact if_neg hx.symm
  | contains => rfl
  | get => rfl
  | destroy => rfl

/-- Other contexts stay as they are. -/
theorem node?_step {op : Operation V} {s' : Contexts V} {released : List V}
    (hstep : s.step op = some (s',released)) (h : op.node? = some n) :
    (∃ c, s.node? n = some c) ∧ ∀ m, m ≠ n → s'.node? m = s.node? m := by
  cases op with
  | construct => cases h
  | constructChild => cases h
  | assign m key value =>
    obtain rfl : m = n := Option.some.inj h
    obtain ⟨c,hc,hs'⟩ := Option.bind_eq_some_iff.mp hstep
    obtain ⟨rfl,_⟩ := Prod.mk.inj (Option.some.inj hs')
    exact ⟨⟨c, hc⟩, fun x hx => by rw [node?_set (lt_of_node? hc), if_neg hx]⟩
  | clear m key =>
    obtain rfl : m = n := Option.some.inj h
    obtain ⟨c,hc,hs'⟩ := Option.bind_eq_some_iff.mp hstep
    obtain ⟨rfl,_⟩ := Prod.mk.inj (Option.some.inj hs')
    exact ⟨⟨c, hc⟩, fun x hx => by rw [node?_set (lt_of_node? hc), if_neg hx]⟩
  | contains m key =>
    obtain rfl : m = n := Option.some.inj h
    obtain ⟨c,hc,hs'⟩ := Option.bind_eq_some_iff.mp hstep
    obtain ⟨rfl,_⟩ := Prod.mk.inj (Option.some.inj hs')
    exact ⟨⟨c, hc⟩, fun _ _ => rfl⟩
  | get m key =>
    obtain rfl : m = n := Option.some.inj h
    obtain ⟨c,hc,hs'⟩ := Option.bind_eq_some_iff.mp hstep
    obtain ⟨rfl,_⟩ := Prod.mk.inj (Option.some.inj hs')
    exact ⟨⟨c, hc⟩, fun _ _ => rfl⟩
  | destroy m =>
    obtain rfl : m = n := Option.some.inj h
    obtain ⟨c,hc,hs'⟩ := Option.bind_eq_some_iff.mp hstep
    split_ifs at hs'
    obtain ⟨rfl,_⟩ := Prod.mk.inj (Option.some.inj hs')
    exact ⟨⟨c, hc⟩, fun x hx => by rw [node?_set (lt_of_node? hc), if_neg hx]⟩

/-- A context does not stand above its parent, nor above a sibling. -/
theorem Built.not_mem_path (h : Built history s) {c : Context V} {m : ℕ}
    (hc : s.node? n = some c)
    (hrelated : (parents history)[n]? = some (some m) ∨
      m ≠ n ∧ (parents history)[m]? = (parents history)[n]?)
    (hpath : PathToRoot (parents history) m path) : n ∉ path := by
  have hparent := h.parent n c hc
  have habove {p : ℕ} {above : List ℕ} (hp : (parents history)[n]? = some (some p))
      (habove : PathToRoot (parents history) p above) : n ∉ above := by
    obtain ⟨hlt,hsome⟩ := h.parentAlive n c p hc (Option.some.inj (hparent.symm.trans hp))
    obtain ⟨cp,hcp⟩ := Option.isSome_iff_exists.mp hsome
    obtain ⟨path',hpath',hle,_⟩ := h.lookup hcp
    intro hmem
    have hn := hle n (habove.unique hpath' ▸ hmem)
    omega
  rcases hrelated with hchild | ⟨hne,hsibling⟩
  · exact habove hchild hpath
  · cases hpath with
    | root => exact fun hmem => hne (List.mem_singleton.mp hmem).symm
    | child hm hrest =>
      rw [List.mem_cons, not_or]
      exact ⟨hne.symm, habove (hsibling ▸ hm) hrest⟩

theorem hasChildren_eq_true_iff (n : ℕ) : s.hasChildren n = true ↔
    ∃ m c, s.node? m = some c ∧ c.storage.parent? = some n := by
  rw [hasChildren, List.any_eq_true]
  constructor
  · rintro ⟨c?,hmem,hany⟩
    obtain ⟨m,hm⟩ := List.mem_iff_getElem?.mp hmem
    cases c? with
    | none => cases hany
    | some c => exact ⟨m, c, by simp [node?, hm], of_decide_eq_true hany⟩
  · rintro ⟨m,c,hm,hc⟩
    rw [node?, Option.join_eq_some_iff] at hm
    exact ⟨some c, List.mem_of_getElem? hm, by simp [hc]⟩

/-- Exactly the operations that a program can do go through. -/
theorem step_isSome_iff (hrun : run history = some s) (op : Operation V) :
    (s.step op).isSome ↔ op.Allowed history := by
  have h := Built.of_run hrun
  have halive := (alive_iff hrun).1
  cases op with
  | construct factory => simp [step, Operation.Allowed]
  | constructChild parent =>
    rw [Operation.Allowed, ← halive]
    cases hc : s.node? parent <;> simp [step, hc]
  | assign n key value =>
    rw [Operation.Allowed, ← halive]
    cases hc : s.node? n <;> simp [step, hc]
  | clear n key =>
    rw [Operation.Allowed, ← halive]
    cases hc : s.node? n <;> simp [step, hc]
  | contains n key =>
    rw [Operation.Allowed, ← halive]
    cases hc : s.node? n <;> simp [step, hc]
  | get n key =>
    rw [Operation.Allowed, ← halive]
    cases hc : s.node? n <;> simp [step, hc]
  | destroy n =>
    have hchildren : s.hasChildren n = false ↔ ∀ m < (parents history).length,
        (parents history)[m]? = some (some n) → ¬Alive history m := by
      rw [← Bool.not_eq_true, hasChildren_eq_true_iff]
      constructor
      · intro hnone m _ hm hmalive
        obtain ⟨c,hc⟩ := Option.isSome_iff_exists.mp ((halive m).mpr hmalive)
        have hparent := (h.parent m c hc).symm.trans hm
        exact hnone ⟨m, c, hc, Option.some.inj hparent⟩
      · rintro hnone ⟨m,c,hc,hparent⟩
        have hmalive := (halive m).mp (Option.isSome_iff_exists.mpr ⟨c, hc⟩)
        exact hnone m hmalive.1 (hparent ▸ h.parent m c hc) hmalive
    rw [Operation.Allowed, ← halive, ← hchildren]
    cases hc : s.node? n <;> simp [step, hc]

/-- The contexts after a history are chains of finite maps. -/
structure IsChain (history : List (Operation V)) (s : Contexts V) : Prop where
  /-- There are the contexts that were constructed and not destroyed. -/
  nodes : ∀ n, (s.node? n).isSome ↔ Alive history n
  /-- A program can go on with every operation on one of them. -/
  steps : ∀ op, (s.step op).isSome ↔ op.Allowed history
  /-- A storage holds every key at most once. -/
  unique : ∀ n c, s.node? n = some c → (c.storage.context.map Prod.fst).Nodup
  /-- A lookup finds the latest value of the nearest context that has one. -/
  lookup : ∀ n, Alive history n → ∃ path, PathToRoot (parents history) n path ∧ ∀ key,
    (∀ value, s.get n key = .ok value ↔ ∃ below m above, path = below ++ m :: above ∧
      (∀ x ∈ below, ∀ v, ¬Latest history x key v) ∧ Latest history m key value) ∧
    (s.get n key = .error (.keyNotFound key) ↔ ∀ m ∈ path, ∀ v, ¬Latest history m key v) ∧
    s.contains n key = .ok (s.get n key).isOk
  /-- What is done to a context does not show at its parent or at a sibling. -/
  isolated : ∀ op s' released n m, s.step op = some (s',released) → op.node? = some n →
    Alive history m →
    ((parents history)[n]? = some (some m) ∨
      m ≠ n ∧ (parents history)[m]? = (parents history)[n]?) →
    ∀ key, s'.get m key = s.get m key ∧ s'.contains m key = s.contains m key
  /-- The values of a context are released in the reverse order of their latest assignments. -/
  released : ∀ n s' released, s.step (.destroy n) = some (s',released) →
    released = ((live (changesAt n history)).map Prod.snd).reverse

theorem isChain_of_run (hrun : run history = some s) : IsChain history s := by
  have h := Built.of_run hrun
  have halive := (alive_iff hrun).1
  refine ⟨halive, step_isSome_iff hrun, ?_, ?_, ?_, ?_⟩
  · intro n c hc
    rw [h.context n c hc]
    exact keys_contents_nodup _
  · intro n hn
    obtain ⟨c,hc⟩ := Option.isSome_iff_exists.mp ((halive n).mpr hn)
    obtain ⟨path,hpath,_,hlookup⟩ := h.lookup hc
    refine ⟨path, hpath, fun key => ?_⟩
    obtain ⟨hget,hcontains⟩ := hlookup key
    rw [hget, hcontains]
    refine ⟨fun value => ?_, ?_, ?_⟩
    · rw [← nearest_eq_some_iff]
      cases nearest history key path <;> simp
    · rw [← nearest_eq_none_iff]
      cases nearest history key path <;> simp
    · cases nearest history key path <;> rfl
  · intro op s' released n m hstep hop hmalive hrelated
    obtain ⟨c,hm⟩ := Option.isSome_iff_exists.mp ((halive m).mpr hmalive)
    obtain ⟨⟨d,hd⟩,hothers⟩ := node?_step hstep hop
    have hne : m ≠ n := by
      rcases hrelated with hchild | ⟨hne,_⟩
      · have hparent := (h.parent n d hd).symm.trans hchild
        exact (h.parentAlive n d m hd (Option.some.inj hparent)).1.ne
      · exact hne
    have hparents : parents (history ++ [op]) = parents history ++ [] := by
      rw [parents_step hop, List.append_nil]
    -- the path from `m` to the root does not lead through `n`
    apply h.lookup_congr (h.step hstep) hm ((hothers m hne).trans hm) hparents
    intro path hpath x hx
    apply changesAt_step hop
    intro heq
    exact h.not_mem_path hd hrelated hpath (heq ▸ hx)
  · intro n s' released hstep
    obtain ⟨c,hc,hs'⟩ := Option.bind_eq_some_iff.mp hstep
    split_ifs at hs'
    obtain ⟨_,rfl⟩ := Prod.mk.inj (Option.some.inj hs')
    rw [h.context n c hc, contents_eq_reverse_live, List.map_reverse]

theorem exists_run_of_allowedAfter {ops : List (Operation V)} (hrun : run history = some s)
    (h : AllowedAfter history ops) : ∃ s', run (history ++ ops) = some s' := by
  induction ops generalizing history s with
  | nil => exact ⟨s, by rwa [List.append_nil]⟩
  | cons op ops ih =>
    obtain ⟨hop,hops⟩ := h
    obtain ⟨⟨s',released⟩,hstep⟩ :=
      Option.isSome_iff_exists.mp ((step_isSome_iff hrun op).mpr hop)
    have hrun' : run (history ++ [op]) = some s' := by
      rw [run_concat, hrun, Option.bind_some, hstep]
      rfl
    have hrest := ih hrun' hops
    rwa [List.append_assoc] at hrest

/-- Whatever a program does with contexts goes through and leaves chains of finite maps. -/
theorem contexts_chain {history : List (Operation V)} (hallowed : AllowedAfter [] history) :
    ∃ s, run history = some s ∧ IsChain history s := by
  have hstart : run ([] : List (Operation V)) = some {} := rfl
  obtain ⟨s,hrun⟩ := exists_run_of_allowedAfter hstart hallowed
  exact ⟨s, hrun, isChain_of_run hrun⟩

/-- A program and a scenario of it that has a value of its own for the same key. -/
def overrideHistory : List (Operation ℕ) :=
  [.construct .threadSafe, .constructChild 0, .assign 0 "name" 1, .assign 1 "name" 2]

/-- The scenario's value hides the program's until it is cleared or released. -/
theorem contexts_chain_override :
    ∃ s t, run overrideHistory = some s ∧ IsChain overrideHistory s ∧
      run (overrideHistory ++ [.clear 1 "name"]) = some t ∧
      IsChain (overrideHistory ++ [.clear 1 "name"]) t ∧
      s.get 1 "name" = .ok 2 ∧ s.get 0 "name" = .ok 1 ∧ t.get 1 "name" = .ok 1 ∧
      t.get 1 "other" = .error (.keyNotFound "other") ∧ t.contains 1 "other" = .ok false ∧
      (s.step (.destroy 0)).isNone ∧ (s.step (.destroy 1)).map Prod.snd = some [2] := by
  have hallowed : AllowedAfter [] overrideHistory := by decide
  have hallowed' : AllowedAfter [] (overrideHistory ++ [.clear 1 "name"]) := by decide
  obtain ⟨s,hs,hchain⟩ := contexts_chain hallowed
  obtain ⟨t,ht,hchain'⟩ := contexts_chain hallowed'
  have hpath := lookup_of_path hs (.child (n := 1) (p := 0) rfl (.root rfl)) (by decide)
  have hroot := lookup_of_path hs (.root (n := 0) rfl) (by decide)
  have hpath' := lookup_of_path ht (.child (n := 1) (p := 0) rfl (.root rfl)) (by decide)
  refine ⟨s, t, hs, hchain, ht, hchain', (hpath _).1, (hroot _).1, (hpath' _).1, (hpath' _).1,
    (hpath' _).2, ?_⟩
  cases hs
  exact ⟨rfl, rfl⟩

end Contexts

end CucumberCpp
