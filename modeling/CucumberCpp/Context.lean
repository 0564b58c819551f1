import CucumberCpp.BindingList

/-! `Context.hpp`: contexts that look a key up in a storage of their own and then in
that of their parent. -/
namespace CucumberCpp

open BindingList

-- what is stored: `std::shared_ptr<void>`
variable {V : Type}

inductive ContextError where
  | keyNotFound (key : String)
  | danglingParent
  deriving DecidableEq

/-- `ContextStorageImpl`, with a `forward_list` of keys and values, and
`ThreadSafeContextStorage`, which takes a lock and hands every call on. A parent is
named by the number of its context. -/
inductive ContextStorage (V : Type) where
  | impl (parent : Option ℕ) (context : List (String × V))
  | threadSafe (contextStorage : ContextStorage V)

namespace ContextStorage

def parent? : ContextStorage V → Option ℕ
  | impl parent _ => parent
  | threadSafe contextStorage => contextStorage.parent?

def context : ContextStorage V → List (String × V)
  | impl _ context => context
  | threadSafe contextStorage => contextStorage.context

/-- `parentContains` is the call of the same function on the parent. -/
def contains (key : String) (parentContains : ℕ → Except ContextError Bool) :
    ContextStorage V → Except ContextError Bool
  | impl parent context =>
    match find? key context with
    | some _ => pure true
    | none =>
      match parent with
      | some p => parentContains p
      | none => pure false
  | threadSafe contextStorage => contextStorage.contains key parentContains

def get (key : String) (parentGet : ℕ → Except ContextError V) :
    ContextStorage V → Except ContextError V
  | impl parent context =>
    match find? key context with
    | some value => pure value
    | none =>
      match parent with
      | some p => parentGet p
      | none => throw (.keyNotFound key)
  | threadSafe contextStorage => contextStorage.get key parentGet

def erase (key : String) : ContextStorage V → ContextStorage V
  | impl parent context => impl parent (BindingList.erase key context)
  | threadSafe contextStorage => threadSafe (contextStorage.erase key)

def assign (key : String) (value : V) : ContextStorage V → ContextStorage V
  | impl parent context => impl parent ((key,value) :: BindingList.erase key context)
  | threadSafe contextStorage => threadSafe (contextStorage.assign key value)

end ContextStorage

/-- `ContextStorageFactoryImpl` and `ContextStorageFactoryThreadSafe`. -/
inductive ContextStorageFactory where
  | impl
  | threadSafe
  deriving DecidableEq

/-- `Create`, without or with a parent. -/
def ContextStorageFactory.create : ContextStorageFactory → Option ℕ → ContextStorage V
  | .impl, parent => .impl parent []
  | .threadSafe, parent => .threadSafe (.impl parent [])

structure Context (V : Type) where
  contextStorageFactory : ContextStorageFactory
  storage : ContextStorage V

/-- The contexts of a program, numbered as they were constructed; one that was
destroyed leaves its number unused. -/
structure Contexts (V : Type) where
  nodes : List (Option (Context V)) := []

/-- What a program does with contexts. `SetShared` and all kinds of `Emplace`, `Insert`
and `InsertRef` make a shared pointer and call `Assign`. -/
inductive Contexts.Operation (V : Type) where
  | construct (contextStorageFactory : ContextStorageFactory)
  | constructChild (parent : ℕ)
  | assign (node : ℕ) (key : String) (value : V)
  | clear (node : ℕ) (key : String)
  | contains (node : ℕ) (key : String)
  | get (node : ℕ) (key : String)
  | destroy (node : ℕ)

namespace Contexts

variable (s : Contexts V)

def node? (n : ℕ) : Option (Context V) := (s.nodes[n]?).join

def contains (s : Contexts V) (n : ℕ) (key : String) : Except ContextError Bool :=
  match s.node? n with
  | none => throw .danglingParent
  | some c =>
    c.storage.contains key fun p => if _ : p < n then s.contains p key else throw .danglingParent
termination_by n

/-- A parent was constructed before its children. -/
def get (s : Contexts V) (n : ℕ) (key : String) : Except ContextError V :=
  match s.node? n with
  | none => throw .danglingParent
  | some c => c.storage.get key fun p => if _ : p < n then s.get p key else throw .danglingParent
termination_by n

def hasChildren (n : ℕ) : Bool :=
  s.nodes.any fun c? => c?.any fun c => decide (c.storage.parent? = some n)

/-- One operation, with the values it releases in order; none where it names a context
that does not exist, or ends one before its children. A `forward_list` is destroyed from
the front. -/
def step : Operation V → Option (Contexts V × List V)
  | .construct factory => some (⟨s.nodes ++ [some ⟨factory, factory.create none⟩]⟩, [])
  | .constructChild parent => do
    let c ← s.node? parent
    let child : Context V :=
      { contextStorageFactory := c.contextStorageFactory
        storage := c.contextStorageFactory.create (some parent) }
    some (⟨s.nodes ++ [some child]⟩, [])
  | .assign n key value => do
    let c ← s.node? n
    let released := c.storage.context.filter fun entry => entry.1 = key
    some (⟨s.nodes.set n (some { c with storage := c.storage.assign key value })⟩,
      released.map Prod.snd)
  | .clear n key => do
    let c ← s.node? n
    let released := c.storage.context.filter fun entry => entry.1 = key
    some (⟨s.nodes.set n (some { c with storage := c.storage.erase key })⟩,
      released.map Prod.snd)
  | .contains n _ => do
    let _ ← s.node? n
    some (s, [])
  | .get n _ => do
    let _ ← s.node? n
    some (s, [])
  | .destroy n => do
    let c ← s.node? n
    if s.hasChildren n then none
    else some (⟨s.nodes.set n none⟩, c.storage.context.map Prod.snd)

def run (history : List (Operation V)) : Option (Contexts V) :=
  history.foldlM (fun s op => (s.step op).map Prod.fst) {}

namespace Operation

/-- The context that an operation is one on. -/
def node? : Operation V → Option ℕ
  | .construct _ => none
  | .constructChild _ => none
  | .assign n _ _ => some n
  | .clear n _ => some n
  | .contains n _ => some n
  | .get n _ => some n
  | .destroy n => some n

/-- The parent of the context that an operation constructs. -/
def parent? : Operation V → Option (Option ℕ)
  | .construct _ => some none
  | .constructChild parent => some (some parent)
  | _ => none

def destroyed? : Operation V → Option ℕ
  | .destroy n => some n
  | _ => none

/-- The change that an operation makes to the storage of a context. -/
def changeAt (n : ℕ) : Operation V → Option (Change String V)
  | .assign m key value => if m = n then some (.assign key value) else none
  | .clear m key => if m = n then some (.erase key) else none
  | _ => none

/-- An operation assigns or clears the key at the context. -/
def Changes (n : ℕ) (key : String) (op : Operation V) : Prop :=
  (∃ value, op = .assign n key value) ∨ op = .clear n key

end Operation

/-- The value of the latest assignment to the key at a context, if it was not cleared since. -/
def Latest (history : List (Operation V)) (n : ℕ) (key : String) (value : V) : Prop :=
  ∃ pre post, history = pre ++ .assign n key value :: post ∧ ∀ op ∈ post, ¬op.Changes n key

/-- The parents of the contexts, in the order of their construction. -/
def parents (history : List (Operation V)) : List (Option ℕ) :=
  history.filterMap Operation.parent?

/-- A context was constructed and not destroyed since. -/
def Alive (history : List (Operation V)) (n : ℕ) : Prop :=
  n < (parents history).length ∧ n ∉ history.filterMap Operation.destroyed?

instance (history : List (Operation V)) (n : ℕ) : Decidable (Alive history n) :=
  inferInstanceAs (Decidable (_ ∧ _))

/-- What a program can do: operations on contexts that are there, and the end of a context
whose children have ended. -/
def Operation.Allowed (history : List (Operation V)) : Operation V → Prop
  | .construct _ => True
  | .constructChild parent => Alive history parent
  | .assign n _ _ | .clear n _ | .contains n _ | .get n _ => Alive history n
  | .destroy n => Alive history n ∧ ∀ m < (parents history).length,
      (parents history)[m]? = some (some n) → ¬Alive history m

instance (history : List (Operation V)) : (op : Operation V) → Decidable (op.Allowed history)
  | .construct _ => .isTrue trivial
  | .constructChild parent => inferInstanceAs (Decidable (Alive history parent))
  | .assign n _ _ => inferInstanceAs (Decidable (Alive history n))
  | .clear n _ => inferInstanceAs (Decidable (Alive history n))
  | .contains n _ => inferInstanceAs (Decidable (Alive history n))
  | .get n _ => inferInstanceAs (Decidable (Alive history n))
  | .destroy n => inferInstanceAs (Decidable (Alive history n ∧ ∀ m < (parents history).length,
      (parents history)[m]? = some (some n) → ¬Alive history m))

/-- Operations that a program can do one after another, once it has done those of a history. -/
def AllowedAfter (history : List (Operation V)) : List (Operation V) → Prop
  | [] => True
  | op :: ops => op.Allowed history ∧ AllowedAfter (history ++ [op]) ops

instance decidableAllowedAfter :
    (history ops : List (Operation V)) → Decidable (AllowedAfter history ops)
  | _, [] => .isTrue trivial
  | history, op :: ops =>
    have := decidableAllowedAfter (history ++ [op]) ops
    inferInstanceAs (Decidable (op.Allowed history ∧ AllowedAfter (history ++ [op]) ops))

def changesAt (n : ℕ) (history : List (Operation V)) : List (Change String V) :=
  history.filterMap (Operation.changeAt n)

/-- The contexts from one up to the root above it. -/
inductive PathToRoot (parents : List (Option ℕ)) : ℕ → List ℕ → Prop where
  | root {n : ℕ} : parents[n]? = some none → PathToRoot parents n [n]
  | child {n p : ℕ} {path : List ℕ} : parents[n]? = some (some p) → PathToRoot parents p path →
    PathToRoot parents n (n :: path)

end Contexts

namespace ContextStorage

theorem contains_eq (key : String) (parentContains : ℕ → Except ContextError Bool)
    (storage : ContextStorage V) : storage.contains key parentContains =
      match find? key storage.context with
      | some _ => .ok true
      | none =>
        match storage.parent? with
        | some p => parentContains p
        | none => .ok false := by
  induction storage with
  | impl parent context => rfl
  | threadSafe contextStorage ih => exact ih

theorem get_eq (key : String) (parentGet : ℕ → Except ContextError V)
    (storage : ContextStorage V) : storage.get key parentGet =
      match find? key storage.context with
      | some value => .ok value
      | none =>
        match storage.parent? with
        | some p => parentGet p
        | none => .error (.keyNotFound key) := by
  induction storage with
  | impl parent context => rfl
  | threadSafe contextStorage ih => exact ih

@[simp] theorem context_erase (key : String) (storage : ContextStorage V) :
    (storage.erase key).context = BindingList.erase key storage.context := by
  induction storage with
  | impl parent context => rfl
  | threadSafe contextStorage ih => exact ih

@[simp] theorem parent?_erase (key : String) (storage : ContextStorage V) :
    (storage.erase key).parent? = storage.parent? := by
  induction storage with
  | impl parent context => rfl
  | threadSafe contextStorage ih => exact ih

@[simp] theorem context_assign (key : String) (value : V) (storage : ContextStorage V) :
    (storage.assign key value).context = BindingList.assign key value storage.context := by
  induction storage with
  | impl parent context => rfl
  | threadSafe contextStorage ih => exact ih

@[simp] theorem parent?_assign (key : String) (value : V) (storage : ContextStorage V) :
    (storage.assign key value).parent? = storage.parent? := by
  induction storage with
  | impl parent context => rfl
  | threadSafe contextStorage ih => exact ih

end ContextStorage

@[simp] theorem ContextStorageFactory.context_create (factory : ContextStorageFactory)
    (parent : Option ℕ) : (factory.create parent : ContextStorage V).context = [] := by
  cases factory <;> rfl

@[simp] theorem ContextStorageFactory.parent?_create (factory : ContextStorageFactory)
    (parent : Option ℕ) : (factory.create parent : ContextStorage V).parent? = parent := by
  cases factory <;> rfl

namespace Contexts

variable {s : Contexts V}

theorem lt_of_node? {n : ℕ} {c : Context V} (h : s.node? n = some c) : n < s.nodes.length := by
  by_contra hge
  have hnone : s.nodes[n]? = none := List.getElem?_eq_none (by omega)
  rw [node?, hnone] at h
  cases h

theorem node?_append (c : Context V) (n : ℕ) :
    (⟨s.nodes ++ [some c]⟩ : Contexts V).node? n =
      if n = s.nodes.length then some c else s.node? n := by
  unfold node?
  rcases Nat.lt_trichotomy n s.nodes.length with hlt | heq | hgt
  · rw [if_neg hlt.ne, List.getElem?_append_left hlt]
  · rw [if_pos heq, heq, List.getElem?_concat_length]
    rfl
  · rw [if_neg hgt.ne', List.getElem?_eq_none hgt.le, List.getElem?_eq_none]
    rw [List.length_append, List.length_singleton]
    omega

theorem node?_set {n : ℕ} (hn : n < s.nodes.length) (c? : Option (Context V)) (m : ℕ) :
    (⟨s.nodes.set n c?⟩ : Contexts V).node? m = if m = n then c? else s.node? m := by
  unfold node?
  rw [List.getElem?_set]
  by_cases h : m = n
  · rw [if_pos h.symm, if_pos h, if_pos hn]
    rfl
  · rw [if_neg (Ne.symm h), if_neg h]

/-- A new context and a changed one leave every place taken that was taken. -/
theorem isSome_node?_append (c : Context V) {p : ℕ} (hp : (s.node? p).isSome) :
    ((⟨s.nodes ++ [some c]⟩ : Contexts V).node? p).isSome := by
  rw [node?_append]
  split_ifs
  · rfl
  · exact hp

theorem isSome_node?_set {n : ℕ} (hn : n < s.nodes.length) (c : Context V) {p : ℕ}
    (hp : (s.node? p).isSome) :
    ((⟨s.nodes.set n (some c)⟩ : Contexts V).node? p).isSome := by
  rw [node?_set hn]
  split_ifs
  · rfl
  · exact hp

theorem contains_of_node? {n : ℕ} {c : Context V} (h : s.node? n = some c) (key : String) :
    s.contains n key = c.storage.contains key fun p =>
      if _ : p < n then s.contains p key else throw .danglingParent := by
  rw [contains, h]

theorem get_of_node? {n : ℕ} {c : Context V} (h : s.node? n = some c) (key : String) :
    s.get n key = c.storage.get key fun p =>
      if _ : p < n then s.get p key else throw .danglingParent := by
  rw [get, h]

/-- What a program has built so far. -/
structure Built (history : List (Operation V)) (s : Contexts V) : Prop where
  length : s.nodes.length = (parents history).length
  unborn : ∀ n, s.nodes.length ≤ n → changesAt n history = []
  context : ∀ n c, s.node? n = some c → c.storage.context = contents (changesAt n history)
  parent : ∀ n c, s.node? n = some c → (parents history)[n]? = some c.storage.parent?
  parentAlive : ∀ n c p, s.node? n = some c → c.storage.parent? = some p →
    p < n ∧ (s.node? p).isSome

theorem changesAt_concat (n : ℕ) (history : List (Operation V)) (op : Operation V) :
    changesAt n (history ++ [op]) = changesAt n history ++ (op.changeAt n).toList := by
  unfold changesAt
  rw [List.filterMap_append]
  cases h : op.changeAt n <;> simp [h]

theorem changesAt_concat_of_none {n : ℕ} {op : Operation V} (h : op.changeAt n = none)
    (history : List (Operation V)) : changesAt n (history ++ [op]) = changesAt n history := by
  rw [changesAt_concat, h]
  exact List.append_nil _

theorem parents_concat (history : List (Operation V)) (op : Operation V) :
    parents (history ++ [op]) = parents history ++ op.parent?.toList := by
  unfold parents
  rw [List.filterMap_append]
  cases h : op.parent? <;> simp [h]

theorem parents_concat_of_none {op : Operation V} (h : op.parent? = none)
    (history : List (Operation V)) : parents (history ++ [op]) = parents history := by
  rw [parents_concat, h]
  exact List.append_nil _

namespace Built

variable {history : List (Operation V)} {op : Operation V}

theorem start : Built ([] : List (Operation V)) {} := by
  constructor
  · rfl
  · intro n _
    rfl
  all_goals
    intro n c
    intros
    simp_all [node?]

/-- Queries change nothing. -/
theorem query (h : Built history s) (hparent : op.parent? = none)
    (hchange : ∀ n, op.changeAt n = none) : Built (history ++ [op]) s := by
  have hparents := parents_concat_of_none hparent history
  constructor
  · rw [hparents]
    exact h.length
  · intro n hn
    rw [changesAt_concat_of_none (hchange n)]
    exact h.unborn n hn
  · intro n c hc
    rw [changesAt_concat_of_none (hchange n)]
    exact h.context n c hc
  · rw [hparents]
    exact h.parent
  · exact h.parentAlive

/-- A new context stands behind all others, its parent among them. -/
theorem construct (h : Built history s) {c : Context V} {parent : Option ℕ}
    (hop : op.parent? = some parent) (hchange : ∀ n, op.changeAt n = none)
    (hcontext : c.storage.context = []) (hparent : c.storage.parent? = parent)
    (halive : ∀ p, parent = some p → (s.node? p).isSome) :
    Built (history ++ [op]) ⟨s.nodes ++ [some c]⟩ := by
  have hparents : parents (history ++ [op]) = parents history ++ [parent] := by
    rw [parents_concat, hop]
    rfl
  have hlength : (⟨s.nodes ++ [some c]⟩ : Contexts V).nodes.length = s.nodes.length+1 :=
    List.length_append
  constructor
  · rw [hlength, hparents, List.length_append, h.length]
    rfl
  · intro n hn
    rw [changesAt_concat_of_none (hchange n)]
    exact h.unborn n (by omega)
  · intro n c' hc'
    rw [changesAt_concat_of_none (hchange n)]
    rw [node?_append] at hc'
    split_ifs at hc' with hn
    · rw [Option.some.injEq] at hc'
      rw [← hc', hcontext, h.unborn n hn.ge]
      rfl
    · exact h.context n c' hc'
  · intro n c' hc'
    rw [hparents]
    rw [node?_append] at hc'
    split_ifs at hc' with hn
    · rw [Option.some.injEq] at hc'
      rw [← hc', hparent, hn, h.length, List.getElem?_concat_length]
    · have hlt : n < (parents history).length := h.length ▸ lt_of_node? hc'
      rw [List.getElem?_append_left hlt]
      exact h.parent n c' hc'
  · intro n c' p hc' hp
    rw [node?_append] at hc'
    split_ifs at hc' with hn
    · rw [Option.some.injEq] at hc'
      rw [← hc', hparent] at hp
      obtain ⟨cp,hcp⟩ := Option.isSome_iff_exists.mp (halive p hp)
      exact ⟨hn ▸ lt_of_node? hcp, isSome_node?_append c (halive p hp)⟩
    · obtain ⟨hlt,hsome⟩ := h.parentAlive n c' p hc' hp
      exact ⟨hlt, isSome_node?_append c hsome⟩

/-- A change to the storage of one context. -/
theorem store (h : Built history s) {n : ℕ} {c c' : Context V} {change : Change String V}
    (hc : s.node? n = some c) (hparent : op.parent? = none)
    (hchange : ∀ m, op.changeAt m = if n = m then some change else none)
    (hcontext : c'.storage.context = change.apply c.storage.context)
    (hparent' : c'.storage.parent? = c.storage.parent?) :
    Built (history ++ [op]) ⟨s.nodes.set n (some c')⟩ := by
  have hn := lt_of_node? hc
  have hparents := parents_concat_of_none hparent history
  have hother (m : ℕ) (hm : m ≠ n) : changesAt m (history ++ [op]) = changesAt m history :=
    changesAt_concat_of_none ((hchange m).trans (if_neg hm.symm)) history
  constructor
  · rw [hparents, List.length_set]
    exact h.length
  · intro m hm
    rw [List.length_set] at hm
    rw [hother m (by omega)]
    exact h.unborn m hm
  · intro m d hd
    rw [node?_set hn] at hd
    split_ifs at hd with hm
    · rw [Option.some.injEq] at hd
      rw [hm, changesAt_concat, hchange, if_pos rfl, ← hd, hcontext, h.context n c hc]
      exact (contents_concat _ _).symm
    · rw [hother m hm]
      exact h.context m d hd
  · intro m d hd
    rw [hparents]
    rw [node?_set hn] at hd
    split_ifs at hd with hm
    · rw [Option.some.injEq] at hd
      rw [hm, ← hd, hparent']
      exact h.parent n c hc
    · exact h.parent m d hd
  · intro m d p hd hp
    rw [node?_set hn] at hd
    split_ifs at hd with hm
    · rw [Option.some.injEq] at hd
      rw [← hd, hparent'] at hp
      obtain ⟨hlt,hsome⟩ := h.parentAlive n c p hc hp
      exact ⟨hm ▸ hlt, isSome_node?_set hn c' hsome⟩
    · obtain ⟨hlt,hsome⟩ := h.parentAlive m d p hd hp
      exact ⟨hlt, isSome_node?_set hn c' hsome⟩

/-- A context without children is destroyed. -/
theorem destroy (h : Built history s) {n : ℕ} {c : Context V} (hc : s.node? n = some c)
    (hchildren : s.hasChildren n = false) :
    Built (history ++ [.destroy n]) ⟨s.nodes.set n none⟩ := by
  have hn := lt_of_node? hc
  have hchange (m : ℕ) : changesAt m (history ++ [.destroy n]) = changesAt m history :=
    changesAt_concat_of_none rfl history
  have hparents : parents (history ++ [.destroy n]) = parents history :=
    parents_concat_of_none rfl history
  have hrest {m : ℕ} {d : Context V} (hd : (⟨s.nodes.set n none⟩ : Contexts V).node? m = some d) :
      s.node? m = some d := by
    rw [node?_set hn] at hd
    split_ifs at hd
    exact hd
  constructor
  · rw [hparents, List.length_set]
    exact h.length
  · intro m hm
    rw [List.length_set] at hm
    rw [hchange]
    exact h.unborn m hm
  · intro m d hd
    rw [hchange]
    exact h.context m d (hrest hd)
  · intro m d hd
    rw [hparents]
    exact h.parent m d (hrest hd)
  · intro m d p hd hp
    obtain ⟨hlt,hsome⟩ := h.parentAlive m d p (hrest hd) hp
    refine ⟨hlt, ?_⟩
    -- a context that still has children is not destroyed, so no parent is lost
    have hne : p ≠ n := by
      intro heq
      have hmem : some d ∈ s.nodes := by
        have hd' := hrest hd
        rw [node?, Option.join_eq_some_iff] at hd'
        exact List.mem_of_getElem? hd'
      have hany : s.hasChildren n = true :=
        List.any_eq_true.mpr ⟨some d, hmem, by simp [hp, heq]⟩
      rw [hchildren] at hany
      cases hany
    rw [node?_set hn, if_neg hne]
    exact hsome

theorem step {s' : Contexts V} {released : List V} (h : Built history s)
    (hstep : s.step op = some (s',released)) : Built (history ++ [op]) s' := by
  cases op with
  | construct factory =>
    obtain ⟨rfl,_⟩ := Prod.mk.inj (Option.some.inj hstep)
    exact h.construct rfl (fun _ => rfl) (by simp) (by simp) (by simp)
  | constructChild parent =>
    obtain ⟨c,hc,hs'⟩ := Option.bind_eq_some_iff.mp hstep
    obtain ⟨rfl,_⟩ := Prod.mk.inj (Option.some.inj hs')
    refine h.construct rfl (fun _ => rfl) (by simp) (by simp) ?_
    intro p hp
    rw [← Option.some.inj hp, hc]
    rfl
  | assign n key value =>
    obtain ⟨c,hc,hs'⟩ := Option.bind_eq_some_iff.mp hstep
    obtain ⟨rfl,_⟩ := Prod.mk.inj (Option.some.inj hs')
    exact h.store hc rfl (fun _ => rfl) (by simp [Change.apply])
      (by simp)
  | clear n key =>
    obtain ⟨c,hc,hs'⟩ := Option.bind_eq_some_iff.mp hstep
    obtain ⟨rfl,_⟩ := Prod.mk.inj (Option.some.inj hs')
    exact h.store hc rfl (fun _ => rfl) (by simp [Change.apply]) (by simp)
  | contains n key =>
    obtain ⟨_,_,hs'⟩ := Option.bind_eq_some_iff.mp hstep
    obtain ⟨rfl,_⟩ := Prod.mk.inj (Option.some.inj hs')
    exact h.query rfl fun _ => rfl
  | get n key =>
    obtain ⟨_,_,hs'⟩ := Option.bind_eq_some_iff.mp hstep
    obtain ⟨rfl,_⟩ := Prod.mk.inj (Option.some.inj hs')
    exact h.query rfl fun _ => rfl
  | destroy n =>
    obtain ⟨c,hc,hs'⟩ := Option.bind_eq_some_iff.mp hstep
    split_ifs at hs' with hchildren
    obtain ⟨rfl,_⟩ := Prod.mk.inj (Option.some.inj hs')
    exact h.destroy hc (by simpa using hchildren)

end Built

theorem run_concat (history : List (Operation V)) (op : Operation V) :
    run (history ++ [op]) = (run history).bind fun s => (s.step op).map Prod.fst := by
  unfold run
  rw [List.foldlM_append]
  apply congrArg (Option.bind _)
  funext s
  simp

theorem Built.of_run {history : List (Operation V)} (hrun : run history = some s) :
    Built history s := by
  induction history using List.reverseRecOn generalizing s with
  | nil =>
    cases hrun
    exact .start
  | append_singleton history op ih =>
    rw [run_concat] at hrun
    obtain ⟨s₀,hs₀,hlast⟩ := Option.bind_eq_some_iff.mp hrun
    obtain ⟨⟨s',released⟩,hstep,rfl⟩ := Option.map_eq_some_iff.mp hlast
    exact (ih hs₀).step hstep

/-- A step adds the context that it constructs and removes the one that it destroys. -/
theorem isSome_node?_step {op : Operation V} {s' : Contexts V} {released : List V}
    (hstep : s.step op = some (s',released)) (n : ℕ) : (s'.node? n).isSome ↔
      ((s.node? n).isSome ∨ op.parent?.isSome ∧ n = s.nodes.length) ∧ op.destroyed? ≠ some n := by
  have hset {m : ℕ} {c : Context V} (hc : s.node? m = some c) (c' : Context V) :
      ((⟨s.nodes.set m (some c')⟩ : Contexts V).node? n).isSome ↔ (s.node? n).isSome := by
    rw [node?_set (lt_of_node? hc)]
    split_ifs with hn
    · rw [hn, hc]
      rfl
    · rfl
  have happend (c : Context V) : ((⟨s.nodes ++ [some c]⟩ : Contexts V).node? n).isSome ↔
      (s.node? n).isSome ∨ n = s.nodes.length := by
    rw [node?_append]
    split_ifs with hn <;> simp [hn]
  cases op with
  | construct factory =>
    obtain ⟨rfl,_⟩ := Prod.mk.inj (Option.some.inj hstep)
    simp [happend, Operation.parent?, Operation.destroyed?]
  | constructChild parent =>
    obtain ⟨c,hc,hs'⟩ := Option.bind_eq_some_iff.mp hstep
    obtain ⟨rfl,_⟩ := Prod.mk.inj (Option.some.inj hs')
    simp [happend, Operation.parent?, Operation.destroyed?]
  | assign m key value =>
    obtain ⟨c,hc,hs'⟩ := Option.bind_eq_some_iff.mp hstep
    obtain ⟨rfl,_⟩ := Prod.mk.inj (Option.some.inj hs')
    simp [hset hc, Operation.parent?, Operation.destroyed?]
  | clear m key =>
    obtain ⟨c,hc,hs'⟩ := Option.bind_eq_some_iff.mp hstep
    obtain ⟨rfl,_⟩ := Prod.mk.inj (Option.some.inj hs')
    simp [hset hc, Operation.parent?, Operation.destroyed?]
  | contains m key =>
    obtain ⟨_,_,hs'⟩ := Option.bind_eq_some_iff.mp hstep
    obtain ⟨rfl,_⟩ := Prod.mk.inj (Option.some.inj hs')
    simp [Operation.parent?, Operation.destroyed?]
  | get m key =>
    obtain ⟨_,_,hs'⟩ := Option.bind_eq_some_iff.mp hstep
    obtain ⟨rfl,_⟩ := Prod.mk.inj (Option.some.inj hs')
    simp [Operation.parent?, Operation.destroyed?]
  | destroy m =>
    obtain ⟨c,hc,hs'⟩ := Option.bind_eq_some_iff.mp hstep
    split_ifs at hs'
    obtain ⟨rfl,_⟩ := Prod.mk.inj (Option.some.inj hs')
    rw [node?_set (lt_of_node? hc)]
    split_ifs with hn
    · simp [hn, Operation.destroyed?]
    · simp [Ne.symm hn, Operation.parent?, Operation.destroyed?]

/-- Only a context that is there is destroyed. -/
theorem lt_of_step_destroyed? {op : Operation V} {s' : Contexts V} {released : List V}
    (hstep : s.step op = some (s',released)) {n : ℕ} (h : op.destroyed? = some n) :
    n < s.nodes.length := by
  cases op with
  | destroy m =>
    obtain rfl : m = n := Option.some.inj h
    obtain ⟨c,hc,_⟩ := Option.bind_eq_some_iff.mp hstep
    exact lt_of_node? hc
  | _ => cases h

theorem alive_concat (history : List (Operation V)) (op : Operation V) (n : ℕ) :
    Alive (history ++ [op]) n ↔
      (n < (parents history).length ∨ op.parent?.isSome ∧ n = (parents history).length) ∧
        n ∉ history.filterMap Operation.destroyed? ∧ op.destroyed? ≠ some n := by
  have hdestroyed : n ∈ (history ++ [op]).filterMap Operation.destroyed? ↔
      n ∈ history.filterMap Operation.destroyed? ∨ op.destroyed? = some n := by
    simp
  rw [Alive, hdestroyed, not_or, parents_concat, List.length_append]
  apply and_congr_left'
  cases op.parent? with
  | none => simp
  | some parent => simp [le_iff_lt_or_eq]

/-- The numbers that are taken are those of the contexts that are alive. -/
theorem alive_iff {history : List (Operation V)} (hrun : run history = some s) :
    (∀ n, (s.node? n).isSome ↔ Alive history n) ∧
      ∀ n ∈ history.filterMap Operation.destroyed?, n < s.nodes.length := by
  induction history using List.reverseRecOn generalizing s with
  | nil =>
    cases hrun
    simp [node?, Alive, parents]
  | append_singleton history op ih =>
    have hlength := (Built.of_run hrun).length
    rw [run_concat] at hrun
    obtain ⟨s₀,hs₀,hlast⟩ := Option.bind_eq_some_iff.mp hrun
    obtain ⟨⟨s',released⟩,hstep,rfl⟩ := Option.map_eq_some_iff.mp hlast
    obtain ⟨halive,hended⟩ := ih hs₀
    have hlength₀ := (Built.of_run hs₀).length
    have hle : s₀.nodes.length ≤ s'.nodes.length := by
      rw [hlength, hlength₀, parents_concat, List.length_append]
      exact Nat.le_add_right _ _
    constructor
    · intro n
      rw [isSome_node?_step hstep, halive, alive_concat, Alive, hlength₀, ← and_assoc]
      apply and_congr_left'
      constructor
      · rintro (⟨hlt,hnot⟩ | ⟨hparent,rfl⟩)
        · exact ⟨.inl hlt, hnot⟩
        · refine ⟨.inr ⟨hparent, rfl⟩, fun hmem => ?_⟩
          have hlt := hended _ hmem
          omega
      · rintro ⟨hlt | hnew,hnot⟩
        · exact .inl ⟨hlt, hnot⟩
        · exact .inr hnew
    · intro n hn
      rw [List.filterMap_append, List.mem_append] at hn
      rcases hn with hn | hn
      · exact (hended n hn).trans_le hle
      · obtain ⟨op',hop',hdestroyed⟩ := List.mem_filterMap.mp hn
        rw [List.mem_singleton.mp hop'] at hdestroyed
        exact (lt_of_step_destroyed? hstep hdestroyed).trans_le hle

end Contexts

end CucumberCpp
