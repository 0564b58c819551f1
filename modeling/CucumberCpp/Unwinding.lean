import Mathlib

/-! Code with a state and exceptions, for languages whose destructors also run
while an exception unwinds and may not throw themselves. -/
namespace Unwinding

variable {ε σ α β : Type}

/-- Code that works on a state and may leave by an exception. A run without
outcome is one that ends the program. -/
abbrev Code (ε σ α : Type) := ExceptT ε (StateT σ Option) α

/-- How the code leaves from `s`, and the state it leaves. -/
def exec (code : Code ε σ α) (s : σ) : Option (Except ε α × σ) := (ExceptT.run code).run s

/-- `std::terminate`. -/
def terminate : Code ε σ α := ExceptT.mk fun _ => none

/-- An exception that would leave `code` ends the program instead. -/
def noexcept (code : Code ε σ Unit) : Code ε σ Unit :=
  ExceptT.mk fun s => (exec code s).bind fun
    | (.ok (), s') => some (.ok (), s')
    | (.error _, _) => none

/-- The way in which `code` leaves, as a value. -/
def observe (code : Code ε σ Unit) : Code ε σ (Except ε Unit) :=
  ExceptT.mk fun s => (exec code s).map fun p => (.ok p.1, p.2)

def leave (left : Except ε Unit) : Code ε σ Unit := ExceptT.mk fun s => some (left, s)

/-- The use of an object that is destroyed at the end of it, before an
exception of the use goes on. -/
def held (use destroy : Code ε σ Unit) : Code ε σ Unit := do
  let left ← observe use
  noexcept destroy
  leave left

/-- The life of an object. When its constructor throws, there is nothing to destroy. -/
def lifetime (construct use destroy : Code ε σ Unit) : Code ε σ Unit := do
  construct
  held use destroy

variable {s s' : σ} {code : Code ε σ α} {construct use destroy : Code ε σ Unit}

@[simp] theorem exec_pure (a : α) (s : σ) :
    exec (pure a : Code ε σ α) s = some (.ok a, s) := rfl

@[simp] theorem exec_throw (e : ε) (s : σ) :
    exec (throw e : Code ε σ α) s = some (.error e, s) := rfl

@[simp] theorem exec_terminate (s : σ) : exec (terminate : Code ε σ α) s = none := rfl

@[simp] theorem exec_modify (f : σ → σ) (s : σ) :
    exec (modify f : Code ε σ PUnit) s = some (.ok ⟨⟩, f s) := rfl

@[simp] theorem exec_leave (left : Except ε Unit) (s : σ) :
    exec (leave left) s = some (left, s) := rfl

theorem exec_observe (s : σ) :
    exec (observe use) s = (exec use s).map fun p => (.ok p.1, p.2) := rfl

theorem exec_bind (code : Code ε σ α) (next : α → Code ε σ β) (s : σ) :
    exec (code >>= next) s = (exec code s).bind fun
      | (.ok a, s') => exec (next a) s'
      | (.error e, s') => some (.error e, s') := by
  change (exec code s).bind (fun p => ExceptT.bindCont next p.1 p.2) = _
  congr 1
  funext p
  rcases p with ⟨_ | a,s'⟩ <;> rfl

/-- A sequence ends as its first part when that throws, and else as its second part. -/
theorem exec_bind_eq_some_iff {next : α → Code ε σ β} {r : Except ε β} :
    exec (code >>= next) s = some (r, s') ↔
      (∃ e, r = .error e ∧ exec code s = some (.error e, s')) ∨
        ∃ a s₁, exec code s = some (.ok a, s₁) ∧ exec (next a) s₁ = some (r, s') := by
  rw [exec_bind, Option.bind_eq_some_iff]
  constructor
  · intro h
    obtain ⟨⟨e | a,s₁⟩,hcode,hnext⟩ := h
    · obtain ⟨rfl,rfl⟩ : .error e = r ∧ s₁ = s' := by simpa using hnext
      exact .inl ⟨e, rfl, hcode⟩
    · exact .inr ⟨a, s₁, hcode, hnext⟩
  · intro h
    rcases h with ⟨e,rfl,hcode⟩ | ⟨a,s₁,hcode,hnext⟩
    · exact ⟨(.error e, s'), hcode, rfl⟩
    · exact ⟨(.ok a, s₁), hcode, hnext⟩

theorem exec_noexcept_eq_some_iff {r : Except ε Unit} :
    exec (noexcept destroy) s = some (r, s') ↔
      r = .ok () ∧ exec destroy s = some (.ok (), s') := by
  change (exec destroy s).bind _ = _ ↔ _
  rw [Option.bind_eq_some_iff]
  constructor
  · intro h
    obtain ⟨⟨_ | _,s₁⟩,hdestroy,hleft⟩ := h
    · cases hleft
    · obtain ⟨rfl,rfl⟩ : .ok () = r ∧ s₁ = s' := by simpa using hleft
      exact ⟨rfl, hdestroy⟩
  · intro h
    obtain ⟨rfl,hdestroy⟩ := h
    exact ⟨(.ok (), s'), hdestroy, rfl⟩

/-- A held object is destroyed however its use ends, and does not hide that end. -/
theorem exec_held_eq_some_iff {r : Except ε Unit} :
    exec (held use destroy) s = some (r, s') ↔
      ∃ s₁, exec use s = some (r, s₁) ∧ exec destroy s₁ = some (.ok (), s') := by
  rw [held, exec_bind_eq_some_iff]
  simp only [exec_bind_eq_some_iff, exec_noexcept_eq_some_iff, exec_leave, exec_observe]
  constructor
  · intro h
    rcases h with ⟨e,_,hthrown⟩ | ⟨left,s₁,huse,hrest⟩
    · simp at hthrown
    · obtain ⟨huse',_⟩ : exec use s = some (left, s₁) ∧ True := by simpa using huse
      rcases hrest with ⟨_,_,hok,_⟩ | ⟨_,s₂,⟨_,hdestroy⟩,hleave⟩
      · cases hok
      · obtain ⟨rfl,rfl⟩ : left = r ∧ s₂ = s' := by simpa using hleave
        exact ⟨s₁, huse', hdestroy⟩
  · intro h
    obtain ⟨s₁,huse,hdestroy⟩ := h
    exact .inr ⟨r, s₁, by rw [huse]; rfl, .inr ⟨(), s', ⟨trivial, hdestroy⟩, rfl⟩⟩

end Unwinding
