import CucumberCpp.EventLog

/-! Programs within programs: code that takes as many names as it likes, code that reads what
a part of a program said, and programs whose events are part of those of a larger one. -/
namespace EventLog

variable {N E E' F α β : Type} {sup : Supply N}

def Entry.map (f : E → E') : Entry N E → Entry N E'
  | .drew name => .drew name
  | .said event => .said (f event)

@[simp] theorem drawn_map_drew_self (names : List N) :
    drawn (names.map .drew : List (Entry N E)) = names :=
  (drawn_map_drew id names).trans (List.map_id names)

@[simp] theorem events_map_drew_self (names : List N) :
    events (names.map .drew : List (Entry N E)) = [] :=
  events_map_drew id names

theorem drawn_map (f : E → E') (log : List (Entry N E)) :
    drawn (log.map (Entry.map f)) = drawn log := by
  induction log with
  | nil => rfl
  | cons e log ih =>
    cases e with
    | drew name => exact congrArg (name :: ·) ih
    | said event => exact ih

theorem events_map (f : E → E') (log : List (Entry N E)) :
    events (log.map (Entry.map f)) = (events log).map f := by
  induction log with
  | nil => rfl
  | cons e log ih =>
    cases e with
    | drew name => exact ih
    | said event => exact congrArg (f event :: ·) ih

/-- What code makes of the names to come: how many of them it takes, and its result. -/
abbrev Consumer (N α : Type) := (ℕ → N) → ℕ × α

def World.drawMany (w : World sup E) : ℕ → World sup E
  | 0 => w
  | k+1 => (w.drawMany k).draw

/-- Code outside the program that draws from the supply of the program. -/
def consume (f : Consumer N α) : Exec sup E F α := ExceptT.mk fun w =>
  let r := f fun i => sup.name (w.next+i)
  (.ok r.2, w.drawMany r.1)

/-- The names that are drawn from `next` on. -/
def namesFrom (sup : Supply N) (next i : ℕ) : N := sup.name (next+i)

theorem namesFrom_injective (next : ℕ) : Function.Injective (namesFrom sup next) := by
  intro i j h
  have hij := sup.distinct h
  omega

theorem World.next_drawMany (w : World sup E) (k : ℕ) : (w.drawMany k).next = w.next+k := by
  induction k with
  | zero => rfl
  | succ k ih =>
    change (w.drawMany k).next+1 = _
    omega

theorem World.log_drawMany (w : World sup E) (k : ℕ) : (w.drawMany k).log =
    w.log ++ (List.range k).map fun i => .drew (namesFrom sup w.next i) := by
  induction k with
  | zero => exact (List.append_nil _).symm
  | succ k ih =>
    change (w.drawMany k).log ++ [.drew (sup.name (w.drawMany k).next)] = _
    rw [ih, w.next_drawMany, List.range_succ, List.map_append, List.append_assoc]
    rfl

theorem emits_consume (f : Consumer N α) : Emits (consume f : Exec sup E F α) fun r s =>
    ∃ names : ℕ → N, Function.Injective names ∧ r = .ok (f names).2 ∧
      s = (List.range (f names).1).map fun i => .drew (names i) := by
  intro w
  exact ⟨_, w.log_drawMany _, namesFrom sup w.next, namesFrom_injective w.next, rfl, rfl⟩

/-- A part of a program together with the events it says, for those who listen to it. -/
def listen (m : Exec sup E F α) : Exec sup E F (α × List E) := ExceptT.mk fun w =>
  let p := run m w
  (p.1.map (·, events (p.2.log.drop w.log.length)), p.2)

theorem Emits.listen {m : Exec sup E F α} {P : Except F α → List (Entry N E) → Prop}
    (hm : Emits m P) : Emits (listen m) fun r s => ∃ r', P r' s ∧ r = r'.map (·, events s) := by
  intro w
  obtain ⟨s,hs,hP⟩ := hm w
  refine ⟨s, hs, _, hP, ?_⟩
  change (run m w).1.map (·, events ((run m w).2.log.drop w.log.length)) = _
  rw [hs, List.drop_left]

/-- The program extends the log, whatever it does. -/
def Appends (m : Exec sup E F α) : Prop := Emits m fun _ _ => True

theorem Emits.appends {m : Exec sup E F α} {P : Except F α → List (Entry N E) → Prop}
    (hm : Emits m P) : Appends m :=
  hm.mono fun _ _ _ => trivial

/-- The world in which nothing was said while `next` names were drawn. -/
def World.silent (sup : Supply N) (E : Type) (next : ℕ) : World sup E where
  next := next
  log := (List.range next).map fun i => .drew (sup.name i)
  supplied := drawn_map_drew sup.name (List.range next)

/-- A program with events of one kind in a program with events of another. -/
def relabel (f : E → E') (m : Exec sup E F α) (hm : Appends m) : Exec sup E' F α :=
  ExceptT.mk fun w =>
    let p := run m (World.silent sup E w.next)
    (p.1,
      { next := p.2.next
        log := w.log ++ (p.2.log.drop w.next).map (Entry.map f)
        supplied := by
          obtain ⟨s,hs,_⟩ := hm (World.silent sup E w.next)
          have hlength : (World.silent sup E w.next).log.length = w.next := by
            simp [World.silent]
          have hdrop : p.2.log.drop w.next = s := by
            rw [hs, List.drop_left' hlength]
          have hsupplied := p.2.supplied
          rw [hs, drawn_append, (World.silent sup E w.next).supplied] at hsupplied
          rw [drawn_append, w.supplied, hdrop, drawn_map]
          exact hsupplied })

theorem Emits.relabel {f : E → E'} {m : Exec sup E F α} {hm : Appends m}
    {P : Except F α → List (Entry N E) → Prop} (h : Emits m P) :
    Emits (relabel f m hm) fun r s => ∃ s', P r s' ∧ s = s'.map (Entry.map f) := by
  intro w
  obtain ⟨s,hs,hP⟩ := h (World.silent sup E w.next)
  have hlength : (World.silent sup E w.next).log.length = w.next := by simp [World.silent]
  refine ⟨s.map (Entry.map f), ?_, s, hP, rfl⟩
  change w.log ++ ((run m (World.silent sup E w.next)).2.log.drop w.next).map _ = _
  rw [hs, List.drop_left' hlength]

/-- Saying several things one after the other. -/
def sayAll : List E → Exec sup E F Unit
  | [] => pure ()
  | e :: es => do
    say e
    sayAll es

theorem emits_sayAll (es : List E) : Emits (sayAll es : Exec sup E F Unit) fun r s =>
    r = .ok () ∧ s = es.map .said := by
  induction es with
  | nil => exact emits_pure ⟨rfl, rfl⟩
  | cons e es ih =>
    apply emits_say_bind
    apply ih.mono
    rintro r s ⟨rfl,rfl⟩
    exact ⟨rfl, rfl⟩

end EventLog
