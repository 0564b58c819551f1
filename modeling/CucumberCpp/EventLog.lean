import Mathlib

/-! Programs that draw fresh names, write a log and may fail, with the rules
by which the log of a program is put together from the logs of its parts. -/
namespace EventLog

/-- One line of a log: a name taken from the supply, or an event. -/
inductive Entry (N E : Type) where
  | drew (name : N)
  | said (event : E)
  deriving DecidableEq, Repr

variable {N E F α β : Type}

def Entry.name? : Entry N E → Option N
  | .drew name => some name
  | .said _ => none

def Entry.event? : Entry N E → Option E
  | .drew _ => none
  | .said event => some event

/-- The names drawn while the log was written, in order. -/
def drawn (log : List (Entry N E)) : List N := log.filterMap Entry.name?

/-- The events of the log, in order. -/
def events (log : List (Entry N E)) : List E := log.filterMap Entry.event?

@[simp] theorem drawn_nil : drawn ([] : List (Entry N E)) = [] := rfl

@[simp] theorem drawn_cons_drew (n : N) (l : List (Entry N E)) :
    drawn (.drew n :: l) = n :: drawn l := rfl

@[simp] theorem drawn_cons_said (e : E) (l : List (Entry N E)) :
    drawn (.said e :: l) = drawn l := rfl

@[simp] theorem drawn_append (l l' : List (Entry N E)) : drawn (l ++ l') = drawn l ++ drawn l' :=
  List.filterMap_append

@[simp] theorem events_nil : events ([] : List (Entry N E)) = [] := rfl

@[simp] theorem events_cons_drew (n : N) (l : List (Entry N E)) :
    events (.drew n :: l) = events l := rfl

@[simp] theorem events_cons_said (e : E) (l : List (Entry N E)) :
    events (.said e :: l) = e :: events l := rfl

@[simp] theorem events_append (l l' : List (Entry N E)) :
    events (l ++ l') = events l ++ events l' :=
  List.filterMap_append

@[simp] theorem drawn_map_said (f : α → E) (xs : List α) :
    drawn (xs.map fun a => (.said (f a) : Entry N E)) = [] := by
  induction xs with
  | nil => rfl
  | cons a xs ih => exact ih

@[simp] theorem drawn_map_drew (f : α → N) (xs : List α) :
    drawn (xs.map fun a => (.drew (f a) : Entry N E)) = xs.map f := by
  induction xs with
  | nil => rfl
  | cons a xs ih => exact congrArg (f a :: ·) ih

@[simp] theorem events_map_said (f : α → E) (xs : List α) :
    events (xs.map fun a => (.said (f a) : Entry N E)) = xs.map f := by
  induction xs with
  | nil => rfl
  | cons a xs ih => exact congrArg (f a :: ·) ih

@[simp] theorem events_map_drew (f : α → N) (xs : List α) :
    events (xs.map fun a => (.drew (f a) : Entry N E)) = [] := by
  induction xs with
  | nil => rfl
  | cons a xs ih => exact ih

theorem drawn_flatMap (log : α → List (Entry N E)) (xs : List α) :
    drawn (xs.flatMap log) = xs.flatMap fun x => drawn (log x) :=
  List.filterMap_flatMap

theorem events_flatMap (log : α → List (Entry N E)) (xs : List α) :
    events (xs.flatMap log) = xs.flatMap fun x => events (log x) :=
  List.filterMap_flatMap

/-- Names that records hold in order are drawn in that order if each record draws its own. -/
theorem sublist_drawn_flatMap {log : α → List (Entry N E)} {names : α → List N} (xs : List α)
    (h : ∀ x, (names x).Sublist (drawn (log x))) :
    (xs.flatMap names).Sublist (drawn (xs.flatMap log)) := by
  induction xs with
  | nil => exact .slnil
  | cons x xs ih =>
    rw [List.flatMap_cons, List.flatMap_cons, drawn_append]
    exact (h x).append ih

/-- An endless supply of pairwise distinct names. -/
structure Supply (N : Type) where
  name : ℕ → N
  distinct : Function.Injective name

/-- What a program has left behind: how many names it has drawn, and its log.
The names in the log are exactly the first `next` names of the supply. -/
structure World (sup : Supply N) (E : Type) where
  next : ℕ
  log : List (Entry N E)
  supplied : drawn log = (List.range next).map sup.name

variable {sup : Supply N}

def World.start (sup : Supply N) (E : Type) : World sup E := ⟨0, [], rfl⟩

def World.draw (w : World sup E) : World sup E where
  next := w.next+1
  log := w.log ++ [.drew (sup.name w.next)]
  supplied := by simp [w.supplied, List.range_succ]

def World.say (w : World sup E) (e : E) : World sup E where
  next := w.next
  log := w.log ++ [.said e]
  supplied := by simp [w.supplied]

/-- No name is handed out twice. -/
theorem World.drawn_nodup (w : World sup E) : (drawn w.log).Nodup := by
  rw [w.supplied]
  exact List.nodup_range.map sup.distinct

/-- Programs over a log: they may fail with a fault, and keep the log when they do. -/
abbrev Exec (sup : Supply N) (E F α : Type) := ExceptT F (StateM (World sup E)) α

def run (m : Exec sup E F α) (w : World sup E) : Except F α × World sup E :=
  (ExceptT.run m).run w

def draw : Exec sup E F N := ExceptT.mk fun w => (.ok (sup.name w.next), w.draw)

def say (e : E) : Exec sup E F Unit := ExceptT.mk fun w => (.ok (), w.say e)

/-- A computation without effects, as a program. -/
def fromExcept (r : Except F α) : Exec sup E F α := ExceptT.mk fun w => (r, w)

theorem run_bind (m : Exec sup E F α) (f : α → Exec sup E F β) (w : World sup E) :
    run (m >>= f) w = match run m w with
      | (.ok a, w') => run (f a) w'
      | (.error e, w') => (.error e, w') := by
  change ExceptT.bindCont f (run m w).1 (run m w).2 = _
  generalize run m w = p
  rcases p with ⟨_ | a, w'⟩ <;> rfl

theorem run_tryCatch (m : Exec sup E F α) (h : F → Exec sup E F α) (w : World sup E) :
    run (tryCatch m h) w = match run m w with
      | (.ok a, w') => (.ok a, w')
      | (.error e, w') => run (h e) w' := by
  change (match (run m w).1 with | .ok a => pure (.ok a) | .error e => h e :
    StateM (World sup E) (Except F α)) (run m w).2 = _
  generalize run m w = p
  rcases p with ⟨_ | a, w'⟩ <;> rfl

/-- From every world, the program appends to the log a segment related to
its result by `Q`. -/
def Emits (m : Exec sup E F α) (Q : Except F α → List (Entry N E) → Prop) : Prop :=
  ∀ w, ∃ seg, (run m w).2.log = w.log ++ seg ∧ Q (run m w).1 seg

/-- Every element of the list is related by `R` to the elements before it. -/
def Threaded {T : Type} (R : List T → T → Prop) (ts : List T) : Prop :=
  ∀ pre t post, ts = pre ++ t :: post → R pre t

section Threaded

variable {T : Type} {R : List T → T → Prop} {ts : List T}

theorem threaded_nil : Threaded R [] := by
  intro pre t post h
  simp at h

theorem Threaded.concat (h : Threaded R ts) {t : T} (ht : R ts t) : Threaded R (ts ++ [t]) := by
  intro pre t' post heq
  rcases List.eq_nil_or_concat post with rfl | ⟨post',last,rfl⟩
  · obtain ⟨rfl,hlast⟩ := List.append_inj' heq rfl
    rw [List.singleton_inj] at hlast
    exact hlast ▸ ht
  · rw [List.concat_eq_append, ← List.cons_append, ← List.append_assoc] at heq
    obtain ⟨hts,_⟩ := List.append_inj' heq rfl
    exact h pre t' post' hts

theorem Threaded.take {ts' : List T} (h : Threaded R (ts ++ ts')) : Threaded R ts := by
  intro pre t post hts
  exact h pre t (post ++ ts') (by rw [hts]; simp)

theorem Threaded.mem (h : Threaded R ts) {t : T} (ht : t ∈ ts) :
    ∃ pre post, ts = pre ++ t :: post ∧ R pre t := by
  obtain ⟨pre,post,hts⟩ := List.append_of_mem ht
  exact ⟨pre, post, hts, h pre t post hts⟩

theorem Threaded.getElem? (h : Threaded R ts) {i : ℕ} {t : T} (ht : ts[i]? = some t) :
    R (ts.take i) t := by
  obtain ⟨hi,rfl⟩ := List.getElem?_eq_some_iff.mp ht
  apply h (ts.take i) ts[i] (ts.drop (i+1))
  rw [← List.drop_eq_getElem_cons hi, List.take_append_drop]

/-- What every element has in common with all before it holds pairwise. -/
theorem Threaded.pairwise {S : T → T → Prop} (h : Threaded (fun pre t => ∀ s ∈ pre, S s t) ts) :
    ts.Pairwise S := by
  induction ts using List.reverseRecOn with
  | nil => exact .nil
  | append_singleton ts t ih =>
    rw [List.pairwise_append]
    refine ⟨ih h.take, List.pairwise_singleton _ _, fun s hs t' ht' => ?_⟩
    rw [List.mem_singleton.mp ht']
    exact h ts t [] rfl s hs

theorem Threaded.mono {R' : List T → T → Prop} (h : Threaded R ts)
    (hR : ∀ pre t post, ts = pre ++ t :: post → R pre t → R' pre t) : Threaded R' ts := by
  intro pre t post hts
  exact hR pre t post hts (h pre t post hts)

end Threaded

section Rules

variable {m : Exec sup E F α} {f : α → Exec sup E F β}
  {P : Except F α → List (Entry N E) → Prop} {Q : Except F β → List (Entry N E) → Prop}

theorem Emits.mono {P' : Except F α → List (Entry N E) → Prop} (hm : Emits m P)
    (h : ∀ r s, P r s → P' r s) : Emits m P' := by
  intro w
  obtain ⟨seg,hlog,hP⟩ := hm w
  exact ⟨seg, hlog, h _ _ hP⟩

theorem emits_pure {b : β} (h : Q (.ok b) []) : Emits (pure b : Exec sup E F β) Q := by
  intro w
  exact ⟨[], (List.append_nil _).symm, h⟩

theorem emits_throw {e : F} (h : Q (.error e) []) : Emits (throw e : Exec sup E F β) Q := by
  intro w
  exact ⟨[], (List.append_nil _).symm, h⟩

theorem emits_fromExcept {r : Except F β} (h : Q r []) :
    Emits (fromExcept r : Exec sup E F β) Q := by
  intro w
  exact ⟨[], (List.append_nil _).symm, h⟩

theorem emits_fromExcept_bind {r : Except F α} {a : α} (hr : r = .ok a) (h : Emits (f a) Q) :
    Emits (fromExcept r >>= f) Q := by
  subst hr
  exact h

/-- Sequencing: the log of the whole is the log of the first part followed by
that of the second, or stops with the first part when that one fails. -/
theorem Emits.bind (hm : Emits m P)
    (hok : ∀ a s, P (.ok a) s → Emits (f a) fun r t => Q r (s ++ t))
    (herr : ∀ e s, P (.error e) s → Q (.error e) s) : Emits (m >>= f) Q := by
  intro w
  obtain ⟨s,hs,hP⟩ := hm w
  rw [run_bind]
  generalize run m w = p at hs hP
  rcases p with ⟨e | a, w'⟩
  · exact ⟨s, hs, herr e s hP⟩
  · obtain ⟨t,ht,hQ⟩ := hok a s hP w'
    refine ⟨s ++ t, ?_, hQ⟩
    rw [ht, hs, List.append_assoc]

/-- A part that cannot fail always lets the rest follow. -/
theorem Emits.bind_ok (hm : Emits m P) (htotal : ∀ e s, ¬P (.error e) s)
    (hok : ∀ a s, P (.ok a) s → Emits (f a) fun r t => Q r (s ++ t)) : Emits (m >>= f) Q :=
  hm.bind hok fun e s h => absurd h (htotal e s)

/-- A pure step at the end acts on the outcome and leaves the log alone. -/
theorem Emits.bind_pure {g : α → β} (hm : Emits m P) (h : ∀ r s, P r s → Q (r.map g) s) :
    Emits (m >>= fun a => pure (g a)) Q := by
  apply hm.bind
  · intro a s ha
    apply emits_pure
    rw [List.append_nil]
    exact h (.ok a) s ha
  · intro e s he
    exact h (.error e) s he

theorem emits_say_bind {e : E} {f : Unit → Exec sup E F β}
    (h : Emits (f ()) fun r t => Q r (.said e :: t)) : Emits (say e >>= f) Q := by
  intro w
  obtain ⟨t,ht,hQ⟩ := h (w.say e)
  refine ⟨.said e :: t, ?_, hQ⟩
  change (run (f ()) (w.say e)).2.log = _
  rw [ht]
  exact List.append_assoc w.log [.said e] t

theorem emits_draw_bind {f : N → Exec sup E F β}
    (h : ∀ n, Emits (f n) fun r t => Q r (.drew n :: t)) : Emits (draw >>= f) Q := by
  intro w
  obtain ⟨t,ht,hQ⟩ := h (sup.name w.next) w.draw
  refine ⟨.drew (sup.name w.next) :: t, ?_, hQ⟩
  change (run (f (sup.name w.next)) w.draw).2.log = _
  rw [ht]
  exact List.append_assoc w.log [.drew (sup.name w.next)] t

/-- A handler runs after the part that failed, with the log kept. -/
theorem Emits.tryCatch {h : F → Exec sup E F α}
    {P' : Except F α → List (Entry N E) → Prop} (hm : Emits m P)
    (hok : ∀ a s, P (.ok a) s → P' (.ok a) s)
    (herr : ∀ e s, P (.error e) s → Emits (h e) fun r t => P' r (s ++ t)) :
    Emits (tryCatch m h) P' := by
  intro w
  obtain ⟨s,hs,hP⟩ := hm w
  rw [run_tryCatch]
  generalize run m w = p at hs hP
  rcases p with ⟨e | a, w'⟩
  · obtain ⟨t,ht,hP'⟩ := herr e s hP w'
    refine ⟨s ++ t, ?_, hP'⟩
    rw [ht, hs, List.append_assoc]
  · exact ⟨s, hs, hok a s hP⟩

/-- A loop whose rounds leave records: `I` ties the accumulator to the records
so far, and each round extends the log by its record's part. -/
theorem emits_foldlM_of_invariant {T : Type} {g : β → α → Exec sup E F β} (key : T → α)
    (log : T → List (Entry N E)) {R : List T → T → Prop} {I : List T → β → Prop}
    (xs : List α) (b : β) (hb : I [] b)
    (hstep : ∀ pre b a, a ∈ xs → I pre b → Emits (g b a) fun r s =>
      ∃ t b', key t = a ∧ R pre t ∧ I (pre ++ [t]) b' ∧ r = .ok b' ∧ s = log t) :
    Emits (xs.foldlM g b) fun r s =>
      ∃ ts b', ts.map key = xs ∧ Threaded R ts ∧ I ts b' ∧ r = .ok b' ∧ s = ts.flatMap log := by
  have hrest : ∀ post pre b, xs = pre.map key ++ post → Threaded R pre → I pre b →
      Emits (post.foldlM g b) fun r s =>
        ∃ ts b', (pre ++ ts).map key = xs ∧ Threaded R (pre ++ ts) ∧ I (pre ++ ts) b' ∧
          r = .ok b' ∧ s = ts.flatMap log := by
    intro post
    induction post with
    | nil =>
      intro pre b hxs hpre hI
      apply emits_pure
      exact ⟨[], b, by simp [hxs], by simpa using hpre, by simpa using hI, rfl, rfl⟩
    | cons a post ih =>
      intro pre b hxs hpre hI
      rw [List.foldlM_cons]
      have ha : a ∈ xs := by simp [hxs]
      apply (hstep pre b a ha hI).bind
      · intro b' s h
        obtain ⟨t,b'',hkey,hR,hI',hb,hs⟩ := h
        cases hb
        apply (ih (pre ++ [t]) b' (by simp [hxs, hkey]) (hpre.concat hR) hI').mono
        intro r s' h
        obtain ⟨ts,b'',hmap,hthread,hI'',hr,hs'⟩ := h
        simp only [List.append_assoc, List.singleton_append] at hmap hthread hI''
        exact ⟨t :: ts, b'', hmap, hthread, hI'', hr, by simp [hs, hs']⟩
      · intro e s h
        obtain ⟨_,_,_,_,_,he,_⟩ := h
        cases he
  exact (hrest xs [] b rfl threaded_nil hb).mono fun r s h => by simpa using h

/-- The accumulator may also be a function of the records so far. -/
theorem emits_foldlM {T : Type} {g : β → α → Exec sup E F β} (state : List T → β) {key : T → α}
    {log : T → List (Entry N E)} {R : List T → T → Prop} (xs : List α)
    (hstep : ∀ pre a, a ∈ xs → Emits (g (state pre) a) fun r s =>
      ∃ t, key t = a ∧ R pre t ∧ r = .ok (state (pre ++ [t])) ∧ s = log t) :
    Emits (xs.foldlM g (state [])) fun r s =>
      ∃ ts, ts.map key = xs ∧ Threaded R ts ∧ r = .ok (state ts) ∧ s = ts.flatMap log := by
  have hround (pre : List T) (b : β) (a : α) (ha : a ∈ xs) (hb : b = state pre) :
      Emits (g b a) fun r s => ∃ t b', key t = a ∧ R pre t ∧ b' = state (pre ++ [t]) ∧
        r = .ok b' ∧ s = log t := by
    subst hb
    apply (hstep pre a ha).mono
    intro r s h
    obtain ⟨t,hkey,hR,hr,hs⟩ := h
    exact ⟨t, _, hkey, hR, rfl, hr, hs⟩
  apply (emits_foldlM_of_invariant key log (I := fun pre b => b = state pre) xs _ rfl hround).mono
  intro r s h
  obtain ⟨ts,b,hmap,hthread,rfl,hr,hs⟩ := h
  exact ⟨ts, hmap, hthread, hr, hs⟩

end Rules

/-- What a loop collecting results does: `ts` records its rounds in order, and
the round that fails, if any, is the last one. -/
inductive Collected {T : Type} (R : α → T → Prop) (res : T → Except F β) :
    List α → List T → Except F (List β) → Prop where
  | nil : Collected R res [] [] (.ok [])
  | cons {x xs t ts b r} (round : R x t) (value : res t = .ok b)
      (rest : Collected R res xs ts r) : Collected R res (x :: xs) (t :: ts) (r.map (b :: ·))
  | abort {x xs t e} (round : R x t) (fault : res t = .error e) :
      Collected R res (x :: xs) [t] (.error e)

theorem emits_mapM' {T : Type} {R : α → T → Prop} {res : T → Except F β}
    {log : T → List (Entry N E)} {f : α → Exec sup E F β} (xs : List α)
    (hf : ∀ x ∈ xs, Emits (f x) fun r s => ∃ t, R x t ∧ r = res t ∧ s = log t) :
    Emits (xs.mapM' f) fun r s => ∃ ts, Collected R res xs ts r ∧ s = ts.flatMap log := by
  induction xs with
  | nil => exact emits_pure ⟨[], .nil, rfl⟩
  | cons x xs ih =>
    have hrest := ih fun y hy => hf y (List.mem_cons_of_mem x hy)
    rw [List.mapM'_cons]
    apply (hf x List.mem_cons_self).bind
    · intro b s h
      obtain ⟨t,hR,hb,rfl⟩ := h
      apply hrest.bind
      · intro bs s' h
        obtain ⟨ts,hts,rfl⟩ := h
        exact emits_pure ⟨t :: ts, hts.cons hR hb.symm, by simp⟩
      · intro e s' h
        obtain ⟨ts,hts,rfl⟩ := h
        exact ⟨t :: ts, hts.cons hR hb.symm, by simp⟩
    · intro e s h
      obtain ⟨t,hR,he,rfl⟩ := h
      exact ⟨[t], .abort hR he.symm, by simp⟩

section Collected

variable {T : Type} {R : α → T → Prop} {res : T → Except F β} {xs : List α} {ts : List T}
  {r : Except F (List β)}

theorem Collected.mem (h : Collected R res xs ts r) {t : T} (ht : t ∈ ts) : ∃ x ∈ xs, R x t := by
  induction h with
  | nil => cases ht
  | @cons x xs t' ts b r round value rest ih =>
    rcases List.mem_cons.mp ht with rfl | ht
    · exact ⟨x, List.mem_cons_self, round⟩
    · obtain ⟨y,hy,hR⟩ := ih ht
      exact ⟨y, List.mem_cons_of_mem x hy, hR⟩
  | @abort x xs t' e round fault =>
    obtain rfl := List.mem_singleton.mp ht
    exact ⟨x, List.mem_cons_self, round⟩

theorem Collected.mono {R' : α → T → Prop} (h : Collected R res xs ts r)
    (hR : ∀ x t, R x t → R' x t) : Collected R' res xs ts r := by
  induction h with
  | nil => exact .nil
  | cons round value rest ih => exact .cons (hR _ _ round) value ih
  | abort round fault => exact .abort (hR _ _ round) fault

/-- The loop fails exactly when one of its rounds does. -/
theorem Collected.error_iff (h : Collected R res xs ts r) :
    (∃ e, r = .error e) ↔ ∃ t ∈ ts, ∃ e, res t = .error e := by
  induction h with
  | nil => simp
  | @cons x xs t ts b r round value rest ih =>
    have hmap : (∃ e, r.map (b :: ·) = .error e) ↔ ∃ e, r = .error e := by
      cases r <;> simp [Except.map]
    rw [hmap, ih]
    simp [value]
  | @abort x xs t e round fault => simp [fault]

/-- A loop that gets to its end has collected the values of its rounds. -/
theorem Collected.values {bs : List β} (h : Collected R res xs ts (.ok bs)) :
    List.Forall₂ R xs ts ∧ List.Forall₂ (fun t b => res t = .ok b) ts bs := by
  generalize hr : (Except.ok bs : Except F (List β)) = r at h
  induction h generalizing bs with
  | nil =>
    cases hr
    exact ⟨.nil, .nil⟩
  | @cons x xs t ts b r round value rest ih =>
    cases r with
    | error e => cases hr
    | ok bs' =>
      cases hr
      obtain ⟨hall,hvalues⟩ := ih rfl
      exact ⟨.cons round hall, .cons value hvalues⟩
  | abort round fault => cases hr

/-- The loop gets to all its rounds exactly when those before the last one do not fail. -/
theorem Collected.length_eq_iff {Q : ℕ → α → Prop} (h : Collected R res xs ts r)
    (hQ : ∀ i x t, xs[i]? = some x → ts[i]? = some t → R x t →
      ((∃ b, res t = .ok b) ↔ Q i x)) :
    ts.length = xs.length ↔ ∀ i x, xs[i]? = some x → i+1 < xs.length → Q i x := by
  induction h generalizing Q with
  | nil => simp
  | @cons x xs t ts b r round value rest ih =>
    have hhead := (hQ 0 x t rfl rfl round).mp ⟨b, value⟩
    have htail := @ih (fun i => Q (i+1)) fun i y t' hy ht' => hQ (i+1) y t' hy ht'
    rw [List.length_cons, List.length_cons, Nat.add_right_cancel_iff, htail]
    constructor
    · intro hall i y hy hlt
      cases i with
      | zero => exact Option.some_inj.mp hy ▸ hhead
      | succ i => exact hall i y hy (by omega)
    · intro hall i y hy hlt
      exact hall (i+1) y hy (by omega)
  | @abort x xs t e round fault =>
    have hhead : ¬Q 0 x := by
      rw [← hQ 0 x t rfl rfl round]
      simp [fault]
    simp only [List.length_cons, List.length_nil]
    constructor
    · intro hlength i y _ hlt
      omega
    · intro hall
      by_contra hne
      -- a round that fails with others to come is one before the last
      exact hhead (hall 0 x rfl (by omega))

end Collected

/-- A loop none of whose rounds fails collects a value for each of them. -/
theorem Collected.total {T : Type} {R : α → T → Prop} {val : T → β} {xs : List α} {ts : List T}
    {r : Except F (List β)} (h : Collected R (fun t => .ok (val t)) xs ts r) :
    List.Forall₂ R xs ts ∧ r = .ok (ts.map val) := by
  induction h with
  | nil => exact ⟨.nil, rfl⟩
  | cons round value rest ih =>
    obtain ⟨hall,hr⟩ := ih
    cases value
    exact ⟨.cons round hall, by rw [hr]; rfl⟩
  | abort round fault => cases fault

/-- The names drawn in a segment are the next names of the supply. -/
theorem drawn_segment (m : Exec sup E F α) (w : World sup E) (seg : List (Entry N E))
    (h : (run m w).2.log = w.log ++ seg) :
    drawn seg = (List.range' w.next (drawn seg).length).map sup.name := by
  have hall := (run m w).2.supplied
  rw [h, drawn_append, w.supplied] at hall
  have hlen := congrArg List.length hall
  simp only [List.length_append, List.length_map, List.length_range] at hlen
  rw [← hlen] at hall
  simp only [List.range_eq_range', ← List.range'_append_1, List.map_append, zero_add] at hall
  exact List.append_cancel_left hall

theorem drawn_segment_nodup (m : Exec sup E F α) (w : World sup E) (seg : List (Entry N E))
    (h : (run m w).2.log = w.log ++ seg) : (drawn seg).Nodup := by
  have hall := (run m w).2.drawn_nodup
  rw [h, drawn_append] at hall
  exact hall.of_append_right

end EventLog
