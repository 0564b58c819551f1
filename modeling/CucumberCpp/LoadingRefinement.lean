import CucumberCpp.Loading

/-! What loading feature files leaves behind, file by file, and which pickles it yields. -/
namespace CucumberCpp

open EventLog

variable {idGenerator : IdGenerator}

namespace FileRun

def log (f : FileRun) : List (Entry String ApiEvent) :=
  .said (.broadcast (.source f.source)) :: (f.parsed.map .drew ++ match f.outcome with
    | .ok (ast,pickles) => .said (.broadcast (.gherkinDocument ast)) ::
        (f.compiled.map .drew ++ pickles.map fun pickle => .said (.broadcast (.pickle pickle)))
    | .error failure => failure.errors.map fun error =>
        .said (.broadcast (.parseError (Api.parseErrorMessage f.source.uri error))))

@[simp] theorem events_log (f : FileRun) : events f.log = f.messages.map .broadcast := by
  unfold log messages
  cases f.outcome with
  | ok loaded => simp [Function.comp_def]
  | error failure => simp [Function.comp_def]

theorem drawn_log {f : FileRun} {ast : GherkinDocument} {pickles : List ListedPickle}
    (h : f.outcome = .ok (ast,pickles)) : drawn f.log = f.parsed ++ f.compiled := by
  simp [log, h]

end FileRun

/-- The messages among the events of a log, in order. -/
def messages (log : List (Entry String ApiEvent)) : List Message :=
  (events log).filterMap ApiEvent.message?

/-- The user code that was called while the log was written, in order. -/
def userCalls (log : List (Entry String ApiEvent)) : List Invocation :=
  (events log).filterMap ApiEvent.invocation?

@[simp] theorem messages_append (l l' : List (Entry String ApiEvent)) :
    messages (l ++ l') = messages l ++ messages l' := by
  simp [messages]

@[simp] theorem userCalls_append (l l' : List (Entry String ApiEvent)) :
    userCalls (l ++ l') = userCalls l ++ userCalls l' := by
  simp [userCalls]

theorem messages_files (files : List FileRun) :
    messages (files.flatMap FileRun.log) = files.flatMap FileRun.messages := by
  rw [messages, events_flatMap, List.filterMap_flatMap]
  refine List.flatMap_congr fun f _ => ?_
  rw [f.events_log, List.filterMap_map]
  exact List.filterMap_some

theorem userCalls_files (files : List FileRun) : userCalls (files.flatMap FileRun.log) = [] := by
  rw [userCalls, events_flatMap, List.filterMap_flatMap]
  refine List.flatMap_eq_nil_iff.mpr fun f _ => ?_
  rw [f.events_log, List.filterMap_map]
  exact List.filterMap_none f.messages

namespace Api

variable (gherkin : Gherkin)

theorem emits_collectPath (pickleSources : List LoadedPickle) (uri : String) :
    Emits (collectPath gherkin pickleSources uri : ApiRun idGenerator _) fun r s =>
      (∃ e, gherkin.slurp uri = .error e ∧ r = .error e ∧ s = []) ∨
        ∃ f, gherkin.FileRule f ∧ f.source.uri = uri ∧ r = .ok (pickleSources ++ f.pickles) ∧
          s = f.log := by
  unfold collectPath
  cases hread : gherkin.slurp uri with
  | error e => exact emits_throw (.inl ⟨e, rfl, rfl, rfl⟩)
  | ok data =>
    apply emits_fromExcept_bind rfl
    apply emits_say_bind
    apply (emits_consume _).bind_ok
    · rintro e s ⟨_,_,h,_⟩
      cases h
    rintro parsed s ⟨names,hnames,hparsed,rfl⟩
    obtain rfl := Except.ok.inj hparsed
    cases hparse : (gherkin.parse uri data names).2 with
    | error failure =>
      let f : FileRun :=
        { source := { uri := uri, data := data }
          parsed := (List.range (gherkin.parse uri data names).1).map names
          outcome := .error failure }
      have hrule : gherkin.FileRule f := ⟨hread, ⟨names, hnames, rfl, hparse⟩, by simp [f]⟩
      apply (emits_sayAll _).bind_ok
      · rintro e s ⟨h,_⟩
        cases h
      rintro _ s ⟨_,rfl⟩
      refine emits_pure (.inr ⟨f, hrule, rfl, by simp [f, FileRun.pickles], ?_⟩)
      simp [f, FileRun.log, Function.comp_def]
    | ok ast =>
      apply emits_say_bind
      apply (emits_consume _).bind_ok
      · rintro e s ⟨_,_,h,_⟩
        cases h
      rintro pickles s ⟨names',hnames',hcompiled,rfl⟩
      obtain rfl := Except.ok.inj hcompiled
      let f : FileRun :=
        { source := { uri := uri, data := data }
          parsed := (List.range (gherkin.parse uri data names).1).map names
          compiled := (List.range (gherkin.compile ast uri names').1).map names'
          outcome := .ok (ast,(gherkin.compile ast uri names').2) }
      have hrule : gherkin.FileRule f := by
        refine ⟨hread, ⟨names, hnames, rfl, hparse⟩, fun ast' pickles' h => ?_⟩
        obtain ⟨rfl,rfl⟩ := Prod.mk.inj (Except.ok.inj h)
        exact ⟨names', hnames', rfl, rfl⟩
      apply (emits_sayAll _).bind_ok
      · rintro e s ⟨h,_⟩
        cases h
      rintro _ s ⟨_,rfl⟩
      refine emits_pure (.inr ⟨f, hrule, rfl, by simp [f, FileRun.pickles], ?_⟩)
      simp [f, FileRun.log, Function.comp_def]

/-- The files that were loaded until one could not be read. -/
theorem emits_collectPickles (paths : List String) :
    Emits (collectPickles gherkin paths : ApiRun idGenerator _) fun r s =>
      ∃ files : List FileRun, (∀ f ∈ files, gherkin.FileRule f) ∧ s = files.flatMap FileRun.log ∧
        (files.map (·.source.uri) = paths ∧ r = .ok (files.flatMap FileRun.pickles) ∨
          ∃ uri rest e, paths = files.map (·.source.uri) ++ uri :: rest ∧
            gherkin.slurp uri = .error e ∧ r = .error e) := by
  have hrest (paths : List String) : ∀ pickleSources : List LoadedPickle,
      Emits (paths.foldlM (collectPath gherkin) pickleSources : ApiRun idGenerator _) fun r s =>
        ∃ files : List FileRun, (∀ f ∈ files, gherkin.FileRule f) ∧ s = files.flatMap FileRun.log ∧
          (files.map (·.source.uri) = paths ∧
              r = .ok (pickleSources ++ files.flatMap FileRun.pickles) ∨
            ∃ uri rest e, paths = files.map (·.source.uri) ++ uri :: rest ∧
              gherkin.slurp uri = .error e ∧ r = .error e) := by
    induction paths with
    | nil =>
      intro pickleSources
      exact emits_pure ⟨[], by simp, rfl, .inl ⟨rfl, by simp⟩⟩
    | cons uri paths ih =>
      intro pickleSources
      rw [List.foldlM_cons]
      apply (emits_collectPath gherkin pickleSources uri).bind
      · rintro sources s (⟨e,_,h,_⟩ | ⟨f,hf,rfl,hr,rfl⟩)
        · cases h
        obtain rfl := Except.ok.inj hr
        apply (ih (pickleSources ++ f.pickles)).mono
        rintro r s ⟨files,hfiles,rfl,h⟩
        refine ⟨f :: files, List.forall_mem_cons.mpr ⟨hf, hfiles⟩, by simp, ?_⟩
        rcases h with ⟨hpaths,rfl⟩ | ⟨uri',rest,e,hpaths,hread,rfl⟩
        · exact .inl ⟨by simp [hpaths], by simp⟩
        · exact .inr ⟨uri', rest, e, by simp [hpaths], hread, rfl⟩
      · rintro e s (⟨e',hread,h,rfl⟩ | ⟨f,_,_,h,_⟩)
        · obtain rfl := Except.error.inj h
          exact ⟨[], by simp, rfl, .inr ⟨uri, paths, e, rfl, hread, rfl⟩⟩
        · cases h
  exact (hrest paths []).mono fun r s h => by simpa using h

end Api

/-- The ids of a pickle and of its steps. -/
def ListedPickle.ids (pickle : ListedPickle) : List String :=
  pickle.id :: pickle.steps.map PickleStep.id

/-- What the documentation of the Gherkin library says: pickles and their steps are given ids
from the generator, and a composite error is made of errors. -/
structure Gherkin.Documented (gherkin : Gherkin) : Prop where
  ids : ∀ ast uri names, ((gherkin.compile ast uri names).2.flatMap ListedPickle.ids).Subperm
    ((List.range (gherkin.compile ast uri names).1).map names)
  errors : ∀ uri data names errors,
    (gherkin.parse uri data names).2 = .error (.compositeParserError errors) → errors ≠ []

theorem nodup_of_subperm {α : Type} {xs ys : List α} (h : xs.Subperm ys) (hys : ys.Nodup) :
    xs.Nodup := by
  obtain ⟨zs,hperm,hsub⟩ := h
  exact hperm.nodup_iff.mp (hys.sublist hsub)

/-- Parts that draw what they hold do so together, too. -/
theorem subperm_drawn_flatMap {α E : Type} {ids : α → List String}
    {log : α → List (Entry String E)} {xs : List α}
    (h : ∀ x ∈ xs, (ids x).Subperm (drawn (log x))) :
    (xs.flatMap ids).Subperm (drawn (xs.flatMap log)) := by
  induction xs with
  | nil => exact List.Subperm.refl _
  | cons x xs ih =>
    rw [List.flatMap_cons, List.flatMap_cons, drawn_append]
    exact (h x List.mem_cons_self).append (ih fun y hy => h y (List.mem_cons_of_mem x hy))

namespace Gherkin

variable {gherkin : Gherkin} {f : FileRun} {files : List FileRun}

theorem FileRule.ids_subperm (hgherkin : gherkin.Documented) (h : gherkin.FileRule f) :
    (f.pickles.flatMap fun source => source.pickle.ids).Subperm (drawn f.log) := by
  cases houtcome : f.outcome with
  | error failure => simp [FileRun.pickles, houtcome]
  | ok loaded =>
    obtain ⟨ast,pickles⟩ := loaded
    obtain ⟨names,_,hcompiled,rfl⟩ := h.compiled ast pickles houtcome
    have hids := hgherkin.ids ast f.source.uri names
    rw [← hcompiled] at hids
    have hpickles : (f.pickles.flatMap fun source => source.pickle.ids) =
        (gherkin.compile ast f.source.uri names).2.flatMap ListedPickle.ids := by
      simp [FileRun.pickles, houtcome, List.flatMap_map]
    rw [hpickles, FileRun.drawn_log houtcome]
    exact hids.trans (List.sublist_append_right _ _).subperm

theorem ids_subperm (hgherkin : gherkin.Documented) (h : ∀ f ∈ files, gherkin.FileRule f) :
    ((files.flatMap FileRun.pickles).flatMap fun source => source.pickle.ids).Subperm
      (drawn (files.flatMap FileRun.log)) := by
  rw [List.flatMap_assoc]
  exact subperm_drawn_flatMap fun f hf => (h f hf).ids_subperm hgherkin

theorem FileRule.parseErrors_eq_nil_iff (hgherkin : gherkin.Documented)
    (h : gherkin.FileRule f) : f.parseErrors = [] ↔ ∃ loaded, f.outcome = .ok loaded := by
  obtain ⟨names,_,_,hparse⟩ := h.parsed
  unfold FileRun.parseErrors
  cases houtcome : f.outcome with
  | ok loaded => simp
  | error failure =>
    rw [houtcome] at hparse
    cases failure with
    | parserError error => simp [ParseFailure.errors]
    | compositeParserError errors =>
      have hne := hgherkin.errors _ _ _ _ hparse
      simpa [ParseFailure.errors] using hne

end Gherkin

/-- Every file was read and parsed. -/
def Loaded (files : List FileRun) : Prop := ∀ f ∈ files, ∃ loaded, f.outcome = .ok loaded

theorem parseErrors_files (files : List FileRun) :
    Api.parseErrors (events (files.flatMap FileRun.log)) =
      files.flatMap FileRun.parseErrors := by
  have hfile (f : FileRun) : f.messages.filterMap Message.parseError? = f.parseErrors := by
    unfold FileRun.messages FileRun.parseErrors
    cases f.outcome with
    | ok loaded => simp [Message.parseError?]
    | error failure =>
      rw [List.filterMap_cons_none rfl, List.filterMap_map, ← List.filterMap_eq_map]
      rfl
  have hmessages := messages_files files
  unfold messages at hmessages
  rw [Api.parseErrors, hmessages, List.filterMap_flatMap]
  exact List.flatMap_congr fun f _ => hfile f

namespace Api

variable {gherkin : Gherkin}

/-- What `LoadPickles` prints about the files. -/
def printed (files : List FileRun) : List (Entry String ApiEvent) :=
  (files.flatMap FileRun.parseErrors).map fun parseError =>
    .said (.println (reportParseError parseError))

theorem emits_loadPickles (hgherkin : gherkin.Documented) (sources : Sources) :
    Emits (loadPickles gherkin sources : ApiRun idGenerator _) fun r s =>
      ∃ files : List FileRun, (∀ f ∈ files, gherkin.FileRule f) ∧
        ((∃ uri rest e, sources.paths = files.map (·.source.uri) ++ uri :: rest ∧
            gherkin.slurp uri = .error e ∧ r = .error e ∧ s = files.flatMap FileRun.log) ∨
          files.map (·.source.uri) = sources.paths ∧
            (¬Loaded files ∧ r = .ok none ∧ s = files.flatMap FileRun.log ++ printed files ∨
              Loaded files ∧ s = files.flatMap FileRun.log ∧
                r = .ok (some ((files.flatMap FileRun.pickles).filter sources.selects)))) := by
  unfold loadPickles
  apply (emits_collectPickles gherkin sources.paths).listen.bind
  · rintro ⟨pickleSources,sent⟩ s ⟨r,⟨files,hfiles,rfl,h⟩,hr⟩
    rcases h with ⟨hpaths,rfl⟩ | ⟨_,_,_,_,_,rfl⟩
    swap
    · cases hr
    obtain ⟨rfl,rfl⟩ := Prod.mk.inj (Except.ok.inj hr)
    dsimp only
    rw [parseErrors_files]
    have hloaded : files.flatMap FileRun.parseErrors = [] ↔ Loaded files := by
      rw [List.flatMap_eq_nil_iff]
      exact forall₂_congr fun f hf => (hfiles f hf).parseErrors_eq_nil_iff hgherkin
    split_ifs with herrors
    · apply (emits_sayAll _).bind_ok
      · rintro e s ⟨h,_⟩
        cases h
      rintro _ s ⟨_,rfl⟩
      refine emits_pure ⟨files, hfiles, .inr ⟨hpaths, .inl ⟨?_, rfl, ?_⟩⟩⟩
      · exact fun h => herrors (hloaded.mpr h)
      · simp [printed, Function.comp_def]
    · refine emits_pure ⟨files, hfiles, .inr ⟨hpaths, .inr ⟨?_, by simp, rfl⟩⟩⟩
      exact hloaded.mp (not_not.mp herrors)
  · rintro e s ⟨r,⟨files,hfiles,rfl,h⟩,hr⟩
    rcases h with ⟨_,rfl⟩ | ⟨uri,rest,e',hpaths,hread,rfl⟩
    · cases hr
    obtain rfl := Except.error.inj hr
    exact ⟨files, hfiles, .inl ⟨uri, rest, e, hpaths, hread, rfl, rfl⟩⟩

end Api

end CucumberCpp
