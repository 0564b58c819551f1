import CucumberCpp.EventLogScopes
import CucumberCpp.SupportCodeAgreement

/-! The ids that are drawn while the support code is loaded and emitted. -/
namespace CucumberCpp

open EventLog OrderedMap

variable {idGenerator : IdGenerator}

/-- Distinctness of the names drawn in a segment comes for free. -/
theorem emits_drawn_nodup {E α : Type} {m : Exec idGenerator E Fault α}
    {P : Except Fault α → List (Entry String E) → Prop} (h : Emits m P) :
    Emits m fun r s => P r s ∧ (drawn s).Nodup := by
  intro w
  obtain ⟨s,hs,hP⟩ := h w
  exact ⟨s, hs, hP, drawn_segment_nodup m w s hs⟩

namespace DefinitionRegistration

/-- The same definition, with an id of its own. -/
def Renamed (e e' : Entry) : Prop := e' = e.withId e'.id

def idLog (entries : List Entry) : List (EventLog.Entry String Event) :=
  entries.map fun e => .drew e.id

theorem emits_traverseList (es : List (SourceLocation × Entry)) :
    Emits (Map.traverseList assignGenerator es : Run idGenerator _) fun r s =>
      ∃ es', r = .ok es' ∧ s = idLog (es'.1.map Prod.snd) ∧
        List.Forall₂ Renamed (es.map Prod.snd) (es'.1.map Prod.snd) := by
  induction es with
  | nil => exact emits_pure ⟨⟨[], rfl⟩, rfl, rfl, .nil⟩
  | cons p es ih =>
    obtain ⟨location,e⟩ := p
    unfold Map.traverseList assignGenerator
    simp only [bind_assoc, pure_bind]
    apply emits_nextId_bind
    intro id
    apply ih.bind_ok
    · rintro fault s ⟨_,h,_⟩
      cases h
    rintro rest s ⟨rest',hrest,rfl,hall⟩
    obtain rfl := Except.ok.inj hrest
    have hid : (e.withId id).id = id := by cases e <;> rfl
    refine emits_pure ⟨_, rfl, ?_, .cons ?_ hall⟩
    · simp [idLog, hid]
    · rw [Renamed, hid]

theorem emits_traverse (m : Map SourceLocation Entry) :
    Emits (m.traverse assignGenerator : Run idGenerator _) fun r s =>
      ∃ m', r = .ok m' ∧ s = idLog m'.values ∧ List.Forall₂ Renamed m.values m'.values := by
  unfold Map.traverse
  apply (emits_traverseList m.entries).bind_ok
  · rintro fault s ⟨_,h,_⟩
    cases h
  rintro es s ⟨es',hes,rfl,hall⟩
  obtain rfl := Except.ok.inj hes
  exact emits_pure ⟨_, rfl, by simp [Map.values], hall⟩

theorem emits_traverse_plugins (plugins : List (Map SourceLocation Entry)) :
    Emits (plugins.mapM' fun plugin => plugin.traverse assignGenerator : Run idGenerator _)
      fun r s => ∃ plugins', r = .ok plugins' ∧ s = idLog (plugins'.flatMap Map.values) ∧
        List.Forall₂ Renamed (plugins.flatMap Map.values) (plugins'.flatMap Map.values) := by
  induction plugins with
  | nil => exact emits_pure ⟨[], rfl, rfl, .nil⟩
  | cons plugin plugins ih =>
    rw [List.mapM'_cons]
    apply (emits_traverse plugin).bind_ok
    · rintro fault s ⟨_,h,_⟩
      cases h
    rintro _ s ⟨plugin',hplugin,rfl,hvalues⟩
    obtain rfl := Except.ok.inj hplugin
    apply ih.bind_ok
    · rintro fault s ⟨_,h,_⟩
      cases h
    rintro _ s ⟨plugins',hplugins,rfl,hall⟩
    obtain rfl := Except.ok.inj hplugins
    refine emits_pure ⟨_, rfl, by simp [idLog], ?_⟩
    exact List.rel_append hvalues hall

/-- Every id that `LoadIds` hands out is drawn for the definition that gets it. -/
theorem emits_loadIds (d : DefinitionRegistration) :
    Emits (d.loadIds : Run idGenerator _) fun r s =>
      ∃ loaded, r = .ok loaded ∧ s = idLog loaded.entries ∧
        List.Forall₂ Renamed d.entries loaded.entries := by
  unfold loadIds
  apply (emits_traverse d.staticRegistry).bind_ok
  · rintro fault s ⟨_,h,_⟩
    cases h
  rintro _ s ⟨static',hstatic,rfl,hvalues⟩
  obtain rfl := Except.ok.inj hstatic
  apply (emits_traverse d.registry).bind_ok
  · rintro fault s ⟨_,h,_⟩
    cases h
  rintro _ s ⟨registry',hregistry,rfl,hvalues'⟩
  obtain rfl := Except.ok.inj hregistry
  apply (emits_traverse_plugins d.plugins).bind_ok
  · rintro fault s ⟨_,h,_⟩
    cases h
  rintro _ s ⟨plugins',hplugins,rfl,hvalues''⟩
  obtain rfl := Except.ok.inj hplugins
  refine emits_pure ⟨_, rfl, by simp [idLog, entries], ?_⟩
  exact List.rel_append (List.rel_append hvalues hvalues') hvalues''

end DefinitionRegistration

namespace Api

open DefinitionRegistration

def parameterLog (types : List Messages.ParameterType) : List (EventLog.Entry String Event) :=
  types.map fun t => .drew t.id

theorem emits_emitParameters (parameters : List Parameter) :
    Emits (emitParameters parameters : Run idGenerator _) fun r s =>
      ∃ types : List Messages.ParameterType,
        r = .ok (types.map .parameterType) ∧ s = parameterLog types := by
  have hrest (parameters : List Parameter) : ∀ before : List SupportCodeMessage,
      Emits (parameters.foldlM emitParameter before : Run idGenerator _) fun r s =>
        ∃ types : List Messages.ParameterType,
          r = .ok (before ++ types.map .parameterType) ∧ s = parameterLog types := by
    induction parameters with
    | nil =>
      intro before
      exact emits_pure ⟨[], by simp, rfl⟩
    | cons parameter parameters ih =>
      intro before
      rw [List.foldlM_cons]
      unfold emitParameter
      split_ifs with hbuiltin
      · exact ih before
      · simp only [bind_assoc, pure_bind]
        apply emits_nextId_bind
        intro id
        apply (ih _).mono
        rintro r s ⟨types,rfl,rfl⟩
        refine ⟨{ id := id
                  name := parameter.name
                  regularExpressions := parameter.regex
                  useForSnippets := parameter.useForSnippets
                  sourceReference :=
                    { uri := some (ofLex parameter.location).1
                      location := some (ofLex parameter.location).2 } } :: types, ?_, rfl⟩
        rw [List.append_assoc]
        rfl
  exact (hrest parameters []).mono fun r s h => by simpa using h

/-- Loading the support code draws one id for each parameter type and each definition. -/
theorem emits_emitSupportCodeMessages (compiler : MatcherCompiler)
    (parse : String → TagExpression) (parameters : List Parameter)
    (registration : DefinitionRegistration) :
    Emits (emitSupportCodeMessages compiler parse parameters registration : Run idGenerator _)
      fun r s => ∃ (types : List Messages.ParameterType) (loaded : LoadedSupportCode)
        (messages : List SupportCodeMessage), r = .ok (loaded,messages) ∧
          s = parameterLog types ++ idLog loaded.registration.entries ∧
          List.Forall₂ Renamed registration.entries loaded.registration.entries ∧
          loaded.hookRegistry = .loadHooks parse loaded.registration.getHooks ∧
          SupportCodeAgrees compiler parse (types.map .parameterType) loaded messages := by
  unfold emitSupportCodeMessages
  apply (emits_emitParameters parameters).bind_ok
  · rintro fault s ⟨_,h,_⟩
    cases h
  rintro _ s ⟨types,htypes,rfl⟩
  obtain rfl := Except.ok.inj htypes
  apply (emits_drawn_nodup registration.emits_loadIds).bind_ok
  · rintro fault s ⟨⟨_,h,_⟩,_⟩
    cases h
  rintro loaded s ⟨⟨_,hloaded,rfl,hrenamed⟩,hnodup⟩
  obtain rfl := Except.ok.inj hloaded
  have hids : (loaded.entries.map DefinitionRegistration.Entry.id).Nodup := by
    rwa [idLog, drawn_map_drew] at hnodup
  obtain ⟨messages,hemit,hagrees⟩ :=
    supportCodeAgrees_load compiler parse hids (types.map .parameterType)
  apply emits_fromExcept_bind hemit
  exact emits_pure ⟨types, _, messages, rfl, by simp, hrenamed, rfl, hagrees⟩

end Api

end CucumberCpp
