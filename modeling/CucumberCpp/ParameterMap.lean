import CucumberCpp.DiscoveredTests
import CucumberCpp.Regex
import CucumberCpp.StableSort

/-! `ParameterMap.cpp` and `ParameterMap.hpp`: the regular expression of the keys of a
`PARAMETER_MAP`, and the values that they stand for. -/
namespace CucumberCpp

open OrderedMap StableSort TextLines

namespace Support

/-- `std::invalid_argument` with its text. -/
structure InvalidArgument where
  what : Text
  deriving DecidableEq

def specialCharacters : List Char :=
  ['\\', '^', '$', '.', '|', '?', '*', '+', '(', ')', '[', ']', '{', '}']

def isSpecial (chr : Char) : Bool := decide (chr ∈ specialCharacters)

/-- One round of the loop of `ValidateKeys`. -/
def validateKey (uniqueKeys : Finset Text) (key : Text) :
    Except InvalidArgument (Finset Text) :=
  if key = [] then .error ⟨"PARAMETER_MAP keys must not be empty".toList⟩
  else if key ∈ uniqueKeys then
    .error ⟨"PARAMETER_MAP contains duplicate key: ".toList ++ key⟩
  else .ok (insert key uniqueKeys)

def validateKeys (keys : List Text) : Except InvalidArgument Unit := do
  if keys = [] then
    throw ⟨"PARAMETER_MAP requires at least one key".toList⟩
  let _ ← keys.foldlM validateKey ∅

def escapeRegex (text : Text) : Text :=
  text.foldl (fun result chr =>
    (if chr ∈ specialCharacters then result ++ ['\\'] else result) ++ [chr]) []

/-- The key is appended behind an opening parenthesis or a bar. -/
def appendKey (result key : Text) : Text :=
  result ++ [if result = [] then '(' else '|'] ++ escapeRegex key

/-- The comparator of `KeysToRegex`. -/
def longer (lhs rhs : Text) : Bool := decide (lhs.length > rhs.length)

def keysToRegex (keys : List Text) : Except InvalidArgument Text := do
  validateKeys keys
  let keys := stableSort longer keys
  let result := keys.foldl appendKey []
  pure (result ++ [')'])

end Support

/-- `ParameterMapEntries`. -/
structure ParameterMapEntries (T : Type) where
  regex : Text
  values : Map Text T

namespace ParameterMapEntries

variable {T : Type}

/-- The constructor. -/
def make (entries : List (Text × T)) : Except Support.InvalidArgument (ParameterMapEntries T) := do
  let regex ← Support.keysToRegex (entries.map Prod.fst)
  pure { regex := regex, values := entries.foldl (fun m e => m.tryEmplace e.1 e.2) Map.empty }

/-- `values.at` throws where this has none. -/
def lookup (self : ParameterMapEntries T) (key : Text) : Option T := self.values.find? key

end ParameterMapEntries

namespace Support

theorem escapeRegex_eq (text : Text) : escapeRegex text = escape isSpecial '\\' text := by
  have hfold (result : Text) : text.foldl (fun result chr =>
      (if chr ∈ specialCharacters then result ++ ['\\'] else result) ++ [chr]) result =
        result ++ escape isSpecial '\\' text := by
    induction text generalizing result with
    | nil => simp [escape]
    | cons c text ih =>
      rw [List.foldl_cons, ih]
      by_cases hc : c ∈ specialCharacters <;> simp [escape, isSpecial, hc]
  exact hfold []

theorem isSpecial_eq : Cmake.isSpecial = isSpecial := by
  funext c
  have hmem : c = '\\' ∨ c ∈ Cmake.metacharacters ↔ c ∈ specialCharacters := by
    simp only [Cmake.metacharacters, specialCharacters, List.mem_cons, List.not_mem_nil, or_false]
    tauto
  rw [Cmake.isSpecial, ← Bool.decide_or]
  exact decide_eq_decide.mpr hmem

/-- The two escapers agree, nothing is lost by escaping and no special character is left. -/
theorem escapers_agree :
    (∀ value : Text, Cmake.escapeRegex value = escapeRegex value ∧
      unescape isSpecial '\\' (escapeRegex value) = value ∧
      bareSpecials isSpecial '\\' (escapeRegex value) = []) ∧
    Function.Injective escapeRegex := by
  have hmark : isSpecial '\\' = true := by decide
  refine ⟨fun value => ⟨?_, ?_, ?_⟩, ?_⟩
  · rw [Cmake.escapeRegex_eq, escapeRegex_eq, isSpecial_eq]
  · rw [escapeRegex_eq]
    exact unescape_escape hmark value
  · rw [escapeRegex_eq]
    exact bareSpecials_escape hmark value
  · intro value value' h
    rw [escapeRegex_eq, escapeRegex_eq] at h
    exact escape_injective hmark h

theorem foldlM_validateKey_iff (keys : List Text) (uniqueKeys : Finset Text) :
    (∃ seen, keys.foldlM validateKey uniqueKeys = .ok seen) ↔
      [] ∉ keys ∧ keys.Nodup ∧ ∀ key ∈ keys, key ∉ uniqueKeys := by
  induction keys generalizing uniqueKeys with
  | nil =>
    simp only [List.not_mem_nil, not_false_eq_true, List.nodup_nil, true_and, false_implies,
      implies_true, iff_true]
    exact ⟨uniqueKeys, rfl⟩
  | cons key keys ih =>
    rw [List.foldlM_cons]
    unfold validateKey
    split_ifs with hempty hdup
    · refine iff_of_false ?_ fun h => h.1 (hempty ▸ List.mem_cons_self)
      rintro ⟨seen,hseen⟩
      cases hseen
    · refine iff_of_false ?_ fun h => h.2.2 key List.mem_cons_self hdup
      rintro ⟨seen,hseen⟩
      cases hseen
    · -- what comes later must differ from this key as well
      refine (ih (insert key uniqueKeys)).trans ?_
      simp only [List.mem_cons, not_or, List.nodup_cons, Finset.mem_insert, forall_eq_or_imp]
      constructor
      · rintro ⟨hnil,hnodup,hnew⟩
        refine ⟨⟨Ne.symm hempty, hnil⟩, ⟨?_, hnodup⟩, hdup, fun k hk => (hnew k hk).2⟩
        exact fun hmem => (hnew key hmem).1 rfl
      · rintro ⟨⟨_,hnil⟩,⟨hnot,hnodup⟩,_,hnew⟩
        refine ⟨hnil, hnodup, fun k hk => ⟨?_, hnew k hk⟩⟩
        rintro rfl
        exact hnot hk

theorem validateKeys_eq_ok_iff (keys : List Text) :
    validateKeys keys = .ok () ↔ keys ≠ [] ∧ [] ∉ keys ∧ keys.Nodup := by
  have hfold := foldlM_validateKey_iff keys ∅
  simp only [Finset.notMem_empty, not_false_eq_true, implies_true, and_true] at hfold
  rw [← hfold]
  unfold validateKeys
  split_ifs with hempty
  · refine iff_of_false (fun h => ?_) fun h => h.1 hempty
    cases h
  · cases hrun : keys.foldlM validateKey ∅ with
    | error e =>
      refine iff_of_false (fun h => ?_) ?_
      · cases h
      · rintro ⟨_,seen,hseen⟩
        cases hseen
    | ok seen => exact iff_of_true rfl ⟨hempty, seen, rfl⟩

/-- The keys by decreasing length; those of one length keep their order. -/
structure ByLength (keys sorted : List Text) : Prop where
  perm : sorted.Perm keys
  decreasing : sorted.Pairwise fun lhs rhs => rhs.length ≤ lhs.length
  stable : ∀ lhs rhs, [lhs, rhs].Sublist keys → lhs.length = rhs.length →
    [lhs, rhs].Sublist sorted

instance : IsStrictWeakOrder Text fun lhs rhs => longer lhs rhs = true :=
  isStrictWeakOrder_of_key (fun key : Text => OrderDual.toDual key.length) fun lhs rhs => by
    rw [longer, decide_eq_true_iff]
    rfl

theorem byLength_stableSort (keys : List Text) : ByLength keys (stableSort longer keys) where
  perm := stableSort_perm
  decreasing := pairwise_stableSort.imp fun h => by simpa [longer] using h
  stable := by
    intro lhs rhs hsub hlength
    exact pair_sublist_stableSort (by simp [longer, hlength]) hsub

theorem foldl_appendKey (keys : List Text) {result : Text} (hresult : result ≠ []) :
    keys.foldl appendKey result =
      result ++ keys.flatMap fun key => '|' :: escape isSpecial '\\' key := by
  induction keys generalizing result with
  | nil => simp
  | cons key keys ih =>
    rw [List.foldl_cons, ih (by simp [appendKey]), appendKey, if_neg hresult, escapeRegex_eq]
    simp

/-- What the keys that are put together are read as. -/
theorem parse_foldl_appendKey {keys : List Text} (hne : keys ≠ []) :
    Regex.parse (keys.foldl appendKey [] ++ [')']) =
      some (.group 1 (.alternation (keys.map .literal))) := by
  cases keys with
  | nil => exact absurd rfl hne
  | cons key keys =>
    have hspecial : isSpecial = Regex.isMetacharacter := rfl
    have hresult : (key :: keys).foldl appendKey [] =
        '(' :: escape isSpecial '\\' key ++
          keys.flatMap fun key => '|' :: escape isSpecial '\\' key := by
      rw [List.foldl_cons, foldl_appendKey keys (by simp [appendKey])]
      simp [appendKey, escapeRegex_eq]
    rw [hresult, hspecial]
    exact Regex.parse_group_literals key keys

theorem exists_of_keysToRegex_eq_ok {keys : List Text} {regex : Text}
    (h : keysToRegex keys = .ok regex) :
    (keys ≠ [] ∧ [] ∉ keys ∧ keys.Nodup) ∧ ∃ sorted, ByLength keys sorted ∧
      regex = sorted.foldl appendKey [] ++ [')'] := by
  unfold keysToRegex at h
  cases hvalid : validateKeys keys with
  | error e =>
    rw [hvalid] at h
    cases h
  | ok u =>
    rw [hvalid] at h
    obtain rfl := Except.ok.inj h
    exact ⟨(validateKeys_eq_ok_iff keys).mp hvalid, _, byLength_stableSort keys, rfl⟩

theorem keysToRegex_eq_error_iff (keys : List Text) :
    (∃ e, keysToRegex keys = .error e) ↔ keys = [] ∨ [] ∈ keys ∨ ¬keys.Nodup := by
  have hvalid := validateKeys_eq_ok_iff keys
  unfold keysToRegex
  cases hrun : validateKeys keys with
  | error e =>
    have hnot : ¬(keys ≠ [] ∧ [] ∉ keys ∧ keys.Nodup) := by
      rw [← hvalid, hrun]
      exact nofun
    refine iff_of_true ⟨e, rfl⟩ ?_
    tauto
  | ok u =>
    obtain ⟨hne,hnil,hnodup⟩ := hvalid.mp hrun
    refine iff_of_false ?_ ?_
    · rintro ⟨e,he⟩
      cases he
    · rintro (h | h | h)
      · exact hne h
      · exact hnil h
      · exact h hnodup

/-- What the regular expression of some keys matches: as a whole text every key, at a place the
longest key that stands there. -/
structure MatchesKeys (keys : List Text) (r : Regex.Expr Char) : Prop where
  full : ∀ newline text, (Regex.fullMatch newline r text).isSome ↔ text ∈ keys
  captured : ∀ newline text t, Regex.fullMatch newline r text = some t → t.captured 1 = some text
  none : ∀ newline s, Regex.matchAt newline r s = none ↔ ∀ key ∈ keys, ¬key <+: s.after
  longest : ∀ newline s t, Regex.matchAt newline r s = some t → ∃ key, t.captured 1 = some key ∧
    key ∈ keys ∧ key <+: s.after ∧ ∀ key' ∈ keys, key' <+: s.after → key'.length ≤ key.length

theorem ByLength.matchesKeys {keys sorted : List Text} (h : ByLength keys sorted)
    (hne : keys ≠ []) :
    MatchesKeys keys (.group 1 (.alternation (sorted.map .literal))) := by
  have hsorted : sorted ≠ [] := by
    rintro rfl
    exact hne h.perm.symm.eq_nil
  refine ⟨fun newline text => ?_, fun newline text t ht => ?_, fun newline s => ?_,
    fun newline s t ht => ?_⟩
  · rw [Regex.fullMatch_group_literals hsorted, ← h.perm.mem_iff]
    split_ifs with hmem <;> simp [hmem]
  · rw [Regex.fullMatch_group_literals hsorted] at ht
    split_ifs at ht
    rw [← Option.some.inj ht]
    exact Regex.State.captured_capture 1 text _
  · rw [Regex.matchAt_group_literals hsorted, Option.map_eq_none_iff, List.find?_eq_none]
    simp [h.perm.mem_iff]
  · rw [Regex.matchAt_group_literals hsorted] at ht
    obtain ⟨key,hkey,rfl⟩ := Option.map_eq_some_iff.mp ht
    obtain ⟨hfirst,before,rest,hsplit,hbefore⟩ := List.find?_eq_some_iff_append.mp hkey
    have hmem : key ∈ sorted := List.mem_of_find?_eq_some hkey
    refine ⟨key, Regex.State.captured_capture 1 key _, h.perm.mem_iff.mp hmem,
      by simpa using hfirst, fun key' hkey' hfirst' => ?_⟩
    -- a key that stands there as well does not come before in the alternation
    have hmem' := h.perm.mem_iff.mpr hkey'
    have hdecreasing := h.decreasing
    rw [hsplit] at hmem' hdecreasing
    rcases List.mem_append.mp hmem' with hmem' | hmem'
    · have hnot := hbefore key' hmem'
      simp [hfirst'] at hnot
    · rcases List.mem_cons.mp hmem' with rfl | hmem'
      · exact le_rfl
      · exact List.rel_of_pairwise_cons (List.pairwise_append.mp hdecreasing).2.1 hmem'

theorem lookup_make {T : Type} {entries : List (Text × T)} {regex : Text}
    (h : keysToRegex (entries.map Prod.fst) = .ok regex) :
    ∃ self, ParameterMapEntries.make entries = .ok self ∧ self.regex = regex ∧
      ∀ key value, self.lookup key = some value ↔ (key,value) ∈ entries := by
  have hnodup := (exists_of_keysToRegex_eq_ok h).1.2.2
  have hmake : ParameterMapEntries.make entries = .ok
      { regex := regex, values := entries.foldl (fun m e => m.tryEmplace e.1 e.2) Map.empty } := by
    unfold ParameterMapEntries.make
    rw [h]
    rfl
  refine ⟨_, hmake, rfl, fun key value => ?_⟩
  unfold ParameterMapEntries.lookup
  rw [Map.find?_foldl_tryEmplace, Map.find?_empty, Option.none_or]
  exact Map.lookup_eq_some_iff entries hnodup key value

/-- A text that the group captures, in a match at some place or of a whole text. -/
def Captures (r : Regex.Expr Char) (text : Text) : Prop :=
  (∃ newline s t, Regex.matchAt newline r s = some t ∧ t.captured 1 = some text) ∨
  ∃ newline whole t, Regex.fullMatch newline r whole = some t ∧ t.captured 1 = some text

theorem MatchesKeys.mem_of_captures {keys : List Text} {r : Regex.Expr Char}
    (h : MatchesKeys keys r) {text : Text} (htext : Captures r text) : text ∈ keys := by
  rcases htext with ⟨newline,s,t,ht,hcaptured⟩ | ⟨newline,whole,t,ht,hcaptured⟩
  · obtain ⟨key,hkey,hmem,_⟩ := h.longest newline s t ht
    rw [Option.some.inj (hcaptured.symm.trans hkey)]
    exact hmem
  · have hmem := (h.full newline whole).mp (by rw [ht]; rfl)
    rwa [Option.some.inj (hcaptured.symm.trans (h.captured newline whole t ht))]

/-- The regular expression of a `PARAMETER_MAP` matches its keys, each of which has its value. -/
theorem keysToRegex_exact (keys : List Text) :
    ((∃ e, keysToRegex keys = .error e) ↔ keys = [] ∨ [] ∈ keys ∨ ¬keys.Nodup) ∧
    ∀ regex, keysToRegex keys = .ok regex → ∃ sorted r, ByLength keys sorted ∧
      Regex.parse regex = some r ∧ r = .group 1 (.alternation (sorted.map .literal)) ∧
      MatchesKeys keys r ∧
      ∀ (T : Type) (entries : List (Text × T)), entries.map Prod.fst = keys →
        ∃ self, ParameterMapEntries.make entries = .ok self ∧ self.regex = regex ∧
          ∀ text, Captures r text →
            ∃ value, self.lookup text = some value ∧ (text,value) ∈ entries := by
  refine ⟨keysToRegex_eq_error_iff keys, fun regex hregex => ?_⟩
  obtain ⟨⟨hne,_,_⟩,sorted,hsorted,rfl⟩ := exists_of_keysToRegex_eq_ok hregex
  have hsorted' : sorted ≠ [] := by
    rintro rfl
    exact hne hsorted.perm.symm.eq_nil
  have hmatches := hsorted.matchesKeys hne
  refine ⟨sorted, _, hsorted, parse_foldl_appendKey hsorted', rfl, hmatches, ?_⟩
  rintro T entries rfl
  obtain ⟨self,hmake,hself,hlookup⟩ := lookup_make hregex
  refine ⟨self, hmake, hself, fun text htext => ?_⟩
  obtain ⟨⟨key,value⟩,hmem,rfl⟩ := List.mem_map.mp (hmatches.mem_of_captures htext)
  exact ⟨value, (hlookup key value).mpr hmem, hmem⟩

example : keysToRegex ["c++".toList, "a.b".toList, "(x)".toList] =
    .ok "(c\\+\\+|a\\.b|\\(x\\))".toList := by decide

end Support

end CucumberCpp
