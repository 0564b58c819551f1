import CucumberCpp.Discovery

/-! The names that `MakeUniqueTestNames` gives to the loaded pickles. -/
namespace CucumberCpp

open OrderedMap TextLines

/-- The characters that a unique name never has. -/
def isSeparator (c : Char) : Bool := decide (c ∈ ['\t', '\n', '\r'])

/-- The characters that end a line of the listing. -/
def isLineBreak (c : Char) : Bool := decide (c ∈ ['\n', '\r'])

/-- Neither tabs nor line breaks. -/
def SingleField (text : Text) : Prop := ∀ c ∈ text, isSeparator c = false

/-- No line breaks. -/
def SingleLine (text : Text) : Prop := ∀ c ∈ text, isLineBreak c = false

theorem SingleField.singleLine {text : Text} (h : SingleField text) : SingleLine text := by
  intro c hc
  have hseparator := h c hc
  simp only [isSeparator, isLineBreak, List.mem_cons, List.not_mem_nil, or_false,
    decide_eq_false_iff_not, not_or] at *
  exact hseparator.2

theorem SingleField.tab_not_mem {text : Text} (h : SingleField text) : '\t' ∉ text := by
  intro hmem
  have hseparator := h '\t' hmem
  cases hseparator

/-- The characters that the names of tests never have. -/
def isReserved (c : Char) : Bool := decide (c ∈ ['\t', '\n', '\r', ';'])

/-- No tabs, line breaks and semicolons. -/
def Plain (text : Text) : Prop := ∀ c ∈ text, isReserved c = false

theorem Plain.singleField {text : Text} (h : Plain text) : SingleField text := by
  intro c hc
  have hreserved := h c hc
  simp only [isReserved, isSeparator, List.mem_cons, List.not_mem_nil, or_false,
    decide_eq_false_iff_not, not_or] at *
  obtain ⟨htab,hlf,hcr,_⟩ := hreserved
  exact ⟨htab, hlf, hcr⟩

theorem Plain.append {text text' : Text} (h : Plain text) (h' : Plain text') :
    Plain (text ++ text') := by
  intro c hc
  exact (List.mem_append.mp hc).elim (h c) (h' c)

theorem plain_nil : Plain [] := by
  intro c hc
  cases hc

theorem plain_dot : Plain ['.'] := by
  intro c hc
  rw [List.mem_singleton.mp hc]
  rfl

theorem plain_dotHash : Plain ['.', '#'] := by
  intro c hc
  rcases List.mem_cons.mp hc with rfl | hc
  · rfl
  · rw [List.mem_singleton.mp hc]
    rfl

theorem plain_decimal (n : ℕ) : Plain (decimal n) := by
  intro c hc
  have hdigit := Nat.isDigit_of_mem_toDigits (by decide) (by decide) hc
  rw [isReserved, decide_eq_false_iff_not]
  intro hmem
  simp only [List.mem_cons, List.not_mem_nil, or_false] at hmem
  rcases hmem with rfl | rfl | rfl | rfl <;> simp [Char.isDigit] at hdigit

theorem decimal_injective : Function.Injective decimal := by
  intro m n h
  exact Nat.repr_inj.mp (congrArg String.ofList h)

namespace Util

theorem mem_replaceChar {c x : Char} {text xs : Text} (h : x ∈ replaceChar c text xs) :
    x ∈ text ∨ x ∈ xs ∧ x ≠ c := by
  obtain ⟨y,hy,hx⟩ := List.mem_flatMap.mp h
  split_ifs at hx with hyc
  · exact .inl hx
  · rw [List.mem_singleton.mp hx]
    exact .inr ⟨hy, hyc⟩

theorem plain_sanitizeName (name : Text) : Plain (sanitizeName name) := by
  intro c hc
  have hlast := strip_sublist.mem hc
  rcases mem_replaceChar hlast with hcomma | ⟨htab,hnesemicolon⟩
  · rw [List.mem_singleton.mp hcomma]
    decide
  rcases mem_replaceChar htab with hspace | ⟨hcr,hnetab⟩
  · rw [List.mem_singleton.mp hspace]
    decide
  rcases mem_replaceChar hcr with hspace | ⟨hlf,hnecr⟩
  · rw [List.mem_singleton.mp hspace]
    decide
  rcases mem_replaceChar hlf with hspace | ⟨_,hnelf⟩
  · rw [List.mem_singleton.mp hspace]
    decide
  simp [isReserved, hnesemicolon, hnetab, hnecr, hnelf]

theorem plain_exampleSuffix (lineage : Lineage) : Plain (exampleSuffix lineage) := by
  unfold exampleSuffix
  split_ifs
  · split
    · exact ((plain_dotHash.append (plain_decimal _)).append plain_dot).append (plain_decimal _)
    · exact plain_dotHash.append (plain_decimal _)
    · exact plain_nil
  · exact plain_nil

theorem plain_getHierarchicalTestName (findLineageBy : ListedPickle → Option Lineage)
    (pickle : ListedPickle) : Plain (getHierarchicalTestName findLineageBy pickle) := by
  unfold getHierarchicalTestName
  cases findLineageBy pickle with
  | none => exact plain_sanitizeName _
  | some lineage =>
    have hdotted (name : Text) : Plain (sanitizeName name ++ ['.']) :=
      (plain_sanitizeName name).append plain_dot
    have hend := (plain_sanitizeName pickle.name.toList).append (plain_exampleSuffix lineage)
    dsimp only
    split_ifs
    · have hfront := (hdotted
        ((lineage.feature.filter fun name => name ≠ "").getD pickle.uri).toList).append
          (hdotted (lineage.rule.getD "").toList)
      simpa only [List.append_assoc] using hfront.append hend
    · have hfront := hdotted
        ((lineage.feature.filter fun name => name ≠ "").getD pickle.uri).toList
      simpa only [List.append_assoc] using hfront.append hend

end Util

namespace Api

open Util

/-- A name with a number behind it, as `MakeUnique` tries them. -/
def suffixed (testName : Text) (k : ℕ) : Text := testName ++ ['.', '#'] ++ decimal k

theorem suffixed_injective (testName : Text) : Function.Injective (suffixed testName) := by
  intro j k h
  exact decimal_injective (List.append_cancel_left h)

/-- The first of a name and its numbered forms that is not taken. -/
inductive FirstFree (taken : Set Text) (testName : Text) : Text → Prop
  | bare : testName ∉ taken → FirstFree taken testName testName
  | suffixed (k : ℕ) : testName ∈ taken → 2 ≤ k → suffixed testName k ∉ taken →
    (∀ j, 2 ≤ j → j < k → suffixed testName j ∈ taken) →
    FirstFree taken testName (suffixed testName k)

theorem FirstFree.not_mem {taken : Set Text} {testName u : Text}
    (h : FirstFree taken testName u) : u ∉ taken := by
  cases h with
  | bare hfree => exact hfree
  | suffixed k _ _ hfree _ => exact hfree

theorem FirstFree.plain {taken : Set Text} {testName u : Text} (h : FirstFree taken testName u)
    (hplain : Plain testName) : Plain u := by
  cases h with
  | bare => exact hplain
  | suffixed k => exact (hplain.append plain_dotHash).append (plain_decimal k)

theorem makeUniqueFrom_eq_some {testName u : Text} {seenNames : Finset Text} {fuel counter : ℕ}
    (h : makeUniqueFrom testName seenNames fuel counter = some u) :
    ∃ k, counter ≤ k ∧ u = suffixed testName k ∧ u ∉ seenNames ∧
      ∀ j, counter ≤ j → j < k → suffixed testName j ∈ seenNames := by
  induction fuel generalizing counter with
  | zero => cases h
  | succ fuel ih =>
    unfold makeUniqueFrom at h
    dsimp only at h
    split_ifs at h with hseen
    · obtain ⟨k,hk,hu,hnew,hbelow⟩ := ih h
      refine ⟨k, by omega, hu, hnew, fun j hj hjk => ?_⟩
      rcases hj.eq_or_lt with rfl | hj
      · exact hseen
      · exact hbelow j hj hjk
    · obtain rfl := Option.some.inj h
      exact ⟨counter, le_rfl, rfl, hseen, fun j hj hjk => by omega⟩

theorem makeUniqueFrom_eq_none {testName : Text} {seenNames : Finset Text} {fuel counter : ℕ}
    (h : makeUniqueFrom testName seenNames fuel counter = none) {i : ℕ} (hi : i < fuel) :
    suffixed testName (counter+i) ∈ seenNames := by
  induction fuel generalizing counter i with
  | zero => omega
  | succ fuel ih =>
    unfold makeUniqueFrom at h
    dsimp only at h
    split_ifs at h with hseen
    cases i with
    | zero => exact hseen
    | succ i =>
      have hnext := ih h (show i < fuel by omega)
      rwa [show counter+1+i = counter+(i+1) by omega] at hnext

/-- The loop ends: when it has tried one name more than it has seen, one of them was new. -/
theorem exists_makeUniqueFrom (testName : Text) {seenNames : Finset Text} {fuel : ℕ}
    (hfuel : seenNames.card < fuel) (counter : ℕ) :
    ∃ u, makeUniqueFrom testName seenNames fuel counter = some u := by
  apply Option.isSome_iff_exists.mp
  by_contra hnone
  rw [Option.not_isSome_iff_eq_none] at hnone
  have hinjective : Set.InjOn (fun i => suffixed testName (counter+i)) (Finset.range fuel) := by
    intro i _ j _ hij
    exact Nat.add_left_cancel (suffixed_injective testName hij)
  have hcard := Finset.card_le_card_of_injOn _
    (fun i hi => makeUniqueFrom_eq_none hnone (Finset.mem_range.mp hi)) hinjective
  rw [Finset.card_range] at hcard
  omega

theorem exists_makeUnique (testName : Text) (seenNames : Finset Text) :
    ∃ u, FirstFree seenNames testName u ∧
      makeUnique testName seenNames = some (u,insert u seenNames) := by
  by_cases hseen : testName ∈ seenNames
  · obtain ⟨u,hu⟩ := exists_makeUniqueFrom testName (Nat.lt_succ_self seenNames.card) 2
    obtain ⟨k,hk,rfl,hnew,hbelow⟩ := makeUniqueFrom_eq_some hu
    exact ⟨_, .suffixed k hseen hk hnew hbelow, by simp [makeUnique, hseen, hu]⟩
  · exact ⟨testName, .bare hseen, by simp [makeUnique, hseen]⟩

section Names

variable {findLineageBy : ListedPickle → Option Lineage}

/-- What the loop of `MakeUniqueTestNames` has after some pickles. -/
structure NamedSoFar (findLineageBy : ListedPickle → Option Lineage)
    (pickles : List ListedPickle) (named : Map String Text) (seenNames : Finset Text) : Prop where
  run : pickles.foldlM (emplaceUniqueName findLineageBy) (Map.empty,∅) = some (named,seenNames)
  ids : ∀ id, (named.find? id).isSome ↔ id ∈ pickles.map fun p => p.id
  seen : ∀ u, u ∈ seenNames ↔ ∃ p ∈ pickles, named.find? p.id = some u
  plain : ∀ u ∈ seenNames, Plain u
  distinct : ∀ p ∈ pickles, ∀ q ∈ pickles, named.find? p.id = named.find? q.id → p.id = q.id

namespace NamedSoFar

theorem nil : NamedSoFar findLineageBy [] Map.empty ∅ where
  run := rfl
  ids := by simp
  seen := by simp
  plain := by simp
  distinct := by simp

variable {pickles : List ListedPickle} {named : Map String Text} {seenNames : Finset Text}
  {p : ListedPickle} {u : Text}

theorem find?_tryEmplace (h : NamedSoFar findLineageBy pickles named seenNames)
    (hfresh : p.id ∉ pickles.map fun p => p.id) (id : String) :
    (named.tryEmplace p.id u).find? id = if id = p.id then some u else named.find? id := by
  have hnone : named.find? p.id = none := by
    rwa [← h.ids, Option.not_isSome_iff_eq_none] at hfresh
  rw [Map.find?_tryEmplace, hnone]
  rfl

theorem find?_tryEmplace_of_mem (h : NamedSoFar findLineageBy pickles named seenNames)
    (hfresh : p.id ∉ pickles.map fun p => p.id) {q : ListedPickle} (hq : q ∈ pickles) :
    (named.tryEmplace p.id u).find? q.id = named.find? q.id := by
  rw [h.find?_tryEmplace hfresh, if_neg]
  intro heq
  exact hfresh (heq ▸ List.mem_map_of_mem (f := fun p : ListedPickle => p.id) hq)

/-- One more pickle with an id of its own. -/
theorem concat (h : NamedSoFar findLineageBy pickles named seenNames)
    (hfresh : p.id ∉ pickles.map fun p => p.id) :
    ∃ u, FirstFree seenNames (getHierarchicalTestName findLineageBy p) u ∧
      NamedSoFar findLineageBy (pickles ++ [p]) (named.tryEmplace p.id u)
        (insert u seenNames) := by
  obtain ⟨u,hfree,hunique⟩ :=
    exists_makeUnique (getHierarchicalTestName findLineageBy p) seenNames
  have hself : (named.tryEmplace p.id u).find? p.id = some u := by
    rw [h.find?_tryEmplace hfresh, if_pos rfl]
  have hunseen {q : ListedPickle} (hq : q ∈ pickles) : named.find? q.id ≠ some u :=
    fun heq => hfree.not_mem ((h.seen u).mpr ⟨q, hq, heq⟩)
  refine ⟨u, hfree, ?_, ?_, ?_, ?_, ?_⟩
  · have hround : emplaceUniqueName findLineageBy (named,seenNames) p =
        some (named.tryEmplace p.id u,insert u seenNames) := by
      unfold emplaceUniqueName
      rw [hunique]
      rfl
    rw [List.foldlM_append, h.run]
    simp only [Option.bind_eq_bind, Option.bind_some, List.foldlM_cons, List.foldlM_nil, hround]
    rfl
  · intro id
    rw [h.find?_tryEmplace hfresh, List.map_append, List.mem_append, ← h.ids]
    split_ifs with hid <;> simp [hid]
  · intro v
    rw [Finset.mem_insert, h.seen]
    constructor
    · rintro (rfl | ⟨q,hq,hv⟩)
      · exact ⟨p, List.mem_append_right _ List.mem_cons_self, hself⟩
      · exact ⟨q, List.mem_append_left _ hq, (h.find?_tryEmplace_of_mem hfresh hq).trans hv⟩
    · rintro ⟨q,hq,hv⟩
      rcases List.mem_append.mp hq with hq | hq
      · rw [h.find?_tryEmplace_of_mem hfresh hq] at hv
        exact .inr ⟨q, hq, hv⟩
      · rw [List.mem_singleton.mp hq, hself] at hv
        exact .inl (Option.some.inj hv).symm
  · intro v hv
    rcases Finset.mem_insert.mp hv with rfl | hv
    · exact hfree.plain (plain_getHierarchicalTestName findLineageBy p)
    · exact h.plain v hv
  -- the new name is not among the old ones, so only two old pickles could share theirs
  · intro q hq r hr heq
    rcases List.mem_append.mp hq with hq | hq <;> rcases List.mem_append.mp hr with hr | hr
    · rw [h.find?_tryEmplace_of_mem hfresh hq, h.find?_tryEmplace_of_mem hfresh hr] at heq
      exact h.distinct q hq r hr heq
    · rw [List.mem_singleton.mp hr, hself, h.find?_tryEmplace_of_mem hfresh hq] at heq
      exact absurd heq (hunseen hq)
    · rw [List.mem_singleton.mp hq, hself, h.find?_tryEmplace_of_mem hfresh hr] at heq
      exact absurd heq.symm (hunseen hr)
    · rw [List.mem_singleton.mp hq, List.mem_singleton.mp hr]

/-- Later pickles leave the names alone that earlier ones have. -/
theorem extend (h : NamedSoFar findLineageBy pickles named seenNames)
    {later : List ListedPickle} (hids : ((pickles ++ later).map fun p => p.id).Nodup) :
    ∃ named' seenNames', NamedSoFar findLineageBy (pickles ++ later) named' seenNames' ∧
      ∀ p ∈ pickles, named'.find? p.id = named.find? p.id := by
  induction later generalizing pickles named seenNames with
  | nil =>
    rw [List.append_nil]
    exact ⟨named, seenNames, h, fun p _ => rfl⟩
  | cons p later ih =>
    have hsplit : pickles ++ p :: later = pickles ++ [p] ++ later := by simp
    rw [hsplit] at hids ⊢
    have hfresh : p.id ∉ pickles.map fun p => p.id := by
      rw [List.map_append, List.map_append, List.append_assoc, List.nodup_append] at hids
      exact fun hmem => hids.2.2 _ hmem _ List.mem_cons_self rfl
    obtain ⟨u,_,hconcat⟩ := h.concat hfresh
    obtain ⟨named',seenNames',h',hsame⟩ := ih hconcat hids
    refine ⟨named', seenNames', h', fun q hq => ?_⟩
    rw [hsame q (List.mem_append_left _ hq), h.find?_tryEmplace_of_mem hfresh hq]

theorem makeUniqueTestNames_eq (h : NamedSoFar findLineageBy pickles named seenNames) :
    makeUniqueTestNames findLineageBy pickles = some named := by
  unfold makeUniqueTestNames
  rw [h.run]
  rfl

variable (findLineageBy) in
theorem exists_of_nodup (hids : (pickles.map fun p => p.id).Nodup) :
    ∃ named seenNames, NamedSoFar findLineageBy pickles named seenNames := by
  have hnil : NamedSoFar findLineageBy [] Map.empty ∅ := nil
  rw [← List.nil_append pickles] at hids
  obtain ⟨named,seenNames,h,_⟩ := hnil.extend hids
  exact ⟨named, seenNames, h⟩

end NamedSoFar

/-- Every pickle has a name of its own, without tabs and line breaks. -/
structure Named (pickles : List ListedPickle) (uniqueNames : Map String Text) : Prop where
  named : ∀ p ∈ pickles, ∃ u, uniqueNames.find? p.id = some u ∧ SingleField u
  distinct : ∀ p ∈ pickles, ∀ q ∈ pickles,
    uniqueNames.find? p.id = uniqueNames.find? q.id → p.id = q.id

theorem NamedSoFar.named_pickles {pickles : List ListedPickle} {uniqueNames : Map String Text}
    {seenNames : Finset Text} (h : NamedSoFar findLineageBy pickles uniqueNames seenNames) :
    Named pickles uniqueNames where
  named := by
    intro p hp
    have hsome := (h.ids p.id).mpr (List.mem_map_of_mem (f := fun p : ListedPickle => p.id) hp)
    obtain ⟨u,hu⟩ := Option.isSome_iff_exists.mp hsome
    exact ⟨u, hu, (h.plain u ((h.seen u).mpr ⟨p, hp, hu⟩)).singleField⟩
  distinct := h.distinct

theorem exists_makeUniqueTestNames (findLineageBy : ListedPickle → Option Lineage)
    {pickles : List ListedPickle} (hids : (pickles.map fun p => p.id).Nodup) :
    ∃ uniqueNames, makeUniqueTestNames findLineageBy pickles = some uniqueNames ∧
      Named pickles uniqueNames := by
  obtain ⟨named,seenNames,h⟩ := NamedSoFar.exists_of_nodup findLineageBy hids
  exact ⟨named, h.makeUniqueTestNames_eq, h.named_pickles⟩

/-- The names that some pickles have. -/
def takenBy (uniqueNames : Map String Text) (pickles : List ListedPickle) : Set Text :=
  {u | ∃ p ∈ pickles, uniqueNames.find? p.id = some u}

/-- What the names of the loaded pickles are. -/
structure UniquelyNamed (findLineageBy : ListedPickle → Option Lineage)
    (pickles : List ListedPickle) (uniqueNames : Map String Text) : Prop where
  ids : ∀ id, (uniqueNames.find? id).isSome ↔ id ∈ pickles.map fun p => p.id
  distinct : ∀ p ∈ pickles, ∀ q ∈ pickles,
    uniqueNames.find? p.id = uniqueNames.find? q.id → p.id = q.id
  firstFree : ∀ earlier p later, pickles = earlier ++ p :: later →
    ∃ u, uniqueNames.find? p.id = some u ∧
      FirstFree (takenBy uniqueNames earlier) (getHierarchicalTestName findLineageBy p) u
  ofPrefix : ∀ earlier later, pickles = earlier ++ later →
    ∃ names, makeUniqueTestNames findLineageBy earlier = some names ∧
      ∀ p ∈ earlier, names.find? p.id = uniqueNames.find? p.id
  plain : ∀ id u, uniqueNames.find? id = some u → Plain u

namespace NamedSoFar

variable {pickles : List ListedPickle} {named : Map String Text} {seenNames : Finset Text}

theorem takenBy_eq (h : NamedSoFar findLineageBy pickles named seenNames) :
    takenBy named pickles = seenNames := by
  ext u
  exact (h.seen u).symm

theorem firstFree (h : NamedSoFar findLineageBy pickles named seenNames)
    (hids : (pickles.map fun p => p.id).Nodup) {earlier later : List ListedPickle}
    {p : ListedPickle} (hsplit : pickles = earlier ++ p :: later) :
    ∃ u, named.find? p.id = some u ∧
      FirstFree (takenBy named earlier) (getHierarchicalTestName findLineageBy p) u := by
  subst hsplit
  have hids' := hids
  rw [List.map_append, List.nodup_append] at hids'
  obtain ⟨hearlier,_,hdisjoint⟩ := hids'
  have hfresh : p.id ∉ earlier.map fun p => p.id :=
    fun hmem => hdisjoint _ hmem _ List.mem_cons_self rfl
  -- the names are followed from the earlier pickles over `p` to all of them
  obtain ⟨before,seenBefore,hbefore⟩ := exists_of_nodup findLineageBy hearlier
  obtain ⟨u,hfree,hconcat⟩ := hbefore.concat hfresh
  rw [show earlier ++ p :: later = earlier ++ [p] ++ later by simp] at h hids
  obtain ⟨named',seenNames',h',hsame⟩ := hconcat.extend hids
  obtain rfl : named' = named := by
    exact Option.some.inj (h'.makeUniqueTestNames_eq.symm.trans h.makeUniqueTestNames_eq)
  have hu : named'.find? p.id = some u := by
    rw [hsame p (List.mem_append_right _ List.mem_cons_self), hbefore.find?_tryEmplace hfresh,
      if_pos rfl]
  have htaken : takenBy named' earlier = takenBy before earlier := by
    ext v
    refine exists_congr fun q => and_congr_right fun hq => ?_
    rw [hsame q (List.mem_append_left _ hq), hbefore.find?_tryEmplace_of_mem hfresh hq]
  refine ⟨u, hu, ?_⟩
  rwa [htaken, hbefore.takenBy_eq]

theorem ofPrefix (h : NamedSoFar findLineageBy pickles named seenNames)
    (hids : (pickles.map fun p => p.id).Nodup) {earlier later : List ListedPickle}
    (hsplit : pickles = earlier ++ later) :
    ∃ names, makeUniqueTestNames findLineageBy earlier = some names ∧
      ∀ p ∈ earlier, names.find? p.id = named.find? p.id := by
  subst hsplit
  have hearlier := hids
  rw [List.map_append, List.nodup_append] at hearlier
  obtain ⟨before,seenBefore,hbefore⟩ := exists_of_nodup findLineageBy hearlier.1
  obtain ⟨named',seenNames',h',hsame⟩ := hbefore.extend hids
  obtain rfl : named' = named := by
    exact Option.some.inj (h'.makeUniqueTestNames_eq.symm.trans h.makeUniqueTestNames_eq)
  exact ⟨before, hbefore.makeUniqueTestNames_eq, fun p hp => (hsame p hp).symm⟩

end NamedSoFar

/-- Every pickle gets the first free form of its hierarchical name. -/
theorem uniqueTestNames_exact (findLineageBy : ListedPickle → Option Lineage)
    {pickles : List ListedPickle} (hids : (pickles.map fun p => p.id).Nodup) :
    ∃ uniqueNames, makeUniqueTestNames findLineageBy pickles = some uniqueNames ∧
      UniquelyNamed findLineageBy pickles uniqueNames := by
  obtain ⟨named,seenNames,h⟩ := NamedSoFar.exists_of_nodup findLineageBy hids
  refine ⟨named, h.makeUniqueTestNames_eq, h.ids, h.distinct, ?_, ?_, ?_⟩
  · intro earlier p later hsplit
    exact h.firstFree hids hsplit
  · intro earlier later hsplit
    exact h.ofPrefix hids hsplit
  · intro id u hu
    have hid := (h.ids id).mp (by rw [hu]; rfl)
    obtain ⟨p,hp,rfl⟩ := List.mem_map.mp hid
    exact h.plain u ((h.seen u).mpr ⟨p, hp, hu⟩)

/-- Three scenarios without a lineage, of which one is named like a numbered form. -/
def lookAlikes : List ListedPickle :=
  [{ id := "1", name := "S", steps := [], tags := [], uri := "a.feature", location := some 2 },
   { id := "2", name := "S.#2", steps := [], tags := [], uri := "a.feature", location := some 4 },
   { id := "3", name := "S", steps := [], tags := [], uri := "a.feature", location := some 6 }]

theorem uniqueTestNames_exact_lookAlikes :
    ∃ uniqueNames, makeUniqueTestNames (fun _ => none) lookAlikes = some uniqueNames ∧
      UniquelyNamed (fun _ => none) lookAlikes uniqueNames :=
  uniqueTestNames_exact (fun _ => none) (by decide)

example : (makeUniqueTestNames (fun _ => none) lookAlikes).map (fun names => names.values) =
    some ["S".toList, "S.#2".toList, "S.#3".toList] := by decide

end Names

end Api

end CucumberCpp
