import Chunkwise.Proofs.Keyed
import Chunkwise.Proofs.Reference.CallSites
import Chunkwise.Proofs.Reference.Files

/-!
# Calls that name their file

A call is followed if one file alone defines the function, however often, and if that is not the calling file. So the
calls that are recorded are those whose name tells where it leads, one for each caller and function.
-/

namespace Chunkwise.Reference

variable {files : List SourceFile} {outlines : Keyed Outline} {minLength : ℤ} {s t : SourceFile} {name : Text}
  {r : FileReference}

/-! ## What is found once -/

section Filtering

variable {α : Type} {p : α → Bool} {l : List α} {a : α}

theorem filter_eq_singleton (nodup : l.Nodup) (member : a ∈ l) (holds : p a) (alone : ∀ b ∈ l, p b → b = a) :
    l.filter p = [a] := by
  have copies : l.filter p = List.replicate (l.filter p).length a :=
    List.eq_replicate_iff.mpr ⟨rfl, fun b found => alone b (List.mem_filter.mp found).1 (List.mem_filter.mp found).2⟩
  have atMost : (l.filter p).length ≤ 1 := by
    have once := nodup.filter p
    rwa [copies, List.nodup_replicate] at once
  have atLeast : 0 < (l.filter p).length := List.length_pos_of_mem (List.mem_filter.mpr ⟨member, holds⟩)
  rw [copies, show (l.filter p).length = 1 by omega, List.replicate_one]

theorem filter_eq_singleton_iff (nodup : l.Nodup) :
    l.filter p = [a] ↔ a ∈ l ∧ p a ∧ ∀ b ∈ l, p b → b = a := by
  constructor
  · intro is
    have found : ∀ b, b ∈ l ∧ p b ↔ b = a := fun b => by rw [← List.mem_filter, is, List.mem_singleton]
    obtain ⟨member, holds⟩ := (found a).mpr rfl
    exact ⟨member, holds, fun b other holds' => (found b).mp ⟨other, holds'⟩⟩
  · rintro ⟨member, holds, alone⟩
    exact filter_eq_singleton nodup member holds alone

end Filtering

/-! ## The file that a name leads to -/

/-- Of all files only `t` defines a function of this name. -/
structure DefinedOnlyIn (files : List SourceFile) (outlines : Keyed Outline) (t : SourceFile) (name : Text) : Prop where
  defined : name ∈ functionNames (outlines.get? t.key)
  alone : ∀ g ∈ files, name ∈ functionNames (outlines.get? g.key) → g = t

/-- Calls of a name are followed: it is long enough and does not both begin and end with two underscores. -/
structure Trackable (minLength : ℤ) (name : Text) : Prop where
  long : minLength ≤ name.length
  plain : ¬ ("__".toList <+: name ∧ "__".toList <:+ name)

theorem isTrackable_iff : isTrackable minLength name ↔ Trackable minLength name := by
  simp only [isTrackable, Bool.and_eq_true, decide_eq_true_eq, Bool.not_eq_true', Bool.eq_false_iff, ne_eq,
    List.isPrefixOf_iff_prefix, List.isSuffixOf_iff_suffix]
  exact ⟨fun ⟨long, plain⟩ => ⟨long, plain⟩, fun ⟨long, plain⟩ => ⟨long, plain⟩⟩

theorem eq_of_key_eq (distinct : (files.map (·.key)).Nodup) (hs : s ∈ files) (ht : t ∈ files) (same : s.key = t.key) :
    s = t := List.inj_on_of_nodup_map distinct hs ht same

theorem definers_eq_singleton_iff (distinct : (files.map (·.key)).Nodup) {key : Text} :
    definers files outlines name = [key] ↔ ∃ t ∈ files, t.key = key ∧ DefinedOnlyIn files outlines t name := by
  simp only [definers, List.map_eq_singleton_iff, filter_eq_singleton_iff (List.Nodup.of_map _ distinct),
    List.contains_iff_mem]
  constructor
  · rintro ⟨t, ⟨member, defined, alone⟩, named⟩
    exact ⟨t, member, named, defined, alone⟩
  · rintro ⟨t, member, named, defined, alone⟩
    exact ⟨t, ⟨member, defined, alone⟩, named⟩

theorem definer?_eq_some_iff (distinct : (files.map (·.key)).Nodup) {key : Text} :
    definer? files outlines minLength name = some key ↔
      Trackable minLength name ∧ ∃ t ∈ files, t.key = key ∧ DefinedOnlyIn files outlines t name := by
  rw [← isTrackable_iff, ← definers_eq_singleton_iff distinct]
  unfold definer?
  by_cases trackable : isTrackable minLength name
  · rw [if_pos trackable]
    constructor
    · intro found
      split at found
      · rename_i only is
        cases found
        exact ⟨trackable, is⟩
      · cases found
    · rintro ⟨-, is⟩
      rw [is]
  · simp [trackable]

/-! ## The calls of one file -/

/-- `s` calls a function that `t` alone defines. -/
structure CallsTo (files : List SourceFile) (outlines : Keyed Outline) (minLength : ℤ) (s t : SourceFile)
    (name : Text) : Prop where
  other : s ≠ t
  only : DefinedOnlyIn files outlines t name
  trackable : Trackable minLength name
  called : CallSite none s.content name

/-- What is recorded of a call. -/
def callReference (s t : SourceFile) (name : Text) : FileReference :=
  { kind := some .calling, source := s.key, target := t.key, function := some name }

theorem follow?_iff_of_nodup (distinct : (files.map (·.key)).Nodup) (hs : s ∈ files) :
    follow? files outlines minLength s name = some r ↔
      ∃ t ∈ files, s ≠ t ∧ DefinedOnlyIn files outlines t name ∧ Trackable minLength name ∧
        r = callReference s t name := by
  rw [follow?_eq_some_iff, definer?_eq_some_iff distinct]
  constructor
  · rintro ⟨⟨trackable, t, ht, named, only⟩, other, -, is⟩
    refine ⟨t, ht, ?_, only, trackable, ?_⟩
    · rintro rfl
      exact other named.symm
    · rwa [← named] at is
  · rintro ⟨t, ht, other, only, trackable, rfl⟩
    refine ⟨⟨trackable, t, ht, rfl, only⟩, fun same => ?_, fun own => ?_, rfl⟩
    · exact other (eq_of_key_eq distinct hs ht same.symm)
    · exact other (only.alone s hs own)

/-- A file refers by calls to what it calls in other files. -/
theorem mem_callReferences_iff (distinct : (files.map (·.key)).Nodup) (hs : s ∈ files) :
    r ∈ callReferences files outlines minLength s ↔
      ∃ t ∈ files, ∃ name, CallsTo files outlines minLength s t name ∧ r = callReference s t name := by
  simp only [mem_callReferences, mem_calledNames_iff, follow?_iff_of_nodup distinct hs]
  constructor
  · rintro ⟨name, called, t, ht, other, only, trackable, rfl⟩
    exact ⟨t, ht, name, ⟨other, only, trackable, called⟩, rfl⟩
  · rintro ⟨t, ht, name, ⟨other, only, trackable, called⟩, rfl⟩
    exact ⟨name, called, t, ht, other, only, trackable, rfl⟩

theorem function_of_follow? (followed : follow? files outlines minLength s name = some r) : r.function = some name := by
  obtain ⟨-, -, -, is⟩ := follow?_eq_some_iff.mp followed
  rw [is]

/-- The calls of a file are in alphabetical order of the functions. -/
theorem pairwise_callReferences (files : List SourceFile) (outlines : Keyed Outline) (minLength : ℤ) (s : SourceFile) :
    (callReferences files outlines minLength s).Pairwise fun a b =>
      ∀ m ∈ a.function, ∀ n ∈ b.function, Text.Before m n := by
  rw [callReferences_eq, List.pairwise_filterMap]
  refine (Text.pairwise_before _).imp fun {m n} before a first b second m' named n' named' => ?_
  rw [function_of_follow? first] at named
  rw [function_of_follow? second] at named'
  cases named
  cases named'
  exact before

theorem nodup_callReferences (files : List SourceFile) (outlines : Keyed Outline) (minLength : ℤ) (s : SourceFile) :
    (callReferences files outlines minLength s).Nodup := by
  have names : ((calledNames s.content).eraseDups.mergeSort Text.le).Nodup :=
    (List.mergeSort_perm ..).nodup_iff.mpr (nodup_eraseDups _)
  refine names.filterMap fun m n r first second => ?_
  exact Option.some.inj ((function_of_follow? first).symm.trans (function_of_follow? second))

/-! ## The references of all files -/

theorem not_mem_keys_of_nodup {m : Keyed (List FileReference)} {f : SourceFile}
    (distinct : (m.keys ++ (f :: files).map (·.key)).Nodup) : f.key ∉ m.keys := fun known =>
  (List.nodup_append.mp distinct).2.2 _ known _ List.mem_cons_self rfl

/-- Each file's references are put behind those of the files before. -/
theorem foldl_append_new (made : SourceFile → List FileReference) (m : Keyed (List FileReference))
    (distinct : (m.keys ++ files.map (·.key)).Nodup) :
    files.foldl (fun m f => append m f.key (made f)) m = m ++ files.map fun f => (f.key, made f) := by
  induction files generalizing m with
  | nil => simp
  | cons f rest ih =>
    have here : append m f.key (made f) = m ++ [(f.key, made f)] :=
      Keyed.update_of_not_mem (not_mem_keys_of_nodup distinct) _
    rw [List.foldl_cons, here, ih]
    · simp
    · simpa [Keyed.keys] using distinct

/-- More references of each file come behind those that are there. -/
theorem foldl_append_known (before made : SourceFile → List FileReference) (m : Keyed (List FileReference))
    (distinct : (m.keys ++ files.map (·.key)).Nodup) :
    files.foldl (fun m f => append m f.key (made f)) (m ++ files.map fun f => (f.key, before f)) =
      m ++ files.map fun f => (f.key, before f ++ made f) := by
  induction files generalizing m with
  | nil => simp
  | cons f rest ih =>
    have here : append (m ++ (f :: rest).map fun f => (f.key, before f)) f.key (made f) =
        (m ++ [(f.key, before f ++ made f)]) ++ rest.map fun f => (f.key, before f) := by
      rw [append, Keyed.update_append (not_mem_keys_of_nodup distinct), List.map_cons, Keyed.update, if_pos (by simp)]
      simp
    rw [List.foldl_cons, here, ih]
    · simp
    · simpa [Keyed.keys] using distinct

/-- With different keys every file has one entry, its imports and then its calls. -/
theorem ofFiles_eq_map (outlines : Keyed Outline) (minLength : ℤ) (distinct : (files.map (·.key)).Nodup) :
    ofFiles files outlines minLength =
      files.map fun f => (f.key, importReferences files outlines f ++ callReferences files outlines minLength f) := by
  have imports := foldl_append_new (importReferences files outlines) [] distinct
  have calls := foldl_append_known (importReferences files outlines) (callReferences files outlines minLength) [] distinct
  rw [ofFiles]
  simp only [List.nil_append] at imports calls
  rw [imports, calls]

theorem get?_ofFiles (outlines : Keyed Outline) (minLength : ℤ) (distinct : (files.map (·.key)).Nodup) (hs : s ∈ files) :
    (ofFiles files outlines minLength).get? s.key =
      some (importReferences files outlines s ++ callReferences files outlines minLength s) := by
  rw [ofFiles_eq_map outlines minLength distinct]
  exact Keyed.get?_of_mem (by simpa [Keyed.keys, Function.comp_def] using distinct) (List.mem_map.mpr ⟨s, hs, rfl⟩)

/-- Whether a reference is a call of `name` from one file to another. -/
def isCall (s t : SourceFile) (name : Text) (r : FileReference) : Bool :=
  r.kind == some .calling && r.source == s.key && r.target == t.key && r.function == some name

theorem isCall_callReference_iff {s' t' : SourceFile} {name' : Text} :
    isCall s t name (callReference s' t' name') ↔ s'.key = s.key ∧ t'.key = t.key ∧ name' = name := by
  simp [isCall, callReference, and_assoc]

/-- No import is a call. -/
theorem filter_isCall_ofFiles (outlines : Keyed Outline) (minLength : ℤ) (distinct : (files.map (·.key)).Nodup)
    (s t : SourceFile) (name : Text) :
    ((ofFiles files outlines minLength).flatMap (·.2)).filter (isCall s t name) =
      (files.flatMap (callReferences files outlines minLength)).filter (isCall s t name) := by
  have imports : ∀ f, (importReferences files outlines f).filter (isCall s t name) = [] := by
    intro f
    refine List.filter_eq_nil_iff.mpr fun r member => ?_
    simp [isCall, kind_of_mem_importReferences member]
  simp only [ofFiles_eq_map outlines minLength distinct, List.flatMap_map, List.filter_flatMap, List.filter_append,
    imports, List.nil_append]

theorem mem_flatMap_callReferences_iff (distinct : (files.map (·.key)).Nodup) :
    r ∈ files.flatMap (callReferences files outlines minLength) ↔
      ∃ s ∈ files, ∃ t ∈ files, ∃ name, CallsTo files outlines minLength s t name ∧ r = callReference s t name := by
  rw [List.mem_flatMap]
  exact exists_congr fun s => and_congr_right fun hs => mem_callReferences_iff distinct hs

/-- No call is recorded twice. -/
theorem nodup_flatMap_callReferences (outlines : Keyed Outline) (minLength : ℤ)
    (distinct : (files.map (·.key)).Nodup) : (files.flatMap (callReferences files outlines minLength)).Nodup := by
  refine List.nodup_flatMap.mpr ⟨fun s _ => nodup_callReferences files outlines minLength s, ?_⟩
  have apart : files.Pairwise fun s s' => s.key ≠ s'.key := List.pairwise_map.mp distinct
  refine apart.imp_of_mem fun {s s'} hs hs' differ => ?_
  intro r member member'
  obtain ⟨t, -, name, -, rfl⟩ := (mem_callReferences_iff distinct hs).mp member
  obtain ⟨t', -, name', -, same⟩ := (mem_callReferences_iff distinct hs').mp member'
  exact differ (congrArg FileReference.source same)

/-- Among the references of files with different keys there is a call of a function by one file in another just if the
    one calls it and the other alone defines it, and it is there once. Each file's imports come before its calls, and its
    calls are in alphabetical order of the functions. -/
theorem ofFiles_calls_exact (files : List SourceFile) (outlines : Keyed Outline) (minLength : ℤ)
    (distinct : (files.map (·.key)).Nodup) :
    (∀ s ∈ files, ∀ t ∈ files, ∀ name,
      (CallsTo files outlines minLength s t name →
        ((ofFiles files outlines minLength).flatMap (·.2)).filter (isCall s t name) = [callReference s t name]) ∧
      (¬ CallsTo files outlines minLength s t name →
        ((ofFiles files outlines minLength).flatMap (·.2)).filter (isCall s t name) = [])) ∧
    ∀ s ∈ files, ∃ imports calls, (ofFiles files outlines minLength).get? s.key = some (imports ++ calls) ∧
      (∀ r ∈ imports, r.kind = some .importing) ∧
      (∀ r ∈ calls, ∃ t ∈ files, ∃ name, CallsTo files outlines minLength s t name ∧ r = callReference s t name) ∧
      calls.Pairwise fun a b => ∀ m ∈ a.function, ∀ n ∈ b.function, Text.Before m n := by
  refine ⟨fun s hs t ht name => ?_, fun s hs => ?_⟩
  · rw [filter_isCall_ofFiles outlines minLength distinct]
    have only : ∀ r ∈ files.flatMap (callReferences files outlines minLength), isCall s t name r →
        CallsTo files outlines minLength s t name ∧ r = callReference s t name := by
      intro r member matching
      obtain ⟨s', hs', t', ht', name', calls, rfl⟩ := (mem_flatMap_callReferences_iff distinct).mp member
      obtain ⟨source, target, rfl⟩ := isCall_callReference_iff.mp matching
      obtain rfl := eq_of_key_eq distinct hs' hs source
      obtain rfl := eq_of_key_eq distinct ht' ht target
      exact ⟨calls, rfl⟩
    constructor
    · intro calls
      exact filter_eq_singleton (nodup_flatMap_callReferences outlines minLength distinct)
        ((mem_flatMap_callReferences_iff distinct).mpr ⟨s, hs, t, ht, name, calls, rfl⟩)
        (isCall_callReference_iff.mpr ⟨rfl, rfl, rfl⟩) fun r member matching => (only r member matching).2
    · intro calls
      exact List.filter_eq_nil_iff.mpr fun r member matching => calls (only r member matching).1
  · exact ⟨_, _, get?_ofFiles outlines minLength distinct hs, fun r => kind_of_mem_importReferences,
      fun r => (mem_callReferences_iff distinct hs).mp, pairwise_callReferences files outlines minLength s⟩

/-! A file that calls `load` and one that defines it, with a blank before the parenthesis. -/

def loading : SourceFile := ⟨"app.py".toList, "load (".toList, 0, 0, 0, "app.py".toList, []⟩

def loader : SourceFile := ⟨"io.py".toList, [], 0, 0, 0, "io.py".toList, []⟩

def loaderOutlines : Keyed Outline :=
  [("io.py".toList, ⟨"io.py".toList, .indented, .python, [⟨"load".toList, 1, .regular⟩], [], [], [], [], 0, 0⟩)]

theorem callsTo_loader : CallsTo [loading, loader] loaderOutlines 3 loading loader "load".toList where
  other := by decide
  only := ⟨by decide, by decide⟩
  trackable := isTrackable_iff.mp (by decide)
  called := mem_calledNames_iff.mp (by decide)

theorem ofFiles_calls_exact_loader :
    (([loading, loader].map (·.key)).Nodup ∧
      CallsTo [loading, loader] loaderOutlines 3 loading loader "load".toList ∧
      ¬ CallsTo [loading, loader] loaderOutlines 3 loader loading "load".toList) ∧
    ((ofFiles [loading, loader] loaderOutlines 3).flatMap (·.2)).filter (isCall loading loader "load".toList) =
      [callReference loading loader "load".toList] ∧
    ((ofFiles [loading, loader] loaderOutlines 3).flatMap (·.2)).filter (isCall loader loading "load".toList) = [] := by
  have distinct : ([loading, loader].map (·.key)).Nodup := by decide
  have back : ¬ CallsTo [loading, loader] loaderOutlines 3 loader loading "load".toList := fun calls =>
    absurd calls.only.defined (by decide)
  have each := (ofFiles_calls_exact [loading, loader] loaderOutlines 3 distinct).1
  refine ⟨⟨distinct, callsTo_loader, back⟩, ?_, ?_⟩
  · exact (each loading (by decide) loader (by decide) _).1 callsTo_loader
  · exact (each loader (by decide) loading (by decide) _).2 back

end Chunkwise.Reference
