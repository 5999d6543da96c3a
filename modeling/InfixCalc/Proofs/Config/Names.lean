import Mathlib
import InfixCalc.Config.Environment

/-!
# Names of variables

A variable concerns a setting if its name, without the prefix, is the setting's key or a dotted path
below it.

Main statement: the path of a variable is that of the keys to which its name leads
(`path?_eq_some_iff`).
-/

namespace InfixCalc

namespace Config

/-! ## Names -/

/-- A variable's name leads to keys behind some letters: without the blanks at its ends, these
letters in any case and the blanks behind them, it is in lower case the keys with dots between them,
none of them empty. -/
def LeadsTo (start : List Char) (name : String) (keys : List (List Char)) : Prop :=
  ∃ first rest, Text.trim name.toList = first ++ rest ∧ lower first = lower start
    ∧ lower (Text.trim rest) = ['.'].intercalate keys ∧ keys ≠ []
    ∧ ∀ key ∈ keys, key ≠ [] ∧ '.' ∉ key

/-- A variable concerns a setting: its name leads to the setting's key, or below it. -/
def Concerns (name : String) (f : Field) : Prop :=
  ∃ below, LeadsTo variablePrefix.toList name (f.key.toList :: below)

/-- A variable is named for a setting: its name leads to the setting's key, without any dots. -/
def NamedFor (name : String) (f : Field) : Prop :=
  LeadsTo variablePrefix.toList name [f.key.toList]

/-- No dot stands in a part between dots. -/
theorem dot_notMem_of_mem_parts {text key : List Char} (h : key ∈ parts text) : '.' ∉ key := by
  induction text generalizing key with
  | nil =>
      obtain rfl : key = [] := by simpa [parts] using h
      exact List.not_mem_nil
  | cons c text ih =>
      rw [parts, List.splitOn_cons_eq_if_modifyHead] at h
      split at h
      · rcases List.mem_cons.1 h with rfl | h
        · exact List.not_mem_nil
        · exact ih h
      · next hc =>
        obtain ⟨part, more, hparts⟩ := List.exists_cons_of_ne_nil (List.splitOn_ne_nil '.' text)
        rw [hparts, List.modifyHead_cons] at h
        rcases List.mem_cons.1 h with rfl | h
        · have hpart : '.' ∉ part := ih (by rw [parts, hparts]; exact List.mem_cons_self)
          have hne : '.' ≠ c := by
            rintro rfl
            exact hc (by decide)
          simp [hne, hpart]
        · exact ih (by rw [parts, hparts]; exact List.mem_cons_of_mem _ h)

/-- Between its parts a text has dots. -/
theorem parts_eq_iff {text : List Char} {keys : List (List Char)} :
    parts text = keys ↔ text = ['.'].intercalate keys ∧ keys ≠ [] ∧ ∀ key ∈ keys, '.' ∉ key := by
  constructor
  · rintro rfl
    exact ⟨(List.intercalate_splitOn '.').symm, List.splitOn_ne_nil '.' text,
      fun key => dot_notMem_of_mem_parts⟩
  · rintro ⟨rfl, hne, hdots⟩
    exact List.splitOn_intercalate '.' hdots hne

/-- Keys are the texts of a path just if they are its characters. -/
theorem map_ofList_eq_iff {keys : List (List Char)} {path : List String} :
    keys.map String.ofList = path ↔ keys = path.map String.toList := by
  constructor
  · rintro rfl
    simp [Function.comp_def]
  · rintro rfl
    simp [Function.comp_def]

/-- The path of a variable is that of the keys to which its name leads. -/
theorem path?_eq_some_iff {start : List Char} {name : String} {path : List String} :
    path? start name = some path ↔ LeadsTo start name (path.map String.toList) := by
  have hempty : ∀ keys : List (List Char), ¬ keys.any List.isEmpty = true
      ↔ ∀ key ∈ keys, key ≠ [] := by
    simp only [List.any_eq_true, List.isEmpty_iff, not_exists, not_and, ne_eq, implies_true]
  constructor
  · intro h
    simp only [path?] at h
    split at h
    · next hprefix =>
      split at h
      · cases h
      · next hnone =>
        have hkeys := map_ofList_eq_iff.1 (Option.some.inj h)
        obtain ⟨hjoin, hne, hdots⟩ := parts_eq_iff.1 hkeys
        rw [hkeys, hempty] at hnone
        exact ⟨_, _, (List.take_append_drop _ _).symm, hprefix, hjoin, hne,
          fun key hkey => ⟨hnone key hkey, hdots key hkey⟩⟩
    · cases h
  · rintro ⟨first, rest, htrim, hfirst, hjoin, hne, hparts⟩
    have hlength : start.length = first.length := by
      have := congrArg List.length hfirst
      simpa [lower] using this.symm
    have hkeys : parts (lower (Text.trim rest)) = path.map String.toList :=
      parts_eq_iff.2 ⟨hjoin, hne, fun key hkey => (hparts key hkey).2⟩
    have hnone := (hempty (path.map String.toList)).2 fun key hkey => (hparts key hkey).1
    simp only [path?, htrim, hlength, List.take_left, List.drop_left, if_pos hfirst, hkeys,
      if_neg hnone]
    rw [map_ofList_eq_iff.2 rfl]

/-- The keys to which a name leads are its path. -/
theorem LeadsTo.path?_eq {start : List Char} {name : String} {keys : List (List Char)}
    (h : LeadsTo start name keys) : path? start name = some (keys.map String.ofList) :=
  path?_eq_some_iff.2 (map_ofList_eq_iff.1 rfl ▸ h)

/-- A name that leads to no keys has no path. -/
theorem path?_eq_none_iff {start : List Char} {name : String} :
    path? start name = none ↔ ∀ keys, ¬ LeadsTo start name keys := by
  constructor
  · intro h keys hkeys
    rw [hkeys.path?_eq] at h
    cases h
  · intro h
    exact Option.eq_none_iff_forall_ne_some.2 fun path hpath => h _ (path?_eq_some_iff.1 hpath)

/-- A setting is concerned by the variables whose paths begin with its key. -/
theorem concerns_iff {name : String} {f : Field} :
    Concerns name f ↔ ∃ below, path? variablePrefix.toList name = some (f.key :: below) := by
  constructor
  · rintro ⟨below, h⟩
    refine ⟨below.map String.ofList, path?_eq_some_iff.2 ?_⟩
    simpa [Function.comp_def] using h
  · rintro ⟨below, h⟩
    exact ⟨below.map String.toList, path?_eq_some_iff.1 h⟩

/-- A variable is named for a setting if its path is the setting's key. -/
theorem namedFor_iff {name : String} {f : Field} :
    NamedFor name f ↔ path? variablePrefix.toList name = some [f.key] := by
  rw [path?_eq_some_iff]
  rfl

instance (name : String) (f : Field) : Decidable (NamedFor name f) :=
  decidable_of_iff _ namedFor_iff.symm

instance (name : String) (f : Field) : Decidable (Concerns name f) :=
  decidable_of_iff ((path? variablePrefix.toList name).bind List.head? = some f.key) <| by
    rw [concerns_iff]
    simp [Option.bind_eq_some_iff, List.head?_eq_some_iff]

end Config

end InfixCalc
