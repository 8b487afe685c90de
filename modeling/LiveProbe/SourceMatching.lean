/-
LiveProbe/SourceMatching.lean

Which files a class of the target is taken for: `SourceResolver.matches`.

The paths that a class reports decide by whole components.  When none of them
answers, the code goes on with the source names, as it does for a class that
reports no paths, and a bare name is the end of every path of that name.  So the
answer is that of the paths exactly when the names do not add to it
(`matches_paths_iff`).
-/
import LiveProbe.JvmProbes
import LiveProbe.PathSuffix

open JsString

namespace JvmBridge.SourceResolver

/-- The components of a path. -/
def components (path : JsString) : List JsString := path.splitOn 0x2F

/-- One path ends with the other, component by component, in the spelling of `normalize`. -/
def Compatible (known requested : JsString) : Prop :=
  components (normalize known) <:+ components (normalize requested) ∨
    components (normalize requested) <:+ components (normalize known)

theorem suffixMatches_iff (known requested : JsString) :
    suffixMatches known requested = true ↔
      components known <:+ components requested ∨ components requested <:+ components known := by
  rw [components, components, List.splitOn_suffix_iff, List.splitOn_suffix_iff, suffixMatches, Bool.or_eq_true,
    Bool.or_eq_true, decide_eq_true_eq, List.isSuffixOf_iff_suffix, List.isSuffixOf_iff_suffix]
  constructor
  · rintro ((heq | hknown) | hrequested)
    · exact .inl (.inl heq)
    · exact .inr (.inr hknown)
    · exact .inl (.inr hrequested)
  · rintro ((heq | hrequested) | (heq | hknown))
    · exact .inl (.inl heq)
    · exact .inr hrequested
    · exact .inl (.inl heq.symm)
    · exact .inl (.inr hknown)

/-- What `matches` asks of the paths, and of the names. -/
theorem any_suffixMatches_iff (known : List JsString) (requested : JsString) :
    (known.any fun k => suffixMatches (normalize k) (normalize requested)) = true ↔
      ∃ k ∈ known, Compatible k requested := by
  rw [List.any_eq_true]
  exact exists_congr fun k => and_congr_right fun _ => suffixMatches_iff (normalize k) (normalize requested)

/-- A class that reports paths matches by one of them, or by one of its names. -/
theorem matchesType_eq_true_iff {type : ReferenceType} {paths : List JsString} (h : type.sourcePaths = .ok paths)
    (requested : JsString) :
    matchesType type requested = some true ↔ (∃ path ∈ paths, Compatible path requested) ∨
      ∃ names, type.sourceNames = .ok names ∧ ∃ name ∈ names, Compatible name requested := by
  rw [← any_suffixMatches_iff, matchesType, h]
  simp only
  cases hpaths : paths.any fun k => suffixMatches (normalize k) (normalize requested) with
  | true => simp
  | false =>
    rw [if_neg Bool.false_ne_true, or_iff_right Bool.false_ne_true]
    cases type.sourceNames with
    | ok names =>
      simp only [Option.some.injEq, any_suffixMatches_iff]
      constructor
      · exact fun hname => ⟨names, rfl, hname⟩
      · rintro ⟨_, ⟨rfl⟩, hname⟩
        exact hname
    | absent => simp
    | fails => simp

/-- A class matches by its paths alone exactly when no name answers where no path does. -/
theorem matches_paths_iff {type : ReferenceType} {paths : List JsString} (h : type.sourcePaths = .ok paths)
    (requested : JsString) :
    (matchesType type requested = some true → ∃ path ∈ paths, Compatible path requested) ↔
      (∃ path ∈ paths, Compatible path requested) ∨
        ∀ names, type.sourceNames = .ok names → ∀ name ∈ names, ¬ Compatible name requested := by
  rw [matchesType_eq_true_iff h]
  constructor
  · intro hsound
    by_cases hpath : ∃ path ∈ paths, Compatible path requested
    · exact .inl hpath
    · exact .inr fun names hnames name hname hcompatible =>
        hpath (hsound (.inr ⟨names, hnames, name, hname, hcompatible⟩))
  · rintro (hpath | hnames) hmatch
    · exact hpath
    · rcases hmatch with hpath | ⟨names, hsource, name, hname, hcompatible⟩
      · exact hpath
      · exact absurd hcompatible (hnames names hsource name hname)

namespace Sample

/-- A class of one package, as the debug interface reports it. -/
def reported : ReferenceType where
  prepared := true
  sourcePaths := .ok [js "com/shop/Order.java"]
  sourceNames := .ok [js "Order.java"]
  locationsOfLine _ := .absent

/-- The file of the same name in another package. -/
def otherFile : JsString := js "com/billing/Order.java"

theorem matches_own_file :
    (matchesType reported (js "src/com/shop/Order.java") = some true →
      ∃ path ∈ [js "com/shop/Order.java"], Compatible path (js "src/com/shop/Order.java")) ↔
    (∃ path ∈ [js "com/shop/Order.java"], Compatible path (js "src/com/shop/Order.java")) ∨
      ∀ names, reported.sourceNames = .ok names → ∀ name ∈ names, ¬ Compatible name (js "src/com/shop/Order.java") :=
  matches_paths_iff rfl _

theorem matchesType_otherFile : matchesType reported otherFile = some true := by decide

theorem not_compatible_otherFile : ¬ Compatible (js "com/shop/Order.java") otherFile := by
  rw [Compatible]
  decide

/-- The bare name takes the class for the file of another package. -/
theorem crosses_packages : ¬ ∀ type paths requested, ReferenceType.sourcePaths type = .ok paths → paths ≠ [] →
    matchesType type requested = some true → ∃ path ∈ paths, Compatible path requested := by
  intro h
  obtain ⟨path, hpath, hcompatible⟩ := h reported _ otherFile rfl (List.cons_ne_nil _ _) matchesType_otherFile
  rw [List.mem_singleton.mp hpath] at hcompatible
  exact not_compatible_otherFile hcompatible

end Sample

end JvmBridge.SourceResolver
