import Conform.Options

/-! Options that agree apart from some keys. How failures are collected, which way keys are searched and what becomes
    of the keys of no field says nothing about single values, so what is done to a value under two options is the
    same as soon as they agree in the rest. -/

namespace Conform.Options

/-! ### Options without some keys -/

/-- The options without a word on whether, and how many, failures are collected. -/
def withoutCollecting (o : Options) : Options := { o with collectErrors := none, maxErrors := none }

/-- The options without a word on the search for keys. -/
def withoutSearch (o : Options) : Options := { o with dataFirstSearch := none }

/-- The options without a word on the keys of no field. -/
def withoutAddition (o : Options) : Options := { o with addition := none }

/-- The options without a word on any of these. -/
def core (o : Options) : Options := o.withoutCollecting.withoutSearch.withoutAddition

theorem core_of_withoutCollecting {o p : Options} (h : o.withoutCollecting = p.withoutCollecting) : o.core = p.core :=
  congrArg (fun o => o.withoutSearch.withoutAddition) h

theorem core_of_withoutSearch {o p : Options} (h : o.withoutSearch = p.withoutSearch) : o.core = p.core :=
  congrArg (fun o => o.withoutCollecting.withoutAddition) h

theorem core_of_withoutAddition {o p : Options} (h : o.withoutAddition = p.withoutAddition) : o.core = p.core :=
  congrArg (fun o => o.withoutCollecting.withoutSearch) h

/-! ### Merging -/

theorem withoutCollecting_merge (o p : Options) :
    (o.merge p).withoutCollecting = o.withoutCollecting.merge p.withoutCollecting := by
  cases h : p.overriding <;> simp [merge, withoutCollecting, h]

theorem withoutSearch_merge (o p : Options) : (o.merge p).withoutSearch = o.withoutSearch.merge p.withoutSearch := by
  cases h : p.overriding <;> simp [merge, withoutSearch, h]

theorem merge_withoutCollecting_congr {o p : Options} (h : o.withoutCollecting = p.withoutCollecting) (e : Options) :
    (o.merge e).withoutCollecting = (p.merge e).withoutCollecting := by
  rw [withoutCollecting_merge, h, withoutCollecting_merge]

theorem merge_right_withoutCollecting_congr (e : Options) {o p : Options}
    (h : o.withoutCollecting = p.withoutCollecting) : (e.merge o).withoutCollecting = (e.merge p).withoutCollecting := by
  rw [withoutCollecting_merge, h, withoutCollecting_merge]

theorem merge_withoutSearch_congr {o p : Options} (h : o.withoutSearch = p.withoutSearch) (e : Options) :
    (o.merge e).withoutSearch = (p.merge e).withoutSearch := by
  rw [withoutSearch_merge, h, withoutSearch_merge]

theorem merge_right_withoutSearch_congr (e : Options) {o p : Options} (h : o.withoutSearch = p.withoutSearch) :
    (e.merge o).withoutSearch = (e.merge p).withoutSearch := by
  rw [withoutSearch_merge, h, withoutSearch_merge]

theorem withoutAddition_merge (o p : Options) :
    (o.merge p).withoutAddition = o.withoutAddition.merge p.withoutAddition := by
  cases h : p.overriding <;> simp [merge, withoutAddition, h]

theorem merge_withoutAddition_congr {o p : Options} (h : o.withoutAddition = p.withoutAddition) (e : Options) :
    (o.merge e).withoutAddition = (p.merge e).withoutAddition := by
  rw [withoutAddition_merge, h, withoutAddition_merge]

theorem merge_right_withoutAddition_congr (e : Options) {o p : Options} (h : o.withoutAddition = p.withoutAddition) :
    (e.merge o).withoutAddition = (e.merge p).withoutAddition := by
  rw [withoutAddition_merge, h, withoutAddition_merge]

/-! ### What the core decides -/

/-- Whatever is read off the core of options is the same for options of one core. -/
theorem eq_of_core {γ : Type} (read : Options → γ) (hread : ∀ o, read o.core = read o) {o p : Options}
    (h : o.core = p.core) : read o = read p := by
  rw [← hread o, h, hread p]

/-! ### Runs in step -/

/-- What two runs may differ in and go through the same steps all the same: options that are the same once it is erased
    agree in what they say about values and about how failures are collected. -/
structure Erasure where
  erase : Options → Options
  core_of {o p : Options} : erase o = erase p → o.core = p.core
  merge_congr {o p : Options} (e : Options) : erase o = erase p → erase (o.merge e) = erase (p.merge e)
  collects (o : Options) : (erase o).collects = o.collects
  maxErrors (o : Options) : (erase o).maxErrors = o.maxErrors

namespace Erasure

/-- The search for keys. -/
def search : Erasure :=
  ⟨withoutSearch, core_of_withoutSearch, fun e h => merge_withoutSearch_congr h e, fun _ => rfl, fun _ => rfl⟩

/-- What becomes of the keys of no field. -/
def addition : Erasure :=
  ⟨withoutAddition, core_of_withoutAddition, fun e h => merge_withoutAddition_congr h e, fun _ => rfl, fun _ => rfl⟩

end Erasure

end Conform.Options
