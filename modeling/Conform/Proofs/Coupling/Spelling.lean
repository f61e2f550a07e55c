import Conform.Proofs.Coupling.Exact
import Conform.Proofs.Coupling.Sound
import Conform.Proofs.Value.Spelling

/-! Runs that agree up to the spelling of the values that constraints compare with. These show in failures, as do the texts of
    contained rules, and in what is warned of where a failure is passed over. All else is the same in both runs; in particular,
    a child in which nothing was found so far is, and whatever is run in one agrees with itself. -/

namespace Conform

/-! ### Failures -/

/-- Failures that say the same of equal values, and show equal rules. -/
inductive Failure.Agrees : Failure → Failure → Prop
  | refl (f : Failure) : Agrees f f
  | constraint {r : Route} {keyword : Keyword} {expected expected' v v' : Value} (hexpected : expected.Agrees expected')
      (hvalue : v.Agrees v') : Agrees (.constraint r keyword expected v) (.constraint r keyword expected' v')
  | contained {r : Route} {v : Value} {q s : Rule} (hsame : q.same s = true) :
      Agrees (.constraint r .contains (.str q.text) v) (.constraint r .contains (.str s.text) v)
  | noneMatched {r : Route} {v : Value} {fs gs : List Failure} (hlength : fs.length = gs.length)
      (hfs : ∀ p ∈ fs.zip gs, Agrees p.1 p.2) : Agrees (.noneMatched r v fs) (.noneMatched r v gs)
  | aggregate {fs gs : List Failure} (hlength : fs.length = gs.length) (hfs : ∀ p ∈ fs.zip gs, Agrees p.1 p.2) :
      Agrees (.aggregate fs) (.aggregate gs)

namespace Failure

variable {f g : Failure} {fs gs : List Failure}

theorem agree_refl (fs : List Failure) : List.Forall₂ Agrees fs fs := List.forall₂_same.mpr fun f _ => .refl f

theorem agree_flattenAll (h : List.Forall₂ (fun f g => List.Forall₂ Agrees f.flatten g.flatten) fs gs) :
    List.Forall₂ Agrees (flattenAll fs) (flattenAll gs) := by
  induction h with
  | nil => exact .nil
  | cons hfg _ ih => exact List.rel_append hfg ih

theorem Agrees.flatten (h : Agrees f g) : List.Forall₂ Agrees f.flatten g.flatten := by
  induction h with
  | refl f => exact agree_refl _
  | constraint hexpected hvalue => exact .cons (.constraint hexpected hvalue) .nil
  | contained hsame => exact .cons (.contained hsame) .nil
  | noneMatched hlength hfs => exact .cons (.noneMatched hlength hfs) .nil
  | aggregate hlength _ ih => exact agree_flattenAll (List.forall₂_iff_zip.mpr ⟨hlength, fun hp => ih _ hp⟩)

end Failure

/-! ### The coupling -/

/-- The same options, failures that say the same of equal values, and any warnings. -/
def Likeness.spelling : Likeness where
  Opts := Eq
  Fails := List.Forall₂ Failure.Agrees
  Warns _ _ := True
  opts_core := Coupling.sound.opts_core
  opts_merge := Coupling.sound.opts_merge
  opts_collects h := congrArg Options.collects h
  opts_maxErrors h := congrArg Options.maxErrors h
  fails_nil := .nil
  fails_refl f := .cons (.refl f) .nil
  fails_cons := ⟨fun h => ⟨.cons (List.forall₂_cons.mp h).1 .nil, (List.forall₂_cons.mp h).2⟩,
    fun h => .cons (List.forall₂_cons.mp h.1).1 h.2⟩
  fails_length h := h.length_eq
  fails_append h h' := List.rel_append h h'
  fails_flatten h := (List.forall₂_cons.mp h).1.flatten
  fails_aggregate h := .cons (.aggregate h.length_eq fun _ hp => List.forall₂_zip h hp) .nil
  fails_noneMatched _ _ h := .cons (.noneMatched h.length_eq fun _ hp => List.forall₂_zip h hp) .nil
  warns_nil := trivial
  warns_append _ _ := trivial
  warns_message _ _ _ := trivial

namespace Coupling

/-- Two runs that agree up to the spelling of what constraints compare with. -/
def spelling : Coupling := inStep .spelling

variable {α : Type} {c d : Context}

theorem inStep_self (s : ParseState) : s.InStep .spelling s :=
  ⟨⟨⟨rfl, rfl, rfl⟩, Failure.agree_refl _, trivial⟩, rfl⟩

theorem outcome_inStep_self (p : Parse α) (s : ParseState) : Parse.InStep .spelling Eq (p.outcome s) (p.outcome s) := by
  rcases p.outcome s with ⟨f | a, t⟩
  · exact .error (.cons (.refl f) .nil) (inStep_self t)
  · exact .ok rfl (inStep_self t)

/-- Two children in which nothing was found are one, so whatever is run in them agrees with itself. -/
theorem rel_descend_self (h : Context.Fresh Eq c d) (p : Parse α) : spelling.Rel Eq (p.descend c) (p.descend d) := by
  have hsame : c = d := by
    obtain ⟨⟨hoptions, hroute, hdepth⟩, ⟨hc, hd⟩, ⟨hc', hd'⟩⟩ := h
    cases c
    cases d
    simp_all
  subst hsame
  intro s t hst
  refine .descend hst ?_
  rw [hst.calls]
  exact outcome_inStep_self p _

theorem rel_nested_self (e : Entity) (v : Value) : spelling.Rel Eq (Reading.nested e v) (Reading.nested e v) := by
  rw [nested_eq]
  refine spelling.rel_bind spelling.rel_context fun c d hcd => ?_
  exact spelling.rel_bind_same (rel_descend_self (spelling.fresh_speculateWith hcd e.options) (e.read v)) fun _ =>
    spelling.rel_pure rfl

/-- Every target leads to the same, whatever its entity is. -/
theorem rel_ofOrigin_self (E : Entities) (t : Target) (v : Value) :
    spelling.Rel Eq (Reading.ofOrigin E t v) (Reading.ofOrigin E t v) := by
  refine spelling.rel_bind_same (rel_converted t v) fun w => ?_
  cases E t with
  | plain => exact spelling.rel_pure rfl
  | unresolved => exact spelling.rel_throw_here fun _ => by simp [Failure.flatten]
  | entity e => exact rel_nested_self e w

end Coupling

end Conform
