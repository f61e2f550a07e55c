import Conform.Proofs.Coupling.Basic
import Conform.Proofs.Failure

/-! How much a report may hold. Where failures are collected a context records fewer than the limit, and what it
    records is single; but a failure that comes up from a child may count for many. So a run that goes through
    `n` contexts one in another, each of which may hold failures when the next one fails, ends with at most
    one failure and, for each of the contexts, one less than the limit. -/

namespace Conform

/-! ### Limits -/

/-- Where these options collect failures, they do so up to a limit, which is not greater than `most`. -/
def Options.Limits (most : Nat) (o : Options) : Prop :=
  o.collects = true → ∃ m, o.maxErrors = some m ∧ m ≤ most

/-- Options that may be in force, all of which limit what is collected. -/
structure Limit where
  most : Nat
  InForce : Options → Prop
  limits : ∀ o, InForce o → o.Limits most

namespace Limit

variable (L : Limit)

/-- What a context may hold at the `n`-th level: nothing where there are no levels. -/
def held : Nat → Nat
  | 0 => 0
  | _ + 1 => L.most - 1

/-- What a failure may count for that comes up through `n` levels. -/
def report (n : Nat) : Nat := 1 + (L.most - 1) * n

theorem report_succ (n : Nat) : L.report (n + 1) = L.most - 1 + L.report n := by
  unfold report
  rw [Nat.mul_succ]
  omega

theorem report_mono {m n : Nat} (h : m ≤ n) : L.report m ≤ L.report n :=
  Nat.add_le_add_left (Nat.mul_le_mul_left _ h) 1

theorem held_le (n : Nat) : L.held n ≤ L.most - 1 := by
  cases n with
  | zero => exact Nat.zero_le _
  | succ n => exact Nat.le_refl _

theorem held_of_pos {n : Nat} (h : 1 ≤ n) : L.held n = L.most - 1 := by
  cases n with
  | zero => cases h
  | succ n => rfl

theorem held_mono {m n : Nat} (h : m ≤ n) : L.held m ≤ L.held n := by
  cases m with
  | zero => exact Nat.zero_le _
  | succ m => exact Nat.le_of_eq (L.held_of_pos (Nat.le_trans (Nat.le_add_left 1 m) h)).symm

theorem held_lt_report (n : Nat) : L.held n + 1 ≤ L.report n := by
  cases n with
  | zero => exact Nat.le_refl 1
  | succ n =>
    rw [report_succ, held]
    exact Nat.add_le_add_left (Nat.le_add_right 1 _) _

/-- What a context holds beside a report that comes up makes one more level, if it may hold something. -/
theorem held_add_report_le (m n : Nat) : L.held m + L.report n ≤ L.report (max m (min m 1 + n)) := by
  cases m with
  | zero =>
    rw [held, Nat.zero_add, Nat.zero_min, Nat.zero_add]
    exact L.report_mono (Nat.le_max_right 0 n)
  | succ m =>
    have hone : min (m + 1) 1 = 1 := Nat.min_eq_right (Nat.le_add_left 1 m)
    rw [held, hone, Nat.add_comm 1 n, ← report_succ]
    exact L.report_mono (Nat.le_max_right _ _)

end Limit

/-! ### Failures -/

namespace Failure

theorem flattenAll_append (fs gs : List Failure) : flattenAll (fs ++ gs) = flattenAll fs ++ flattenAll gs := by
  induction fs with
  | nil => rfl
  | cons f rest ih => rw [List.cons_append, flattenAll, ih, flattenAll, List.append_assoc]

theorem flattenAll_of_single {fs : List Failure} (h : ∀ f ∈ fs, f.flatten = [f]) : flattenAll fs = fs := by
  induction fs with
  | nil => rfl
  | cons f rest ih =>
    obtain ⟨hf, hrest⟩ := List.forall_mem_cons.mp h
    rw [flattenAll, hf, ih hrest, List.singleton_append]

theorem flatten_together (fs : List Failure) : (together fs).flatten = flattenAll fs := by
  rw [together, flatten]
  exact flattenAll_of_single fun _ => flatten_of_mem_flattenAll

theorem flatten_ofList (fs : List Failure) : (ofList fs).flatten = flattenAll fs := by
  match fs with
  | [] => exact flatten_together []
  | [f] => rw [ofList, flattenAll, flattenAll, List.append_nil]
  | f :: g :: rest => exact flatten_together (f :: g :: rest)

theorem length_flatten_le {fs : List Failure} {f : Failure} (h : f ∈ fs) :
    f.flatten.length ≤ (flattenAll fs).length := by
  induction h with
  | head rest =>
    rw [flattenAll, List.length_append]
    exact Nat.le_add_right _ _
  | tail g _ ih =>
    rw [flattenAll, List.length_append]
    exact Nat.le_trans ih (Nat.le_add_left _ _)

end Failure

/-! ### Contexts -/

namespace Context

/-- Single failures, so many at most. -/
structure Holds (n : Nat) (c : Context) : Prop where
  single : ∀ f ∈ c.failures, f.flatten = [f]
  length_le : c.failures.length ≤ n

variable {L : Limit} {c d : Context} {f : Failure} {fs : List Failure} {m n : Nat}

theorem Holds.mono (h : c.Holds m) (hmn : m ≤ n) : c.Holds n := ⟨h.single, Nat.le_trans h.length_le hmn⟩

theorem holds_of_clean (h : c.failures = []) (n : Nat) : c.Holds n := by
  refine ⟨?_, ?_⟩ <;> rw [h]
  · exact List.forall_mem_nil _
  · exact Nat.zero_le n

theorem Holds.length_flattenAll (h : c.Holds n) : (Failure.flattenAll c.failures).length = c.failures.length := by
  rw [Failure.flattenAll_of_single h.single]

/-- A failure that is collected is recorded below the limit, or ends the run with what was recorded so far. -/
theorem collect_cases (hL : L.InForce c.options) (hc : c.Holds (L.most - 1)) (f : Failure) :
    (∃ d, c.collect f = (.ok (), d) ∧ d.options = c.options ∧ d.Holds (L.most - 1) ∧
        d.failures = c.failures ++ f.flatten) ∨
      ∃ g d, c.collect f = (.error g, d) ∧ d.Holds (L.most - 1) ∧
        d.failures.length + g.flatten.length = c.failures.length + f.flatten.length := by
  have hsingle : ∀ g ∈ c.failures ++ f.flatten, g.flatten = [g] :=
    List.forall_mem_append.mpr ⟨hc.single, fun g hg => Failure.flatten_of_mem_flatten hg⟩
  unfold collect
  by_cases hcollects : c.options.collects = true
  -- What was recorded is raised with the failure that fills the context, and the context is left empty.
  · obtain ⟨most, hmost, hle⟩ := L.limits _ hL hcollects
    simp only [hcollects, Bool.not_true, Bool.false_eq_true, if_false, hmost, Option.any_some, decide_eq_true_eq]
    split
    · refine .inr ⟨_, _, rfl, holds_of_clean rfl _, ?_⟩
      simp only [raise, Option.toList_none, List.append_nil, Failure.flatten_together,
        Failure.flattenAll_of_single hsingle, List.length_append, List.length_nil, Nat.zero_add]
    · rename_i hfull
      exact .inl ⟨_, rfl, rfl, ⟨hsingle, by simp only; omega⟩, rfl⟩
  · rw [Bool.not_eq_true] at hcollects
    simp only [hcollects, Bool.not_false, if_true]
    exact .inr ⟨f, c, rfl, hc, rfl⟩

/-- Failures of one level that are collected are all recorded, or end the run at the next level. -/
theorem collectAll_cases (fs : List Failure) : ∀ {c : Context}, L.InForce c.options → c.Holds (L.most - 1) →
    (∀ f ∈ fs, f.flatten.length ≤ L.report m) →
    (∃ d, c.collectAll fs = (.ok (), d) ∧ d.options = c.options ∧ d.Holds (L.most - 1) ∧
        d.failures = c.failures ++ Failure.flattenAll fs) ∨
      ∃ g d, c.collectAll fs = (.error g, d) ∧ d.Holds (L.most - 1) ∧
        d.failures.length + g.flatten.length ≤ L.report (m + 1) := by
  induction fs with
  | nil =>
    intro c _ hc _
    exact .inl ⟨c, rfl, rfl, hc, (List.append_nil _).symm⟩
  | cons f rest ih =>
    intro c hL hc hfs
    obtain ⟨hf, hrest⟩ := List.forall_mem_cons.mp hfs
    rw [collectAll]
    rcases collect_cases hL hc f with ⟨d, hcollect, hoptions, hd, hfailures⟩ | ⟨g, d, hcollect, hd, htotal⟩ <;>
      simp only [hcollect]
    · rcases ih (hoptions ▸ hL) hd hrest with ⟨e, hall, hoptions', he, hfailures'⟩ | ⟨g, e, hall, he, htotal⟩
      · refine .inl ⟨e, hall, hoptions'.trans hoptions, he, ?_⟩
        rw [hfailures', hfailures, Failure.flattenAll, List.append_assoc]
      · exact .inr ⟨g, e, hall, he, htotal⟩
    · refine .inr ⟨g, d, rfl, hd, ?_⟩
      rw [htotal, L.report_succ]
      exact Nat.add_le_add hc.length_le hf

end Context

/-! ### Runs that record nothing -/

namespace Parse

variable {α β : Type} {p : Parse α}

/-- A run that has recorded nothing, and failed with a single failure if it failed. -/
structure Quiet (s : ParseState) (run : Except Failure α × ParseState) : Prop where
  options : run.2.context.options = s.context.options
  failures : run.2.context.failures = s.context.failures
  single : ∀ f, run.1 = .error f → f.flatten.length ≤ 1

/-- A parse that never records anything, and fails with single failures. -/
def Terse (p : Parse α) : Prop := ∀ s, Quiet s (p.outcome s)

theorem Terse.of_eq {f : ParseState → α} {d : ParseState → ParseState} (h : ∀ s, p.outcome s = (.ok (f s), d s))
    (hoptions : ∀ s, (d s).context.options = s.context.options)
    (hfailures : ∀ s, (d s).context.failures = s.context.failures) : Terse p := by
  intro s
  rw [h s]
  exact ⟨hoptions s, hfailures s, fun f hf => nomatch hf⟩

theorem Terse.pure (a : α) : Terse (pure a) := .of_eq (fun _ => rfl) (fun _ => rfl) fun _ => rfl

theorem Terse.throw {f : Failure} (h : f.flatten.length ≤ 1) : Terse (throw f : Parse α) := by
  refine fun s => ⟨rfl, rfl, fun g hg => ?_⟩
  cases hg
  exact h

theorem Terse.bind {k : α → Parse β} (h : Terse p) (hk : ∀ a, Terse (k a)) : Terse (p >>= k) := by
  intro s
  have hp := h s
  rw [outcome_bind]
  generalize p.outcome s = x at hp ⊢
  obtain ⟨f | a, t⟩ := x
  · exact ⟨hp.options, hp.failures, fun g hg => hp.single g (by cases hg; rfl)⟩
  · have hka := hk a t
    exact ⟨hka.options.trans hp.options, hka.failures.trans hp.failures, hka.single⟩

theorem terse_context : Terse context := .of_eq (fun _ => rfl) (fun _ => rfl) fun _ => rfl

theorem terse_options : Terse options := .of_eq (fun _ => rfl) (fun _ => rfl) fun _ => rfl

theorem terse_route : Terse route := .of_eq (fun _ => rfl) (fun _ => rfl) fun _ => rfl

theorem terse_throw_here {failure : Route → Failure} (h : ∀ r, (failure r).flatten.length ≤ 1) :
    Terse (do throw (failure (← route)) : Parse α) :=
  terse_route.bind fun r => .throw (h r)

theorem terse_warn (message : String) : Terse (warn message) := .of_eq (fun _ => rfl) (fun _ => rfl) fun _ => rfl

theorem terse_takeWarnings (child : Context) : Terse (takeWarnings child) :=
  .of_eq (fun _ => rfl) (fun _ => rfl) fun _ => rfl

theorem terse_absorb {child : Context} (h : child.failures = []) : Terse (absorb child) := by
  refine .of_eq (f := fun _ => ()) (d := fun s => { s with context := s.context.takeWarnings child })
    (fun s => ?_) (fun _ => rfl) fun _ => rfl
  rw [absorb, outcome_ofContext, Context.absorb, h]
  rfl

theorem terse_attempt (child : Context) (p : Parse α) : Terse (attempt child p) :=
  .of_eq (outcome_attempt child p) (fun _ => rfl) fun _ => rfl

/-! ### Runs through some levels -/

/-- A run from some options that has ended with no more than what may be held at the `n`-th level, or with a
    report of so many levels. -/
inductive Fitted (L : Limit) (n : Nat) (P : α → Prop) (o : Options) : Except Failure α × ParseState → Prop
  | ok {a : α} {t : ParseState} : t.context.options = o → t.context.Holds (L.held n) → P a → Fitted L n P o (.ok a, t)
  | error {f : Failure} {t : ParseState} : t.context.Holds (L.most - 1) →
      t.context.failures.length + f.flatten.length ≤ L.report n → Fitted L n P o (.error f, t)

/-- A parse that leads from what may be held at the `m`-th level to the `n`-th level. -/
def Fits (L : Limit) (m n : Nat) (P : α → Prop) (p : Parse α) : Prop :=
  ∀ s, L.InForce s.context.options → s.context.Holds (L.held m) → Fitted L n P s.context.options (p.outcome s)

/-- A parse that stays at its level. -/
abbrev FitsAt (L : Limit) (n : Nat) (p : Parse α) : Prop := Fits L n n (fun _ => True) p

section Fits

variable {L : Limit} {l m n : Nat} {P : α → Prop} {Q : β → Prop} {o : Options} {c : Context}

theorem Fitted.mono {x : Except Failure α × ParseState} (h : Fitted L m P o x) (hmn : m ≤ n) : Fitted L n P o x := by
  cases h with
  | ok hoptions hheld ha => exact .ok hoptions (hheld.mono (L.held_mono hmn)) ha
  | error hheld htotal => exact .error hheld (Nat.le_trans htotal (L.report_mono hmn))

theorem Fits.mono (h : Fits L m n P p) {m' n' : Nat} (hm : m' ≤ m) (hn : n ≤ n') : Fits L m' n' P p :=
  fun s hL hs => (h s hL (hs.mono (L.held_mono hm))).mono hn

theorem Terse.fits (h : Terse p) (hmn : m ≤ n) : Fits L m n (fun _ => True) p := by
  intro s _ hs
  refine Fitted.mono (m := m) ?_ hmn
  have hp := h s
  generalize p.outcome s = x at hp ⊢
  obtain ⟨f | a, t⟩ := x
  · have hheld : t.context.Holds (L.held m) := ⟨hp.failures ▸ hs.single, hp.failures ▸ hs.length_le⟩
    refine .error (hheld.mono (L.held_le m)) ?_
    exact Nat.le_trans (Nat.add_le_add hheld.length_le (hp.single f rfl)) (L.held_lt_report m)
  · exact .ok hp.options ⟨hp.failures ▸ hs.single, hp.failures ▸ hs.length_le⟩ trivial

theorem fits_pure {a : α} (ha : P a) (hmn : m ≤ n) : Fits L m n P (pure a) :=
  fun _ _ hs => .ok rfl (hs.mono (L.held_mono hmn)) ha

theorem fits_throw {f : Failure} (hf : L.held m + f.flatten.length ≤ L.report n) : Fits L m n P (throw f) :=
  fun _ _ hs => .error (hs.mono (L.held_le m)) (Nat.le_trans (Nat.add_le_add_right hs.length_le _) hf)

theorem Fits.bind {k : α → Parse β} (h : Fits L l m P p) (hmn : m ≤ n) (hk : ∀ a, P a → Fits L m n Q (k a)) :
    Fits L l n Q (p >>= k) := by
  intro s hL hs
  have hp := h s hL hs
  rw [outcome_bind]
  generalize p.outcome s = x at hp ⊢
  cases hp with
  | @ok a t hoptions hheld ha =>
    rw [← hoptions] at hL ⊢
    exact hk a ha t hL hheld
  | error hheld htotal => exact .error hheld (Nat.le_trans htotal (L.report_mono hmn))

theorem Terse.bind_fits {k : α → Parse β} (h : Terse p) (hmn : m ≤ n) (hk : ∀ a, Fits L m n Q (k a)) :
    Fits L m n Q (p >>= k) :=
  (h.fits (Nat.le_refl m)).bind hmn fun a _ => hk a

theorem FitsAt.pure (a : α) : FitsAt L n (pure a) := fits_pure trivial (Nat.le_refl n)

theorem FitsAt.bind_fits {k : α → Parse β} (h : FitsAt L n p) (hk : ∀ a, Fits L n n Q (k a)) : Fits L n n Q (p >>= k) :=
  Fits.bind h (Nat.le_refl n) fun a _ => hk a

theorem FitsAt.bind {k : α → Parse β} (h : FitsAt L n p) (hk : ∀ a, FitsAt L n (k a)) : FitsAt L n (p >>= k) :=
  h.bind_fits hk

theorem Terse.fitsAt (h : Terse p) : FitsAt L n p := h.fits (Nat.le_refl n)

theorem fits_context_bind {k : Context → Parse β} (hk : ∀ c, L.InForce c.options → Fits L m n Q (k c)) :
    Fits L m n Q (context >>= k) := by
  intro s hL hs
  rw [outcome_bind_of_ok (outcome_context s)]
  exact hk s.context hL s hL hs

theorem fits_options_bind {k : Options → Parse β} (hk : ∀ o, L.InForce o → Fits L m n Q (k o)) :
    Fits L m n Q (options >>= k) := by
  intro s hL hs
  rw [outcome_bind_of_ok (outcome_options s)]
  exact hk s.context.options hL s hL hs

/-- What is collected came up through fewer levels. -/
theorem fits_collectAll {fs : List Failure} (hfs : ∀ f ∈ fs, f.flatten.length ≤ L.report m) (hmn : m + 1 ≤ n) :
    Fits L l n (fun _ => True) (collectAll fs) := by
  intro s hL hs
  rw [collectAll, outcome_ofContext]
  rcases Context.collectAll_cases fs hL (hs.mono (L.held_le l)) hfs with
    ⟨d, hrun, hoptions, hd, -⟩ | ⟨g, d, hrun, hd, htotal⟩ <;> rw [hrun]
  · refine .ok hoptions ?_ trivial
    rwa [L.held_of_pos (Nat.le_trans (Nat.le_add_left 1 m) hmn)]
  · exact .error hd (Nat.le_trans htotal (L.report_mono hmn))

theorem fits_collect {f : Failure} (hf : f.flatten.length ≤ 1) (hmn : m + 1 ≤ n) :
    FitsAt L n (collect f) := by
  rw [collect_eq_collectAll]
  refine fits_collectAll (m := m) (List.forall_mem_singleton.mpr ?_) hmn
  exact Nat.le_trans hf (Nat.le_add_right 1 _)

theorem Terse.fits_recover (h : Terse p) (a : α) (hn : 1 ≤ n) : FitsAt L n (p.recover a) := by
  intro s hL hs
  have hp := h s
  have hfits := h.fits (L := L) (Nat.le_refl n) s hL hs
  unfold Parse.recover
  rw [outcome_tryCatch]
  generalize p.outcome s = x at hp hfits ⊢
  obtain ⟨f | b, t⟩ := x
  · have ht : t.context.Holds (L.held n) := ⟨hp.failures ▸ hs.single, hp.failures ▸ hs.length_le⟩
    have hrest := (fits_collect (L := L) (m := 0) (hp.single f rfl) hn).bind fun _ => .pure a
    rw [← hp.options] at hL ⊢
    exact hrest t hL ht
  · exact hfits

/-- What an attempt gives: failures that together are a report of so many levels. -/
def Reported (L : Limit) (n : Nat) : Except (List Failure) α × Context → Prop
  | (.ok _, d) => d.failures = []
  | (.error fs, _) => (Failure.flattenAll fs).length ≤ L.report n

theorem Fits.attempt (h : Fits L 0 n P p) (hc : L.InForce c.options) (hclean : c.failures = []) :
    Fits L m m (Reported L n) (attempt c p) := by
  intro s _ hs
  have hp := h ⟨c, s.calls⟩ hc (Context.holds_of_clean hclean _)
  rw [outcome_attempt]
  refine .ok rfl hs ?_
  generalize p.outcome ⟨c, s.calls⟩ = x at hp ⊢
  cases hp with
  | @ok a t _ hheld _ =>
    simp only [attempted]
    split
    · rename_i hempty
      exact List.isEmpty_iff.mp hempty
    · show (Failure.flattenAll t.context.failures).length ≤ L.report n
      rw [hheld.length_flattenAll]
      exact Nat.le_trans hheld.length_le (Nat.le_trans (Nat.le_succ _) (L.held_lt_report n))
  | @error f t hheld htotal =>
    show (Failure.flattenAll (t.context.failures ++ [f])).length ≤ L.report n
    rw [Failure.flattenAll_append, List.length_append, hheld.length_flattenAll, Failure.flattenAll,
      Failure.flattenAll, List.append_nil]
    exact htotal

/-- What a child has recorded and what has ended it come up together, so a parse in a child takes no level more. -/
theorem Fits.descend (h : Fits L 0 n P p) (hn : 1 ≤ n) (hc : L.InForce c.options) (hclean : c.failures = []) :
    Fits L 0 n P (p.descend c) := by
  intro s hL hs
  have hempty : s.context.failures = [] := List.eq_nil_of_length_eq_zero (Nat.le_zero.mp hs.length_le)
  have hp := h ⟨c, s.calls⟩ hc (Context.holds_of_clean hclean _)
  unfold Parse.descend
  rw [outcome_bind_of_ok (outcome_within c p s)]
  generalize p.outcome ⟨c, s.calls⟩ = x at hp ⊢
  obtain ⟨x, t⟩ := x
  have hsingle : t.context.Holds (L.most - 1) := by
    cases hp with
    | ok _ hheld => exact hheld.mono (L.held_le n)
    | error hheld => exact hheld
  have hrecorded : ∀ f ∈ t.context.failures, f.flatten.length ≤ L.report 0 := by
    intro f hf
    rw [hsingle.single f hf]
    exact Nat.le_refl 1
  have hbase : (s.context.takeWarnings t.context).Holds (L.most - 1) :=
    ⟨hs.single, Nat.le_trans hs.length_le (L.held_le 0)⟩
  simp only
  rw [outcome_bind, absorb, outcome_ofContext, Context.absorb]
  rcases Context.collectAll_cases (c := s.context.takeWarnings t.context) _ hL hbase hrecorded with
    ⟨d, hrun, hoptions, hd, hfailures⟩ | ⟨g, d, hrun, hd, htotal⟩ <;> rw [hrun]
  -- All that the child has recorded was taken over, into a parent that had nothing.
  · cases hp with
    | ok _ _ ha =>
      refine .ok hoptions ?_ ha
      rwa [L.held_of_pos hn]
    | error _ htotal =>
      refine .error hd ?_
      rw [Failure.flattenAll_of_single hsingle.single] at hfailures
      simp only [hfailures, Context.takeWarnings, hempty, List.nil_append]
      exact htotal
  · exact .error hd (Nat.le_trans htotal (L.report_mono hn))

theorem fits_enter (item : RouteItem) :
    Fits L m m (fun c => L.InForce c.options ∧ c.failures = []) (enter item) := by
  rw [enter_eq]
  refine fits_context_bind fun c hc => ?_
  unfold Context.enter
  by_cases hdeep : c.options.depthLimit < c.depth + 1
  · simp only [if_pos hdeep]
    exact fits_throw (L.held_lt_report m)
  · simp only [if_neg hdeep]
    exact fits_pure ⟨hc, rfl⟩ (Nat.le_refl m)

end Fits

end Parse

end Conform
