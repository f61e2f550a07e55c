import Conform.Proofs.Coupling.Reading
import Conform.Rule.Declaration

/-! Combinators. A combinator tries its branches one after the other, each in a context of its own, from which
    nothing comes out but what the combinator takes. So what it gives depends on the branches only by way of
    which of them accept the value, what those make of it and warn of, and how the others fail. -/

namespace Conform

namespace Reading

open Parse

variable {r : Reading} {v w : Value} {s : ParseState}

/-! ### Trials -/

/-- What a branch says of a value: what it makes of it and warns of, or its failures. -/
abbrev Trial := Except (List Failure) (Value × List Warning)

/-- What a branch says in a context of its own at the same place. It accepts the value if it gives one and has
    recorded no failure by then. -/
def trial (r : Reading) (v : Value) (s : ParseState) : Trial :=
  match (r.read v).outcome ⟨s.context.speculate, s.calls⟩ with
  | (.ok w, t) => if t.context.failures.isEmpty then .ok (w, t.context.warnings) else .error t.context.failures
  | (.error f, t) => .error (t.context.failures ++ [f])

/-- A trial leaves nothing behind but the calls of factories. -/
def afterTrial (r : Reading) (v : Value) (s : ParseState) : ParseState :=
  { s with calls := ((r.read v).outcome ⟨s.context.speculate, s.calls⟩).2.calls }

/-- What each of some branches says of a value. -/
def trials (v : Value) : List Reading → ParseState → List Trial
  | [], _ => []
  | r :: rest, s => r.trial v s :: trials v rest (r.afterTrial v s)

/-- The branches that accept, each with its number. -/
def accepting (start : Nat) (ts : List Trial) : List (Nat × Value × List Warning) :=
  (ts.zipIdx start).filterMap fun (t, i) => t.toOption.map (i, ·)

/-- The failures of the branches that do not accept, in order. -/
def rejections (ts : List Trial) : List Failure := ts.flatMap fun t => match t with
  | .ok _ => []
  | .error failures => failures

@[simp] theorem context_afterTrial (r : Reading) (v : Value) (s : ParseState) :
    (r.afterTrial v s).context = s.context := rfl

@[simp] theorem accepting_nil (start : Nat) : accepting start [] = [] := rfl

@[simp] theorem accepting_cons_ok (start : Nat) (w : Value) (ws : List Warning) (ts : List Trial) :
    accepting start (.ok (w, ws) :: ts) = (start, w, ws) :: accepting (start + 1) ts := by
  simp [accepting, List.zipIdx_cons, Except.toOption]

@[simp] theorem accepting_cons_error (start : Nat) (fs : List Failure) (ts : List Trial) :
    accepting start (.error fs :: ts) = accepting (start + 1) ts := by
  simp [accepting, List.zipIdx_cons, Except.toOption]

@[simp] theorem rejections_cons_ok (x : Value × List Warning) (ts : List Trial) :
    rejections (.ok x :: ts) = rejections ts := rfl

@[simp] theorem rejections_cons_error (fs : List Failure) (ts : List Trial) :
    rejections (.error fs :: ts) = fs ++ rejections ts := rfl

/-- An attempt gives what the trial says. -/
theorem outcome_attempted (r : Reading) (v : Value) (s : ParseState) :
    ∃ child : Context, (r.attempted v).outcome s = (.ok ((r.trial v s).map Prod.fst, child), r.afterTrial v s) ∧
      ∀ w ws, r.trial v s = .ok (w, ws) → child.warnings = ws := by
  unfold Reading.attempted
  rw [outcome_bind_of_ok (outcome_context s), outcome_attempt]
  refine ⟨(Parse.attempted ((r.read v).outcome ⟨s.context.speculate, s.calls⟩)).2, ?_, ?_⟩
  · unfold trial afterTrial
    rcases (r.read v).outcome ⟨s.context.speculate, s.calls⟩ with ⟨f | w, t⟩
    · rfl
    · simp only [Parse.attempted]
      split <;> rfl
  · unfold trial
    rcases (r.read v).outcome ⟨s.context.speculate, s.calls⟩ with ⟨f | w, t⟩
    · intro w ws h
      cases h
    · simp only [Parse.attempted]
      split
      · rintro _ _ ⟨⟩
        rfl
      · rintro _ _ ⟨⟩

/-! ### Combinators -/

/-- The state with some more warnings. -/
def warned (s : ParseState) (ws : List Warning) : ParseState :=
  { s with context := { s.context with warnings := s.context.warnings ++ ws } }

/-- A run gives a value or fails, and leaves its context as it was but for some more warnings. -/
def Concludes (s : ParseState) (x : Except Failure Value) (ws : List Warning)
    (run : Except Failure Value × ParseState) : Prop :=
  run.1 = x ∧ run.2.context = (warned s ws).context

/-- Branches that each read what the one before has made of the value, and all accept; with the warnings of all. -/
inductive Relayed : List Reading → Value → ParseState → Value → List Warning → ParseState → Prop
  | nil (v : Value) (s : ParseState) : Relayed [] v s v [] s
  | cons {r : Reading} {rest : List Reading} {v w u : Value} {s t : ParseState} {ws us : List Warning} :
      r.trial v s = .ok (w, ws) → Relayed rest w (warned (r.afterTrial v s) ws) u us t →
      Relayed (r :: rest) v s u (ws ++ us) t

variable {rs : List Reading} {ws us : List Warning} {t : ParseState} {x : Except Failure Value}
  {run : Except Failure Value × ParseState}

theorem warned_nil (s : ParseState) : warned s [] = s := by
  unfold warned
  rw [List.append_nil]

theorem concludes_refl (s : ParseState) (x : Except Failure Value) : Concludes s x [] (x, s) := by
  refine ⟨rfl, ?_⟩
  rw [warned_nil]

/-- The first branch that accepts, if there is one, decides; else the failures of all are reported. -/
theorem concludes_firstOf (v : Value) (rs : List Reading) (start : Nat) : ∀ (fs : List Failure) (s : ParseState),
    match accepting start (trials v rs s) with
    | [] => Concludes s (.error (.noneMatched s.context.route v (fs ++ rejections (trials v rs s)))) []
        ((firstOf v fs rs).outcome s)
    | (_, w, ws) :: _ => Concludes s (.ok w) ws ((firstOf v fs rs).outcome s) := by
  induction rs generalizing start with
  | nil =>
    intro fs s
    rw [trials, accepting_nil]
    simp only [rejections, List.flatMap_nil, List.append_nil]
    exact concludes_refl s _
  | cons r rest ih =>
    intro fs s
    obtain ⟨child, hrun, hwarnings⟩ := outcome_attempted r v s
    unfold firstOf
    rw [outcome_bind_of_ok hrun, trials]
    cases htrial : r.trial v s with
    | ok y =>
      obtain ⟨w, ws⟩ := y
      rw [accepting_cons_ok]
      cases hwarnings w ws htrial
      exact ⟨rfl, rfl⟩
    | error more =>
      have hrest := ih (start + 1) (fs ++ more) (r.afterTrial v s)
      rw [List.append_assoc] at hrest
      rw [accepting_cons_error, rejections_cons_error]
      exact hrest

/-- Behind a branch that accepted, another one that accepts makes two, and else the first one decides. -/
theorem concludes_onlyOf_some (v w : Value) (first : Nat) (child : Context) (rs : List Reading) :
    ∀ (index : Nat) (fs : List Failure) (s : ParseState),
      match accepting index (trials v rs s) with
      | [] => Concludes s (.ok w) child.warnings ((onlyOf v index (some (first, w, child)) fs rs).outcome s)
      | (j, _) :: _ => Concludes s (.error (.severalMatched s.context.route v [first, j])) []
          ((onlyOf v index (some (first, w, child)) fs rs).outcome s) := by
  induction rs with
  | nil => exact fun _ _ _ => ⟨rfl, rfl⟩
  | cons r rest ih =>
    intro index fs s
    obtain ⟨other, hrun, -⟩ := outcome_attempted r v s
    unfold onlyOf
    rw [outcome_bind_of_ok hrun, trials]
    cases r.trial v s with
    | ok y =>
      rw [accepting_cons_ok]
      exact concludes_refl (r.afterTrial v s) _
    | error more =>
      rw [accepting_cons_error]
      exact ih (index + 1) (fs ++ more) (r.afterTrial v s)

theorem concludes_onlyOf (v : Value) (rs : List Reading) : ∀ (index : Nat) (fs : List Failure) (s : ParseState),
    match accepting index (trials v rs s) with
    | [] => Concludes s (.error (.noneMatched s.context.route v (fs ++ rejections (trials v rs s)))) []
        ((onlyOf v index none fs rs).outcome s)
    | [(_, w, ws)] => Concludes s (.ok w) ws ((onlyOf v index none fs rs).outcome s)
    | (i, _) :: (j, _) :: _ => Concludes s (.error (.severalMatched s.context.route v [i, j])) []
        ((onlyOf v index none fs rs).outcome s) := by
  induction rs with
  | nil =>
    intro index fs s
    rw [trials, accepting_nil]
    simp only [rejections, List.flatMap_nil, List.append_nil]
    exact concludes_refl s _
  | cons r rest ih =>
    intro index fs s
    obtain ⟨child, hrun, hwarnings⟩ := outcome_attempted r v s
    unfold onlyOf
    rw [outcome_bind_of_ok hrun, trials]
    cases htrial : r.trial v s with
    | ok y =>
      obtain ⟨w, ws⟩ := y
      have hrest := concludes_onlyOf_some v w index child rest (index + 1) fs (r.afterTrial v s)
      cases hwarnings w ws htrial
      rw [accepting_cons_ok]
      rcases hother : accepting (index + 1) (trials v rest (r.afterTrial v s)) with _ | ⟨j, others⟩ <;>
        rw [hother] at hrest <;> exact hrest
    | error more =>
      have hrest := ih (index + 1) (fs ++ more) (r.afterTrial v s)
      rw [List.append_assoc] at hrest
      rw [accepting_cons_error, rejections_cons_error]
      exact hrest

theorem concludes_noneOf (v : Value) (rs : List Reading) (start : Nat) : ∀ s : ParseState,
    match accepting start (trials v rs s) with
    | [] => Concludes s (.ok v) [] ((noneOf rs v).outcome s)
    | _ :: _ => Concludes s (.error (.negated s.context.route v)) [] ((noneOf rs v).outcome s) := by
  induction rs generalizing start with
  | nil => exact fun s => concludes_refl s _
  | cons r rest ih =>
    intro s
    obtain ⟨child, hrun, -⟩ := outcome_attempted r v s
    unfold noneOf
    rw [outcome_bind_of_ok hrun, trials]
    cases r.trial v s with
    | ok y =>
      rw [accepting_cons_ok]
      exact concludes_refl (r.afterTrial v s) _
    | error more =>
      rw [accepting_cons_error]
      exact ih (start + 1) (r.afterTrial v s)

/-! ### Branches in turn -/

/-- Branches that all accept in turn give what the last has made, with the warnings of all. -/
theorem outcome_allOf_of_relayed {w : Value} (h : Relayed rs v s w ws t) :
    (allOf rs v).outcome s = (.ok w, t) ∧ t.context = (warned s ws).context := by
  induction h with
  | nil v s => exact ⟨rfl, by rw [warned_nil]⟩
  | @cons r rest v w u s t ws us htrial _ ih =>
    obtain ⟨child, hrun, hwarnings⟩ := outcome_attempted r v s
    cases hwarnings w ws htrial
    refine ⟨?_, ?_⟩
    · unfold allOf
      rw [outcome_bind_of_ok hrun, htrial]
      exact ih.1
    · rw [ih.2]
      simp only [warned, context_afterTrial, List.append_assoc]

/-- Either all branches accept in turn, or there is a first one that rejects what those before it have made. -/
theorem relayed_or_rejected (rs : List Reading) : ∀ (v : Value) (s : ParseState),
    (∃ w ws t, Relayed rs v s w ws t) ∨
      ∃ before r after w ws t fs, rs = before ++ r :: after ∧ Relayed before v s w ws t ∧ r.trial w t = .error fs := by
  induction rs with
  | nil => exact fun v s => .inl ⟨v, [], s, .nil v s⟩
  | cons r rest ih =>
    intro v s
    cases htrial : r.trial v s with
    | error fs => exact .inr ⟨[], r, rest, v, [], s, fs, rfl, .nil v s, htrial⟩
    | ok y =>
      obtain ⟨w, ws⟩ := y
      rcases ih w (warned (r.afterTrial v s) ws) with ⟨u, us, t, hall⟩ | ⟨before, q, after, u, us, t, fs, hrest, hall, hq⟩
      · exact .inl ⟨u, ws ++ us, t, .cons htrial hall⟩
      · exact .inr ⟨r :: before, q, after, u, ws ++ us, t, fs, by rw [hrest, List.cons_append], .cons htrial hall, hq⟩

/-- The first branch that rejects ends the run with its failures. -/
theorem outcome_allOf_of_rejected {w : Value} {after : List Reading} {fs : List Failure}
    (h : Relayed rs v s w ws t) (hr : r.trial w t = .error fs) :
    ((allOf (rs ++ r :: after) v).outcome s).1 = .error (.ofList fs) := by
  induction h with
  | nil v s =>
    obtain ⟨child, hrun, -⟩ := outcome_attempted r v s
    rw [List.nil_append]
    unfold allOf
    rw [outcome_bind_of_ok hrun, hr]
    rfl
  | @cons q rest v w u s t ws us htrial _ ih =>
    obtain ⟨child, hrun, hwarnings⟩ := outcome_attempted q v s
    cases hwarnings w ws htrial
    rw [List.cons_append]
    unfold allOf
    rw [outcome_bind_of_ok hrun, htrial]
    exact ih hr

/-! ### What combinators denote -/

/-- What a combinator of branches is to do to a value. -/
def Denotes (rs : List Reading) (v : Value) (s : ParseState) (run : Except Failure Value × ParseState) :
    Combinator → Prop
  | .allOf =>
    (∀ w, run.1 = .ok w ↔ ∃ ws t, Relayed rs v s w ws t) ∧
      (∀ w ws t, Relayed rs v s w ws t → run.2.context = (warned s ws).context) ∧
      ∀ f, run.1 = .error f ↔ ∃ before r after w ws t fs, rs = before ++ r :: after ∧
        Relayed before v s w ws t ∧ r.trial w t = .error fs ∧ f = .ofList fs
  | .anyOf =>
    let ts := trials v (rs.filter (isExact v) ++ rs.filter (!isExact v ·)) s
    match accepting 0 ts with
    | [] => Concludes s (.error (.noneMatched s.context.route v (rejections ts))) [] run
    | (_, w, ws) :: _ => Concludes s (.ok w) ws run
  | .oneOf =>
    match accepting 0 (trials v rs s) with
    | [] => Concludes s (.error (.noneMatched s.context.route v (rejections (trials v rs s)))) [] run
    | [(_, w, ws)] => Concludes s (.ok w) ws run
    | (i, _) :: (j, _) :: _ => Concludes s (.error (.severalMatched s.context.route v [i, j])) [] run
  | .noneOf =>
    match accepting 0 (trials v rs s) with
    | [] => Concludes s (.ok v) [] run
    | _ :: _ => Concludes s (.error (.negated s.context.route v)) [] run

theorem denotes_allOf (rs : List Reading) (v : Value) (s : ParseState) :
    Denotes rs v s ((allOf rs v).outcome s) .allOf := by
  have haccepted {w ws t} (h : Relayed rs v s w ws t) := outcome_allOf_of_relayed h
  have hrejected {before r after w ws t fs} (hsplit : rs = before ++ r :: after) (h : Relayed before v s w ws t)
      (hr : r.trial w t = .error fs) : ((allOf rs v).outcome s).1 = .error (.ofList fs) :=
    hsplit ▸ outcome_allOf_of_rejected h hr
  have hcontext (w ws t) (h : Relayed rs v s w ws t) : ((allOf rs v).outcome s).2.context = (warned s ws).context := by
    rw [(haccepted h).1]
    exact (haccepted h).2
  refine ⟨fun u => ⟨fun hu => ?_, ?_⟩, hcontext, fun f => ⟨fun hf => ?_, ?_⟩⟩
  · rcases relayed_or_rejected rs v s with ⟨w, ws, t, hall⟩ | ⟨before, r, after, w, ws, t, fs, hsplit, hall, hr⟩
    · rw [(haccepted hall).1] at hu
      cases hu
      exact ⟨ws, t, hall⟩
    · rw [hrejected hsplit hall hr] at hu
      cases hu
  · rintro ⟨ws, t, hall⟩
    rw [(haccepted hall).1]
  · rcases relayed_or_rejected rs v s with ⟨w, ws, t, hall⟩ | ⟨before, r, after, w, ws, t, fs, hsplit, hall, hr⟩
    · rw [(haccepted hall).1] at hf
      cases hf
    · rw [hrejected hsplit hall hr] at hf
      cases hf
      exact ⟨before, r, after, w, ws, t, fs, hsplit, hall, hr, rfl⟩
  · rintro ⟨before, r, after, w, ws, t, fs, hsplit, hall, hr, rfl⟩
    exact hrejected hsplit hall hr

theorem denotes_combined (op : Combinator) (rs : List Reading) (v : Value) (s : ParseState) :
    Denotes rs v s ((combined ⟨op, rs⟩ v).outcome s) op := by
  cases op with
  | allOf => exact denotes_allOf rs v s
  | anyOf => exact concludes_firstOf v _ 0 [] s
  | oneOf => exact concludes_onlyOf v rs 0 [] s
  | noneOf => exact concludes_noneOf v rs 0 s

/-- A layer with nothing but a combinator does what that does. -/
theorem readLayer_combined (E : Entities) (logic : Logic Reading) (v : Value) :
    readLayer E ⟨none, [], [], some logic, none, none, none⟩ v = combined logic v := by
  have harguments (w : Value) (s : ParseState) : (arguments [] none w).outcome s = (.ok w, s) := by
    cases w <;> rfl
  refine ext_outcome fun s => ?_
  rw [Coupling.readLayer_eq]
  simp only [Option.elim, hooked, pure_bind]
  rw [outcome_bind_of_ok (harguments v s), outcome_bind]
  rcases (combined logic v).outcome s with ⟨f | w, t⟩
  · rfl
  · simp only
    rw [outcome_bind_of_ok (outcome_options t)]
    cases t.context.options.ignoresConstraints <;> rfl

end Reading

/-! ### Rules with a combinator -/

namespace Rule

/-- A branch joins those kept, unless it is the same as one of them. -/
def keepNew (kept : List Rule) (r : Rule) : List Rule := if kept.any (·.same r) then kept else kept ++ [r]

theorem foldl_keepNew (branches : List Rule) : ∀ kept : List Rule, kept.Pairwise (fun a b => a.same b = false) →
    ∃ new, branches.foldl keepNew kept = kept ++ new ∧ new.Sublist branches ∧
      (kept ++ new).Pairwise (fun a b => a.same b = false) ∧
      ∀ b ∈ branches, b ∈ kept ++ new ∨ ∃ a ∈ kept ++ new, a.same b = true := by
  induction branches with
  | nil =>
    intro kept hkept
    refine ⟨[], (List.append_nil kept).symm, .refl [], ?_, List.forall_mem_nil _⟩
    rwa [List.append_nil]
  | cons r rest ih =>
    intro kept hkept
    rw [List.foldl_cons, keepNew]
    by_cases hsame : kept.any (·.same r) = true
    · obtain ⟨new, hfold, hsub, hpairwise, hcover⟩ := ih kept hkept
      obtain ⟨a, ha, har⟩ := List.any_eq_true.mp hsame
      rw [if_pos hsame]
      refine ⟨new, hfold, hsub.cons r, hpairwise, List.forall_mem_cons.mpr ⟨.inr ⟨a, ?_, har⟩, hcover⟩⟩
      exact List.mem_append_left new ha
    · have hnew : ∀ a ∈ kept, a.same r = false := by
        intro a ha
        rw [Bool.eq_false_iff]
        exact fun har => hsame (List.any_eq_true.mpr ⟨a, ha, har⟩)
      have hnext : (kept ++ [r]).Pairwise (fun a b => a.same b = false) := by
        refine List.pairwise_append.mpr ⟨hkept, List.pairwise_singleton _ r, fun a ha b hb => ?_⟩
        rw [List.mem_singleton.mp hb]
        exact hnew a ha
      obtain ⟨new, hfold, hsub, hpairwise, hcover⟩ := ih (kept ++ [r]) hnext
      rw [if_neg hsame]
      simp only [List.append_assoc, List.singleton_append] at hfold hpairwise hcover
      refine ⟨r :: new, hfold, hsub.cons_cons r, hpairwise, List.forall_mem_cons.mpr ⟨.inl ?_, hcover⟩⟩
      exact List.mem_append_right kept List.mem_cons_self

/-- Of branches that are the same the first is kept, and at least one branch is. -/
theorem combine_eq_ok {op : Combinator} {branches : List Rule} {r : Rule} (h : combine op branches = .ok r) :
    ∃ kept, r = .mk ⟨none, [], [], some ⟨op, kept⟩, none, none, none⟩ ∧ kept ≠ [] ∧ kept.Sublist branches ∧
      kept.Pairwise (fun a b => a.same b = false) ∧ ∀ b ∈ branches, b ∈ kept ∨ ∃ a ∈ kept, a.same b = true := by
  obtain ⟨kept, hfold, hsub, hpairwise, hcover⟩ := foldl_keepNew branches [] .nil
  simp only [List.nil_append] at hfold hpairwise hcover
  have hcombine : combine op branches = if kept.isEmpty then .error (.emptyLogic op)
      else .ok (.mk ⟨none, [], [], some ⟨op, kept⟩, none, none, none⟩) := hfold ▸ rfl
  rw [hcombine] at h
  split at h
  · cases h
  · rename_i hempty
    cases h
    exact ⟨kept, rfl, fun hnil => hempty (List.isEmpty_iff.mpr hnil), hsub, hpairwise, hcover⟩

theorem reading_combined (E : Entities) (op : Combinator) (kept : List Rule) (v : Value) :
    ((Rule.mk ⟨none, [], [], some ⟨op, kept⟩, none, none, none⟩).reading E).read v =
      Reading.combined ⟨op, kept.map (Rule.reading E)⟩ v := by
  unfold Rule.reading
  rw [fold_mk]
  exact Reading.readLayer_combined E ⟨op, kept.map (Rule.reading E)⟩ v

/-- A rule with a combinator does to every value, in every context, what the combinator of its distinct branches
    denotes. -/
theorem denotes_of_combine {op : Combinator} {branches : List Rule} {r : Rule} (h : combine op branches = .ok r) :
    ∃ kept, kept ≠ [] ∧ kept.Sublist branches ∧ kept.Pairwise (fun a b => a.same b = false) ∧
      (∀ b ∈ branches, b ∈ kept ∨ ∃ a ∈ kept, a.same b = true) ∧
      ∀ (E : Entities) (v : Value) (s : ParseState),
        Reading.Denotes (kept.map (Rule.reading E)) v s (((r.reading E).read v).outcome s) op := by
  obtain ⟨kept, rfl, hne, hsub, hpairwise, hcover⟩ := combine_eq_ok h
  refine ⟨kept, hne, hsub, hpairwise, hcover, fun E v s => ?_⟩
  rw [reading_combined]
  exact Reading.denotes_combined op (kept.map (Rule.reading E)) v s

theorem denotes_intOrStr :
    let branches : List Rule := [of .int, of .str, of .int]
    let plain : Entities := fun _ => .plain
    let s : ParseState := ⟨.root {}, Calls.none⟩
    ∃ (r : Rule) (kept : List Rule), combine .oneOf branches = .ok r ∧ kept.Sublist branches ∧
      Reading.Denotes (kept.map (Rule.reading plain)) (.str "12") s (((r.reading plain).read (.str "12")).outcome s)
        .oneOf ∧
      (((r.reading plain).read (.str "12")).outcome s).1 = .error (.severalMatched [] (.str "12") [0, 1]) := by
  intro branches plain s
  have h : combine .oneOf branches =
      .ok (.mk ⟨none, [], [], some ⟨.oneOf, [of .int, of .str]⟩, none, none, none⟩) := rfl
  obtain ⟨kept, -, hsub, -, -, hdenotes⟩ := denotes_of_combine h
  exact ⟨_, kept, h, hsub, hdenotes plain (.str "12") s, rfl⟩

end Rule

end Conform
