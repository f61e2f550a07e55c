import Mathlib.Data.Set.Lattice
import Mathlib.Order.Bounds.Basic
import Conform.Proofs.Parse.Outcome
import Conform.Proofs.Record
import Conform.Proofs.Schema.Keys
import Conform.Schema.Resolution

/-! Dependencies of fields. Fields that lack a dependency are dropped in rounds, and a round may take away what
    other fields depend on. Every set of names that has all dependencies of its fields outlives each round,
    and the rounds end at such a set, so what is left is the greatest of them. Neither the end nor the
    number of failures on the way depends on the order of the fields. -/

namespace Conform

/-! ### Rounds -/

namespace Schema

variable {s : Schema} {f : Field} {values : Record} {N : Set String}

/-- A set of names with all dependencies of the fields named in it. -/
def Consistent (s : Schema) (N : Set String) : Prop := ∀ f ∈ s.fields, f.name ∈ N → ∀ d ∈ f.dependencies, d ∈ N

/-- What a round leaves of a record. -/
def round (s : Schema) (values : Record) : Record := eraseAll values (s.brokenFields values)

theorem mem_brokenFields : f ∈ s.brokenFields values ↔
    f ∈ s.fields ∧ f.name ∈ values.names ∧ ∃ d ∈ f.dependencies, d ∉ values.names := by
  have hmissing : (missingOf values f).isEmpty = false ↔ ∃ d ∈ f.dependencies, d ∉ values.names := by
    rw [← Bool.not_eq_true, List.isEmpty_iff, missingOf, List.filter_eq_nil_iff]
    simp [← Record.has_iff_mem_names]
  rw [brokenFields, List.mem_filter, Bool.and_eq_true, Record.has_iff_mem_names, Bool.not_eq_true', hmissing]

theorem get?_eraseAll (fs : List Field) : ∀ (values : Record) (name : String),
    (eraseAll values fs).get? name = if ∃ f ∈ fs, f.name = name then none else values.get? name := by
  induction fs with
  | nil => exact fun values name => by simp [eraseAll]
  | cons f rest ih =>
    intro values name
    have hfold : eraseAll values (f :: rest) = eraseAll (values.erase f.name) rest := rfl
    rw [hfold, ih, Record.get?_erase]
    have hcons : (∃ g ∈ f :: rest, g.name = name) ↔ name = f.name ∨ ∃ g ∈ rest, g.name = name := by
      rw [List.exists_mem_cons_iff, eq_comm]
    by_cases hrest : ∃ g ∈ rest, g.name = name
    · rw [if_pos hrest, if_pos (hcons.mpr (.inr hrest))]
    · by_cases hname : name = f.name
      · rw [if_neg hrest, if_pos hname, if_pos (hcons.mpr (.inl hname))]
      · rw [if_neg hrest, if_neg hname, if_neg fun h => (hcons.mp h).elim hname hrest]

theorem nodup_names_eraseAll (fs : List Field) : ∀ {values : Record}, values.names.Nodup →
    (eraseAll values fs).names.Nodup := by
  induction fs with
  | nil => exact id
  | cons f rest ih => exact fun h => ih (Record.nodup_names_erase h f.name)

theorem get?_round (s : Schema) (values : Record) (name : String) :
    (s.round values).get? name = if ∃ f ∈ s.brokenFields values, f.name = name then none else values.get? name :=
  get?_eraseAll _ _ _

theorem mem_names_round {name : String} :
    name ∈ (s.round values).names ↔ name ∈ values.names ∧ ¬ ∃ f ∈ s.brokenFields values, f.name = name := by
  rw [← not_iff_not, ← Record.get?_eq_none_iff, get?_round]
  by_cases h : ∃ f ∈ s.brokenFields values, f.name = name
  · rw [if_pos h]
    exact iff_of_true rfl fun hboth => hboth.2 h
  · rw [if_neg h, Record.get?_eq_none_iff]
    exact ⟨fun hname hboth => hname hboth.1, fun hboth hname => hboth ⟨hname, h⟩⟩

theorem round_of_whole (h : s.brokenFields values = []) : s.round values = values := by
  rw [round, h]
  rfl

/-- A consistent set outlives a round. -/
theorem Consistent.subset_round (hN : s.Consistent N) (h : ∀ name ∈ N, name ∈ values.names) :
    ∀ name ∈ N, name ∈ (s.round values).names := by
  intro name hname
  refine mem_names_round.mpr ⟨h name hname, ?_⟩
  rintro ⟨f, hf, rfl⟩
  obtain ⟨hfield, -, d, hd, hmissing⟩ := mem_brokenFields.mp hf
  exact hmissing (h d (hN f hfield hname d hd))

/-- Where no field lacks a dependency, the names are consistent. -/
theorem consistent_of_whole (h : s.brokenFields values = []) : s.Consistent {name | name ∈ values.names} := by
  intro f hf hname d hd
  by_contra hmissing
  have hbroken : f ∈ s.brokenFields values := mem_brokenFields.mpr ⟨hf, hname, d, hd, hmissing⟩
  rw [h] at hbroken
  cases hbroken

/-- A field is dropped in a round if and only if it lacks a dependency there. -/
theorem Compiled.mem_names_round (h : s.Compiled) (hf : f ∈ s.fields) :
    f.name ∈ (s.round values).names ↔ f.name ∈ values.names ∧ f ∉ s.brokenFields values := by
  rw [Schema.mem_names_round]
  refine and_congr_right fun _ => not_congr ⟨?_, fun hbroken => ⟨f, hbroken, rfl⟩⟩
  rintro ⟨g, hg, hname⟩
  rwa [← h.eq_of_name (mem_brokenFields.mp hg).1 hf hname]

/-! ### The end of the rounds -/

/-- Values only leave a record, and those that stay are unchanged. -/
theorem get?_rounds (s : Schema) (n : Nat) : ∀ (values : Record) (name : String),
    name ∈ (s.round^[n] values).names → (s.round^[n] values).get? name = values.get? name := by
  induction n with
  | zero => exact fun _ _ _ => rfl
  | succ n ih =>
    intro values name hname
    rw [Function.iterate_succ_apply] at hname ⊢
    have hround := ih _ _ hname
    have hkept : name ∈ (s.round values).names := by
      by_contra hgone
      rw [← Record.get?_eq_none_iff] at hgone
      rw [hgone, Record.get?_eq_none_iff] at hround
      exact hround hname
    rw [hround, get?_round, if_neg (Schema.mem_names_round.mp hkept).2]

theorem nodup_names_rounds (s : Schema) (n : Nat) (h : values.names.Nodup) : (s.round^[n] values).names.Nodup := by
  induction n with
  | zero => exact h
  | succ n ih =>
    rw [Function.iterate_succ_apply']
    exact nodup_names_eraseAll _ ih

theorem mem_names_of_rounds {n : Nat} {name : String} (h : name ∈ (s.round^[n] values).names) : name ∈ values.names := by
  by_contra hgone
  have hvalue := get?_rounds s n values name h
  rw [Record.get?_eq_none_iff.mpr hgone, Record.get?_eq_none_iff] at hvalue
  exact hvalue h

theorem rounds_of_whole (h : s.brokenFields values = []) (n : Nat) : s.round^[n] values = values :=
  Function.iterate_fixed (round_of_whole h) n

theorem Consistent.subset_rounds (hN : s.Consistent N) (h : ∀ name ∈ N, name ∈ values.names) (n : Nat) :
    ∀ name ∈ N, name ∈ (s.round^[n] values).names := by
  induction n with
  | zero => exact h
  | succ n ih =>
    rw [Function.iterate_succ_apply']
    exact hN.subset_round ih

/-- How many fields of the schema a record has. -/
def present (s : Schema) (values : Record) : Nat := s.fields.countP fun f => values.has f.name

/-- A round takes away the fields that lack a dependency, and no others. -/
theorem Compiled.countP_round (h : s.Compiled) (values : Record) (q : Field → Bool) :
    s.fields.countP (fun f => values.has f.name && q f) =
      (s.brokenFields values).countP q + s.fields.countP fun f => (s.round values).has f.name && q f := by
  have hgone : (s.brokenFields values).countP (fun f => values.has f.name && q f) = (s.brokenFields values).countP q := by
    refine List.countP_congr fun f hf => ?_
    rw [Record.has_iff_mem_names.mpr (mem_brokenFields.mp hf).2.1, Bool.true_and]
  have hkept : (s.fields.filter fun f => !(values.has f.name && !(missingOf values f).isEmpty)).countP
      (fun f => values.has f.name && q f) = s.fields.countP fun f => (s.round values).has f.name && q f := by
    rw [List.countP_filter]
    refine List.countP_congr fun f hf => ?_
    have hround : f.name ∈ (s.round values).names ↔ _ := h.mem_names_round hf
    rw [← Record.has_iff_mem_names, ← Record.has_iff_mem_names, brokenFields, List.mem_filter] at hround
    rw [Bool.and_eq_true, Bool.and_eq_true, Bool.and_eq_true, hround, Bool.not_eq_true', ← Bool.not_eq_true]
    tauto
  rw [List.countP_eq_countP_filter_add s.fields _ fun f => values.has f.name && !(missingOf values f).isEmpty, hkept]
  exact congrArg (· + _) hgone

theorem Compiled.present_eq_add (h : s.Compiled) (values : Record) :
    s.present values = (s.brokenFields values).length + s.present (s.round values) := by
  have hcount := h.countP_round values fun _ => true
  simpa only [present, Bool.and_true, List.countP_true] using hcount

/-- There are no more rounds than fields. -/
theorem Compiled.rounds_end (h : s.Compiled) (n : Nat) : ∀ values : Record, s.present values ≤ n →
    s.brokenFields (s.round^[n] values) = [] := by
  induction n with
  | zero =>
    intro values hn
    have hadd := h.present_eq_add values
    exact List.eq_nil_of_length_eq_zero (Nat.eq_zero_of_add_eq_zero_right (hadd.symm.trans (Nat.le_zero.mp hn)))
  | succ n ih =>
    intro values hn
    by_cases hwhole : s.brokenFields values = []
    · rw [rounds_of_whole hwhole]
      exact hwhole
    · have hadd := h.present_eq_add values
      have hpos := List.length_pos_iff.mpr hwhole
      exact ih (s.round values) (by omega)

/-- What the rounds leave is the greatest consistent set of names that the record has. -/
theorem Compiled.isGreatest_rounds (h : s.Compiled) {n : Nat} (hn : s.fields.length ≤ n) (values : Record) :
    IsGreatest {N | s.Consistent N ∧ ∀ name ∈ N, name ∈ values.names} {name | name ∈ (s.round^[n] values).names} := by
  have hend := h.rounds_end n values (List.countP_le_length.trans hn)
  refine ⟨⟨consistent_of_whole hend, fun name => mem_names_of_rounds⟩, ?_⟩
  rintro N ⟨hN, hvalues⟩
  exact hN.subset_rounds hvalues n

end Schema

/-! ### Failures on the way -/

/-- Whether a context can take so many single failures without raising one. -/
def Context.Room (c : Context) (count : Nat) : Prop :=
  count = 0 ∨ c.options.collects = true ∧ ∀ most ∈ c.options.maxErrors, c.failures.length + count < most

namespace Context

variable {c d : Context} {f : Failure}

theorem collect_of_room (hf : f.flatten.length = 1) (h : c.Room 1) :
    c.collect f = (.ok (), { c with failures := c.failures ++ f.flatten }) := by
  rcases h with h | ⟨hcollects, hmost⟩
  · cases h
  have hroom : c.options.maxErrors.any (· ≤ (c.failures ++ f.flatten).length) = false := by
    rw [List.length_append, hf]
    cases hmax : c.options.maxErrors with
    | none => rfl
    | some most => simpa using hmost most hmax
  unfold collect
  rw [if_neg (by simp [hcollects])]
  exact if_neg (by rw [hroom]; exact Bool.false_ne_true)

theorem collect_of_no_room (hf : f.flatten.length = 1) (h : ¬ c.Room 1) : ∃ g d, c.collect f = (.error g, d) := by
  unfold collect
  by_cases hcollects : c.options.collects = true
  · have hfull : c.options.maxErrors.any (· ≤ (c.failures ++ f.flatten).length) = true := by
      by_contra hroom
      refine h (.inr ⟨hcollects, fun most hmost => ?_⟩)
      rw [Option.mem_def.mp hmost, List.length_append, hf] at hroom
      simpa using hroom
    rw [if_neg (by simp [hcollects]), if_pos hfull]
    exact ⟨_, _, rfl⟩
  · rw [if_pos (by simpa using hcollects)]
    exact ⟨_, _, rfl⟩

theorem room_of_add {m n : Nat} (h : c.Room (m + n)) : c.Room m := by
  rcases h with hzero | ⟨hcollects, hmost⟩
  · exact .inl (Nat.eq_zero_of_add_eq_zero_right hzero)
  · refine .inr ⟨hcollects, fun most h => ?_⟩
    have hless := hmost most h
    omega

/-- There is room for two lots if there is room for one and, once that is taken, for the other. -/
theorem room_add_iff {m n : Nat} (hm : c.Room m) (hoptions : d.options = c.options)
    (hlength : d.failures.length = c.failures.length + m) : c.Room (m + n) ↔ d.Room n := by
  unfold Room
  rw [hoptions, hlength, ← Nat.add_assoc]
  constructor
  · rintro (hzero | hroom)
    · exact .inl (Nat.eq_zero_of_add_eq_zero_left hzero)
    · exact .inr hroom
  · rintro (rfl | hroom)
    · exact hm
    · exact .inr hroom

end Context

namespace Parse

variable {α β : Type}

/-- A parse that collects so many single failures under its options, and gives one value wherever there is
    room for them. -/
structure Yields (a : α) (count : Options → Nat) (p : Parse α) : Prop where
  ok : ∀ s, s.context.Room (count s.context.options) → ∃ t, p.outcome s = (.ok a, t) ∧
    t.context.options = s.context.options ∧
    t.context.failures.length = s.context.failures.length + count s.context.options
  error : ∀ s, ¬ s.context.Room (count s.context.options) → ∃ f t, p.outcome s = (.error f, t)

variable {a : α} {b : β} {count count' : Options → Nat} {p : Parse α}

theorem Yields.pure (a : α) : Yields a (fun _ => 0) (pure a) where
  ok s _ := ⟨s, rfl, rfl, rfl⟩
  error _ h := absurd (.inl rfl) h

theorem Yields.warn (message : String) : Yields () (fun _ => 0) (warn message) where
  ok s _ := ⟨⟨s.context.warn message, s.calls⟩, rfl, rfl, rfl⟩
  error _ h := absurd (.inl rfl) h

theorem Yields.collect {f : Failure} (hf : f.flatten.length = 1) : Yields () (fun _ => 1) (collect f) where
  ok s h := by
    refine ⟨⟨{ s.context with failures := s.context.failures ++ f.flatten }, s.calls⟩, ?_, rfl, ?_⟩
    · rw [Parse.collect, outcome_ofContext, Context.collect_of_room hf h]
    · rw [List.length_append, hf]
  error s h := by
    obtain ⟨g, d, hcollect⟩ := Context.collect_of_no_room hf h
    refine ⟨g, ⟨d, s.calls⟩, ?_⟩
    rw [Parse.collect, outcome_ofContext, hcollect]

theorem Yields.bind {k : α → Parse β} (hp : Yields a count p) (hk : Yields b count' (k a)) :
    Yields b (fun o => count o + count' o) (p >>= k) := by
  constructor
  · intro s hroom
    obtain ⟨t, hpa, hoptions, hlength⟩ := hp.ok s (Context.room_of_add hroom)
    have hrest := (Context.room_add_iff (Context.room_of_add hroom) hoptions hlength).mp hroom
    rw [← hoptions] at hrest
    obtain ⟨u, hkb, hoptions', hlength'⟩ := hk.ok t hrest
    refine ⟨u, (outcome_bind_of_ok hpa).trans hkb, hoptions'.trans hoptions, ?_⟩
    rw [hlength', hlength, hoptions, Nat.add_assoc]
  · intro s hroom
    by_cases hfirst : s.context.Room (count s.context.options)
    · obtain ⟨t, hpa, hoptions, hlength⟩ := hp.ok s hfirst
      rw [Context.room_add_iff hfirst hoptions hlength, ← hoptions] at hroom
      obtain ⟨f, u, hkf⟩ := hk.error t hroom
      exact ⟨f, u, (outcome_bind_of_ok hpa).trans hkf⟩
    · obtain ⟨f, t, hpf⟩ := hp.error s hfirst
      exact ⟨f, t, outcome_bind_of_error hpf⟩

/-- A parse that first looks at its options. -/
theorem Yields.options {k : Options → Parse β} (hk : ∀ o, Yields b (fun _ => count o) (k o)) :
    Yields b count (options >>= k) where
  ok s h := by
    rw [outcome_bind_of_ok (outcome_options s)]
    exact (hk _).ok s h
  error s h := by
    rw [outcome_bind_of_ok (outcome_options s)]
    exact (hk _).error s h

theorem Yields.fieldRoute {f : Field} {k : Route → Parse β} (hk : ∀ r, Yields b count (k r)) :
    Yields b count (Schema.fieldRoute f >>= k) := by
  have hroute (s : ParseState) : (Schema.fieldRoute f).outcome s = (.ok (s.context.route ++ [.key f.name]), s) := rfl
  constructor
  · intro s h
    rw [outcome_bind_of_ok (hroute s)]
    exact (hk _).ok s h
  · intro s h
    rw [outcome_bind_of_ok (hroute s)]
    exact (hk _).error s h

end Parse

/-! ### Whole passes -/

namespace Schema

open Parse

variable {s : Schema} {f : Field} {values : Record}

/-- Whether a field is missed: it was given, and its policy does not let it go. -/
def missed (supplied : List String) (o : Options) (f : Field) : Bool := supplied.contains f.name && f.policy o == .throw

theorem yields_reportBroken (supplied : List String) (values : Record) (f : Field) :
    Yields () (fun o => (missed supplied o f).toNat) (reportBroken supplied values f) := by
  unfold reportBroken
  by_cases hsupplied : supplied.contains f.name = true
  · rw [if_pos hsupplied]
    refine .options fun o => ?_
    cases hpolicy : f.policy o with
    | throw =>
      have hmissed : (missed supplied o f).toNat = 1 := by rw [missed, hsupplied, hpolicy]; rfl
      rw [hmissed]
      exact .fieldRoute fun r => .collect (f := .missingDependencies r f.name (missingOf values f)) rfl
    | exclude | preserve =>
      have hmissed : (missed supplied o f).toNat = 0 := by rw [missed, hsupplied, hpolicy]; rfl
      rw [hmissed]
      exact .warn _
  · have hmissed (o : Options) : (missed supplied o f).toNat = 0 := by
      rw [missed, (Bool.not_eq_true _).mp hsupplied]
      rfl
    simp only [hmissed, if_neg hsupplied]
    exact .pure ()

theorem yields_reportAll (supplied : List String) (values : Record) (fs : List Field) :
    Yields () (fun o => fs.countP (missed supplied o)) (reportAll supplied values fs) := by
  induction fs with
  | nil => exact .pure ()
  | cons f rest ih =>
    have hcount (o : Options) : (f :: rest).countP (missed supplied o) =
        (missed supplied o f).toNat + rest.countP (missed supplied o) := by
      rw [List.countP_cons, Nat.add_comm]
      cases missed supplied o f <;> rfl
    simp only [hcount]
    exact (yields_reportBroken supplied values f).bind ih

/-- How many fields that are missed are dropped between two records. -/
def losses (s : Schema) (supplied : List String) (values kept : Record) (o : Options) : Nat :=
  s.fields.countP fun f => values.has f.name && (!kept.has f.name && missed supplied o f)

theorem losses_self (supplied : List String) (values : Record) (o : Options) : s.losses supplied values values o = 0 := by
  refine List.countP_eq_zero.mpr fun f _ hlost => ?_
  cases hf : values.has f.name <;> simp [hf] at hlost

theorem Compiled.losses_round (h : s.Compiled) (supplied : List String) (values : Record) (n : Nat) (o : Options) :
    s.losses supplied values (s.round^[n + 1] values) o = (s.brokenFields values).countP (missed supplied o) +
      s.losses supplied (s.round values) (s.round^[n] (s.round values)) o := by
  rw [losses, Function.iterate_succ_apply, h.countP_round, ← losses]
  refine congrArg (· + _) (List.countP_congr fun f hf => ?_)
  have hgone : (s.round^[n] (s.round values)).has f.name = false := by
    rw [← Bool.not_eq_true, Record.has_iff_mem_names]
    intro hname
    exact (Schema.mem_names_round.mp (mem_names_of_rounds hname)).2 ⟨f, hf, rfl⟩
  simp [hgone]

theorem Compiled.yields_dropBroken (h : s.Compiled) (supplied : List String) (n : Nat) : ∀ values : Record,
    Yields (s.round^[n] values) (s.losses supplied values (s.round^[n] values)) (s.dropBroken supplied n values) := by
  induction n with
  | zero =>
    intro values
    simp only [Function.iterate_zero, id, funext (losses_self supplied values)]
    exact .pure values
  | succ n ih =>
    intro values
    unfold dropBroken
    -- The loop ends as soon as nothing is broken, and the rounds that are left would change nothing.
    by_cases hwhole : s.brokenFields values = []
    · rw [rounds_of_whole hwhole, funext (losses_self supplied values), hwhole]
      exact .pure values
    · simp only [List.isEmpty_iff, if_neg hwhole]
      rw [funext (h.losses_round supplied values n)]
      exact (yields_reportAll supplied values _).bind (ih (s.round values))

/-- More rounds than fields make no difference. -/
theorem Compiled.dropBroken_add (h : s.Compiled) (supplied : List String) (n more : Nat) : ∀ values : Record,
    s.present values ≤ n → s.dropBroken supplied (n + more) values = s.dropBroken supplied n values := by
  induction n with
  | zero =>
    intro values hn
    have hwhole : s.brokenFields values = [] := h.rounds_end 0 values hn
    cases more with
    | zero => rfl
    | succ more => simp [dropBroken, hwhole]
  | succ n ih =>
    intro values hn
    rw [Nat.add_right_comm]
    unfold dropBroken
    by_cases hwhole : s.brokenFields values = []
    · simp only [hwhole, List.isEmpty_nil, if_true]
    · -- What is broken was present, so fewer fields are present after the round.
      have hadd := h.present_eq_add values
      have hpos := List.length_pos_iff.mpr hwhole
      simp only [List.isEmpty_iff, if_neg hwhole]
      exact congrArg (_ >>= ·) (funext fun _ => ih (s.round values) (by omega))

/-- What is left of a record once no field lacks a dependency. -/
def settled (s : Schema) (values : Record) : Record := s.round^[s.fields.length + 1] values

theorem Compiled.yields_finalize (h : s.Compiled) (values : Record) (supplied : List String) (extras : Record) :
    Yields ((s.arranged (s.settled values)).insertAll extras) (s.losses supplied values (s.settled values))
      (s.finalize values supplied extras) := by
  have hdrop := h.yields_dropBroken supplied (s.fields.length + 1) values
  exact hdrop.bind (k := fun kept => pure ((s.arranged kept).insertAll extras)) (.pure _)

theorem Compiled.isGreatest_settled (h : s.Compiled) (values : Record) :
    IsGreatest {N | s.Consistent N ∧ ∀ name ∈ N, name ∈ values.names} {name | name ∈ (s.settled values).names} :=
  h.isGreatest_rounds (Nat.le_succ _) values

/-- What is settled stands under the names that are kept, unless the other keys have them. -/
theorem get?_finalized {extras : Record} (hvalues : values.names.Nodup) (hextras : extras.names.Nodup) (name : String) :
    ((s.arranged (s.settled values)).insertAll extras).get? name =
      (extras.get? name).or ((s.settled values).get? name) := by
  have hsettled : (s.settled values).names.Nodup := nodup_names_rounds s _ hvalues
  rw [Record.get?_insertAll _ _ hextras, arranged, Record.get?_arranged hsettled]

theorem outcome_of_yields {α : Type} {a b : α} {count : Options → Nat} {p : Parse α} (h : Yields a count p)
    {state t : ParseState} (hok : p.outcome state = (.ok b, t)) : b = a := by
  by_cases hroom : state.context.Room (count state.context.options)
  · obtain ⟨u, hp, -⟩ := h.ok state hroom
    cases hok.symm.trans hp
    rfl
  · obtain ⟨f, u, hp⟩ := h.error state hroom
    cases hok.symm.trans hp

theorem exists_ok_iff_of_yields {α : Type} {a : α} {count : Options → Nat} {p : Parse α} (h : Yields a count p)
    (state : ParseState) :
    (∃ b t, p.outcome state = (.ok b, t)) ↔ state.context.Room (count state.context.options) := by
  constructor
  · rintro ⟨b, t, hok⟩
    by_contra hroom
    obtain ⟨f, u, hp⟩ := h.error state hroom
    cases hok.symm.trans hp
  · intro hroom
    obtain ⟨t, hp, -⟩ := h.ok state hroom
    exact ⟨a, t, hp⟩

/-! ### The order of declaration -/

/-- The names that are kept are the same for the same fields and values in another order. -/
theorem Compiled.mem_settled_of_perm {s' : Schema} (h : s.Compiled) (h' : s'.Compiled) (hfields : s'.fields.Perm s.fields)
    {values' : Record} (hvalues : values'.Perm values) (name : String) :
    name ∈ (s'.settled values').names ↔ name ∈ (s.settled values).names := by
  have hsets : {N | s'.Consistent N ∧ ∀ name ∈ N, name ∈ values'.names} =
      {N | s.Consistent N ∧ ∀ name ∈ N, name ∈ values.names} := by
    ext N
    refine and_congr (forall_congr' fun f => ?_) (forall_congr' fun n => ?_)
    · rw [hfields.mem_iff]
    · rw [Record.names, Record.names, (hvalues.map Prod.fst).mem_iff]
  have hgreatest := h'.isGreatest_settled values'
  rw [hsets] at hgreatest
  exact Set.ext_iff.mp (hgreatest.unique (h.isGreatest_settled values)) name

section Reordered

variable {s' : Schema} {values' extras : Record} (h : s.Compiled) (h' : s'.Compiled) (hfields : s'.fields.Perm s.fields)
  (hperm : values'.Perm values) (hvalues : values.names.Nodup)

include h h' hfields hperm hvalues

theorem Compiled.get?_settled_of_perm (name : String) :
    (s'.settled values').get? name = (s.settled values).get? name := by
  have hvalues' : values'.names.Nodup := (hperm.map Prod.fst).nodup_iff.mpr hvalues
  have hmem := h.mem_settled_of_perm h' hfields hperm name
  by_cases hname : name ∈ (s.settled values).names
  · have hkept := get?_rounds s _ values name hname
    have hkept' := get?_rounds s' _ values' name (hmem.mpr hname)
    rw [settled, settled, hkept, hkept', Record.get?_of_perm hperm hvalues']
  · rw [Record.get?_eq_none_iff.mpr hname, Record.get?_eq_none_iff.mpr fun hname' => hname (hmem.mp hname')]

theorem Compiled.losses_of_perm (supplied : List String) :
    s'.losses supplied values' (s'.settled values') = s.losses supplied values (s.settled values) := by
  have hvalues' : values'.names.Nodup := (hperm.map Prod.fst).nodup_iff.mpr hvalues
  funext o
  rw [losses, losses, hfields.countP_eq]
  refine List.countP_congr fun f _ => ?_
  rw [← Record.isSome_get?, ← Record.isSome_get?, ← Record.isSome_get? values, ← Record.isSome_get? (s.settled values),
    h.get?_settled_of_perm h' hfields hperm hvalues, Record.get?_of_perm hperm hvalues']

/-- For the same fields and values in another order, either pass succeeds or neither, and the records are the
    same but for the order of their entries. -/
theorem Compiled.finalize_of_perm (hextras : extras.names.Nodup) (supplied : List String) (state : ParseState) :
    ((∃ r t, (s.finalize values supplied extras).outcome state = (.ok r, t)) ↔
      ∃ r t, (s'.finalize values' supplied extras).outcome state = (.ok r, t)) ∧
    ∀ r t r' t', (s.finalize values supplied extras).outcome state = (.ok r, t) →
      (s'.finalize values' supplied extras).outcome state = (.ok r', t') → ∀ name, r.get? name = r'.get? name := by
  have hvalues' : values'.names.Nodup := (hperm.map Prod.fst).nodup_iff.mpr hvalues
  have hyields := h.yields_finalize values supplied extras
  have hyields' := h'.yields_finalize values' supplied extras
  refine ⟨?_, fun r t r' t' hok hok' name => ?_⟩
  · rw [exists_ok_iff_of_yields hyields, exists_ok_iff_of_yields hyields',
      h.losses_of_perm h' hfields hperm hvalues supplied]
  · obtain rfl := outcome_of_yields hyields hok
    obtain rfl := outcome_of_yields hyields' hok'
    rw [get?_finalized hvalues hextras, get?_finalized hvalues' hextras,
      h.get?_settled_of_perm h' hfields hperm hvalues]

end Reordered

/-! ### The pass as a whole -/

theorem Compiled.get?_of_finalize (h : s.Compiled) {extras : Record} (hvalues : values.names.Nodup)
    (hextras : extras.names.Nodup) {supplied : List String} {state t : ParseState} {r : Record}
    (hok : (s.finalize values supplied extras).outcome state = (.ok r, t)) :
    r.names.Nodup ∧ (∀ name ∈ extras.names, r.get? name = extras.get? name) ∧
      (∀ name ∈ (s.settled values).names, name ∉ extras.names → r.get? name = values.get? name) ∧
      ∀ name ∉ (s.settled values).names, name ∉ extras.names → r.get? name = none := by
  obtain rfl := outcome_of_yields (h.yields_finalize values supplied extras) hok
  have hget := get?_finalized (s := s) hvalues hextras
  have hsettled : (s.settled values).names.Nodup := nodup_names_rounds s _ hvalues
  refine ⟨Record.nodup_names_insertAll (Record.nodup_names_arranged hsettled _) _, fun name hname => ?_,
    fun name hkept hname => ?_, fun name hdropped hname => ?_⟩
  · obtain ⟨v, hv⟩ := Record.exists_get?_of_mem hname
    rw [hget, hv, Option.some_or]
  · rw [hget, Record.get?_eq_none_iff.mpr hname, Option.none_or]
    exact get?_rounds s _ values name hkept
  · rw [hget, Record.get?_eq_none_iff.mpr hname, Option.none_or]
    exact Record.get?_eq_none_iff.mpr hdropped

/-- The rounds end, and a record that comes out of them has the greatest set of names of its fields in which
    every field has its dependencies, with the values that it had, and the other keys as they are. In which
    order the fields are declared and the values come does not matter. -/
theorem Compiled.finalize_greatest (h : s.Compiled) {values extras : Record} (hvalues : values.names.Nodup)
    (hextras : extras.names.Nodup) (supplied : List String) :
    (∃ n ≤ s.fields.length, s.brokenFields (s.round^[n] values) = []) ∧
    (∀ more, s.dropBroken supplied (s.fields.length + 1 + more) values =
      s.dropBroken supplied (s.fields.length + 1) values) ∧
    ∃ kept : Set String, IsGreatest {N | s.Consistent N ∧ ∀ name ∈ N, name ∈ values.names} kept ∧
      (∀ state r t, (s.finalize values supplied extras).outcome state = (.ok r, t) →
        r.names.Nodup ∧ (∀ name ∈ extras.names, r.get? name = extras.get? name) ∧
        (∀ name ∈ kept, name ∉ extras.names → r.get? name = values.get? name) ∧
        ∀ name ∉ kept, name ∉ extras.names → r.get? name = none) ∧
      ∀ s' : Schema, s'.Compiled → s'.fields.Perm s.fields → ∀ values', values'.Perm values → ∀ state,
        ((∃ r t, (s.finalize values supplied extras).outcome state = (.ok r, t)) ↔
          ∃ r t, (s'.finalize values' supplied extras).outcome state = (.ok r, t)) ∧
        ∀ r t r' t', (s.finalize values supplied extras).outcome state = (.ok r, t) →
          (s'.finalize values' supplied extras).outcome state = (.ok r', t') → ∀ name, r.get? name = r'.get? name := by
  have hpresent : s.present values ≤ s.fields.length := List.countP_le_length
  refine ⟨⟨_, Nat.le_refl _, h.rounds_end _ values hpresent⟩, fun more => ?_, _, h.isGreatest_settled values,
    fun _ _ _ => h.get?_of_finalize hvalues hextras, fun s' h' hfields values' hperm state => ?_⟩
  · exact h.dropBroken_add supplied _ more values (hpresent.trans (Nat.le_succ _))
  · exact h.finalize_of_perm h' hfields hperm hvalues hextras supplied state

/-- Three fields in a chain whose last link is missing, and a cycle beside it. -/
theorem finalize_chain :
    let field (name : String) (dependencies : List String) : Field := { name, rule := .any, dependencies }
    let chain : Schema :=
      ⟨"Chain", [field "a" ["b"], field "b" ["c"], field "c" [], field "x" ["y"], field "y" ["x"]], {}⟩
    let values : Record := [("a", .int 1), ("b", .int 2), ("x", .int 3), ("y", .int 4)]
    chain.Compiled ∧ values.names.Nodup ∧
      IsGreatest {N | chain.Consistent N ∧ ∀ name ∈ N, name ∈ values.names} {"x", "y"} ∧
      ∀ state r t, (chain.finalize values [] [("z", .null)]).outcome state = (.ok r, t) →
        r.get? "a" = none ∧ r.get? "x" = some (.int 3) ∧ r.get? "z" = some .null := by
  intro field chain values
  have hchain : chain.Compiled := ⟨chain.name, chain.fields, chain.options, rfl⟩
  have hvalues : values.names.Nodup := by decide
  have hcycle : IsGreatest {N | chain.Consistent N ∧ ∀ name ∈ N, name ∈ values.names} {"x", "y"} := by
    refine ⟨⟨?_, by simp [values, Record.names]⟩, ?_⟩
    · intro f hf hname d hd
      simp only [chain, List.mem_cons, List.not_mem_nil, or_false] at hf
      rcases hf with rfl | rfl | rfl | rfl | rfl <;> simp_all [field]
    · rintro N ⟨hN, hnames⟩ name hname
      have hc : "c" ∉ N := fun hc => absurd (hnames "c" hc) (by decide)
      have hb : "b" ∉ N := fun hb => hc (hN (field "b" ["c"]) (by simp [chain]) hb "c" (by simp [field]))
      have ha : "a" ∉ N := fun ha => hb (hN (field "a" ["b"]) (by simp [chain]) ha "b" (by simp [field]))
      have hone := hnames name hname
      simp only [values, Record.names, List.map_cons, List.map_nil, List.mem_cons, List.not_mem_nil, or_false] at hone
      rcases hone with rfl | rfl | rfl | rfl
      · exact absurd hname ha
      · exact absurd hname hb
      · exact .inl rfl
      · exact .inr rfl
  have hextras : Record.names [("z", Value.null)] = ["z"] := rfl
  obtain ⟨-, -, kept, hkept, hresult, -⟩ := hchain.finalize_greatest hvalues
    (show (Record.names [("z", .null)]).Nodup from List.nodup_singleton _) []
  obtain rfl := hkept.unique hcycle
  refine ⟨hchain, hvalues, hcycle, fun state r t hok => ?_⟩
  obtain ⟨-, hother, hsame, hgone⟩ := hresult state r t hok
  rw [hextras] at hother hsame hgone
  exact ⟨hgone "a" (by simp) (by decide), hsame "x" (by simp) (by decide), hother "z" (by decide)⟩

end Schema

end Conform
