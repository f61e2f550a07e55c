import Conform.Proofs.Coupling.Sound

/-! Parses that compute. Where every policy is to throw, a parse that makes nothing of its place, of the warnings so
    far and of the calls of factories accepts what a function of the options and of the depth gives, and is
    accepted nowhere else, whether or not failures are collected on the way. -/

namespace Conform

/-- Failures are not passed over, whichever part of a value they are found in. -/
structure Options.Throws (o : Options) : Prop where
  items : o.itemPolicy = .throw
  keys : o.keyPolicy = .throw
  values : o.valuePolicy = .throw

namespace Parse

variable {α β : Type} {m : Options → Nat → Option α} {p : Parse α}

/-- A parse accepts what a function of the options and of the depth gives, and nothing else. -/
structure Computes (m : Options → Nat → Option α) (p : Parse α) : Prop where
  behaves : Behaves (fun _ => True) p
  accepts : ∀ s : ParseState, s.context.failures = [] → s.context.options.Throws → ∀ a,
    (∃ t, Accepts p s a t) ↔ m s.context.options s.context.depth = some a

namespace Computes

theorem congr {n : Options → Nat → Option α} (h : Computes m p) (hmn : ∀ o depth, o.Throws → m o depth = n o depth) :
    Computes n p :=
  ⟨h.behaves, fun s hs ho a => by rw [h.accepts s hs ho, hmn _ _ ho]⟩

/-! ### Sequences -/

theorem pure (a : α) : Computes (fun _ _ => some a) (pure a) where
  behaves := .pure trivial
  accepts s hs _ b := by
    constructor
    · rintro ⟨t, hok, -⟩
      cases hok
      rfl
    · rintro ⟨⟩
      exact ⟨s, rfl, hs⟩

theorem throw {f : Failure} (hf : f.Solid) : Computes (fun _ _ => (none : Option α)) (throw f) where
  behaves := .throw hf
  accepts s _ _ a := by
    constructor
    · rintro ⟨t, h⟩
      exact absurd h not_accepts_throw
    · intro h
      cases h

theorem bind {n : α → Options → Nat → Option β} {k : α → Parse β} (h : Computes m p) (hk : ∀ a, Computes (n a) (k a)) :
    Computes (fun o depth => (m o depth).bind fun a => n a o depth) (p >>= k) where
  behaves := h.behaves.bind fun a _ => (hk a).behaves
  accepts s hs ho b := by
    have hsolid := Context.solid_of_clean hs
    have hbind {u : ParseState} := accepts_bind (b := b) (u := u) h.behaves (fun a _ => (hk a).behaves) hsolid
    rw [Option.bind_eq_some_iff]
    constructor
    · rintro ⟨u, hu⟩
      obtain ⟨a, t, ha, -, hleads, hb⟩ := hbind.mp hu
      refine ⟨a, (h.accepts s hs ho a).mp ⟨t, ha⟩, ?_⟩
      rw [← hleads.options, ← hleads.depth]
      exact ((hk a).accepts t ha.2 (hleads.options ▸ ho) b).mp ⟨u, hb⟩
    · rintro ⟨a, ha, hb⟩
      obtain ⟨t, ht⟩ := (h.accepts s hs ho a).mpr ha
      have hleads : s.context.Leads t.context := by
        have hsound := h.behaves s hsolid
        rw [ht.1] at hsound
        exact hsound.leads
      rw [← hleads.options, ← hleads.depth] at hb
      obtain ⟨u, hu⟩ := ((hk a).accepts t ht.2 (hleads.options ▸ ho) b).mpr hb
      exact ⟨u, hbind.mpr ⟨a, t, ht, trivial, hleads, hu⟩⟩

/-- A step that cannot fail, and what follows it. -/
theorem bind_passes {value : ParseState → α} {n : Options → Nat → Option β} {n' : α → Options → Nat → Option β}
    {k : α → Parse β} (hp : Passes value p) (hk : ∀ a, Computes (n' a) (k a))
    (hn : ∀ s : ParseState, n' (value s) s.context.options s.context.depth = n s.context.options s.context.depth) :
    Computes n (p >>= k) where
  behaves := (Behaves.of_passes (P := fun _ => True) hp fun _ => trivial).bind fun a _ => (hk a).behaves
  accepts s hs ho b := by
    obtain ⟨ws, calls, hstep⟩ := hp s
    unfold Accepts
    rw [outcome_bind_of_ok hstep, ← hn s]
    exact (hk (value s)).accepts ⟨{ s.context with warnings := ws }, calls⟩ hs ho b

theorem bind_options {n : Options → Options → Nat → Option β} {k : Options → Parse β}
    (hk : ∀ o, Computes (n o) (k o)) : Computes (fun o depth => n o o depth) (options >>= k) :=
  bind_passes passes_options hk fun _ => rfl

/-- Under options that throw, it is enough to know what follows under such options. -/
theorem bind_throwing {n : Options → Options → Nat → Option β} {k : Options → Parse β}
    (hbehaves : Behaves (fun _ => True) (options >>= k)) (hk : ∀ o, o.Throws → Computes (n o) (k o)) :
    Computes (fun o depth => n o o depth) (options >>= k) where
  behaves := hbehaves
  accepts s hs ho b := by
    unfold Accepts
    rw [outcome_bind_of_ok (outcome_options s)]
    exact (hk s.context.options ho).accepts s hs ho b

theorem bind_route {n : Options → Nat → Option β} {k : Route → Parse β} (hk : ∀ r, Computes n (k r)) :
    Computes n (route >>= k) :=
  bind_passes passes_route hk fun _ => rfl

/-- A step that gives nothing makes no difference. -/
theorem bind_step {step : Parse Unit} {n : Options → Nat → Option β} {k : Unit → Parse β}
    (hstep : Passes (fun _ => ()) step) (hk : Computes n (k ())) : Computes n (step >>= k) :=
  bind_passes hstep (fun _ => hk) fun _ => rfl

theorem map {f : α → β} (h : Computes m p) : Computes (fun o depth => (m o depth).map f) (p >>= fun a => Pure.pure (f a)) :=
  (h.bind fun a => pure (f a)).congr fun o depth _ => by cases m o depth <;> rfl

/-! ### Failures -/

/-- A failure that is collected in place of a value is not accepted, so nothing is gained by it. -/
theorem recover (h : Computes m p) (a : α) : Computes m (p.recover a) where
  behaves := .recover trivial h.behaves
  accepts s hs ho b := by
    rw [← h.accepts s hs ho]
    constructor
    · rintro ⟨t, ht⟩
      exact ⟨t, accepts_of_recover h.behaves (Context.solid_of_clean hs) ht⟩
    · rintro ⟨t, hok, hclean⟩
      refine ⟨t, ?_, hclean⟩
      unfold Parse.recover
      rw [outcome_tryCatch, hok]

/-- A failure that is thrown where the parse stands. -/
theorem throw_here {f : Route → Failure} (hf : ∀ r, (f r).Solid) :
    Computes (fun _ _ => (none : Option α)) (route >>= fun r => MonadExcept.throw (f r)) :=
  bind_route fun r => throw (hf r)

/-- Failures that are collected are recorded or end the parse, so nothing is accepted. -/
theorem collectAll {fs : List Failure} (hne : fs ≠ []) (hsolid : ∀ f ∈ fs, f.Solid) :
    Computes (fun _ _ => none) (collectAll fs) where
  behaves := .collectAll hsolid
  accepts s hs _ a := by
    refine iff_of_false ?_ (Option.some_ne_none a).symm
    rintro ⟨t, hok, hclean⟩
    have hdirty := (Context.sound_collectAll fs (Context.solid_of_clean hs) hsolid).2 hne
    rw [Parse.collectAll, outcome_ofContext] at hok
    exact hdirty (congrArg Prod.fst hok) ((congrArg (fun x => x.2.context.failures) hok).trans hclean)

/-- What follows an attempt goes by what is computed in the attempt's own context. -/
theorem accepts_attempt {n : Option α → Options → Nat → Option β} {k : Except (List Failure) α × Context → Parse β}
    (h : Computes m p) (hok : ∀ a d, d.failures = [] → Computes (n (some a)) (k (.ok a, d)))
    (herror : ∀ fs d, fs ≠ [] → (∀ f ∈ fs, f.Solid) → d.failures = [] → Computes (n none) (k (.error fs, d)))
    {c : Context} (hc : c.failures = []) (hco : c.options.Throws) {s : ParseState} (hs : s.context.failures = [])
    (ho : s.context.options.Throws) (b : β) :
    (∃ t, Accepts (attempt c p >>= k) s b t) ↔ n (m c.options c.depth) s.context.options s.context.depth = some b := by
  unfold Accepts
  rw [outcome_bind_of_ok (outcome_attempt c p s)]
  rcases attempted_cases h.behaves (Context.solid_of_clean hc) s.calls with ⟨a, t, ht, -, heq⟩ |
    ⟨hnone, fs, d, heq, hne, hsolid, hclean⟩
  · rw [heq, (h.accepts ⟨c, s.calls⟩ hc hco a).mp ⟨t, ht⟩]
    exact (hok a t.context ht.2).accepts ⟨s.context, (p.outcome ⟨c, s.calls⟩).2.calls⟩ hs ho b
  · have hm : m c.options c.depth = none := by
      refine Option.eq_none_iff_forall_ne_some.mpr fun a ha => ?_
      obtain ⟨t, ht⟩ := (h.accepts ⟨c, s.calls⟩ hc hco a).mpr ha
      exact hnone a t ht
    rw [heq, hm]
    exact (herror fs d hne hsolid hclean).accepts ⟨s.context, (p.outcome ⟨c, s.calls⟩).2.calls⟩ hs ho b

end Computes

end Parse

end Conform
