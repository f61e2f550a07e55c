import Conform.Proofs.Parse.Accepted
import Conform.Proofs.Parse.ComesTo

/-! Elements of a value. Each element is read in a child of its own, and what is found there depends on the place, on the
    element and on how often factories were called before, but not on what was found of other elements. From the findings
    and the policy it follows what a run over the elements keeps, what it warns of and which failures it records. -/

namespace Conform

/-! ### Children -/

namespace Context

variable {c child : Context} {item : RouteItem}

/-- The child one step further. -/
def below (c : Context) (item : RouteItem) : Context := ⟨c.options, c.route ++ [item], c.depth + 1, [], []⟩

theorem enter_eq_ok_iff : c.enter item = .ok child ↔ c.depth + 1 ≤ c.options.depthLimit ∧ child = c.below item := by
  unfold enter
  simp only
  split
  next h => exact iff_of_false nofun fun hboth => absurd hboth.1 (Nat.not_le.mpr h)
  next h =>
    rw [Except.ok.injEq, and_iff_right (Nat.not_lt.mp h), below]
    exact eq_comm

theorem enter_of_le (h : c.depth + 1 ≤ c.options.depthLimit) (item : RouteItem) : c.enter item = .ok (c.below item) :=
  enter_eq_ok_iff.mpr ⟨h, rfl⟩

end Context

namespace Reading

open Parse

/-! ### Findings -/

/-- An element of a value: the step to it, the reading for it and what stands there. -/
structure Element where
  item : RouteItem
  reading : Reading
  value : Value

/-- What is found of an element: where it stands, what it was before, what it is read as or how that fails, and what is
    warned of meanwhile. -/
structure Finding where
  route : Route
  raw : Value
  result : Except (List Failure) Value
  warnings : List Warning

namespace Finding

/-- What the element is read as, if it is read without a failure. -/
def parsed? (f : Finding) : Option Value := f.result.toOption

/-- What a policy makes of the element. -/
def outcome (f : Finding) (policy : ErrorPolicy) : Outcome :=
  match f.result, policy with
  | .ok w, _ => .parsed w
  | .error _, .exclude => .excluded
  | .error _, .preserve => .preserved f.raw
  | .error _, .throw => .collected

/-- What is kept of the element. -/
def kept? (f : Finding) (policy : ErrorPolicy) : Option Value := (f.outcome policy).value?

/-- The warnings of the reading, and one of an element that failed but is passed over. -/
def notes (f : Finding) (policy : ErrorPolicy) : List Warning :=
  f.warnings ++ match f.result, policy with
    | .error failures, .exclude => [⟨f.route, "excluded invalid value: " ++ failuresText failures⟩]
    | .error failures, .preserve => [⟨f.route, "preserved invalid value: " ++ failuresText failures⟩]
    | _, _ => []

/-- The failures that are not passed over. -/
def raised (f : Finding) (policy : ErrorPolicy) : List Failure :=
  match f.result, policy with
  | .error failures, .throw => Failure.flattenAll failures
  | _, _ => []

/-- The element does not decide about the whole. -/
def Passes (f : Finding) (policy : ErrorPolicy) : Prop := policy = .throw → f.parsed?.isSome = true

/-- A failure is one of something. -/
def Solid (f : Finding) : Prop := ∀ failures, f.result = .error failures → Failure.flattenAll failures ≠ []

variable {f : Finding} {policy : ErrorPolicy}

theorem kept?_exclude (f : Finding) : f.kept? .exclude = f.parsed? := by
  obtain ⟨route, raw, failures | w, warnings⟩ := f <;> rfl

theorem kept?_preserve (f : Finding) : f.kept? .preserve = some (f.parsed?.getD f.raw) := by
  obtain ⟨route, raw, failures | w, warnings⟩ := f <;> rfl

theorem kept?_throw (f : Finding) : f.kept? .throw = f.parsed? := by
  obtain ⟨route, raw, failures | w, warnings⟩ := f <;> rfl

theorem notes_throw (f : Finding) : f.notes .throw = f.warnings := by
  obtain ⟨route, raw, failures | w, warnings⟩ := f <;> exact List.append_nil _

theorem raised_eq_nil_iff (h : f.Solid) : f.raised policy = [] ↔ f.Passes policy := by
  unfold raised Passes parsed?
  cases hresult : f.result with
  | ok w => exact iff_of_true rfl fun _ => rfl
  | error failures =>
    cases policy with
    | throw => exact iff_of_false (h failures hresult) fun hpass => nomatch hpass rfl
    | exclude | preserve => exact iff_of_true rfl nofun

/-- All elements are read if and only if there is a value for each. -/
theorem map_parsed?_eq_iff {fs : List Finding} : ∀ {ws : List Value}, fs.map parsed? = ws.map some ↔
    (∀ f ∈ fs, f.parsed?.isSome = true) ∧ ws = fs.filterMap parsed? := by
  induction fs with
  | nil =>
    intro ws
    rw [List.map_nil, eq_comm, List.map_eq_nil_iff]
    exact (and_iff_right (List.forall_mem_nil _)).symm
  | cons f rest ih =>
    intro ws
    rw [List.map_cons, List.forall_mem_cons, List.filterMap_cons]
    cases hf : f.parsed? with
    | none =>
      refine iff_of_false ?_ fun h => nomatch h.1.1
      cases ws <;> nofun
    | some w =>
      cases ws with
      | nil => exact iff_of_false nofun fun h => nomatch h.2
      | cons u us =>
        rw [List.map_cons, List.cons.injEq, ih, Option.some.injEq, List.cons.injEq]
        exact ⟨fun ⟨hw, hrest, hus⟩ => ⟨⟨rfl, hrest⟩, hw.symm, hus⟩,
          fun ⟨⟨_, hrest⟩, hw, hus⟩ => ⟨hw.symm, hrest, hus⟩⟩

end Finding

namespace Element

variable (e : Element) (c : Context) (calls : Calls)

/-- The reading of the element in the child one step further. -/
def run : Except Failure Value × ParseState := (e.reading.read e.value).outcome ⟨c.below e.item, calls⟩

/-- The calls of factories by then. -/
def after : Calls := (e.run c calls).2.calls

def found : Finding :=
  ⟨c.route ++ [e.item], e.value, (Parse.attempted (e.run c calls)).1, (Parse.attempted (e.run c calls)).2.warnings⟩

/-- The reading of the element gives sound runs. -/
abbrev Sound : Prop := Parse.Sound (e.reading.read e.value)

variable {e c calls}

theorem route_attempted (h : e.Sound) : (Parse.attempted (e.run c calls)).2.route = c.route ++ [e.item] := by
  have hroute : (e.run c calls).2.context.route = c.route ++ [e.item] :=
    (h ⟨c.below e.item, calls⟩ (Context.solid_of_clean rfl)).leads.route
  rw [← hroute]
  rcases e.run c calls with ⟨f | w, t⟩
  · rfl
  · rw [Parse.attempted]
    split <;> rfl

theorem solid_found (h : e.Sound) : (e.found c calls).Solid := by
  intro failures hresult
  obtain ⟨w, t, -, -, hok⟩ | ⟨-, fs, d, herror, hne, hsolid, -⟩ :=
    attempted_cases h (c := c.below e.item) (Context.solid_of_clean rfl) calls
  · rw [found, run, hok] at hresult
    cases hresult
  · rw [found, run, herror] at hresult
    cases hresult
    exact Failure.flattenAll_ne_nil hne hsolid

/-- A step over one element. -/
theorem comesTo_guarded {s : ParseState} (h : e.Sound) (hdepth : s.context.depth + 1 ≤ s.context.options.depthLimit)
    (policy : ErrorPolicy) : ComesTo (e.reading.guarded e.value e.item policy) s ((e.found s.context s.calls).outcome policy)
      ((e.found s.context s.calls).notes policy) ((e.found s.context s.calls).raised policy) (e.after s.context s.calls) := by
  have hchild := Context.enter_of_le hdepth e.item
  have hroute : (Parse.attempted (e.run s.context s.calls)).2.route = s.context.route ++ [e.item] := route_attempted h
  refine ComesTo.of_step (u := ⟨s.context, e.after s.context s.calls⟩) ?_ ((outcome_bind_of_ok (outcome_enter hchild)).trans
    (outcome_bind_of_ok (outcome_attempt _ _ s))) rfl
  obtain ⟨w, t, ⟨-, hclean⟩, -, heq⟩ | ⟨-, fs, d, heq, -, hsolid, -⟩ :=
    attempted_cases h (c := s.context.below e.item) (Context.solid_of_clean rfl) s.calls
  · have hfound : e.found s.context s.calls = ⟨s.context.route ++ [e.item], e.value, .ok w, t.context.warnings⟩ := by
      rw [found, run, heq]
    rw [hfound, heq]
    exact (comesTo_absorb hclean _).bind (comesTo_pure _ _)
  · have hfound : e.found s.context s.calls = ⟨s.context.route ++ [e.item], e.value, .error fs, d.warnings⟩ := by
      rw [found, run, heq]
    rw [run, heq] at hroute
    rw [hfound, heq, ← hroute]
    cases policy with
    | exclude => exact (comesTo_takeWarnings _ _).map fun _ => Outcome.excluded
    | preserve => exact (comesTo_takeWarnings _ _).map fun _ => Outcome.preserved e.value
    | throw => exact (comesTo_takeWarnings d _).bind ((comesTo_collectAll hsolid _).map fun _ => Outcome.collected)

theorem comesTo_element {s : ParseState} (h : e.Sound) (hdepth : s.context.depth + 1 ≤ s.context.options.depthLimit)
    (policy : ErrorPolicy) : ComesTo (e.reading.element e.value e.item policy) s ((e.found s.context s.calls).kept? policy)
      ((e.found s.context s.calls).notes policy) ((e.found s.context s.calls).raised policy) (e.after s.context s.calls) :=
  (comesTo_guarded h hdepth policy).map Outcome.value?

/-- An element is only reached where a step further is not too deep. -/
theorem le_of_outcome_element {s t : ParseState} {policy : ErrorPolicy} {kept? : Option Value}
    (hok : (e.reading.element e.value e.item policy).outcome s = (.ok kept?, t)) :
    s.context.depth + 1 ≤ s.context.options.depthLimit := by
  obtain ⟨_, _, hguarded, -⟩ := outcome_bind_eq_ok hok
  obtain ⟨child, _, henter, -⟩ := outcome_bind_eq_ok hguarded
  exact (Context.enter_eq_ok_iff.mp (congrArg Prod.fst henter)).1

end Element

/-! ### Items and positions -/

/-- The elements of a sequence from an index on, each with its reading. -/
def elements : (index : Nat) → List Reading → List Value → List Element
  | index, r :: readings, v :: rest => ⟨.index index, r, v⟩ :: elements (index + 1) readings rest
  | _, _, _ => []

/-- What is found of elements that are read one after the other. -/
def findings (c : Context) : List Element → Calls → List Finding
  | [], _ => []
  | e :: rest, calls => e.found c calls :: findings c rest (e.after c calls)

/-- What is found of the items of a tuple, each with its reading. -/
def positionFindings (rs : List Reading) (c : Context) (vs : List Value) (calls : Calls) : List Finding :=
  findings c (elements 0 rs vs) calls

/-- What is found of the items of a sequence that are all read alike. -/
def itemFindings (r : Reading) (c : Context) (vs : List Value) (calls : Calls) : List Finding :=
  positionFindings (List.replicate vs.length r) c vs calls

variable {c : Context} {policy : ErrorPolicy} {rs : List Reading} {es : List Element}

/-- The items of a sequence are positions that all have one reading. -/
theorem items_eq_positions (r : Reading) (policy : ErrorPolicy) (vs : List Value) :
    ∀ index, r.items policy index vs = positions policy index (List.replicate vs.length r) vs := by
  induction vs with
  | nil => exact fun _ => rfl
  | cons v rest ih =>
    intro index
    rw [items, List.length_cons, List.replicate_succ, positions]
    simp only [ih]

theorem forall_elements {P : Reading → Prop} (h : ∀ r ∈ rs, P r) (vs : List Value) :
    ∀ index, ∀ e ∈ elements index rs vs, P e.reading := by
  induction rs generalizing vs with
  | nil => exact fun _ => List.forall_mem_nil _
  | cons r rest ih =>
    obtain ⟨hr, hrest⟩ := List.forall_mem_cons.mp h
    intro index
    cases vs with
    | nil => exact List.forall_mem_nil _
    | cons v vs => exact List.forall_mem_cons.mpr ⟨hr, ih hrest vs (index + 1)⟩

theorem values_elements (vs : List Value) (hlength : vs.length ≤ rs.length) :
    ∀ index, (elements index rs vs).map Element.value = vs := by
  induction vs generalizing rs with
  | nil => cases rs <;> exact fun _ => rfl
  | cons v rest ih =>
    intro index
    cases rs with
    | nil => exact absurd hlength (Nat.not_succ_le_zero _)
    | cons r rs => rw [elements, List.map_cons, ih (Nat.le_of_succ_le_succ hlength)]

theorem raw_findings (es : List Element) : ∀ calls, (findings c es calls).map Finding.raw = es.map Element.value := by
  induction es with
  | nil => exact fun _ => rfl
  | cons e rest ih =>
    intro calls
    rw [findings, List.map_cons, List.map_cons, ih]
    rfl

/-- There is one finding for each item, in order. -/
theorem raw_positionFindings {vs : List Value} (hlength : vs.length ≤ rs.length) (c : Context) (calls : Calls) :
    (positionFindings rs c vs calls).map Finding.raw = vs := by
  rw [positionFindings, raw_findings]
  exact values_elements vs hlength 0

theorem raw_itemFindings (r : Reading) (c : Context) (vs : List Value) (calls : Calls) :
    (itemFindings r c vs calls).map Finding.raw = vs :=
  raw_positionFindings (Nat.le_of_eq List.length_replicate.symm) c calls

theorem solid_findings (h : ∀ e ∈ es, e.Sound) : ∀ calls, ∀ f ∈ findings c es calls, f.Solid := by
  induction es with
  | nil => exact fun _ => List.forall_mem_nil _
  | cons e rest ih =>
    obtain ⟨he, hrest⟩ := List.forall_mem_cons.mp h
    exact fun calls => List.forall_mem_cons.mpr ⟨Element.solid_found he, ih hrest _⟩

theorem solid_positionFindings (hrs : ∀ r ∈ rs, ∀ v, Parse.Sound (r.read v)) (vs : List Value) (calls : Calls) :
    ∀ f ∈ positionFindings rs c vs calls, f.Solid :=
  solid_findings (fun e he => forall_elements (P := fun r => ∀ v, Parse.Sound (r.read v)) hrs vs 0 e he e.value) calls

theorem solid_itemFindings {r : Reading} (hr : ∀ v, Parse.Sound (r.read v)) (vs : List Value) (calls : Calls) :
    ∀ f ∈ itemFindings r c vs calls, f.Solid :=
  solid_positionFindings (fun _ hq => (List.eq_of_mem_replicate hq).symm ▸ hr) vs calls

theorem filterMap_kept?_cons (f : Finding) (fs : List Finding) :
    (f :: fs).filterMap (·.kept? policy) = (f.kept? policy).toList ++ fs.filterMap (·.kept? policy) := by
  rw [List.filterMap_cons]
  cases f.kept? policy <;> rfl

/-- What was found before makes no difference. -/
theorem findings_finding (ws : List Warning) (fs : List Failure) (es : List Element) :
    ∀ calls, findings (c.finding ws fs) es calls = findings c es calls := by
  induction es with
  | nil => exact fun _ => rfl
  | cons e rest ih =>
    intro calls
    rw [findings, findings, ih]
    rfl

/-- A run over the positions of a sequence, element by element. -/
theorem comesTo_positions (hrs : ∀ r ∈ rs, ∀ v, Parse.Sound (r.read v)) (policy : ErrorPolicy) (vs : List Value) :
    ∀ (index : Nat) (s : ParseState), s.context.depth + 1 ≤ s.context.options.depthLimit →
      let fs := findings s.context (elements index rs vs) s.calls
      ∃ calls, ComesTo (positions policy index rs vs) s (fs.filterMap (·.kept? policy)) (fs.flatMap (·.notes policy))
        (fs.flatMap (·.raised policy)) calls := by
  induction rs generalizing vs with
  | nil => exact fun _ s _ => ⟨s.calls, comesTo_pure [] s⟩
  | cons r rest ih =>
    obtain ⟨hr, hrest⟩ := List.forall_mem_cons.mp hrs
    intro index s hdepth
    cases vs with
    | nil => exact ⟨s.calls, comesTo_pure [] s⟩
    | cons v vs =>
      -- The rest is read where more is on record already, and what is found there is the same.
      have hfirst := Element.comesTo_element (e := ⟨.index index, r, v⟩) (hr v) hdepth policy
      obtain ⟨calls, hothers⟩ := ih hrest vs (index + 1) ⟨s.context.finding _ _, _⟩ hdepth
      rw [findings_finding] at hothers
      dsimp only
      rw [positions, elements, findings, filterMap_kept?_cons, List.flatMap_cons, List.flatMap_cons]
      exact ⟨calls, hfirst.bind (hothers.map fun others => _ ++ others)⟩

/-! ### Entries -/

/-- What is found of an entry: of its key, and of its value if the key is kept. -/
structure EntryFinding where
  key : Finding
  value? : Option Finding

namespace EntryFinding

variable (f : EntryFinding) (keyPolicy valuePolicy : ErrorPolicy)

/-- The entry survives if its key and its value do, each under its own policy. -/
def kept? : Option (Value × Value) :=
  (f.key.kept? keyPolicy).bind fun k => (f.value?.bind (·.kept? valuePolicy)).map (k, ·)

def notes : List Warning := f.key.notes keyPolicy ++ f.value?.elim [] (·.notes valuePolicy)

def raised : List Failure := f.key.raised keyPolicy ++ f.value?.elim [] (·.raised valuePolicy)

/-- Neither the key nor the value decides about the whole. -/
structure Passes : Prop where
  key : f.key.Passes keyPolicy
  value : ∀ g, f.value? = some g → g.Passes valuePolicy

/-- A failure is one of something. -/
structure Solid : Prop where
  key : f.key.Solid
  value : ∀ g, f.value? = some g → g.Solid

variable {f keyPolicy valuePolicy}

theorem raised_eq_nil_iff (h : f.Solid) : f.raised keyPolicy valuePolicy = [] ↔ f.Passes keyPolicy valuePolicy := by
  rw [raised, List.append_eq_nil_iff, Finding.raised_eq_nil_iff h.key]
  cases hvalue : f.value? with
  | none => exact ⟨fun hkey => ⟨hkey.1, fun g hg => nomatch hvalue.symm.trans hg⟩, fun hpass => ⟨hpass.key, rfl⟩⟩
  | some g =>
    rw [Option.elim_some, Finding.raised_eq_nil_iff (h.value g hvalue)]
    refine ⟨fun hboth => ⟨hboth.1, fun g' hg' => ?_⟩, fun hpass => ⟨hpass.key, hpass.value g hvalue⟩⟩
    cases hvalue.symm.trans hg'
    exact hboth.2

end EntryFinding

/-- The key of an entry, as an element of the map. -/
def keyOf (key : Reading) (e : Value × Value) : Element := ⟨.key e.1.key, key, e.1⟩

/-- The value of an entry, at the same place as its key. -/
def valueOf (value : Reading) (e : Value × Value) : Element := ⟨.key e.1.key, value, e.2⟩

section Entries

variable (key value : Reading) (keyPolicy valuePolicy : ErrorPolicy)

def entryFound (e : Value × Value) (c : Context) (calls : Calls) : EntryFinding :=
  let found := (keyOf key e).found c calls
  ⟨found, (found.kept? keyPolicy).map fun _ => (valueOf value e).found c ((keyOf key e).after c calls)⟩

/-- The calls of factories by then. The value is not read if its key is not kept. -/
def entryAfter (e : Value × Value) (c : Context) (calls : Calls) : Calls :=
  match ((keyOf key e).found c calls).kept? keyPolicy with
  | none => (keyOf key e).after c calls
  | some _ => (valueOf value e).after c ((keyOf key e).after c calls)

/-- What is found of the entries of a map. -/
def entryFindings (c : Context) : List (Value × Value) → Calls → List EntryFinding
  | [], _ => []
  | e :: rest, calls =>
    entryFound key value keyPolicy e c calls :: entryFindings c rest (entryAfter key value keyPolicy e c calls)

/-- Reads an entry; gives what is to be kept of it. -/
def survivor (e : Value × Value) : Parse (Option (Value × Value)) := do
  match ← key.element e.1 (.key e.1.key) keyPolicy with
  | none => pure none
  | some k => pure ((← value.element e.2 (.key e.1.key) valuePolicy).map (k, ·))

theorem entries_cons (kept : List (Value × Value)) (e : Value × Value) (rest : List (Value × Value)) :
    entries key value keyPolicy valuePolicy kept (e :: rest) = survivor key value keyPolicy valuePolicy e >>= fun given =>
      entries key value keyPolicy valuePolicy (given.elim kept fun e => Value.insertEntry e.1 e.2 kept) rest := by
  rw [entries, survivor, bind_assoc]
  refine bind_congr fun k? => ?_
  cases k? with
  | none => rfl
  | some k =>
    simp only [bind_assoc, pure_bind]
    refine bind_congr fun v? => ?_
    cases v? <;> rfl

variable {key value keyPolicy valuePolicy}

/-- A step over one entry. -/
theorem comesTo_survivor {s : ParseState} {e : Value × Value} (hkey : (keyOf key e).Sound) (hvalue : (valueOf value e).Sound)
    (hdepth : s.context.depth + 1 ≤ s.context.options.depthLimit) (keyPolicy valuePolicy : ErrorPolicy) :
    let f := entryFound key value keyPolicy e s.context s.calls
    ComesTo (survivor key value keyPolicy valuePolicy e) s (f.kept? keyPolicy valuePolicy) (f.notes keyPolicy valuePolicy)
      (f.raised keyPolicy valuePolicy) (entryAfter key value keyPolicy e s.context s.calls) := by
  have hfirst := Element.comesTo_element hkey hdepth keyPolicy
  unfold entryFound entryAfter EntryFinding.kept? EntryFinding.notes EntryFinding.raised
  cases hk : ((keyOf key e).found s.context s.calls).kept? keyPolicy with
  | none =>
    rw [hk] at hfirst
    simp only [hk]
    exact hfirst.bind (comesTo_pure none _)
  | some k =>
    have hsecond (ws : List Warning) (fs : List Failure) (calls : Calls) :=
      Element.comesTo_element (s := ⟨s.context.finding ws fs, calls⟩) hvalue hdepth valuePolicy
    rw [hk] at hfirst
    simp only [hk]
    exact hfirst.bind ((hsecond _ _ _).map (Option.map (k, ·)))

theorem entryFindings_finding (ws : List Warning) (fs : List Failure) (es : List (Value × Value)) :
    ∀ calls, entryFindings key value keyPolicy (c.finding ws fs) es calls = entryFindings key value keyPolicy c es calls := by
  induction es with
  | nil => exact fun _ => rfl
  | cons e rest ih =>
    intro calls
    rw [entryFindings, entryFindings, ih]
    rfl

theorem solid_entryFindings (hkey : ∀ v, Parse.Sound (key.read v)) (hvalue : ∀ v, Parse.Sound (value.read v))
    (es : List (Value × Value)) : ∀ calls, ∀ f ∈ entryFindings key value keyPolicy c es calls, f.Solid := by
  induction es with
  | nil => exact fun _ => List.forall_mem_nil _
  | cons e rest ih =>
    refine fun calls => List.forall_mem_cons.mpr ⟨⟨Element.solid_found (hkey e.1), fun g hg => ?_⟩, ih _⟩
    obtain ⟨_, -, rfl⟩ := Option.map_eq_some_iff.mp hg
    exact Element.solid_found (hvalue e.2)

/-- A run over the entries of a map, entry by entry. -/
theorem comesTo_entries (hkey : ∀ v, Parse.Sound (key.read v)) (hvalue : ∀ v, Parse.Sound (value.read v))
    (keyPolicy valuePolicy : ErrorPolicy) (es : List (Value × Value)) : ∀ (kept : List (Value × Value)) (s : ParseState),
    s.context.depth + 1 ≤ s.context.options.depthLimit →
      let fs := entryFindings key value keyPolicy s.context es s.calls
      ∃ calls, ComesTo (entries key value keyPolicy valuePolicy kept es) s
        ((fs.filterMap (·.kept? keyPolicy valuePolicy)).foldl (fun map e => Value.insertEntry e.1 e.2 map) kept)
        (fs.flatMap (·.notes keyPolicy valuePolicy)) (fs.flatMap (·.raised keyPolicy valuePolicy)) calls := by
  induction es with
  | nil => exact fun kept s _ => ⟨s.calls, comesTo_pure kept s⟩
  | cons e rest ih =>
    intro kept s hdepth
    dsimp only
    rw [entries_cons, entryFindings, List.filterMap_cons, List.flatMap_cons, List.flatMap_cons]
    -- A later entry may replace an earlier one, so the map so far is generalised with the state.
    have hfirst := comesTo_survivor (e := e) (hkey e.1) (hvalue e.2) hdepth keyPolicy valuePolicy
    generalize entryFound key value keyPolicy e s.context s.calls = f at hfirst ⊢
    obtain ⟨calls, hrest⟩ := ih ((f.kept? keyPolicy valuePolicy).elim kept fun e => Value.insertEntry e.1 e.2 kept)
      ⟨s.context.finding (f.notes keyPolicy valuePolicy) (f.raised keyPolicy valuePolicy), _⟩ hdepth
    rw [entryFindings_finding] at hrest
    refine ⟨calls, ?_⟩
    have hrun := hfirst.bind (k := fun given => entries key value keyPolicy valuePolicy
      (given.elim kept fun e => Value.insertEntry e.1 e.2 kept) rest) hrest
    cases hkept : f.kept? keyPolicy valuePolicy with
    | none => rwa [hkept] at hrun
    | some entry => rwa [hkept] at hrun

end Entries

end Reading

end Conform
