import Mathlib
import Conform.Registry.Remembered
import Conform.Registry.Standard

/-! What registries remember. Each cell of the memory belongs to one table for good: a registry that is changed gets a
    new cell, and its copies keep the old one. So a cell holds only answers of its table, and whatever was done with
    any registry before, an answer is that of the entries in the order of their registration. -/

namespace Conform

namespace Registry

variable {k : Kind} {e f : Entry} {es : List Entry}

/-! ### The order of entries -/

/-- Entries registered one after the other, those of a higher priority first. -/
def sorted (es : List Entry) : List Entry := es.foldl (fun sorted e => insertEntry e sorted) []

theorem sorted_append (es : List Entry) (e : Entry) : sorted (es ++ [e]) = insertEntry e (sorted es) := by
  rw [sorted, List.foldl_append]
  rfl

theorem mem_insertEntry : f ∈ insertEntry e es ↔ f = e ∨ f ∈ es := by
  induction es with
  | nil => simp [insertEntry]
  | cons g rest ih =>
    rw [insertEntry]
    split
    · simp
    · rw [List.mem_cons, ih, List.mem_cons]
      tauto

theorem pairwise_insertEntry (h : es.Pairwise fun e f => f.priority ≤ e.priority) :
    (insertEntry e es).Pairwise fun e f => f.priority ≤ e.priority := by
  induction es with
  | nil => simp [insertEntry]
  | cons g rest ih =>
    obtain ⟨hg, hrest⟩ := List.pairwise_cons.mp h
    rw [insertEntry]
    split
    · rename_i hlt
      refine List.pairwise_cons.mpr ⟨fun f hf => ?_, h⟩
      rcases List.mem_cons.mp hf with rfl | hf
      · exact Int.le_of_lt hlt
      · exact Int.le_trans (hg f hf) (Int.le_of_lt hlt)
    · rename_i hle
      refine List.pairwise_cons.mpr ⟨fun f hf => ?_, ih hrest⟩
      rcases mem_insertEntry.mp hf with rfl | hf
      · exact Int.not_lt.mp hle
      · exact hg f hf

theorem pairwise_sorted (es : List Entry) : (sorted es).Pairwise fun e f => f.priority ≤ e.priority := by
  induction es using List.reverseRecOn with
  | nil => exact .nil
  | append_singleton es e ih =>
    rw [sorted_append]
    exact pairwise_insertEntry ih

/-- A new entry is found in place of the one found so far if its priority is higher. -/
theorem find?_insertEntry (h : es.Pairwise fun e f => f.priority ≤ e.priority) (p : Entry → Bool) :
    (insertEntry e es).find? p =
      if p e then (es.find? p).elim (some e) fun f => if f.priority < e.priority then some e else some f
      else es.find? p := by
  induction es with
  | nil =>
    rw [insertEntry, List.find?_cons]
    cases p e <;> rfl
  | cons g rest ih =>
    obtain ⟨hg, hrest⟩ := List.pairwise_cons.mp h
    rw [insertEntry]
    split
    · rename_i hlt
      rw [List.find?_cons]
      cases hp : p e with
      | false => rfl
      | true =>
        cases hfound : (g :: rest).find? p with
        | none => rfl
        | some f =>
          have hf : f.priority < e.priority := by
            rcases List.mem_cons.mp (List.mem_of_find?_eq_some hfound) with rfl | hf
            · exact hlt
            · exact Int.lt_of_le_of_lt (hg f hf) hlt
          simp [hf]
    · rename_i hle
      rw [List.find?_cons, List.find?_cons, ih hrest]
      cases p g with
      | false => rfl
      | true => simp [hle]

/-! ### The entry that counts -/

/-- Of the entries for a kind the one that counts: no other has a higher priority, and none registered before it has
    the same. -/
def Counts (k : Kind) (es : List Entry) (e : Entry) : Prop :=
  ∃ before after, es = before ++ e :: after ∧ e.detector.accepts k ∧
    (∀ f ∈ before, f.detector.accepts k → f.priority < e.priority) ∧
    ∀ f ∈ after, f.detector.accepts k → f.priority ≤ e.priority

theorem Counts.accepts (h : Counts k es e) : e ∈ es ∧ e.detector.accepts k := by
  obtain ⟨before, after, rfl, haccepts, -, -⟩ := h
  exact ⟨by simp, haccepts⟩

theorem Counts.priority_le (h : Counts k es e) (hf : f ∈ es) (haccepts : f.detector.accepts k) :
    f.priority ≤ e.priority := by
  obtain ⟨before, after, rfl, -, hbefore, hafter⟩ := h
  rcases List.mem_append.mp hf with hf | hf
  · exact Int.le_of_lt (hbefore f hf haccepts)
  rcases List.mem_cons.mp hf with rfl | hf
  · exact Int.le_refl _
  · exact hafter f hf haccepts

theorem Counts.append (h : Counts k es e) (hf : f.detector.accepts k → f.priority ≤ e.priority) :
    Counts k (es ++ [f]) e := by
  obtain ⟨before, after, rfl, haccepts, hbefore, hafter⟩ := h
  refine ⟨before, after ++ [f], by simp, haccepts, hbefore, ?_⟩
  exact List.forall_mem_append.mpr ⟨hafter, List.forall_mem_singleton.mpr hf⟩

theorem counts_last (haccepts : e.detector.accepts k) (h : ∀ f ∈ es, f.detector.accepts k → f.priority < e.priority) :
    Counts k (es ++ [e]) e :=
  ⟨es, [], rfl, haccepts, h, List.forall_mem_nil _⟩

theorem Counts.unique (he : Counts k es e) (hf : Counts k es f) : e = f := by
  have hle := he.priority_le hf.accepts.1 hf.accepts.2
  have hge := hf.priority_le he.accepts.1 he.accepts.2
  obtain ⟨before, after, rfl, haccepts, hbefore, -⟩ := he
  obtain ⟨before', after', heq, haccepts', hbefore', -⟩ := hf
  rcases List.append_eq_append_iff.mp heq with ⟨more, rfl, hrest⟩ | ⟨more, rfl, hrest⟩
  · cases more with
    | nil => exact (List.cons.inj hrest).1
    | cons g more =>
      obtain ⟨rfl, -⟩ := List.cons.inj hrest
      exact absurd (hbefore' e (by simp) haccepts) (Int.not_lt.mpr hle)
  · cases more with
    | nil => exact (List.cons.inj hrest).1.symm
    | cons g more =>
      obtain ⟨rfl, -⟩ := List.cons.inj hrest
      exact absurd (hbefore f (by simp) haccepts') (Int.not_lt.mpr hge)

/-- The first sorted entry for a kind is the one that counts. -/
theorem find?_sorted (k : Kind) (es : List Entry) :
    (∀ e, (sorted es).find? (·.detector.accepts k) = some e → Counts k es e) ∧
      ((sorted es).find? (·.detector.accepts k) = none → ∀ e ∈ es, ¬ e.detector.accepts k) := by
  induction es using List.reverseRecOn with
  | nil => exact ⟨fun e he => (nomatch he), fun _ => List.forall_mem_nil _⟩
  | append_singleton es e ih =>
    obtain ⟨hsome, hnone⟩ := ih
    rw [sorted_append, find?_insertEntry (pairwise_sorted es)]
    by_cases haccepts : e.detector.accepts k
    · rw [if_pos haccepts]
      cases hfound : (sorted es).find? (·.detector.accepts k) with
      | none =>
        refine ⟨fun f hf => ?_, (nomatch ·)⟩
        obtain rfl := Option.some.inj hf
        exact counts_last haccepts fun g hg hacceptsg => absurd hacceptsg (hnone hfound g hg)
      | some g =>
        have hcounts := hsome g hfound
        simp only [Option.elim_some]
        -- Of the same priority, the entry that was there before is found first.
        split
        · rename_i hlt
          refine ⟨fun f hf => ?_, (nomatch ·)⟩
          obtain rfl := Option.some.inj hf
          exact counts_last haccepts fun f hf hacceptsf => Int.lt_of_le_of_lt (hcounts.priority_le hf hacceptsf) hlt
        · rename_i hle
          refine ⟨fun f hf => ?_, (nomatch ·)⟩
          obtain rfl := Option.some.inj hf
          exact hcounts.append fun _ => Int.not_lt.mp hle
    · rw [if_neg haccepts]
      refine ⟨fun f hf => (hsome f hf).append fun h => absurd h haccepts, fun h => ?_⟩
      exact List.forall_mem_append.mpr ⟨hnone h, List.forall_mem_singleton.mpr haccepts⟩

end Registry

/-! ### Declarations of registries -/

/-- A registry as it was declared: its entries in the order of registration, and its base as it was when it was
    chained. -/
inductive Ledger
  | table (entries : List Registry.Entry) (base : Option Ledger)

namespace Ledger

def register : Ledger → Registry.Entry → Ledger
  | .table entries base, e => .table (entries ++ [e]) base

def withBase : Ledger → Ledger → Ledger
  | .table entries _, base => .table entries (some base)

/-- The answer for a kind: that of the own entry that counts, or else that of the base. -/
inductive Resolves (k : Kind) : Ledger → Option Converter → Prop
  | own {entries : List Registry.Entry} {base : Option Ledger} {e : Registry.Entry} :
    Registry.Counts k entries e → Resolves k (.table entries base) (some e.converter)
  | base {entries : List Registry.Entry} {base : Ledger} {answer : Option Converter} :
    (∀ e ∈ entries, ¬ e.detector.accepts k) → Resolves k base answer → Resolves k (.table entries (some base)) answer
  | none {entries : List Registry.Entry} :
    (∀ e ∈ entries, ¬ e.detector.accepts k) → Resolves k (.table entries none) none

/-- The table that a registry keeps. -/
def registry : Ledger → Registry
  | .table entries (some base) => .table (Registry.sorted entries) (some base.registry)
  | .table entries none => .table (Registry.sorted entries) none

variable {l : Ledger} {k : Kind} {answer : Option Converter}

theorem Resolves.unique (h : l.Resolves k answer) : ∀ {other}, l.Resolves k other → answer = other := by
  induction h with
  | own he =>
    intro other hother
    cases hother with
    | own hf => rw [he.unique hf]
    | base hnone _ | none hnone => exact absurd he.accepts.2 (hnone _ he.accepts.1)
  | base hnone _ ih =>
    intro other hother
    cases hother with
    | own hf => exact absurd hf.accepts.2 (hnone _ hf.accepts.1)
    | base _ hbase => exact ih hbase
  | none hnone =>
    intro other hother
    cases hother with
    | own hf => exact absurd hf.accepts.2 (hnone _ hf.accepts.1)
    | none _ => rfl

theorem registry_register (l : Ledger) (e : Registry.Entry) : (l.register e).registry = l.registry.register e := by
  obtain ⟨entries, base | base⟩ := l <;>
    simp only [register, registry, Registry.sorted_append, Registry.register, Registry.entries, Registry.base?]

theorem registry_withBase (l base : Ledger) : (l.withBase base).registry = l.registry.withBase base.registry := by
  obtain ⟨entries, _ | _⟩ := l <;> rfl

/-- The table answers as it was declared. -/
theorem resolves_registry (k : Kind) : ∀ l : Ledger, l.Resolves k (l.registry.resolve? k)
  | .table entries base => by
    obtain ⟨hsome, hnone⟩ := Registry.find?_sorted k entries
    cases hfound : (Registry.sorted entries).find? (·.detector.accepts k) with
    | some e =>
      have hanswer : (Ledger.table entries base).registry.resolve? k = some e.converter := by
        cases base <;> simp only [registry, Registry.resolve?, hfound]
      rw [hanswer]
      exact .own (hsome e hfound)
    | none =>
      cases base with
      | none =>
        have hanswer : (Ledger.table entries none).registry.resolve? k = none := by
          simp only [registry, Registry.resolve?, hfound]
        rw [hanswer]
        exact .none (hnone hfound)
      | some base =>
        have hanswer : (Ledger.table entries (some base)).registry.resolve? k = base.registry.resolve? k := by
          simp only [registry, Registry.resolve?, hfound]
        rw [hanswer]
        exact .base (hnone hfound) (resolves_registry k base)

end Ledger

/-! ### Cells -/

namespace Recollection

/-- A cell holds only answers of the table that it belongs to. -/
structure Sound (owners : List Registry) (m : Recollection) : Prop where
  length : m.length = owners.length
  answers {cell : Nat} {k : Kind} {answer : Option Converter} :
    m.answer? cell k = some answer → ∃ r, owners[cell]? = some r ∧ r.resolve? k = answer

variable {owners : List Registry} {m : Recollection}

theorem Sound.remember {cell : Nat} {r : Registry} (h : Sound owners m) (hcell : owners[cell]? = some r) (k : Kind) :
    Sound owners (m.remember cell k (r.resolve? k)) where
  length := by rw [Recollection.remember, List.length_modify, h.length]
  answers {other j answer} hanswer := by
    simp only [answer?, Recollection.remember, List.getElem?_modify] at hanswer
    by_cases hother : cell = other
    · subst hother
      obtain ⟨known, hknown, hlookup⟩ := Option.bind_eq_some_iff.mp hanswer
      obtain ⟨known, hcells, rfl⟩ := Option.map_eq_some_iff.mp hknown
      rw [if_pos rfl, List.lookup_cons] at hlookup
      by_cases hj : j = k
      · subst hj
        rw [beq_self_eq_true] at hlookup
        exact ⟨r, hcell, Option.some.inj hlookup⟩
      · rw [beq_eq_false_iff_ne.mpr hj] at hlookup
        exact h.answers (Option.bind_eq_some_iff.mpr ⟨known, hcells, hlookup⟩)
    · simp only [if_neg hother, id_map'] at hanswer
      exact h.answers hanswer

theorem owner_append {cell : Nat} {r : Registry} (more : List Registry) (h : owners[cell]? = some r) :
    (owners ++ more)[cell]? = some r := by
  obtain ⟨hlt, -⟩ := List.getElem?_eq_some_iff.mp h
  rw [List.getElem?_append_left hlt, h]

/-- A new cell holds nothing, so it may belong to any table. -/
theorem Sound.newCell (h : Sound owners m) (r : Registry) : Sound (owners ++ [r]) (m ++ [[]]) where
  length := by rw [List.length_append, List.length_append, h.length]; rfl
  answers {cell k answer} hanswer := by
    obtain ⟨known, hknown, hlookup⟩ := Option.bind_eq_some_iff.mp hanswer
    rcases Nat.lt_trichotomy cell m.length with hlt | rfl | hgt
    · rw [List.getElem?_append_left hlt] at hknown
      obtain ⟨owner, howner, hresolves⟩ := h.answers (Option.bind_eq_some_iff.mpr ⟨known, hknown, hlookup⟩)
      exact ⟨owner, by rw [List.getElem?_append_left (h.length ▸ hlt), howner], hresolves⟩
    · rw [List.getElem?_concat_length] at hknown
      cases hknown
      cases hlookup
    · rw [List.getElem?_eq_none (by simpa using Nat.succ_le_of_lt hgt)] at hknown
      cases hknown

end Recollection

namespace Remembered

variable {owners : List Registry}

/-- The cells of a registry and of its bases belong to their tables. -/
def Keeps (owners : List Registry) : Remembered → Prop
  | .table entries (some base) cell => owners[cell]? = some (.table entries (some base.registry)) ∧ base.Keeps owners
  | .table entries none cell => owners[cell]? = some (.table entries none)

theorem Keeps.append (more : List Registry) : ∀ {x : Remembered}, x.Keeps owners → x.Keeps (owners ++ more)
  | .table _ (some _) _, ⟨hcell, hbase⟩ => ⟨Recollection.owner_append more hcell, hbase.append more⟩
  | .table _ none _, hcell => Recollection.owner_append more hcell

/-- What resolving does to the memory: nothing where the answer is remembered, else it is added behind what the base
    remembers. -/
theorem run_resolve? (entries : List Registry.Entry) (base : Option Remembered) (cell : Nat) (k : Kind)
    (m : Recollection) :
    ((table entries base cell).resolve? k).run m =
      match m.answer? cell k with
      | some answer => (answer, m)
      | none =>
        match entries.find? (·.detector.accepts k), base with
        | some e, _ => (some e.converter, m.remember cell k (some e.converter))
        | none, some base =>
          (((base.resolve? k).run m).1, ((base.resolve? k).run m).2.remember cell k ((base.resolve? k).run m).1)
        | none, none => (none, m.remember cell k none) := by
  rw [resolve?]
  simp only [StateT.run_bind, StateT.run_get, pure_bind]
  cases m.answer? cell k with
  | some answer => rfl
  | none => cases entries.find? (·.detector.accepts k) <;> cases base <;> rfl

/-- Resolving gives the answer of the table, remembered or not, and the memory stays sound. -/
theorem resolve?_of_keeps (k : Kind) : ∀ {x : Remembered} {m : Recollection}, m.Sound owners → x.Keeps owners →
    ((x.resolve? k).run m).1 = x.registry.resolve? k ∧ ((x.resolve? k).run m).2.Sound owners
  | .table entries base cell, m, hsound, hkeeps => by
    have hcell : owners[cell]? = some (table entries base cell).registry := by
      cases base with
      | some base => exact hkeeps.1
      | none => exact hkeeps
    have hremember {m' : Recollection} {answer} (h : m'.Sound owners)
        (hanswer : answer = (table entries base cell).registry.resolve? k) :
        Recollection.Sound owners (m'.remember cell k answer) := hanswer ▸ h.remember hcell k
    rw [run_resolve?]
    cases hanswer : m.answer? cell k with
    -- What is remembered is an answer of the one table that the cell belongs to.
    | some answer =>
      obtain ⟨r, hr, hresolves⟩ := hsound.answers hanswer
      cases hcell.symm.trans hr
      exact ⟨hresolves.symm, hsound⟩
    | none =>
      cases hfound : entries.find? (·.detector.accepts k) with
      | some e =>
        have hanswer : (table entries base cell).registry.resolve? k = some e.converter := by
          cases base <;> simp only [registry, Registry.resolve?, hfound]
        exact ⟨hanswer.symm, hremember hsound hanswer.symm⟩
      | none =>
        cases base with
        | none =>
          have hanswer : (table entries none cell).registry.resolve? k = none := by
            simp only [registry, Registry.resolve?, hfound]
          exact ⟨hanswer.symm, hremember hsound hanswer.symm⟩
        | some base =>
          obtain ⟨hbase, hkept⟩ := resolve?_of_keeps k hsound hkeeps.2
          have hanswer : (table entries (some base) cell).registry.resolve? k = ((base.resolve? k).run m).1 := by
            simp only [registry, Registry.resolve?, hfound, hbase]
          exact ⟨hanswer.symm, hremember hkept hanswer.symm⟩

/-- A registry that is made with a table keeps it, and cells are only added for it. -/
def Makes (owners : List Registry) (r : Registry) (make : StateM Recollection Remembered) : Prop :=
  ∀ {m : Recollection}, m.Sound owners → ∃ more, (make.run m).2.Sound (owners ++ more) ∧
    (make.run m).1.Keeps (owners ++ more) ∧ (make.run m).1.registry = r

/-- A copy shares the cells. -/
theorem makes_pure {x : Remembered} (h : x.Keeps owners) : Makes owners x.registry (pure x) := by
  intro m hsound
  refine ⟨[], ?_⟩
  rw [List.append_nil]
  exact ⟨hsound, h, rfl⟩

/-- A table that is changed gets a new cell, and its base keeps those that it has. -/
theorem makes_table (entries : List Registry.Entry) {base : Option Remembered} (h : ∀ x ∈ base, x.Keeps owners) :
    Makes owners (.table entries (base.map registry)) (do pure (.table entries base (← newCell))) := by
  intro m hsound
  refine ⟨[.table entries (base.map registry)], hsound.newCell _, ?_⟩
  have hcell : (owners ++ [Registry.table entries (base.map registry)])[m.length]? =
      some (.table entries (base.map registry)) := by
    rw [hsound.length, List.getElem?_concat_length]
  cases base with
  | some base => exact ⟨⟨hcell, (h base rfl).append _⟩, rfl⟩
  | none => exact ⟨hcell, rfl⟩

theorem makes_empty : Makes owners .empty empty := makes_table [] (by simp)

theorem registry_eq (x : Remembered) : x.registry = .table x.entries (x.base?.map registry) := by
  obtain ⟨entries, _ | base, cell⟩ := x <;> rfl

theorem Keeps.base {x : Remembered} (h : x.Keeps owners) : ∀ base ∈ x.base?, base.Keeps owners := by
  obtain ⟨entries, _ | base, cell⟩ := x
  · exact fun _ h => nomatch h
  · rintro _ ⟨⟩
    exact h.2

theorem makes_register {x : Remembered} (h : x.Keeps owners) (e : Registry.Entry) :
    Makes owners (x.registry.register e) (x.register e) := by
  rw [registry_eq]
  exact makes_table _ h.base

theorem makes_withBase {x base : Remembered} (h : base.Keeps owners) :
    Makes owners (x.registry.withBase base.registry) (x.withBase base) := by
  have hbase : ∀ y ∈ some base, y.Keeps owners := by
    rintro _ ⟨⟩
    exact h
  rw [registry_eq]
  exact @makes_table owners x.entries (some base) hbase

end Remembered

/-! ### Histories -/

/-- What may be done with registries side by side, each of which is known by its place. -/
inductive RegistryStep
  | new
  /-- One more registry, a copy of another one. -/
  | clone (i : Nat)
  | register (i : Nat) (e : Registry.Entry)
  /-- Chains a copy of the second registry as the base of the first. -/
  | withBase (i j : Nat)
  | resolve (i : Nat) (k : Kind)

/-- The registry that a step changes. -/
def RegistryStep.changed? : RegistryStep → Option Nat
  | .register i _ | .withBase i _ => some i
  | .new | .clone _ | .resolve _ _ => none

/-- Registries side by side, and what they remember. -/
structure Shelf where
  memory : Recollection
  registries : List Remembered

namespace Shelf

def empty : Shelf := ⟨[], []⟩

def add (s : Shelf) (make : StateM Recollection Remembered) : Shelf :=
  let (r, memory) := make.run s.memory
  ⟨memory, s.registries ++ [r]⟩

def put (s : Shelf) (i : Nat) (make : StateM Recollection Remembered) : Shelf :=
  let (r, memory) := make.run s.memory
  ⟨memory, s.registries.set i r⟩

/-- The answer of a registry, and what is remembered then. -/
def resolve (s : Shelf) (r : Remembered) (k : Kind) : Option Converter × Shelf :=
  let (answer, memory) := (r.resolve? k).run s.memory
  (answer, { s with memory })

/-- A step with registries that are there; any other changes nothing. -/
def step (s : Shelf) : RegistryStep → Shelf
  | .new => s.add Remembered.empty
  | .clone i => match s.registries[i]? with
    | some r => s.add (pure r)
    | none => s
  | .register i e => match s.registries[i]? with
    | some r => s.put i (r.register e)
    | none => s
  | .withBase i j => match s.registries[i]?, s.registries[j]? with
    | some r, some base => s.put i (r.withBase base)
    | _, _ => s
  | .resolve i k => match s.registries[i]? with
    | some r => (s.resolve r k).2
    | none => s

def after (history : List RegistryStep) : Shelf := history.foldl step empty

/-- What a registry resolves a kind to, if it is there. -/
def answer? (s : Shelf) (i : Nat) (k : Kind) : Option (Option Converter) :=
  s.registries[i]?.map fun r => (s.resolve r k).1

end Shelf

namespace Ledger

/-- What a step does to the declarations of registries. -/
def step (ls : List Ledger) : RegistryStep → List Ledger
  | .new => ls ++ [.table [] none]
  | .clone i => ls ++ ls[i]?.toList
  | .register i e => match ls[i]? with
    | some l => ls.set i (l.register e)
    | none => ls
  | .withBase i j => match ls[i]?, ls[j]? with
    | some l, some base => ls.set i (l.withBase base)
    | _, _ => ls
  | .resolve _ _ => ls

def after (history : List RegistryStep) : List Ledger := history.foldl step []

/-- A step leaves the declarations as they are, but for the registry that it changes. -/
theorem getElem?_step {ls : List Ledger} {i : Nat} {l : Ledger} {op : RegistryStep} (h : op.changed? ≠ some i)
    (hl : ls[i]? = some l) : (step ls op)[i]? = some l := by
  obtain ⟨hlt, -⟩ := List.getElem?_eq_some_iff.mp hl
  have hset {j : Nat} (hj : some j ≠ some i) (other : Ledger) : (ls.set j other)[i]? = some l := by
    rw [List.getElem?_set_ne fun h => hj (congrArg some h), hl]
  cases op with
  | new => rw [step, List.getElem?_append_left hlt, hl]
  | clone j => rw [step, List.getElem?_append_left hlt, hl]
  | register j e =>
    rw [step]
    cases ls[j]? with
    | none => exact hl
    | some other => exact hset h _
  | withBase j b =>
    rw [step]
    cases ls[j]? with
    | none => exact hl
    | some other =>
      cases ls[b]? with
      | none => exact hl
      | some base => exact hset h _
  | resolve j k => exact hl

theorem getElem?_steps {i : Nat} {l : Ledger} {later : List RegistryStep} (h : ∀ op ∈ later, op.changed? ≠ some i) :
    ∀ {ls : List Ledger}, ls[i]? = some l → (later.foldl step ls)[i]? = some l := by
  induction later with
  | nil => exact id
  | cons op later ih =>
    intro ls hl
    obtain ⟨hop, hlater⟩ := List.forall_mem_cons.mp h
    exact ih hlater (getElem?_step hop hl)

end Ledger

namespace Shelf

/-- The memory is sound, and each registry keeps the table that it was declared with. -/
structure Follows (s : Shelf) (ls : List Ledger) (owners : List Registry) : Prop where
  sound : s.memory.Sound owners
  keeps : ∀ r ∈ s.registries, r.Keeps owners
  tables : s.registries.map Remembered.registry = ls.map Ledger.registry

variable {s : Shelf} {ls : List Ledger} {owners : List Registry}

theorem follows_empty : empty.Follows [] [] where
  sound := ⟨rfl, fun h => nomatch h⟩
  keeps := by simp [empty]
  tables := rfl

/-- A registry is on the shelf where a declaration is, with its table, and nowhere else. -/
theorem Follows.lookup (h : s.Follows ls owners) (i : Nat) :
    (s.registries[i]? = none ∧ ls[i]? = none) ∨
      ∃ r l, s.registries[i]? = some r ∧ ls[i]? = some l ∧ r.registry = l.registry ∧ r.Keeps owners := by
  have htables : s.registries[i]?.map Remembered.registry = ls[i]?.map Ledger.registry := by
    rw [← List.getElem?_map, h.tables, List.getElem?_map]
  cases hr : s.registries[i]? with
  | none =>
    rw [hr] at htables
    exact .inl ⟨rfl, Option.map_eq_none_iff.mp htables.symm⟩
  | some r =>
    rw [hr] at htables
    obtain ⟨l, hl, hregistry⟩ := Option.map_eq_some_iff.mp htables.symm
    exact .inr ⟨r, l, rfl, hl, hregistry.symm, h.keeps r (List.mem_of_getElem? hr)⟩

theorem Follows.add (h : s.Follows ls owners) {l : Ledger} {make : StateM Recollection Remembered}
    (hmakes : Remembered.Makes owners l.registry make) : ∃ owners, (s.add make).Follows (ls ++ [l]) owners := by
  obtain ⟨more, hsound, hkeeps, htable⟩ := hmakes h.sound
  refine ⟨owners ++ more, hsound, ?_, ?_⟩
  · intro r hr
    rcases List.mem_append.mp hr with hr | hr
    · exact (h.keeps r hr).append more
    · obtain rfl := List.mem_singleton.mp hr
      exact hkeeps
  · change (s.registries ++ [(make.run s.memory).1]).map Remembered.registry = _
    rw [List.map_append, h.tables, List.map_append]
    exact congrArg (ls.map Ledger.registry ++ [·]) htable

theorem Follows.put (h : s.Follows ls owners) (i : Nat) {l : Ledger} {make : StateM Recollection Remembered}
    (hmakes : Remembered.Makes owners l.registry make) : ∃ owners, (s.put i make).Follows (ls.set i l) owners := by
  obtain ⟨more, hsound, hkeeps, htable⟩ := hmakes h.sound
  refine ⟨owners ++ more, hsound, ?_, ?_⟩
  · intro r hr
    rcases List.mem_or_eq_of_mem_set hr with hr | rfl
    · exact (h.keeps r hr).append more
    · exact hkeeps
  · change (s.registries.set i (make.run s.memory).1).map Remembered.registry = _
    rw [List.map_set, h.tables, List.map_set]
    exact congrArg ((ls.map Ledger.registry).set i) htable

/-- Each step keeps what is remembered in line with the declarations. -/
theorem Follows.step (h : s.Follows ls owners) (op : RegistryStep) :
    ∃ owners, (s.step op).Follows (Ledger.step ls op) owners := by
  cases op with
  | new => exact h.add (l := .table [] none) Remembered.makes_empty
  | clone i =>
    simp only [Shelf.step, Ledger.step]
    obtain ⟨hr, hl⟩ | ⟨r, l, hr, hl, hregistry, hkeeps⟩ := h.lookup i <;> rw [hr, hl]
    · rw [Option.toList_none, List.append_nil]
      exact ⟨owners, h⟩
    · exact h.add (hregistry ▸ Remembered.makes_pure hkeeps)
  | register i e =>
    simp only [Shelf.step, Ledger.step]
    obtain ⟨hr, hl⟩ | ⟨r, l, hr, hl, hregistry, hkeeps⟩ := h.lookup i <;> rw [hr, hl]
    · exact ⟨owners, h⟩
    · refine h.put i ?_
      rw [Ledger.registry_register, ← hregistry]
      exact Remembered.makes_register hkeeps e
  | withBase i j =>
    simp only [Shelf.step, Ledger.step]
    obtain ⟨hr, hl⟩ | ⟨r, l, hr, hl, hregistry, -⟩ := h.lookup i <;> rw [hr, hl]
    · exact ⟨owners, h⟩
    · obtain ⟨hr, hl⟩ | ⟨base, lbase, hr, hl, hbase, hkeeps⟩ := h.lookup j <;> rw [hr, hl]
      · exact ⟨owners, h⟩
      · refine h.put i ?_
        rw [Ledger.registry_withBase, ← hregistry, ← hbase]
        exact Remembered.makes_withBase hkeeps
  | resolve i k =>
    simp only [Shelf.step, Ledger.step]
    obtain ⟨hr, -⟩ | ⟨r, -, hr, -, -, hkeeps⟩ := h.lookup i <;> rw [hr]
    · exact ⟨owners, h⟩
    · exact ⟨owners, (Remembered.resolve?_of_keeps k h.sound hkeeps).2, h.keeps, h.tables⟩

theorem follows_after (history : List RegistryStep) : ∃ owners, (after history).Follows (Ledger.after history) owners := by
  induction history using List.reverseRecOn with
  | nil => exact ⟨[], follows_empty⟩
  | append_singleton history op ih =>
    obtain ⟨owners, h⟩ := ih
    rw [after, Ledger.after, List.foldl_append, List.foldl_append]
    exact h.step op

theorem Follows.answer?_eq_none (h : s.Follows ls owners) {i : Nat} (hl : ls[i]? = none) (k : Kind) :
    s.answer? i k = none := by
  obtain ⟨hr, -⟩ | ⟨-, l, -, hl', -⟩ := h.lookup i
  · rw [answer?, hr, Option.map_none]
  · cases hl.symm.trans hl'

theorem Follows.exists_answer? (h : s.Follows ls owners) {i : Nat} {l : Ledger} (hl : ls[i]? = some l) (k : Kind) :
    ∃ answer, s.answer? i k = some answer ∧ l.Resolves k answer := by
  obtain ⟨-, hl'⟩ | ⟨r, l', hr, hl', hregistry, hkeeps⟩ := h.lookup i
  · cases hl.symm.trans hl'
  · cases hl.symm.trans hl'
    have hanswer : (s.resolve r k).1 = l.registry.resolve? k :=
      (Remembered.resolve?_of_keeps k h.sound hkeeps).1.trans (congrArg (·.resolve? k) hregistry)
    refine ⟨_, by rw [answer?, hr, Option.map_some], ?_⟩
    simp only [hanswer, l.resolves_registry k]

/-- After any history a registry that is there resolves a kind to what its declaration does: to the converter of the
    own entry that counts, or else of its base as it was chained. Whatever is done later with other registries, or
    resolved by this one, its answer stays. -/
theorem resolves_after (history : List RegistryStep) (i : Nat) (k : Kind) :
    Option.Rel (fun l answer => l.Resolves k answer) (Ledger.after history)[i]? ((after history).answer? i k) ∧
      ∀ later : List RegistryStep, (∀ op ∈ later, op.changed? ≠ some i) →
        ∀ answer, (after history).answer? i k = some answer →
          (after (history ++ later)).answer? i k = some answer := by
  obtain ⟨owners, h⟩ := follows_after history
  cases hl : (Ledger.after history)[i]? with
  | none =>
    rw [h.answer?_eq_none hl]
    exact ⟨.none, fun _ _ _ hanswer => nomatch hanswer⟩
  | some l =>
    obtain ⟨answer, hanswer, hresolves⟩ := h.exists_answer? hl k
    rw [hanswer]
    refine ⟨.some hresolves, ?_⟩
    rintro later hlater _ ⟨⟩
    have hledger : (Ledger.after (history ++ later))[i]? = some l := by
      rw [Ledger.after, List.foldl_append]
      exact Ledger.getElem?_steps hlater hl
    obtain ⟨owners', h'⟩ := follows_after (history ++ later)
    obtain ⟨other, hother, hresolves'⟩ := h'.exists_answer? hledger k
    rw [hother, hresolves'.unique hresolves]

/-- An entry of a copy, and what the copy then resolves, are nothing to the original. -/
theorem resolves_after_clone :
    let history : List RegistryStep :=
      [.new, .register 0 ⟨"int", .exact .int, Converter.toInt, 0⟩, .resolve 0 .int, .clone 0]
    let later : List RegistryStep :=
      [.register 1 ⟨"number", .category .numeric, Converter.toFloat, 1⟩, .resolve 1 .int]
    (∀ op ∈ later, op.changed? ≠ some 0) ∧ (after history).answer? 0 .int = some (some Converter.toInt) ∧
      (after (history ++ later)).answer? 1 .int = some (some Converter.toFloat) ∧
      (after (history ++ later)).answer? 0 .int = some (some Converter.toInt) := by
  intro history later
  have hlater : ∀ op ∈ later, op.changed? ≠ some 0 := by simp [later, RegistryStep.changed?]
  have hanswer : (after history).answer? 0 .int = some (some Converter.toInt) := by cbv
  exact ⟨hlater, hanswer, by cbv, (resolves_after history 0 .int).2 later hlater _ hanswer⟩

end Shelf

end Conform
