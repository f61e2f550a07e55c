import Conform.Conversion
import Conform.Registry.Standard
import Conform.Rule

/-!
Options of a parse or of a schema. Each is set or left open; merging takes from the right what is set
there, or the right as a whole if it overrides. What stays open has a default.
-/

namespace Conform

/-- What may be said about how to parse. -/
structure Options where
  collectErrors : Option Bool := none
  maxErrors : Option Nat := none
  maxDepth : Option Nat := none
  addition : Option ExcessPolicy := none
  /-- A rule for the values under keys that no field claims; it goes before the policy. -/
  additionRule : Option Rule := none
  invalidItems : Option ErrorPolicy := none
  invalidKeys : Option ErrorPolicy := none
  invalidValues : Option ErrorPolicy := none
  onError : Option ErrorPolicy := none
  noExplicitCast : Option Bool := none
  noDataLoss : Option Bool := none
  ignoreConstraints : Option Bool := none
  ignoreAliasConflicts : Option Bool := none
  ignoreRequired : Option Bool := none
  caseInsensitive : Option Bool := none
  /-- The key under which a field is also accepted, from its name. -/
  aliasFrom : Option (String → String) := none
  /-- The key under which a field is dumped, from its name. -/
  aliasTo : Option (String → String) := none
  mode : Option String := none
  forceDefault : Option Bool := none
  dataFirstSearch : Option Bool := none
  registry : Option Registry := none
  overriding : Bool := false

namespace Options

/-- The options of both, those on the right first. -/
def merge (a b : Options) : Options :=
  if b.overriding then b
  else
    { collectErrors := b.collectErrors.or a.collectErrors
      maxErrors := b.maxErrors.or a.maxErrors
      maxDepth := b.maxDepth.or a.maxDepth
      addition := b.addition.or a.addition
      additionRule := b.additionRule.or a.additionRule
      invalidItems := b.invalidItems.or a.invalidItems
      invalidKeys := b.invalidKeys.or a.invalidKeys
      invalidValues := b.invalidValues.or a.invalidValues
      onError := b.onError.or a.onError
      noExplicitCast := b.noExplicitCast.or a.noExplicitCast
      noDataLoss := b.noDataLoss.or a.noDataLoss
      ignoreConstraints := b.ignoreConstraints.or a.ignoreConstraints
      ignoreAliasConflicts := b.ignoreAliasConflicts.or a.ignoreAliasConflicts
      ignoreRequired := b.ignoreRequired.or a.ignoreRequired
      caseInsensitive := b.caseInsensitive.or a.caseInsensitive
      aliasFrom := b.aliasFrom.or a.aliasFrom
      aliasTo := b.aliasTo.or a.aliasTo
      mode := b.mode.or a.mode
      forceDefault := b.forceDefault.or a.forceDefault
      dataFirstSearch := b.dataFirstSearch.or a.dataFirstSearch
      registry := b.registry.or a.registry
      overriding := a.overriding }

/-! ### In force -/

section InForce

variable (o : Options)

def collects : Bool := o.collectErrors.getD false

/-- How deep values may nest, 200 unless said otherwise. -/
def depthLimit : Nat := o.maxDepth.getD 200

def excessPolicy : ExcessPolicy := o.addition.getD .ignore

def itemPolicy : ErrorPolicy := o.invalidItems.getD .throw

def keyPolicy : ErrorPolicy := o.invalidKeys.getD .throw

def valuePolicy : ErrorPolicy := o.invalidValues.getD .throw

def fieldPolicy : ErrorPolicy := o.onError.getD .throw

def strictness : Strictness := ⟨o.noExplicitCast.getD false, o.noDataLoss.getD false⟩

def ignoresConstraints : Bool := o.ignoreConstraints.getD false

def ignoresAliasConflicts : Bool := o.ignoreAliasConflicts.getD false

def ignoresRequired : Bool := o.ignoreRequired.getD false

def ignoresCase : Bool := o.caseInsensitive.getD false

def forcesDefault : Bool := o.forceDefault.getD false

def converters : Registry := o.registry.getD .standard

/-- The value as one of the target, under these options. -/
def convert (v : Value) (t : Target) : Conversion := o.converters.convert o.strictness v t

end InForce

end Options

end Conform
