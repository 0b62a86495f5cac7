import MappingGraph.Json.Record

/-!
# Compiler options
-/

set_option autoImplicit false

namespace MappingGraph

/-- How values are shared in the output. -/
structure Options where
  /-- Whether values are shared at all. -/
  hoistShared : Bool := true
  /-- The least cost at which a value is worth sharing. -/
  minHoistCost : Nat := 2
deriving DecidableEq, Repr, Inhabited

namespace Options

def toJson (o : Options) : Json :=
  .object [("hoist_shared", .bool o.hoistShared), ("min_hoist_cost", .ofNat o.minHoistCost)]

def decode : Decoder Options :=
  (Fields.cons ⟨"hoist_shared", Decoder.bool, some true⟩
    (.cons ⟨"min_hoist_cost", Decoder.natural, some 2⟩ .nil)).decode "options"
    fun (hoistShared, minHoistCost, _) => ⟨hoistShared, minHoistCost⟩

end Options

end MappingGraph
