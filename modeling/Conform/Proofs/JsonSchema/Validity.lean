import Conform.JsonSchema
import Conform.Proofs.Value.Json

/-! What a JSON schema says about JSON values, by the keywords of draft 2020-12. A keyword for objects or for
arrays says nothing about other values. Two keywords depend on those beside them: `additionalProperties`
leaves the names in `properties` alone, and `items` starts after `prefixItems`. -/

namespace Conform

namespace JsonSchema

/-- The names that `properties` speaks of, among some keywords. -/
def declaredNames : List Keyword → List String
  | [] => []
  | .properties fields :: _ => fields.map (·.1.string)
  | _ :: ks => declaredNames ks

/-- How many items `prefixItems` speaks of, among some keywords. -/
def leadingCount : List Keyword → Nat
  | [] => 0
  | .leadingItems ss :: _ => ss.length
  | _ :: ks => leadingCount ks

end JsonSchema

mutual

/-- Which JSON values are valid against a JSON schema. -/
def JsonSchema.Valid : JsonSchema → Value → Prop
  | .constant b, _ => b = true
  | .keywords ks, v => ∀ k ∈ ks, k.Holds ks v
termination_by s => sizeOf s

/-- What a keyword that stands among others asks of a JSON value. -/
def Keyword.Holds (beside : List Keyword) : Keyword → Value → Prop
  | .dialect _, _ => True
  | .title _, _ => True
  | .type name, v => v.HasJsonType name
  | .properties fields, v =>
    ∀ es, v = .dict es → ∀ e ∈ es, ∀ f ∈ fields, e.1.string? = some f.1.string → f.2.Valid e.2
  | .required names, v =>
    ∀ es, v = .dict es → ∀ n ∈ names, ∃ e ∈ es, e.1.string? = some n.string
  | .additionalProperties s, v =>
    ∀ es, v = .dict es → ∀ e ∈ es,
      (∀ n ∈ JsonSchema.declaredNames beside, e.1.string? ≠ some n) → s.Valid e.2
  | .items s, v => ∀ xs, v = .list xs → ∀ x ∈ xs.drop (JsonSchema.leadingCount beside), s.Valid x
  | .leadingItems ss, v =>
    ∀ xs, v = .list xs → ∀ i, (h : i < ss.length) → ∀ x, xs[i]? = some x → ss[i].Valid x
  | .minItems n, v => ∀ xs, v = .list xs → n ≤ xs.length
  | .anyOf ss, v => ∃ s, ∃ _ : s ∈ ss, s.Valid v
  | .const c, v => v.JsonEqual c
  | .propertyNames s, v => ∀ es, v = .dict es → ∀ e ∈ es, s.Valid e.1
termination_by k => sizeOf k
decreasing_by
  · have := List.sizeOf_lt_of_mem ‹f ∈ fields›
    have := sizeOf_snd_lt f
    simp only [Keyword.properties.sizeOf_spec]
    omega
  · simp
  · simp
  · have := List.sizeOf_lt_of_mem (List.getElem_mem ‹i < ss.length›)
    simp only [Keyword.leadingItems.sizeOf_spec]
    omega
  · have := List.sizeOf_lt_of_mem ‹s ∈ ss›
    simp only [Keyword.anyOf.sizeOf_spec]
    omega
  · simp

end

end Conform
