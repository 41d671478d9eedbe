import Eventually.Json.Basic
import Eventually.Proofs.Entries

namespace Eventually

namespace Binary64

-- The double with the sign of a zero dropped.
def canonical (x : Binary64) : Binary64 := if x.rank = 0 then zero else x

theorem same_iff (x y : Binary64) : x.same y = true ↔ x.canonical = y.canonical := by
  obtain ⟨xsign, xrank, hx⟩ := x
  obtain ⟨ysign, yrank, hy⟩ := y
  by_cases hxrank : xrank = 0 <;> by_cases hyrank : yrank = 0
  · simp [same, canonical, hxrank, hyrank]
  · simp [same, canonical, zero, hxrank, hyrank, Ne.symm hyrank]
  · simp [same, canonical, zero, hxrank, hyrank]
  · simp [same, canonical, hxrank, hyrank, and_comm]

end Binary64

namespace Number

def canonical : Number → Number
  | int value => int value
  | double value => double value.canonical

theorem same_iff (m n : Number) : m.same n = true ↔ m.canonical = n.canonical := by
  cases m <;> cases n <;> simp [same, canonical, Binary64.same_iff]

end Number

namespace Json

mutual

-- The document with all its zeros unsigned. Documents are the same if these are equal.
def canonical : Json → Json
  | number n => number n.canonical
  | array items => array (canonicalItems items)
  | object fields => object (canonicalFields fields)
  | document => document

def canonicalItems : List Json → List Json
  | [] => []
  | item :: rest => canonical item :: canonicalItems rest

def canonicalFields : List (String × Json) → List (String × Json)
  | [] => []
  | (key, value) :: rest => (key, canonical value) :: canonicalFields rest

end

theorem canonicalItems_eq_map (items : List Json) : canonicalItems items = items.map canonical := by
  induction items with
  | nil => rfl
  | cons item rest ih => rw [canonicalItems, List.map_cons, ih]

theorem canonicalFields_eq_map (fields : List (String × Json)) :
    canonicalFields fields = fields.map (Prod.map id canonical) := by
  induction fields with
  | nil => rfl
  | cons field rest ih => rw [canonicalFields, List.map_cons, ih]; rfl

mutual

theorem same_iff : ∀ a b : Json, same a b = true ↔ canonical a = canonical b
  | null, b => by cases b <;> simp [same, canonical]
  | bool a, b => by cases b <;> simp [same, canonical]
  | number a, b => by cases b <;> simp [same, canonical, Number.same_iff]
  | string a, b => by cases b <;> simp [same, canonical]
  | array as, b => by cases b <;> simp [same, canonical, sameItems_iff as]
  | object as, b => by cases b <;> simp [same, canonical, sameFields_iff as]

theorem sameItems_iff : ∀ as bs : List Json,
    sameItems as bs = true ↔ canonicalItems as = canonicalItems bs
  | [], bs => by cases bs <;> simp [sameItems, canonicalItems]
  | a :: as, bs => by
      cases bs <;> simp [sameItems, canonicalItems, same_iff a, sameItems_iff as]

theorem sameFields_iff : ∀ as bs : List (String × Json),
    sameFields as bs = true ↔ canonicalFields as = canonicalFields bs
  | [], bs => by cases bs <;> simp [sameFields, canonicalFields]
  | (k, a) :: as, bs => by
      cases bs <;> simp [sameFields, canonicalFields, same_iff a, sameFields_iff as]

end

theorem beq_iff (a b : Json) : (a == b) = true ↔ canonical a = canonical b := same_iff a b

theorem orderedItems_iff (items : List Json) :
    OrderedItems items ↔ ∀ item ∈ items, Ordered item := by
  induction items with
  | nil => simp [OrderedItems]
  | cons item rest ih => simp [OrderedItems, ih]

theorem orderedFields_iff (fields : List (String × Json)) :
    OrderedFields fields ↔ ∀ field ∈ fields, Ordered field.2 := by
  induction fields with
  | nil => simp [OrderedFields]
  | cons field rest ih => simp [OrderedFields, ih]

end Json

end Eventually
