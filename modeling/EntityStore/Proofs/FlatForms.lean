import EntityStore.Entity
import EntityStore.Proofs.Flattening
/-!
# The width of flat identifiers

The flat form of an identifier has one cell for each field of its schema (`EntityType.length_of_flatten`), and an
interval over that schema can judge it unless a cell is empty (`Interval.containsCells_eq_error_iff`).
-/
namespace EntityStore

variable {X : Scalars}

/-- **The flat form of an identifier has the width of its schema.** -/
theorem EntityType.length_of_flatten {E : EntityType X} {id : E.Id} {c : Cells X} (h : E.flatten id = .ok c) :
    ∃ s, E.schema = .ok s ∧ c.length = s.width := by
  cases hs : E.schema with
  | error e =>
    rw [flatten_of_no_schema hs] at h
    cases h
  | ok s =>
    rw [flatten_of_schema hs] at h
    exact ⟨s, rfl, Schema.length_of_flatten hs h⟩

theorem EntityType.interval_eq_ok_iff {E : EntityType X} {s : Schema} (hs : E.schema = .ok s) {first last : E.Id}
    {r : Interval X} : E.interval first last = .ok r ↔ ∃ lower upper, E.flatten first = .ok lower ∧
      E.flatten last = .ok upper ∧ Interval.ofBounds s lower upper = .ok r := by
  rw [flatten_of_schema hs, flatten_of_schema hs, interval, hs]
  dsimp only
  cases s.flatten (E.node first) with
  | error e => simp
  | ok lower => cases s.flatten (E.node last) <;> simp

theorem EntityType.schema_error {E : EntityType X} {e : Error} (h : E.schema = .error e) :
    ∃ type message, e = .invalidSchema type message := by
  unfold schema Schema.ofShape at h
  split at h
  · cases h
    exact ⟨_, _, rfl⟩
  · cases h

/-- An identifier that has no flat form, or no schema, has that against it and nothing else. -/
theorem EntityType.flatten_error {E : EntityType X} {id : E.Id} {e : Error} (h : E.flatten id = .error e) :
    ∃ type message, e = .invalidSchema type message := by
  cases hs : E.schema with
  | error fault =>
    rw [flatten_of_no_schema hs] at h
    cases h
    exact schema_error hs
  | ok s =>
    rw [flatten_of_schema hs, Schema.flatten] at h
    split at h
    · cases h
      exact ⟨_, _, rfl⟩
    · cases h

namespace Interval

/-- What an interval says of a row that it cannot judge. -/
def unjudged : Error := .invalidArgument "Id fields cannot be null"

theorem eq_unjudged_of_containsCells {r : Interval X} {c : Cells X} {e : Error} (h : r.containsCells c = .error e) :
    e = unjudged := by
  unfold containsCells at h
  split at h
  · cases h
    rfl
  · cases h

/-- **Of the rows of its width, an interval can judge all but those with an empty cell.** -/
theorem containsCells_eq_error_iff {r : Interval X} {c : Cells X} (h : c.length = r.schema.width) (e : Error) :
    r.containsCells c = .error e ↔ Cells.isPartial c = true ∧ e = unjudged := by
  unfold containsCells
  cases hp : Cells.isPartial c with
  | true =>
    rw [if_pos (.inr rfl)]
    constructor
    · intro he
      cases he
      exact ⟨rfl, rfl⟩
    · rintro ⟨-, rfl⟩
      rfl
  | false =>
    rw [if_neg (by simp [h])]
    simp

end Interval

end EntityStore
