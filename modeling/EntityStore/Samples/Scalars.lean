import EntityStore.Identifier.Scalar
import EntityStore.Samples.Instant
import EntityStore.Samples.Uuid
/-!
# Scalars of the samples

The sample entity types take their instants from a calendar and their unique identifiers from 128 bits.
-/
namespace EntityStore

/-- The types of values that the sample entity types use. -/
def Sample.scalars : Scalars where
  instant := { Carrier := Instant, text := Instant.text }
  uuid := { Carrier := Uuid, text := Uuid.text }

end EntityStore
