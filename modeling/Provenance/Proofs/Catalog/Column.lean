import Provenance.Catalog.Basic

/-!
# Columns and their origins

The three fields that name the origins of a column are set together, and nothing else is.
-/

namespace Provenance.Column

@[simp] theorem withOrigins_name (origins : List Origin) (c : Column) :
    (c.withOrigins origins).name = c.name := by
  cases origins <;> rfl

@[simp] theorem withOrigins_dataType (origins : List Origin) (c : Column) :
    (c.withOrigins origins).dataType = c.dataType := by
  cases origins <;> rfl

@[simp] theorem withOrigins_isNullable (origins : List Origin) (c : Column) :
    (c.withOrigins origins).isNullable = c.isNullable := by
  cases origins <;> rfl

@[simp] theorem withOrigins_withOrigins (origins others : List Origin) (c : Column) :
    (c.withOrigins others).withOrigins origins = c.withOrigins origins := by
  cases origins <;> cases others <;> rfl

@[simp] theorem withTypeOf_name (c known : Column) : (c.withTypeOf known).name = c.name := rfl

/-- The origins of a column, of which a column without a list has none. -/
def sources (c : Column) : List Origin := c.origins.getD []

@[simp] theorem withOrigins_sources (origins : List Origin) (c : Column) :
    (c.withOrigins origins).sources = origins := by
  cases origins <;> rfl

theorem withOrigins_origins_ne (origins : List Origin) (c : Column) :
    (c.withOrigins origins).origins ≠ some [] := by
  cases origins <;> simp [withOrigins]

theorem withOrigins_originTable (origins : List Origin) (c : Column) :
    (c.withOrigins origins).originTable = origins.head?.map Origin.table := by
  cases origins <;> rfl

theorem withOrigins_originColumn (origins : List Origin) (c : Column) :
    (c.withOrigins origins).originColumn = origins.head?.map Origin.column := by
  cases origins <;> rfl

end Provenance.Column
