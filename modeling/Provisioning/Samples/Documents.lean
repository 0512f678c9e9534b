/-!
# Sample documents

Profile and catalog documents, good and bad ones.
-/

namespace Provisioning.Samples

/-- A profile that leaves most to its fallbacks. -/
def webDocument : String :=
  "label: web\nprefix: w\nrequires_pool: false\n"

/-- A profile that says everything. -/
def hadoopDocument : String :=
  "label: Hadoop worker\nprefix: hadoop\nprimary_role: HADOOP\nsecondary_role: DATANODE\n" ++
  "pool: HADOOP_PROD\ncontact: data-infra\ncontact_notes: page during business hours only\n" ++
  "allowed_classes: [SERVER_NODE]\nallow_suffix: true\nrequires_primary_role: true\n" ++
  "requires_secondary_role: true\nrequires_pool: true\n"

/-- A profile whose root names its type. -/
def taggedDocument : String :=
  "!asset.Profile\nlabel: tagged\nprefix: t\n"

/-- A profile with a key that no profile has. -/
def unknownKeyDocument : String :=
  "label: legacy\nprefix: l\nrack_position: 12\n"

/-- A list where a profile should be. -/
def malformedDocument : String :=
  "- label: web\n- prefix: w\n"

/-- A catalog of two profiles. -/
def catalogDocument : String :=
  "profiles:\n  hadoop:\n    label: Hadoop worker\n    prefix: hadoop\n    primary_role: HADOOP\n" ++
  "  web:\n    label: web\n    prefix: w\n    requires_pool: false\n"

/-- The sample documents under their names. -/
def documents : List (String × String) := [
  ("web", webDocument), ("hadoop", hadoopDocument), ("tagged", taggedDocument),
  ("unknown_key", unknownKeyDocument), ("malformed", malformedDocument),
  ("catalog", catalogDocument)]

end Provisioning.Samples
