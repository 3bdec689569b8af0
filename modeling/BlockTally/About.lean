/-! What the library says about itself. -/

set_option autoImplicit false

namespace BlockTally.About

def release : List Nat := [0, 1, 0]

def releaseText : String :=
  ".".intercalate (release.map toString)

/-- The pattern of a log line: time, level, source and message. -/
def logLine : String :=
  "%(asctime)s | %(levelname)8s | %(name)10.10s | %(message)s"

end BlockTally.About
