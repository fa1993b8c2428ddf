import Gatehouse.Records
import Gatehouse.Recording.Log

/-!
# What is recorded of a session

A terminal session is recorded as timed frames. Forwarded traffic is recorded as text, each block
labelled with where it is going.
-/

namespace Gatehouse.Recording

/-- How the parts of a session are recorded. -/
structure SessionStreams where
  /-- What the user sends, unless it is passed on without a recording. -/
  input : Option Stream := none
  /-- What the host sends, unless it is passed on without a recording. -/
  output : Option Stream := none
  /-- The commands that the user executes. -/
  commands : Stream := .disabled
deriving DecidableEq

namespace SessionStreams

/-- The streams of a mode, given how the two directions would be recorded. -/
def ofMode (mode : LoggingMode) (input output : Stream) : SessionStreams :=
  { input := if mode.recordsInput then some input else none
    output := if mode.recordsOutput then some output else none
    commands := if mode.isEnabled then input else .disabled }

/-- The streams of a terminal session. -/
def terminal (mode : LoggingMode) : SessionStreams :=
  ofMode mode .framed .framed

/-- The streams of traffic that is forwarded between two hosts. -/
def forwarded (mode : LoggingMode) (host originHost : String) : SessionStreams :=
  ofMode mode (.labelled host) (.labelled originHost)

end SessionStreams

end Gatehouse.Recording
