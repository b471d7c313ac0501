import TensorKit.Tuning.Record
import TensorKit.Tuning.Space
/-!
Trials.

A trial is a space that is tried, the metrics recorded in doing so, and how the trial went.  It can be kept as data and
made again from it.
-/

namespace TensorKit.Tuning

structure Trial where
  id : Value
  space : Space
  recorder : Recorder Value := {}
  score : Value := .null
  bestStep : Value := .null
  status : Value := .str "RUNNING"

namespace Trial

def document (t : Trial) : Except Error Value := do
  return .record [("id", t.id), ("space", t.space.document), ("recorder", ← t.recorder.document),
    ("score", t.score), ("best_step", t.bestStep), ("status", t.status)]

/-- The trial that data describes, where `alike` tells when two data are one. -/
def ofDocument (alike : Value → Value → Bool) (v : Value) : Except Error Trial := do
  return {
    id := ← v.at? (.str "id"), space := ← Space.ofDocument alike (← v.at? (.str "space")),
    recorder := ← Recorder.ofDocument (← v.at? (.str "recorder")), score := ← v.at? (.str "score"),
    bestStep := ← v.at? (.str "best_step"), status := ← v.at? (.str "status") }

def restored (t : Trial) : Except Error Trial := do ofDocument Variable.kept (← t.document)

end Trial

end TensorKit.Tuning
