import Utterance.Datum

/-!
# Traces

A record of how an utterance was interpreted: one step for each stage, with what the stage was given
and what it produced, and the speech act or the error at the end.
-/

namespace Utterance

/-- One stage of an interpretation. -/
structure TraceStep where
  /-- Number of the step, counted from one. -/
  id : Nat
  name : String
  time : String
  inputs : List (String × Datum)
  outputs : List (String × Datum)
  description : Option String := none

/-- The record of an interpretation. -/
structure Trace where
  id : String
  start : String
  /-- When the interpretation ended. -/
  ended : Option String := none
  /-- What was said, if anything. -/
  utterance : Option String
  steps : List TraceStep := []
  /-- Label of the speech act. -/
  act : Option String := none
  error : Option String := none

/-- What tells one trace from another: its identifier and the time on the clock. -/
structure Stamp where
  id : String
  time : String

namespace Trace

/-- A trace without steps. -/
def opening (stamp : Stamp) (utterance : Option String) : Trace :=
  { id := stamp.id, start := stamp.time, utterance }

/-- The trace with one more step. An empty description counts as none. -/
def addStep (t : Trace) (time name : String) (inputs outputs : List (String × Datum))
    (description : Option String) : Trace :=
  let step : TraceStep :=
    { id := t.steps.length + 1, name, time, inputs, outputs
      description := description.filter (!·.isEmpty) }
  { t with steps := t.steps ++ [step] }

/-- Names of the steps. -/
def stepNames (t : Trace) : List String := t.steps.map (·.name)

/-- Ends the trace with a speech act, or with none. -/
def conclude (t : Trace) (time : String) (act : Option String) : Trace :=
  { t with act, ended := some time }

/-- Ends the trace with an error, or with none. -/
def fail (t : Trace) (time : String) (error : Option String) : Trace :=
  { t with error, ended := some time }

/-! ## As data -/

/-- A step as data. -/
def stepDatum (s : TraceStep) : Datum :=
  .record
    ([("step_id", .int s.id), ("name", .text s.name), ("timestamp", .text s.time),
        ("inputs", .record s.inputs), ("outputs", .record s.outputs)]
      ++ (s.description.map fun d => ("description", .text d)).toList)

/-- A trace as data. -/
def toDatum (t : Trace) : Datum :=
  .record
    [("trace_id", .text t.id),
      ("start_time", .text t.start),
      ("end_time", .ofOption t.ended),
      ("utterance", .ofOption t.utterance),
      ("steps", .list (t.steps.map stepDatum)),
      ("speech_act", .ofOption t.act),
      ("error", .ofOption t.error)]

end Trace

end Utterance
