import ChainIndexer.Core.Machine
import ChainIndexer.Native.Errors

/-!
# Calls that await their delivery report

Each call of `SynchronousProducer.produceEvent` registers a listener of its own for the
delivery reports of the client. Every report reaches every registered listener, and a
listener decides by the error, the identifier and the topic whether it is meant.
-/

namespace ChainIndexer.Delivery

/-- The settings that `produceEvent` reads. -/
structure Config where
  /-- The topic of the messages that are sent without one. -/
  topic : String
  deliveryTimeout : Nat

/-- What the client reports about a message. -/
structure DeliveryReport where
  topic : String
  /-- The identifier made for a call, named by the place of the call. -/
  identifier : Nat
  partition : Int
  offset : Int
  deriving DecidableEq, Repr

/-- How the promise of a call is settled. -/
inductive Outcome where
  | resolved (report : DeliveryReport)
  | rejected (error : BaseError)
  deriving DecidableEq, Repr

/-- How far `sendToInternalProducer` has come with a message. -/
inductive Sending where
  | waiting
  /-- The client has taken the message and will report on it. -/
  | accepted
  | refused
  | reported
  deriving DecidableEq, Repr

/-- One call of `produceEvent`. -/
structure Call where
  /-- The topic it was called with. -/
  topic : Option String
  sending : Sending := .waiting
  /-- Whether its delivery listener is registered. -/
  listening : Bool := true
  /-- Whether its timer is running. -/
  timer : Bool := true
  outcome : Option Outcome := none
  deriving DecidableEq, Repr

/-- The calls of one producer. -/
structure State where
  calls : List Call := []
  /-- Errors thrown by an executor after its first await: nobody handles them. -/
  unhandled : List BaseError := []
  deriving DecidableEq, Repr

/-- No call has been made. -/
def State.init : State := {}

/-- Only the first settlement of a promise counts. -/
def Call.settle (call : Call) (outcome : Outcome) : Call :=
  { call with outcome := call.outcome.or (some outcome) }

/-- The topic a message is sent to. -/
def Call.sentTo (cfg : Config) (call : Call) : String := call.topic.getD cfg.topic

/-- What a listener that is meant makes of a report. -/
def outcomeOf (error : Option LibrdKafkaError) (report : DeliveryReport) : Outcome :=
  match error with
  | some error => .rejected (KafkaError.convertLibError error false)
  | none => .resolved report

/-- The error that `sendToInternalProducer` throws. -/
def sendError (error : Thrown) : BaseError := KafkaError.createUnknown error true

/-- The delivery listener of the call at place `i`. -/
def deliveryListener (error : Option LibrdKafkaError) (report : DeliveryReport) (i : Nat)
    (call : Call) : Call :=
  if call.listening = true ∧
      (error.isSome = true ∨ report.identifier = i ∧ some report.topic = call.topic) then
    { call with listening := false, timer := false }.settle (outcomeOf error report)
  else call

/-- `produceEvent` up to its first await. -/
def produceEvent (s : State) (topic : Option String) : State :=
  { s with calls := s.calls ++ [{ topic := topic }] }

/-- `sendToInternalProducer` settles for the call at place `i`. What the executor throws then
does not reach the promise of the call. -/
def sent (s : State) (i : Nat) (failure : Option Thrown) : Option State :=
  match s.calls[i]? with
  | none => none
  | some call =>
    if call.sending = .waiting then
      some (match failure with
        | none => { s with calls := s.calls.set i { call with sending := .accepted } }
        | some error => { s with
            calls := s.calls.set i { call with sending := .refused, listening := false }
            unhandled := s.unhandled ++
              [KafkaError.createUnknown (.base (sendError error)) false] })
    else none

/-- The client reports on the message of the call at place `i`, once. -/
def reported (cfg : Config) (s : State) (i : Nat) (error : Option LibrdKafkaError)
    (report : DeliveryReport) : Option State :=
  match s.calls[i]? with
  | none => none
  | some call =>
    if call.sending = .accepted ∧ report.identifier = i ∧ report.topic = call.sentTo cfg then
      some { s with
        calls := (s.calls.set i { call with sending := .reported }).mapIdx
          (deliveryListener error report) }
    else none

/-- The timer of the call at place `i` fires. -/
def timeout (cfg : Config) (s : State) (i : Nat) : Option State :=
  match s.calls[i]? with
  | none => none
  | some call =>
    if call.timer then
      some { s with
        calls := s.calls.set i ({ call with timer := false }.settle
          (.rejected (KafkaError.deliveryTimedOut cfg.deliveryTimeout))) }
    else none

/-- What may happen next. A call is named by its place. -/
inductive Event where
  | produceEvent (topic : Option String)
  | sent (i : Nat) (failure : Option Thrown)
  | reported (i : Nat) (error : Option LibrdKafkaError) (report : DeliveryReport)
  | timeout (i : Nat)
  deriving DecidableEq, Repr

/-- One event, run up to the next await. -/
def step (cfg : Config) (s : State) : Event → Option State
  | .produceEvent topic => some (produceEvent s topic)
  | .sent i failure => sent s i failure
  | .reported i error report => reported cfg s i error report
  | .timeout i => timeout cfg s i

/-- The machine of the calls. -/
def machine (cfg : Config) : Machine State Event where
  step := step cfg

end ChainIndexer.Delivery
