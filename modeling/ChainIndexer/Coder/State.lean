import ChainIndexer.Core.Machine
import ChainIndexer.Native.Errors

/-!
# The coder and its schema

`deserialize` and `serialize` await `loadType` until the protobuf type has been assigned once, and
answer at once from then on. The continuations of settled promises are run in the order in which
they were queued; a call that waits passes through two of them, the one of `loadType` and its own.
The library's type is a record of its three functions; the log entry of `deserialize` is left out.
-/

namespace ChainIndexer.Coder

/-- The functions of the protobuf type that the coder uses. -/
structure ProtobufType (β μ : Type) where
  decode : β → Except String μ
  /-- `null` and the empty text both mean that the message is in order. -/
  verify : μ → Option String
  /-- `encode(…).finish()`. -/
  encode : μ → Except Thrown β

/-- A call of one of the two public methods. -/
inductive Request (β μ : Type) where
  | deserialize (buffer : β)
  | serialize (message : μ)
  deriving DecidableEq, Repr

/-- What a call resolves with. -/
inductive Answer (β μ : Type) where
  | message (message : μ)
  | buffer (buffer : β)
  deriving DecidableEq, Repr

/-- `CoderError.codes.INVALID_PATH_PROTO`. -/
def invalidPathProto : Int := 1001

/-- The error of `loadType`. -/
def loadFailed (cause : String) : BaseError :=
  .create "Coder error" invalidPathProto true (some cause) "local"

/-- The error of `deserialize`. -/
def decodingFailed (cause : String) : BaseError :=
  .create "Decoding error" Codes.decodingError true (some cause) "local"

variable {β μ : Type}

/-- What the methods do with the type; `serialize` does not wrap an error of `encode`. -/
def serve (type : ProtobufType β μ) : Request β μ → Except Thrown (Answer β μ)
  | .deserialize buffer => match type.decode buffer with
    | .ok message => .ok (.message message)
    | .error cause => .error (.base (decodingFailed cause))
  | .serialize message => match type.verify message with
    | none | some "" => (type.encode message).map .buffer
    | some verificationError => .error (.base (CoderError.verificationFailed verificationError))

/-- The promise that `loadType` keeps, with the calls that await it while it is pending. -/
inductive LoadPromise (β μ : Type) where
  | pending (waiting : List Nat)
  | settled (result : Except String (ProtobufType β μ))

/-- A continuation that is due, of the call with this number. -/
inductive Task (β μ : Type) where
  /-- The continuation of `await this.loadPromise`. -/
  | loadType (call : Nat) (result : Except String (ProtobufType β μ))
  /-- The continuation of `await this.loadType()`. -/
  | resume (call : Nat) (result : Except BaseError (ProtobufType β μ))

/-- The coder, the continuations that are due, and a record of its calls and their answers. -/
structure State (β μ : Type) where
  protobufType : Option (ProtobufType β μ) := none
  loadPromise : Option (LoadPromise β μ) := none
  tasks : List (Task β μ) := []
  calls : List (Request β μ) := []
  /-- The calls that are answered, in the order of their answers. -/
  settled : List (Nat × Except Thrown (Answer β μ)) := []
  /-- Calls of the library's `load`. -/
  loads : Nat := 0

/-- The object the constructor returns. -/
def State.init : State β μ := {}

/-- A call is answered. -/
def settle (s : State β μ) (call : Nat) (outcome : Except Thrown (Answer β μ)) : State β μ :=
  { s with settled := s.settled ++ [(call, outcome)] }

/-- `loadType` up to its await; what `require.resolve` throws comes before the promise is
assigned. -/
def loadType (s : State β μ) (call : Nat) (unresolved : Option String) : State β μ :=
  match s.loadPromise with
  | some (.pending waiting) => { s with loadPromise := some (.pending (waiting ++ [call])) }
  | some (.settled result) => { s with tasks := s.tasks ++ [.loadType call result] }
  | none => match unresolved with
    | some cause => { s with tasks := s.tasks ++ [.resume call (.error (loadFailed cause))] }
    | none => { s with loadPromise := some (.pending [call]), loads := s.loads + 1 }

/-- A public method up to its await or its answer. -/
def request (s : State β μ) (request : Request β μ) (unresolved : Option String) : State β μ :=
  match s.protobufType with
  | some type =>
    settle { s with calls := s.calls ++ [request] } s.calls.length (serve type request)
  | none => loadType { s with calls := s.calls ++ [request] } s.calls.length unresolved

/-- The library answers: `load(…)` and `root.lookupType(…)` succeed or one of them fails. -/
def loaded (s : State β μ) (result : Except String (ProtobufType β μ)) : Option (State β μ) :=
  match s.loadPromise with
  | some (.pending waiting) =>
    some { s with
      loadPromise := some (.settled result)
      tasks := s.tasks ++ waiting.map fun call => .loadType call result }
  | some (.settled _) | none => none

/-- The rest of a public method after its await. -/
def resume (s : State β μ) (call : Nat) :
    Except BaseError (ProtobufType β μ) → Option (State β μ)
  | .ok type => s.calls[call]?.map fun request =>
    settle { s with protobufType := some type } call (serve type request)
  | .error error => some (settle s call (.error (.base error)))

/-- The first continuation that is due is run. -/
def runTask (s : State β μ) : Option (State β μ) :=
  match s.tasks with
  | [] => none
  | .loadType call result :: rest =>
    some { s with tasks := rest ++ [.resume call (result.mapError loadFailed)] }
  | .resume call result :: rest => resume { s with tasks := rest } call result

/-- What happens to the coder. -/
inductive Event (β μ : Type) where
  | call (request : Request β μ) (unresolved : Option String)
  | loaded (result : Except String (ProtobufType β μ))
  | task

def step (s : State β μ) : Event β μ → Option (State β μ)
  | .call req unresolved => some (request s req unresolved)
  | .loaded result => loaded s result
  | .task => runTask s

/-- The coder as a machine. -/
def machine (β μ : Type) : Machine (State β μ) (Event β μ) where
  step := step

/-- What a step does, one case for each way through the methods. -/
inductive Moves (s : State β μ) : Event β μ → State β μ → Prop
  | immediate {request unresolved type} (htype : s.protobufType = some type) :
    Moves s (.call request unresolved)
      (settle { s with calls := s.calls ++ [request] } s.calls.length (serve type request))
  | joins {request unresolved waiting} (htype : s.protobufType = none)
      (hload : s.loadPromise = some (.pending waiting)) :
    Moves s (.call request unresolved)
      { s with
        calls := s.calls ++ [request]
        loadPromise := some (.pending (waiting ++ [s.calls.length])) }
  | follows {request unresolved result} (htype : s.protobufType = none)
      (hload : s.loadPromise = some (.settled result)) :
    Moves s (.call request unresolved)
      { s with
        calls := s.calls ++ [request]
        tasks := s.tasks ++ [.loadType s.calls.length result] }
  | unresolved {request cause} (htype : s.protobufType = none) (hload : s.loadPromise = none) :
    Moves s (.call request (some cause))
      { s with
        calls := s.calls ++ [request]
        tasks := s.tasks ++ [.resume s.calls.length (.error (loadFailed cause))] }
  | first {request} (htype : s.protobufType = none) (hload : s.loadPromise = none) :
    Moves s (.call request none)
      { s with
        calls := s.calls ++ [request]
        loadPromise := some (.pending [s.calls.length])
        loads := s.loads + 1 }
  | loaded {result waiting} (hload : s.loadPromise = some (.pending waiting)) :
    Moves s (.loaded result)
      { s with
        loadPromise := some (.settled result)
        tasks := s.tasks ++ waiting.map fun call => .loadType call result }
  | continues {call result rest} (htasks : s.tasks = .loadType call result :: rest) :
    Moves s .task { s with tasks := rest ++ [.resume call (result.mapError loadFailed)] }
  | serves {call type rest request} (htasks : s.tasks = .resume call (.ok type) :: rest)
      (hcall : s.calls[call]? = some request) :
    Moves s .task
      (settle { s with tasks := rest, protobufType := some type } call (serve type request))
  | refuses {call error rest} (htasks : s.tasks = .resume call (.error error) :: rest) :
    Moves s .task (settle { s with tasks := rest } call (.error (.base error)))

/-- A call is one of the moves. -/
theorem Moves.of_request (s : State β μ) (req : Request β μ) (unresolved : Option String) :
    Moves s (.call req unresolved) (request s req unresolved) := by
  unfold request
  split
  · rename_i type htype
    exact .immediate htype
  · rename_i htype
    unfold loadType
    split
    · rename_i waiting hload
      exact .joins htype hload
    · rename_i result hload
      exact .follows htype hload
    · rename_i hload
      cases unresolved with
      | some cause => exact .unresolved htype hload
      | none => exact .first htype hload

/-- So is a continuation. -/
theorem Moves.of_runTask {s t : State β μ} (h : runTask s = some t) : Moves s .task t := by
  unfold runTask at h
  split at h
  · cases h
  · rename_i call result rest htasks
    cases h
    exact .continues htasks
  · rename_i call result rest htasks
    cases result with
    | ok type =>
      obtain ⟨request, hcall, rfl⟩ := Option.map_eq_some_iff.mp h
      exact .serves htasks hcall
    | error error =>
      cases h
      exact .refuses htasks

/-- Every event is one of the moves. -/
theorem Moves.of_step {s t : State β μ} {e : Event β μ} (h : step s e = some t) :
    Moves s e t := by
  cases e with
  | call req unresolved =>
    cases h
    exact .of_request s req unresolved
  | loaded result =>
    change Coder.loaded s result = some t at h
    unfold Coder.loaded at h
    split at h
    · rename_i waiting hload
      cases h
      exact .loaded hload
    · cases h
    · cases h
  | task => exact .of_runTask h

end ChainIndexer.Coder
