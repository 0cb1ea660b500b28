import Mathlib.Data.List.Basic

/-!
# Error objects

The error classes differ in their name, their default code and how they convert
an arbitrary thrown value. Every conversion returns a base error as it is and
wraps anything else. Stack traces are left out: no modelled function reads one.
-/

namespace ChainIndexer

/-- The fields of `BaseError` that the library reads. -/
structure BaseError where
  name : String
  code : Int
  isFatal : Bool
  message : String
  origin : String
  deriving DecidableEq, Repr

/-- The constructor `super(message || name)`: an absent or empty message is the name. -/
def BaseError.create (name : String) (code : Int) (isFatal : Bool) (message : Option String)
    (origin : String) : BaseError where
  name := name
  code := code
  isFatal := isFatal
  message := match message with
    | none | some "" => name
    | some text => text
  origin := origin

/-- An error object of the Kafka client; a code of zero counts as absent. -/
structure LibrdKafkaError where
  message : String
  code : Int
  isFatal : Bool
  origin : String
  deriving DecidableEq, Repr

/-- What a promise may reject with, as the conversions tell it apart. -/
inductive Thrown where
  | base (error : BaseError)
  | librdkafka (error : LibrdKafkaError)
  | unknown (message : String)
  deriving DecidableEq, Repr

/-- The guard `isBaseError(error) && error.isFatal`. -/
def Thrown.isFatalBase : Thrown → Bool
  | .base error => error.isFatal
  | .librdkafka _ | .unknown _ => false

namespace Codes

def decodingError : Int := 1003
def encodingVerificationFailed : Int := 1004
def unknownConsumerErr : Int := 2000
def unknownProducerErr : Int := 3000
def deliveryTimedOut : Int := 3001
def blockProducerUnknownErr : Int := 4000
def receiptNotFound : Int := 4001
def reorgEncountered : Int := 4003
def rpcErr : Int := 4004

end Codes

namespace KafkaError

/-- The name a Kafka error carries on either side of the broker. -/
def nameOf (isProducer : Bool) : String :=
  if isProducer then "Kafka producer error" else "Kafka consumer error"

/-- The code a Kafka error falls back to. -/
def defaultCode (isProducer : Bool) : Int :=
  if isProducer then Codes.unknownProducerErr else Codes.unknownConsumerErr

/-- `KafkaError.convertLibError`. -/
def convertLibError (error : LibrdKafkaError) (isProducer : Bool) : BaseError :=
  .create (nameOf isProducer) (if error.code = 0 then defaultCode isProducer else error.code)
    error.isFatal (some error.message) error.origin

/-- `KafkaError.createUnknown`. -/
def createUnknown (error : Thrown) (isProducer : Bool) : BaseError :=
  match error with
  | .base error => error
  | .librdkafka error => convertLibError error isProducer
  | .unknown message =>
    .create (nameOf isProducer) (defaultCode isProducer) true (some message) "local"

/-- The error of a call whose delivery report does not come in time. -/
def deliveryTimedOut (deliveryTimeout : Nat) : BaseError :=
  .create "Kafka producer error" Codes.deliveryTimedOut false
    (some ("Could not receive delivery confirmation before " ++ toString deliveryTimeout ++ " ms"))
    "remote"

end KafkaError

namespace CoderError

/-- The error `serialize` throws for a message the schema refuses; it is not fatal. -/
def verificationFailed (verificationError : String) : BaseError :=
  .create "Message verification failed" Codes.encodingVerificationFailed false
    (some verificationError) "local"

end CoderError

namespace BlockProducerError

/-- `BlockProducerError.createUnknown`: everything but a base error becomes a fatal one. -/
def createUnknown : Thrown → BaseError
  | .base error => error
  | .librdkafka error => .create "Block producer error" Codes.blockProducerUnknownErr true
      (some error.message) "local"
  | .unknown message => .create "Block producer error" Codes.blockProducerUnknownErr true
      (some message) "local"

/-- The error of the delivered listener for a report without a partition. -/
def topicDoesNotExist : BaseError :=
  .create "Kafka topic does not exist" Codes.blockProducerUnknownErr true
    (some "Kafka topic does not exist or could not be created.") "remote"

end BlockProducerError

end ChainIndexer
