import PolicyValue.Json.Codec
import PolicyValue.Prediction

/-!
# JSON forms of vectors and predictions

A state or an action is the array of its features, refused unless there are as many as it takes.
A scored batch and a prediction are objects.
-/

namespace PolicyValue

variable [ScalarText]

/-- The JSON form of a state. -/
def StateVector.codec : Codec StateVector :=
  Codec.scalar.list.restrict (fun xs => (StateVector.ofList xs).toOption) (·.values)

/-- The JSON form of an action. -/
def ActionVector.codec : Codec ActionVector :=
  Codec.scalar.list.restrict (fun xs => (ActionVector.ofList xs).toOption) (·.values)

/-- The members of a scored batch. -/
def ScoredBatch.layout : Layout ScoredBatch where
  initial := ⟨[], Scalar.zero⟩
  fields := [
    Codec.scalar.list.required "scores" (·.scores) fun x b => { b with scores := x },
    Codec.scalar.required "value" (·.value) fun x b => { b with value := x }]

/-- The JSON form of a scored batch. -/
def ScoredBatch.codec : Codec ScoredBatch := ScoredBatch.layout.codec

/-- The members of a prediction. -/
def Prediction.layout : Layout Prediction where
  initial := ⟨[], Scalar.zero⟩
  fields := [
    Codec.scalar.list.required "policy" (·.policy) fun x p => { p with policy := x },
    Codec.scalar.required "value" (·.value) fun x p => { p with value := x }]

/-- The JSON form of a prediction. -/
def Prediction.codec : Codec Prediction := Prediction.layout.codec

end PolicyValue
