import PolicyValue.Main
import PolicyValue.Host
import PolicyValue.Prediction.Format
import PolicyValue.Proofs.Typing
import PolicyValue.Proofs.Soundness
import PolicyValue.Proofs.Loading
import PolicyValue.Proofs.Refinement
import PolicyValue.Proofs.Reimport
import PolicyValue.Proofs.Forward
import PolicyValue.Proofs.Agreement
import PolicyValue.Proofs.JsonText
import PolicyValue.Proofs.Codec
import PolicyValue.Proofs.Transport
import PolicyValue.Proofs.Bundle
import PolicyValue.Proofs.SignedZero
import PolicyValue.Proofs.Slotwise
import PolicyValue.Proofs.Padding
import PolicyValue.Proofs.Reencoding
import PolicyValue.Proofs.Verification
import PolicyValue.Proofs.NotANumber
import PolicyValue.Proofs.Safety
import PolicyValue.Proofs.Saving
import PolicyValue.Proofs.ValuePath
import PolicyValue.Proofs.ValueRange
import PolicyValue.Proofs.Nearest
import PolicyValue.Proofs.Order
import PolicyValue.Proofs.Monotone
import PolicyValue.Proofs.Softmax
import PolicyValue.Proofs.Report
import PolicyValue.Proofs.Foreign
import PolicyValue.Proofs.Buffers
import PolicyValue.Proofs.Extension
import PolicyValue.Proofs.SeedIndependence
import PolicyValue.Proofs.Verdict
import PolicyValue.Proofs.Wire
import PolicyValue.Proofs.Pruning
import PolicyValue.Proofs.Magnitude
import PolicyValue.Proofs.Normalization
import PolicyValue.Proofs.Assignment
