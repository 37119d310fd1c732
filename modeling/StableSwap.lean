import StableSwap.Document.Json.Reader
import StableSwap.Main
import StableSwap.Proofs.Amount.Text
import StableSwap.Proofs.Curve.Accuracy
import StableSwap.Proofs.Curve.Balanced
import StableSwap.Proofs.Curve.Descent
import StableSwap.Proofs.Curve.LowerBound
import StableSwap.Proofs.Curve.TaxableSplit
import StableSwap.Proofs.Curve.UpperBound
import StableSwap.Proofs.Document
import StableSwap.Proofs.Fixed.RoundTrip
import StableSwap.Proofs.Pool.GivenAmounts
import StableSwap.Proofs.Pool.ProtocolFees
import StableSwap.Proofs.Pool.Refreshing
import StableSwap.Proofs.Pool.SwapFee
import StableSwap.Proofs.Pool.Terms
import StableSwap.Proofs.Scaling.RoundTrip
import StableSwap.Proofs.Settlement.HighWater
import StableSwap.Proofs.Settlement.Ownership
import StableSwap.Proofs.Simulation
import StableSwap.Proofs.UserData.RoundTrip
