import PolyCalc.Poly.View
import PolyCalc.Poly.Division
import PolyCalc.Poly.Closeness
import PolyCalc.Main
import PolyCalc.Binary64.Power
import PolyCalc.Proofs.Poly.Reduction
import PolyCalc.Proofs.Poly.Euclidean
import PolyCalc.Proofs.Poly.RingLaws
import PolyCalc.Proofs.Poly.Steps
import PolyCalc.Proofs.Poly.Results
import PolyCalc.Proofs.Poly.Exchange
import PolyCalc.Proofs.Poly.Convolution
import PolyCalc.Proofs.Poly.Pointwise
import PolyCalc.Proofs.Poly.ZeroTerms
import PolyCalc.Proofs.Poly.Frame
import PolyCalc.Proofs.Poly.SingleTerm
import PolyCalc.Proofs.Expression.RoundTrip
import PolyCalc.Proofs.Expression.Verdict
import PolyCalc.Proofs.Expression.Cut
import PolyCalc.Proofs.Calculator.Session
import PolyCalc.Proofs.Calculator.Overflow
import PolyCalc.Proofs.Settings.Visits
import PolyCalc.Proofs.CommandLine.Logging
import PolyCalc.Proofs.Binary64.Carry
import PolyCalc.Proofs.Binary64.Range
import PolyCalc.Proofs.Expression.Finiteness
import PolyCalc.Proofs.Expression.Rearrangement
import PolyCalc.Proofs.Calculator.Log
import PolyCalc.Proofs.Settings.Concatenation
import PolyCalc.Proofs.Poly.Closeness
