import FramedSasl.Main
import FramedSasl.Proofs.DeclaredOutcome
import FramedSasl.Proofs.Delivery
import FramedSasl.Proofs.ExchangeLanguage
import FramedSasl.Proofs.Extents
import FramedSasl.Proofs.FragmentBoundaries
import FramedSasl.Proofs.FragmentSizes
import FramedSasl.Proofs.FrameLimits
import FramedSasl.Proofs.JournalLines
import FramedSasl.Proofs.LimitOverride
import FramedSasl.Proofs.LoadedScenarios
import FramedSasl.Proofs.MechanismNames
import FramedSasl.Proofs.Outflow
import FramedSasl.Proofs.Payloads
import FramedSasl.Proofs.PumpRounds
import FramedSasl.Proofs.ReaderCalls
import FramedSasl.Proofs.Reports
import FramedSasl.Proofs.Schedules
import FramedSasl.Proofs.Secrecy
import FramedSasl.Proofs.SetOnce
import FramedSasl.Proofs.ValueRoundTrip
