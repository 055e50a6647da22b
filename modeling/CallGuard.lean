import CallGuard.Configuration
import CallGuard.Guard
import CallGuard.Proofs.GuardedCall
import CallGuard.Proofs.Revalidation
import CallGuard.Shape
import CallGuard.Value.Conversion
import CallGuard.Proofs.Acceptance
import CallGuard.Proofs.Supply
import CallGuard.Proofs.Interference
import CallGuard.Proofs.Noninterference
import CallGuard.Proofs.LaxExtension
import CallGuard.Proofs.Recognition
import CallGuard.Proofs.Decoding
import CallGuard.Proofs.Building
import CallGuard.Proofs.FailClosed
import CallGuard.Proofs.Report
import CallGuard.Proofs.Completion
import CallGuard.Proofs.UndeclaredNames
import CallGuard.Proofs.Congruence
import CallGuard.Proofs.Encoding
import CallGuard.Proofs.LaxNumbers
import CallGuard.Proofs.FloatRounding
import CallGuard.Proofs.LaxTexts
import CallGuard.Proofs.CalendarDates
import CallGuard.Proofs.WebAddress
import CallGuard.Proofs.MailAddress
