import Pinpoint.Main
import Pinpoint.Proofs.ClassHistory
import Pinpoint.Proofs.CutDirectory
import Pinpoint.Proofs.LimitedSink
import Pinpoint.Proofs.LineFilling
import Pinpoint.Proofs.Origins
import Pinpoint.Proofs.PassOrder
import Pinpoint.Proofs.PinSettles
import Pinpoint.Proofs.PipelineHistory
import Pinpoint.Proofs.PrintedDiff
import Pinpoint.Proofs.ProgressAccounts
import Pinpoint.Proofs.QuotedReading
import Pinpoint.Proofs.ReportSpellings
import Pinpoint.Proofs.SettingsFiles
import Pinpoint.Proofs.SettingsIssues
import Pinpoint.Proofs.SpanPositions
import Pinpoint.Proofs.Splicing
import Pinpoint.Proofs.StyledRuns
import Pinpoint.Proofs.TreeSpellings
import Pinpoint.Proofs.TreeWalks
