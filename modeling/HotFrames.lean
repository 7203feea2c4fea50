import HotFrames.Main
import HotFrames.Proofs.Analyze
import HotFrames.Proofs.Analyze.Effects
import HotFrames.Proofs.FrameTable.Arrangement
import HotFrames.Proofs.FrameTable.Indexed
import HotFrames.Proofs.Report.Changes
import HotFrames.Proofs.Report.Output
import HotFrames.Proofs.Report.Rearranged
import HotFrames.Proofs.Report.Shares
import HotFrames.Proofs.Report.Unambiguous
import HotFrames.Proofs.Profile.Amounts
import HotFrames.Proofs.Profile.Answers
import HotFrames.Proofs.Profile.Consuming
import HotFrames.Proofs.Profile.Faults
import HotFrames.Proofs.Profile.Joined
import HotFrames.Proofs.Profile.Reordered
import HotFrames.Proofs.Profile.Runs
import HotFrames.Proofs.Profile.Search
import HotFrames.Proofs.Profile.Written
import HotFrames.Proofs.Source.Lines
import HotFrames.Proofs.Source.Segments
import HotFrames.Proofs.Stack.Grammar
