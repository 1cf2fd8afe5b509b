import JobControl.Machine.Operator
import JobControl.Main
import JobControl.Proofs.Job.Table
import JobControl.Proofs.Loops
import JobControl.Proofs.Job.Tracked
import JobControl.Proofs.Session.Steps
import JobControl.Proofs.Session.Operations
import JobControl.Proofs.Session.Tracking
import JobControl.Proofs.Kernel.Ledger
import JobControl.Proofs.Session.Failure
import JobControl.Proofs.Line.Spelling
import JobControl.Proofs.Line.Grammar
import JobControl.Proofs.Line.Retained
import JobControl.Proofs.Kernel.Host
import JobControl.Proofs.Job.Coherence
import JobControl.Proofs.Session.Coherence
import JobControl.Proofs.Session.Hosted
import JobControl.Proofs.Job.Owner
import JobControl.Proofs.Poll.Stops
import JobControl.Proofs.Poll.Timing
import JobControl.Proofs.Job.Requests
import JobControl.Proofs.Job.Recency
import JobControl.Proofs.Session.Recency
import JobControl.Proofs.Session.Resumption
import JobControl.Proofs.Wait.Agreement
import JobControl.Proofs.Kernel.UpToDate
import JobControl.Proofs.Session.Calls
import JobControl.Proofs.Session.Waits
import JobControl.Proofs.Session.Directory
import JobControl.Proofs.Session.Resolution
import JobControl.Proofs.Session.Course
import JobControl.Proofs.Kernel.Unheard
import JobControl.Proofs.Session.Bystanders
import JobControl.Proofs.Session.Untracked
import JobControl.Proofs.Session.Signals
import JobControl.Proofs.Kernel.Tty
import JobControl.Proofs.Signal.Guards
import JobControl.Proofs.Session.Handover
import JobControl.Proofs.FrontEnd.Dispatch
import JobControl.Proofs.FrontEnd.Input
import JobControl.Proofs.FrontEnd.Loop
import JobControl.Proofs.Launch.Descriptors
import JobControl.Proofs.Launch.Outcome
import JobControl.Proofs.Kernel.Plumbing
import JobControl.Proofs.Launch.Wiring
import JobControl.Proofs.Job.Readback
import JobControl.Proofs.Kernel.Foretold
import JobControl.Proofs.Poll.Account
import JobControl.Proofs.Wait.Diary
import JobControl.Proofs.Wait.Results
import JobControl.Proofs.Wait.Account
