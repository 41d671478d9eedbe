import Eventually.Json.Printer
import Eventually.Json.Reader
import Eventually.Poll.Watch
import Eventually.Proofs.Assertion.Agreement
import Eventually.Proofs.Assertion.Collecting
import Eventually.Proofs.Assertion.Composition
import Eventually.Proofs.Assertion.Lifting
import Eventually.Proofs.Assertion.Offering
import Eventually.Proofs.Assertion.Walk
import Eventually.Proofs.Diff.Differences
import Eventually.Proofs.Diff.Mirror
import Eventually.Proofs.Diff.Report
import Eventually.Proofs.Poll.Absence
import Eventually.Proofs.Poll.Addressing
import Eventually.Proofs.Poll.Bounds
import Eventually.Proofs.Poll.Budget
import Eventually.Proofs.Poll.Convergence
import Eventually.Proofs.Poll.Decisive
import Eventually.Proofs.Poll.Diagnosis
import Eventually.Proofs.Poll.Persistence
import Eventually.Proofs.Poll.Reordering
import Eventually.Proofs.Poll.Selection
import Eventually.Proofs.Poll.Stalled
import Eventually.Proofs.Poll.Timetable
import Eventually.Proofs.Requirement.Explained
import Eventually.Proofs.Requirement.Frame
import Eventually.Proofs.Requirement.Keys
import Eventually.Proofs.Requirement.Lookup
import Eventually.Proofs.Requirement.Monotone
import Eventually.Proofs.Requirement.Passing
import Eventually.Proofs.Requirement.Repair
import Eventually.Proofs.Resource.Reading
import Eventually.Proofs.Resource.Telling
import Eventually.Proofs.Store.Faulty
import Eventually.Proofs.Store.Handles
import Eventually.Proofs.Store.Script
import Eventually.Proofs.Workshop.Accumulation
import Eventually.Requirement.Condition
import Eventually.Requirement.Item
import Eventually.Requirement.Metadata
import Eventually.Requirement.Part
import Eventually.Requirement.Space
import Eventually.Requirement.UserSignup
import Eventually.Resource.Fixture
import Eventually.Shared
import Eventually.Store.Faulty
import Eventually.Store.Script
import Eventually.Store.Shelves
import Eventually.Store.Timeline
import Eventually.Text.ShortName
import Eventually.Workshop
