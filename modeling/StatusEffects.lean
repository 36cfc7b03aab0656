import StatusEffects.Configuration
import StatusEffects.Description
import StatusEffects.Engine.Run
import StatusEffects.Json.Printer
import StatusEffects.Modifier.Fold
import StatusEffects.Modifier.Lists
import StatusEffects.Proofs.Additions
import StatusEffects.Proofs.Admission
import StatusEffects.Proofs.Alternation
import StatusEffects.Proofs.Alternatives
import StatusEffects.Proofs.Arrangement
import StatusEffects.Proofs.Bearing
import StatusEffects.Proofs.CallPaths
import StatusEffects.Proofs.CallStages
import StatusEffects.Proofs.Clock
import StatusEffects.Proofs.Copying
import StatusEffects.Proofs.Counter
import StatusEffects.Proofs.CustomEffectCalls
import StatusEffects.Proofs.CustomEffectEvents
import StatusEffects.Proofs.Documents
import StatusEffects.Proofs.ExactConditions
import StatusEffects.Proofs.Faults
import StatusEffects.Proofs.Folding
import StatusEffects.Proofs.Forms
import StatusEffects.Proofs.Handles
import StatusEffects.Proofs.Interests
import StatusEffects.Proofs.Listeners
import StatusEffects.Proofs.Loading
import StatusEffects.Proofs.Mirroring
import StatusEffects.Proofs.Notices
import StatusEffects.Proofs.Numbers
import StatusEffects.Proofs.Owners
import StatusEffects.Proofs.Periods
import StatusEffects.Proofs.Propagation
import StatusEffects.Proofs.QuietChanges
import StatusEffects.Proofs.Ranking
import StatusEffects.Proofs.Records
import StatusEffects.Proofs.Reductions
import StatusEffects.Proofs.Reentry
import StatusEffects.Proofs.Refusals
import StatusEffects.Proofs.Registration
import StatusEffects.Proofs.Renewal
import StatusEffects.Proofs.Replacing
import StatusEffects.Proofs.Restocking
import StatusEffects.Proofs.Restoring
import StatusEffects.Proofs.Reuse
import StatusEffects.Proofs.Run
import StatusEffects.Proofs.Saving
import StatusEffects.Proofs.Settling
import StatusEffects.Proofs.Shares
import StatusEffects.Proofs.Sorting
import StatusEffects.Proofs.SourcedStacks
import StatusEffects.Proofs.Sparing
import StatusEffects.Proofs.StackCaps
import StatusEffects.Proofs.StackNotices
import StatusEffects.Proofs.Stacking
import StatusEffects.Proofs.Step
import StatusEffects.Proofs.Subscriptions
import StatusEffects.Proofs.Sweep
import StatusEffects.Proofs.Tidy
import StatusEffects.Proofs.Tree
import StatusEffects.Proofs.VisibleStates
import StatusEffects.Proofs.Waiting
import StatusEffects.Proofs.Walks
import StatusEffects.Proofs.Wired
import StatusEffects.Proofs.Wiring
import StatusEffects.Scenario.Rules
import StatusEffects.Scenario.Stage
import StatusEffects.Scenario.Step
import StatusEffects.Scenario.Trigger
import StatusEffects.Snapshot
