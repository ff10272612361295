import PawFlow.Agui.Credentials
import PawFlow.Agui.ManagedSuccess
import PawFlow.Agui.Replay
import PawFlow.Agui.Rotation
import PawFlow.Authority.Ingress
import PawFlow.Backup.Retention
import PawFlow.Cipher.Migration
import PawFlow.ControlBlocks.Steps
import PawFlow.ConvWriter.Promises
import PawFlow.Conversation.BatchAgreement
import PawFlow.Conversation.LateJoiners
import PawFlow.Conversation.Sequence
import PawFlow.Core.Expiry
import PawFlow.DurableTasks.Releases
import PawFlow.EditTool.Batch
import PawFlow.EditTool.Touched
import PawFlow.Engine.RunOnce
import PawFlow.EventBus.Delivery
import PawFlow.Expression.Escapes
import PawFlow.Expression.Printing
import PawFlow.FileStore.Access
import PawFlow.FileStore.Handoffs
import PawFlow.FlowDef.Cycles
import PawFlow.FlowDef.Flattening
import PawFlow.FlowRun.Outbox
import PawFlow.Gating.Approval
import PawFlow.Gating.Authorization
import PawFlow.Inbox.Fencing
import PawFlow.Interaction.Delivery
import PawFlow.Interaction.Parking
import PawFlow.Interaction.Resolution
import PawFlow.Interaction.Signals
import PawFlow.Kanban.Lanes
import PawFlow.MergeContent.Rejection
import PawFlow.MergeContent.RoundTrip
import PawFlow.Ownership.Atomicity
import PawFlow.ParallelJoin.Correlation
import PawFlow.PatchTool.AllOrNothing
import PawFlow.Routing.Backoff
import PawFlow.Routing.Health
import PawFlow.Secrets.Agreement
import PawFlow.Segments.ColdIndex
import PawFlow.Segments.Counts
import PawFlow.Segments.ReadBack
import PawFlow.Sse.Writer
import PawFlow.StandardApi.Cleanup
import PawFlow.StandardApi.Quotas
import PawFlow.ToolJson.Coercion
import PawFlow.ToolJson.Truncation
import PawFlow.ToolSequence.Stability
import PawFlow.Transcript.Paging
import PawFlow.WorkflowProposal.Review
import PawFlow.WorkflowRun.Active
import PawFlow.WorkflowRun.Budget
import PawFlow.WorkflowRun.Journal
import PawFlow.Engine.Workers
