import ForgeNode.Editor.Primary
import ForgeNode.Editor.Restoring
import ForgeNode.Editor.Cutting
import ForgeNode.Editor.Accounts
import ForgeNode.Editor.UndoLaw
import ForgeNode.Editor.Following
import ForgeNode.Editor.Brackets
import ForgeNode.Editor.Complete
import ForgeNode.Editor.FoldLaw
import ForgeNode.Orchestration.Restart
import ForgeNode.Orchestration.TaskLaw
import ForgeNode.Orchestration.Writes
import ForgeNode.Orchestration.Dependencies
import ForgeNode.Orchestration.Attendance
import ForgeNode.Orchestration.Board
import ForgeNode.Orchestration.Receipts
import ForgeNode.Prompts.Pointer
import ForgeNode.Prompts.Delivery
import ForgeNode.Terminal.Frames
import ForgeNode.Terminal.HistoryClear
import ForgeNode.Terminal.Paste
import ForgeNode.Terminal.Scrollback
import ForgeNode.Terminal.Copying
import ForgeNode.Sessions.Graph
import ForgeNode.Sessions.Processes
import ForgeNode.Sessions.Idle
import ForgeNode.Language.Requests
import ForgeNode.Language.Documents
import ForgeNode.Language.Uri
import ForgeNode.Language.Hint
import ForgeNode.Git.Worktree
import ForgeNode.Git.Splitting
import ForgeNode.Review.Pack
import ForgeNode.Protocol.Control
import ForgeNode.Sessions.Readiness
import ForgeNode.Search.Definitions
import ForgeNode.Search.Masking
import ForgeNode.Files.Containment
import ForgeNode.Search.Agreement
import ForgeNode.Editor.View
import ForgeNode.Editor.Pointer
import ForgeNode.Orchestration.RoundTrip
import ForgeNode.Orchestration.AttemptLaw
import ForgeNode.Saves.Clean
