import RemoteRobot.Lib.CborCodec
import RemoteRobot.Program.RoundTrip
import RemoteRobot.Program.Dense
import RemoteRobot.Program.Outline
import RemoteRobot.Program.Untrusted
import RemoteRobot.Orchestrator.Exclusive
import RemoteRobot.Orchestrator.StopAll
import RemoteRobot.Orchestrator.Barrier
import RemoteRobot.Journal.Replay
import RemoteRobot.Network
import RemoteRobot.Orchestrator.Pinned
import RemoteRobot.Orchestrator.Lifecycle
import RemoteRobot.Orchestrator.Skew
import RemoteRobot.Orchestrator.Leasing
import RemoteRobot.Visibility
import RemoteRobot.Orchestrator.Stale
import RemoteRobot.Stream.Chunks
import RemoteRobot.Stream.Limits
import RemoteRobot.Stream.Curve
import RemoteRobot.Stream.Stopping
import RemoteRobot.Stream.Pacing
import RemoteRobot.Stream.Session
import RemoteRobot.Ipc.Readers
import RemoteRobot.Worker.Atomic
import RemoteRobot.Worker.Teardown
import RemoteRobot.Journal.Truncated
import RemoteRobot.Journal.Refused
import RemoteRobot.Orchestrator.Handover
import RemoteRobot.Orchestrator.Secrets
import RemoteRobot.Operations.Feed
import RemoteRobot.Contention
import RemoteRobot.Lib.Ranked
import RemoteRobot.Operations.Runs
import RemoteRobot.Operations.State
import RemoteRobot.Operations.Occupancy
import RemoteRobot.Stream.Supervision
import RemoteRobot.Stream.Split
import RemoteRobot.Stream.Arm
import RemoteRobot.Stream.Calibration
import RemoteRobot.Lib.Parts
import RemoteRobot.Operations.Refresh
import RemoteRobot.Migrate
import RemoteRobot.Lib.Recursion
import RemoteRobot.Graph
import RemoteRobot.Assurance
import RemoteRobot.Journal.Stores
import RemoteRobot.Orchestrator.Grouping
import RemoteRobot.Orchestrator.Backlog
import RemoteRobot.Worker.Refinement
