import NixosDockers.BootstrapModel.PlanOrder
import NixosDockers.Core.HandoffDrop
import NixosDockers.Backend.Identity
import NixosDockers.Core.StartupScope
import NixosDockers.Backend.EnvironmentNames
import NixosDockers.Backend.TrimmedPlan
import NixosDockers.Backend.Retryable
import NixosDockers.Backend.Capacity
import NixosDockers.Backend.PlanPaging
import NixosDockers.ProfileGraph.Traverse
import NixosDockers.DevEnv.StopFinal
import NixosDockers.DevEnv.Reload
import NixosDockers.DevEnv.KeyComplete
import NixosDockers.DevEnv.InitialRuntime
import NixosDockers.Backend.ClientRun
import NixosDockers.Backend.ConnectionFrames
import NixosDockers.BootstrapLoader.MergeRun
import NixosDockers.DevEnvLoader.Providers
import NixosDockers.DevEnvLoader.Load
import NixosDockers.ProfileGraph.Applied
import NixosDockers.DevEnvShell.Printed
import NixosDockers.ConditionExpr.Parentheses
import NixosDockers.BootstrapModel.PlanTotal
import NixosDockers.BootstrapModel.PlanIdentity
import NixosDockers.Core.ConditionTotal
import NixosDockers.Core.FailurePolicy
import NixosDockers.ProfileGraph.DepthLimit
import NixosDockers.Backend.Prepared
import NixosDockers.DevEnvProvider.WorkerProtocol
import NixosDockers.Lib.Lines
import NixosDockers.Lib.Utf8
import NixosDockers.Posix.MountInfo
import NixosDockers.Posix.Accounts
import NixosDockers.Posix.Passwd
import NixosDockers.Posix.LoginShell
import NixosDockers.Posix.Group
import NixosDockers.Posix.MapUser
import NixosDockers.DevEnvCli.Explain
import NixosDockers.DevEnvLoader.Panics
import NixosDockers.UnixFrame.Codec
import NixosDockers.UnixFrame.Deadline
import NixosDockers.BootstrapLoader.MergeOrder
import NixosDockers.ConditionExpr.Leaves
import NixosDockers.DevEnvCore.Paths
import NixosDockers.DevEnvModel.Condition
import NixosDockers.DevEnvModel.ConditionParts
import NixosDockers.DevEnvModel.ProviderOrder
import NixosDockers.DevEnvModel.ShellStatements
import NixosDockers.DevEnvProvider.Condition
import NixosDockers.DevEnvProvider.ConditionDefects
import NixosDockers.DevEnvCore.CacheRuns
import NixosDockers.DevEnvLoader.Ownership
import NixosDockers.DevEnvLoader.Clashes
import NixosDockers.DevEnvLoader.ClashingLoads
import NixosDockers.DevEnvLoader.Declared
import NixosDockers.DevEnvLoader.Additions
import NixosDockers.DevEnvLoader.Visits
import NixosDockers.DevEnvLoader.DeepUnion
import NixosDockers.DevEnvProvider.Glob
import NixosDockers.DevEnvProvider.Detect
import NixosDockers.DevEnv.Containment
import NixosDockers.DevEnv.FrameLimit
import NixosDockers.DevEnvCli.OverlayOrder
import NixosDockers.DevEnvProvider.Config
import NixosDockers.DevEnvProvider.Runner
import NixosDockers.DevEnvProvider.StepPolicies
import NixosDockers.DevEnvCore.Environment
import NixosDockers.DevEnvCore.Materializer
import NixosDockers.DevEnvCore.Precedence
import NixosDockers.DevEnvProvider.Supervisor
import NixosDockers.DevEnvProvider.SupervisorCalls
import NixosDockers.DevEnvProvider.SupervisorReplies
import NixosDockers.DevEnvProvider.SupervisorStop
import NixosDockers.InitCli.ExecBudget
import NixosDockers.InitCli.Preflight
import NixosDockers.InitCli.PreflightLaws
