import Cordum.Proof.GetState
import Cordum.Proof.Revoke
import Cordum.Proof.Terminal
import Cordum.Proof.Delegation
import Cordum.Proof.Bypass
import Cordum.Proof.Result
import Cordum.Proof.Delivery
import Cordum.Proof.DeadLetters
import Cordum.Proof.TenantLimit
import Cordum.Proof.Outbox
import Cordum.Proof.Exclusive
import Cordum.Proof.Isolation
import Cordum.Proof.Recovery
import Cordum.Proof.RunStatus
import Cordum.Proof.RunFinal
import Cordum.Proof.Nesting
import Cordum.Proof.AuditHash
import Cordum.Proof.RunIndexes
import Cordum.Proof.Loops
import Cordum.Proof.FanOut
import Cordum.Proof.Caps
import Cordum.Proof.AuditHonest
import Cordum.Proof.AuditTenants
import Cordum.Proof.Floor
import Cordum.Proof.McpLabels
import Cordum.Proof.InputFloor
import Cordum.Proof.DelayTimers
import Cordum.Proof.StepHashes
import Cordum.Proof.JobIDs
import Cordum.Proof.Velocity
import Cordum.Proof.DecisionCache
import Cordum.Proof.Reload
import Cordum.Proof.OutputMerge
import Cordum.Proof.Redaction
import Cordum.Proof.OutputRules
import Cordum.Mcp.Taint
import Cordum.Proof.Revoked
import Cordum.Proof.Cascade
import Cordum.Infra.Resource
import Cordum.Proof.ResourceLocks
import Cordum.Proof.Verdicts
import Cordum.Proof.Dag
import Cordum.Proof.Rerun
import Cordum.Proof.Backoff
