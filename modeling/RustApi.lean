import RustApi.Lib.Prog
import RustApi.Lib.Pool
import RustApi.Lib.Text
import RustApi.Lib.Path
import RustApi.Lib.Kv
import RustApi.Lib.Locks
import RustApi.Lib.Reach
import RustApi.Records
import RustApi.Policy.Authorizer
import RustApi.Policy.Enforcer
import RustApi.Fs.Store
import RustApi.Fs.Pages
import RustApi.Sync.Wal
import RustApi.World
import RustApi.Sync.Snapshot
import RustApi.Sync.Filter
import RustApi.Sync.Diff
import RustApi.Fs.S3
import RustApi.Fs.Engine
import RustApi.Fs.Gc
import RustApi.Sync.Access
import RustApi.Sync.Append
import RustApi.Sync.Builds
import RustApi.Sync.Pointer
import RustApi.Sync.Mirror
import RustApi.Sync.Objects
import RustApi.Sync.Advance
import RustApi.Sync.Replay
import RustApi.Sync.PolicyReplay
import RustApi.Sync.Batch
import RustApi.Sync.FileReplay
import RustApi.Policy.Engine
import RustApi.Policy.Change
import RustApi.Policy.Feed
import RustApi.Policy.Persist
import RustApi.Policy.Backup
import RustApi.Policy.Save
import RustApi.Policy.Routes
import RustApi.Fs.Refs
import RustApi.Fs.Relations
import RustApi.Lease
import RustApi.Fs.System
import RustApi.Fs.Dangling
import RustApi.Fs.Collect
import RustApi.Fs.Uploads
import RustApi.Fs.Sessions
import RustApi.Fs.Ledger
import RustApi.Fs.Multipart
import RustApi.Fs.Parts
import RustApi.Fs.Immutable
import RustApi.Fs.Expiry
import RustApi.Fs.Orphans
import RustApi.Sync.Crash
import RustApi.Queue.Jobs
import RustApi.Queue.Memory
import RustApi.Queue.Durable
import RustApi.Queue.Rows
import RustApi.Queue.Terminal
import RustApi.Queue.Attempts
import RustApi.Queue.Exclusive
import RustApi.Queue.Idempotent
import RustApi.Queue.Agree
import RustApi.Queue.Worker
import RustApi.Auth.Token
import RustApi.Auth.Tenant
import RustApi.Auth.Jwks
import RustApi.Auth.Redirect
import RustApi.Auth.Login
import RustApi.Fs.Retry
import RustApi.Fs.Plan
import RustApi.Fs.Content
import RustApi.Fs.Download
import RustApi.Fs.Resume
import RustApi.Fs.Range
import RustApi.Fs.Locks
import RustApi.Fs.Garbage
import RustApi.Fs.Token
import RustApi.Limits
import RustApi.Budget
import RustApi.Sweep
