import WorkflowEngine.Fault
import WorkflowEngine.Text.Blank

/-!
The intervals and limits of the engine. Each has a default that an environment variable replaces;
a variable must hold a positive integer in the range of its setting.
-/

namespace WorkflowEngine

structure Settings where
  timeoutSweepInterval : Span := .ofSeconds 1
  reassignSweepInterval : Span := .ofSeconds 1
  partitionMaintenanceInterval : Span := .ofSeconds 900
  /-- How often each concurrency manager evaluates its strategy. -/
  concurrencyTick : Span := .ofSeconds 1
  /-- How often each concurrency manager checks that its strategy is still in use. -/
  livenessTick : Span := .ofSeconds 5
  slowEvaluationThreshold : Span := .ofMillis 100
  reconcileTick : Span := .ofSeconds 1
  /-- The number of shares that reconciliation is split into. -/
  reconcilePartitions : Nat := 4
  /-- The most pending events folded for one share in one pass. -/
  reconcileBatchLimit : Nat := 10000
  dedupCacheCapacity : Nat := 100000
  retentionDays : Nat := 7
  lockTimeout : Span := .ofSeconds 5
  /-- The redelivery budget of every published message. -/
  messageRetries : Nat := 5
  /-- Retries granted for timeouts and lost workers. -/
  internalRetries : Int := 3
  /-- The largest batch a consumer hands to its handler. -/
  bufferMaxBatch : Nat := 100
  bufferFlushInterval : Span := .ofMillis 10
  /-- The most rows a sweep handles in one pass. -/
  sweepBatchLimit : Nat := 1000
  operationTimeout : Span := .ofSeconds 5
  deriving DecidableEq, Repr

namespace Settings

def maxUnsigned64 : Nat := 18446744073709551615

/-- An unsigned 64-bit numeral, with an optional plus sign. -/
def unsigned? (s : String) : Option Nat :=
  let ds := match s.toList with
    | '+' :: rest => rest
    | cs => cs
  if ds.isEmpty ∨ !ds.all Char.isDigit then none
  else
    let n := Instant.digitsValue ds
    if n ≤ maxUnsigned64 then some n else none

/-- The positive number that a variable is set to, if it is set. -/
def positive (lookup : String → Option String) (key : String) : Except Fault (Option Nat) :=
  match lookup key with
  | none => .ok none
  | some raw =>
    match unsigned? (Text.trim raw) with
    | none => .error (.configuration s!"{key} must be a positive integer, got '{raw}'")
    | some 0 => .error (.configuration s!"{key} must be greater than zero")
    | some n => .ok (some n)

def millis (lookup : String → Option String) (key : String) (default : Span) : Except Fault Span := do
  return ((← positive lookup key).map Span.ofMillis).getD default

def seconds (lookup : String → Option String) (key : String) (default : Span) : Except Fault Span := do
  return ((← positive lookup key).map Span.ofSeconds).getD default

/-- A number of at most the given size. -/
def count (lookup : String → Option String) (key : String) (most default : Nat) : Except Fault Nat := do
  match ← positive lookup key with
  | none => return default
  | some n =>
    if n ≤ most then return n
    else throw (.configuration s!"{key} value {n} exceeds supported range")

def maxUnsigned32 : Nat := 4294967295
def maxSigned32 : Nat := 2147483647

/-- The settings that the variables give. Of several faulty variables the first in this order counts. -/
def ofVariables (lookup : String → Option String) : Except Fault Settings := do
  let d : Settings := {}
  let timeoutSweepInterval ← millis lookup "KILN_TIMEOUT_SWEEP_INTERVAL_MS" d.timeoutSweepInterval
  let reassignSweepInterval ← millis lookup "KILN_REASSIGN_SWEEP_INTERVAL_MS" d.reassignSweepInterval
  let partitionMaintenanceInterval ←
    seconds lookup "KILN_PARTITION_MAINTENANCE_INTERVAL_SECS" d.partitionMaintenanceInterval
  let concurrencyTick ← millis lookup "KILN_CONCURRENCY_TICK_MS" d.concurrencyTick
  let livenessTick ← millis lookup "KILN_CONCURRENCY_LIVENESS_TICK_MS" d.livenessTick
  let slowEvaluationThreshold ←
    millis lookup "KILN_CONCURRENCY_SLOW_EVALUATION_MS" d.slowEvaluationThreshold
  let reconcileTick ← millis lookup "KILN_RECONCILE_TICK_MS" d.reconcileTick
  let reconcilePartitions ←
    count lookup "KILN_RECONCILE_PARTITIONS" maxUnsigned64 d.reconcilePartitions
  let reconcileBatchLimit ←
    count lookup "KILN_RECONCILE_BATCH_LIMIT" maxUnsigned64 d.reconcileBatchLimit
  let dedupCacheCapacity ←
    count lookup "KILN_EVENT_DEDUP_CACHE_CAPACITY" maxUnsigned64 d.dedupCacheCapacity
  let retentionDays ← count lookup "KILN_RETENTION_DAYS" maxUnsigned32 d.retentionDays
  let lockTimeout ← millis lookup "KILN_LOCK_TIMEOUT_MS" d.lockTimeout
  let messageRetries ← count lookup "KILN_MESSAGE_RETRIES" maxUnsigned32 d.messageRetries
  let internalRetries ← count lookup "KILN_INTERNAL_RETRIES" maxSigned32 d.internalRetries.toNat
  let bufferMaxBatch ← count lookup "KILN_BUFFER_MAX_BATCH" maxUnsigned64 d.bufferMaxBatch
  let bufferFlushInterval ← millis lookup "KILN_BUFFER_FLUSH_INTERVAL_MS" d.bufferFlushInterval
  let sweepBatchLimit ← count lookup "KILN_SWEEP_BATCH_LIMIT" maxUnsigned64 d.sweepBatchLimit
  let operationTimeout ← millis lookup "KILN_OPERATION_TIMEOUT_MS" d.operationTimeout
  return { timeoutSweepInterval, reassignSweepInterval, partitionMaintenanceInterval, concurrencyTick,
           livenessTick, slowEvaluationThreshold, reconcileTick, reconcilePartitions,
           reconcileBatchLimit, dedupCacheCapacity, retentionDays, lockTimeout, messageRetries,
           internalRetries, bufferMaxBatch, bufferFlushInterval, sweepBatchLimit, operationTimeout }

/-- The settings with the numbers that are given for them by name, intervals in milliseconds. -/
def ofNumbers (given : String → Option Int) : Settings :=
  let d : Settings := {}
  let number (name : String) (default : Nat) : Nat := ((given name).map Int.toNat).getD default
  let millis (name : String) (default : Span) : Span := .ofMillis (number name default.millis)
  { timeoutSweepInterval := millis "timeout_sweep_interval_ms" d.timeoutSweepInterval
    reassignSweepInterval := millis "reassign_sweep_interval_ms" d.reassignSweepInterval
    partitionMaintenanceInterval :=
      millis "partition_maintenance_interval_ms" d.partitionMaintenanceInterval
    concurrencyTick := millis "concurrency_tick_ms" d.concurrencyTick
    livenessTick := millis "liveness_tick_ms" d.livenessTick
    slowEvaluationThreshold := millis "slow_evaluation_threshold_ms" d.slowEvaluationThreshold
    reconcileTick := millis "reconcile_tick_ms" d.reconcileTick
    reconcilePartitions := number "reconcile_partitions" d.reconcilePartitions
    reconcileBatchLimit := number "reconcile_batch_limit" d.reconcileBatchLimit
    dedupCacheCapacity := number "dedup_cache_capacity" d.dedupCacheCapacity
    retentionDays := number "retention_days" d.retentionDays
    lockTimeout := millis "lock_timeout_ms" d.lockTimeout
    messageRetries := number "message_retries" d.messageRetries
    internalRetries := (given "internal_retries").getD d.internalRetries
    bufferMaxBatch := number "buffer_max_batch" d.bufferMaxBatch
    bufferFlushInterval := millis "buffer_flush_interval_ms" d.bufferFlushInterval
    sweepBatchLimit := number "sweep_batch_limit" d.sweepBatchLimit
    operationTimeout := millis "operation_timeout_ms" d.operationTimeout }

/-- The written form, with intervals in milliseconds but for the longest one. -/
def toJson (s : Settings) : Json := .ofMembers [
  ("timeout_sweep_interval_ms", .ofNat s.timeoutSweepInterval.millis),
  ("reassign_sweep_interval_ms", .ofNat s.reassignSweepInterval.millis),
  ("partition_maintenance_interval_secs", .ofNat s.partitionMaintenanceInterval.seconds),
  ("concurrency_tick_ms", .ofNat s.concurrencyTick.millis),
  ("liveness_tick_ms", .ofNat s.livenessTick.millis),
  ("slow_evaluation_threshold_ms", .ofNat s.slowEvaluationThreshold.millis),
  ("reconcile_tick_ms", .ofNat s.reconcileTick.millis),
  ("reconcile_partitions", .ofNat s.reconcilePartitions),
  ("reconcile_batch_limit", .ofNat s.reconcileBatchLimit),
  ("dedup_cache_capacity", .ofNat s.dedupCacheCapacity),
  ("retention_days", .ofNat s.retentionDays),
  ("lock_timeout_ms", .ofNat s.lockTimeout.millis),
  ("message_retries", .ofNat s.messageRetries),
  ("internal_retries", .int s.internalRetries),
  ("buffer_max_batch", .ofNat s.bufferMaxBatch),
  ("buffer_flush_interval_ms", .ofNat s.bufferFlushInterval.millis),
  ("sweep_batch_limit", .ofNat s.sweepBatchLimit),
  ("operation_timeout_ms", .ofNat s.operationTimeout.millis)]

end Settings

end WorkflowEngine
