import EntityStore.Duration
/-!
# Transaction options

`TxOptions` says how a transaction reads, writes, logs and is retried.  It is an immutable value: each derivation is
a change of one field.  `cancelAfter` is the server's share of a timeout, 2 % less than the caller waits but never
less than 50 ms nor more than 100 ms less; the 2 % are taken in double precision and rounded to a nanosecond.
-/
namespace EntityStore

/-- What a transaction sees of others. -/
inductive Isolation where
  | serializableReadWrite
  | onlineConsistentReadOnly
  | onlineInconsistentReadOnly
  | staleConsistentReadOnly
  | snapshot
deriving DecidableEq

namespace Isolation

def isReadWrite : Isolation → Bool
  | .serializableReadWrite => true
  | _ => false

def isReadOnly (i : Isolation) : Bool := !i.isReadWrite

/-- All levels, the one for writing first. -/
def all : List Isolation :=
  [.serializableReadWrite, .onlineConsistentReadOnly, .onlineInconsistentReadOnly, .staleConsistentReadOnly, .snapshot]

/-- The level's name in a configuration. -/
def name : Isolation → String
  | .serializableReadWrite => "SerializableReadWrite"
  | .onlineConsistentReadOnly => "OnlineConsistentReadOnly"
  | .onlineInconsistentReadOnly => "OnlineInconsistentReadOnly"
  | .staleConsistentReadOnly => "StaleConsistentReadOnly"
  | .snapshot => "Snapshot"

/-- What a transaction's log identifier ends in. -/
def suffix : Isolation → String
  | .serializableReadWrite => ""
  | .onlineConsistentReadOnly => "OC"
  | .onlineInconsistentReadOnly => "OI"
  | .staleConsistentReadOnly => "SC"
  | .snapshot => "SP"

def text : Isolation → String
  | .serializableReadWrite => "SERIALIZABLE_READ_WRITE"
  | .onlineConsistentReadOnly => "ONLINE_CONSISTENT_READ_ONLY"
  | .onlineInconsistentReadOnly => "ONLINE_INCONSISTENT_READ_ONLY"
  | .staleConsistentReadOnly => "STALE_CONSISTENT_READ_ONLY"
  | .snapshot => "SNAPSHOT"

end Isolation

/-- How much of a transaction its log keeps. -/
inductive LogLevel where
  /-- Statements and summaries. -/
  | debug
  /-- Summaries only. -/
  | info
  | off
deriving DecidableEq

namespace LogLevel

/-- All levels, the one that keeps most first. -/
def all : List LogLevel := [.debug, .info, .off]

/-- The level's name in a configuration. -/
def name : LogLevel → String
  | .debug => "Debug"
  | .info => "Info"
  | .off => "Off"

/-- Whether a log of this level keeps a message of the given level. -/
def accepts : LogLevel → LogLevel → Bool
  | .debug, .debug => true
  | .debug, .info => true
  | .info, .info => true
  | _, _ => false

end LogLevel

/-- When writes reach the store. -/
inductive WriteMode where
  /-- They are queued until commit. -/
  | delayed
  | immediate
deriving DecidableEq

/-- The mode's name in a configuration. -/
def WriteMode.name : WriteMode → String
  | .delayed => "Delayed"
  | .immediate => "Immediate"

/-- Whether a failure of unknown outcome may be retried. -/
inductive RetryMode where
  | never
  /-- Unless a transaction that may write has tried to commit. -/
  | untilCommit
  | always
deriving DecidableEq

/-- The mode's name in a configuration. -/
def RetryMode.name : RetryMode → String
  | .never => "Never"
  | .untilCommit => "UntilCommit"
  | .always => "Always"

/-- The limits of a scan. -/
structure ScanLimits where
  /-- The number of rows that one read may return. -/
  maxSize : Nat := 10000
  timeout : Duration := .ofSeconds 300
deriving DecidableEq

namespace Timeout

/-- The timeout where none is set. -/
def standard : Duration := .ofSeconds 300

/-- The significand of the double nearest to 0.02, whose exponent is −58; two to the power of 58 is 288230376151711744. -/
def fiftiethSignificand : Nat := 5764607523034235

/-- Two per cent of a time, as double precision gives them. -/
def twoPercent (t : Duration) : Duration :=
  let product := Rounding.binary53 (Rounding.binary53 t.nanos * fiftiethSignificand)
  ⟨Rounding.divHalfUp product 288230376151711744⟩

def minCut : Duration := .ofMillis 50

def maxCut : Duration := .ofMillis 100

/-- How much earlier than the caller the server gives up. -/
def cut (t : Duration) : Duration := ⟨min (max (twoPercent t).nanos minCut.nanos) maxCut.nanos⟩

/-- After what time the server gives up; a timeout too short to take anything off stays as it is. -/
def cancelAfter (t : Duration) : Duration :=
  if (cut t).nanos ≤ t.nanos then ⟨t.nanos - (cut t).nanos⟩ else t

end Timeout

/-- How a transaction runs. -/
structure TxOptions where
  isolation : Isolation := .serializableReadWrite
  cache : Bool := true
  logLevel : LogLevel := .debug
  /-- Whether the log is reported after a successful commit. -/
  logOnSuccess : Bool := true
  /-- Present for scans only. -/
  scan : Option ScanLimits := none
  timeout : Option Duration := none
  retry : RetryMode := .untilCommit
  /-- Whether the transaction always ends in a rollback. -/
  dryRun : Bool := false
  writeMode : WriteMode := .delayed
deriving DecidableEq

namespace TxOptions

variable (o : TxOptions)

def isImmediate : Bool := o.writeMode = .immediate

def isScan : Bool := o.scan.isSome

def isReadWrite : Bool := o.isolation.isReadWrite

def isReadOnly : Bool := !o.isReadWrite

/-- Whether the transaction may write. -/
def isMutable : Bool := o.isReadWrite && !o.isScan

/-- Whether a failure of unknown outcome may be retried. -/
def canRetry (commitAttempted : Bool) : Bool :=
  match o.retry with
  | .always => true
  | .never => false
  | .untilCommit => !commitAttempted || o.isReadOnly || o.isScan

/-- The shorter of the configured timeout and a caller's deadline. -/
def effectiveTimeout (deadline : Option Duration) : Duration :=
  match o.timeout, deadline with
  | none, none => Timeout.standard
  | none, some d => d
  | some t, none => t
  | some t, some d => if t.nanos < d.nanos then t else d

end TxOptions

end EntityStore
