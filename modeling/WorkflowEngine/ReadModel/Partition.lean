import WorkflowEngine.Calendar.Instant

/-!
The days that the tables of the read model are split by. Today and tomorrow have to be there before
rows are written for them; days before the retention window are dropped.
-/

namespace WorkflowEngine

/-- A table of the read model that is split by days. -/
inductive Table where
  | tasks
  | dags
  | runs
  deriving DecidableEq, Repr

namespace Table

def all : List Table := [tasks, dags, runs]

def name : Table → String
  | tasks => "v2_tasks_olap"
  | dags => "v2_dags_olap"
  | runs => "v2_runs_olap"

def ofName? (s : String) : Option Table := all.find? (·.name == s)

instance : Inhabited Table := ⟨tasks⟩

/-- The name of the part of the table for one day. -/
def partitionName (t : Table) (d : Date) : String :=
  let (year, month, day) := d.ymd
  t.name ++ "_" ++ Date.yearText year ++ Date.padded 2 month ++ Date.padded 2 day

end Table

/-- The largest number of shares. -/
def maxShares : Nat := 9223372036854775807

/-- The share that a numeric id belongs to. -/
def hashPartition (id : Int) (partitions : Nat) : Nat :=
  (id % (min (max partitions 1) maxShares : Nat)).toNat

/-- Inserts a day into ascending days, once. -/
def insertDate (d : Date) : List Date → List Date
  | [] => [d]
  | e :: rest => if d < e then d :: e :: rest else if d = e then e :: rest else e :: insertDate d rest

/-- The day after, or the day itself at the end of the calendar. -/
def Date.next (d : Date) : Date := (d.add? 1).getD d

/-- The days that have to be there. -/
def requiredDates (now : Instant) : List Date := [now.date, now.date.next]

/-- The first day that is kept. -/
def retentionCutoff (now : Instant) (retentionDays : Nat) : Date :=
  (now.date.add? (-retentionDays)).getD ⟨Date.minDay⟩

structure PartitionPlan where
  create : List Date := []
  drop : List Date := []
  deriving DecidableEq, Repr

namespace PartitionPlan

def isEmpty (p : PartitionPlan) : Bool := p.create.isEmpty && p.drop.isEmpty

/-- What has to change about the ascending days that exist. -/
def make (existing : List Date) (now : Instant) (retentionDays : Nat) : PartitionPlan where
  create := (requiredDates now).filter (!existing.contains ·)
  drop := existing.filter (· < retentionCutoff now retentionDays)

end PartitionPlan

end WorkflowEngine
