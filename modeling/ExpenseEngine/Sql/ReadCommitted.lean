import ExpenseEngine.Sql.Prog
import Mathlib.Data.Fintype.Basic

/-!
# Transactions side by side

Each party runs one program in a transaction of its own at READ COMMITTED. A
SELECT sees what is committed at that moment and the party's own writes. A row
that is locked, rewritten or inserted stays with its party until the transaction
ends; whoever else visits it waits, and then finds the newest version. An
advisory lock works the same way. A commit publishes the writes of the party, a
failure or a kill (deadlock, lost connection) drops them.

A run is any list of events, so every interleaving is one; an event of a party
that has to wait changes nothing.
-/

namespace Sql

variable {T : Type} [DecidableEq T] {Row : T → Type} [Schema Row] {L ε α ι : Type}

/-! ## The parties -/

/-- The tables under the writes `own`. -/
def overlay (own : (t : T) → List (Row t)) (db : Db Row) : Db Row :=
  fun t => (own t).foldl Table.put (db t)

/-- What a SELECT saw, with the writes and the locks of its party and the number
of commits in the system at that moment. -/
structure Seen (Row : T → Type) [Schema Row] (L : Type) where
  label : L
  view : Db Row
  own : (t : T) → List (Row t)
  held : (t : T) → List (Row t)
  advisory : List Int
  commits : Nat

/-- The side of a transaction that is its own: the row images it wrote, oldest
first; the committed rows it found and locked; its advisory locks; what its
SELECTs saw; the rows that made an INSERT do nothing. -/
structure Local (Row : T → Type) [Schema Row] (L : Type) where
  own : (t : T) → List (Row t)
  held : (t : T) → List (Row t)
  advisory : List Int
  seen : List (Seen Row L)
  met : (t : T) → List (Row t)

namespace Local

def init : Local Row L := ⟨fun _ => [], fun _ => [], [], [], fun _ => []⟩

variable (l : Local Row L)

/-- The database as the transaction sees it. -/
def view (db : Db Row) : Db Row := overlay l.own db

/-- The row as the transaction has written or locked it. -/
def version (t : T) (key : Schema.Key Row t) : Option (Row t) :=
  ((l.own t).reverse ++ l.held t).find? fun r => decide (Schema.key t r = key)

def saw (label : L) (db : Db Row) (commits : Nat) : Local Row L :=
  { l with seen := ⟨label, db, l.own, l.held, l.advisory, commits⟩ :: l.seen }

def lock (t : T) (r : Row t) : Local Row L :=
  { l with held := Function.update l.held t (r :: l.held t) }

/-- Lock the row that a visit found, unless it is the transaction's already. -/
def hold (t : T) : Option (Row t) → Local Row L
  | none => l
  | some r => if (l.version t (Schema.key t r)).isSome then l else l.lock t r

def write (t : T) (r : Row t) : Local Row L :=
  { l with own := Function.update l.own t (l.own t ++ [r]) }

def advise (n : Int) : Local Row L := { l with advisory := n :: l.advisory }

def meet (t : T) (o : Option (Row t)) : Local Row L :=
  { l with met := Function.update l.met t (o.toList ++ l.met t) }

end Local

inductive Phase (Row : T → Type) [Schema Row] (L ε α : Type) : Type where
  | running (p : Prog Row L ε α)
  | committed (a : α)
  | failed (e : Failure ε)
  | killed

structure Party (Row : T → Type) [Schema Row] (L ε α : Type) where
  phase : Phase Row L ε α
  loc : Local Row L

namespace Party

def isRunning (p : Party Row L ε α) : Bool :=
  match p.phase with
  | .running _ => true
  | _ => false

/-- The party has the row with this key. -/
def holds (p : Party Row L ε α) (t : T) (key : Schema.Key Row t) : Bool :=
  p.isRunning && (p.loc.version t key).isSome

/-- An INSERT of `r` has to know how the party ends. -/
def disputes (p : Party Row L ε α) (t : T) (r : Row t) (skip : Row t → Bool) : Bool :=
  p.isRunning && (p.loc.own t).any fun x =>
    decide (Schema.key t x = Schema.key t r) || Schema.clash t x r || skip x

def holdsAdvisory (p : Party Row L ε α) (n : Int) : Bool :=
  p.isRunning && decide (n ∈ p.loc.advisory)

end Party

/-! ## The system -/

structure State (Row : T → Type) [Schema Row] (L ε α ι : Type) where
  db : Db Row
  party : ι → Party Row L ε α
  commits : Nat

/-- A party takes its next action, or is killed. -/
inductive Event (ι : Type) where
  | act (i : ι)
  | kill (i : ι)

variable [Fintype ι] [DecidableEq ι]

namespace State

def start (db : Db Row) (progs : ι → Prog Row L ε α) : State Row L ε α ι :=
  ⟨db, fun i => ⟨.running (progs i), .init⟩, 0⟩

/-- Another party stands in the way. -/
abbrev Waits (s : State Row L ε α ι) (i : ι) (f : Party Row L ε α → Bool) : Prop :=
  ∃ j, j ≠ i ∧ f (s.party j) = true

def set (s : State Row L ε α ι) (i : ι) (phase : Phase Row L ε α) (l : Local Row L) :
    State Row L ε α ι :=
  { s with party := Function.update s.party i ⟨phase, l⟩ }

/-- The party commits: its writes are the tables of everybody. -/
def commit (s : State Row L ε α ι) (i : ι) (a : α) : State Row L ε α ι where
  db := (s.party i).loc.view s.db
  party := Function.update s.party i ⟨.committed a, (s.party i).loc⟩
  commits := s.commits + 1

/-- The next action of the party `i`, which runs `p`. -/
def advance (s : State Row L ε α ι) (i : ι) : Prog Row L ε α → State Row L ε α ι
  | .ret a => s.commit i a
  | .fail e => s.set i (.failed e) (s.party i).loc
  | .select label k =>
    let l := (s.party i).loc
    s.set i (.running (k (l.view s.db))) (l.saw label (l.view s.db) s.commits)
  | .lock t key w k =>
    if s.Waits i fun p => p.holds t key then s
    else
      let l := (s.party i).loc
      let o := (l.view s.db t).find? key
      s.set i (.running (k (o.filter w))) (l.hold t o)
  | .update t key w f k =>
    if s.Waits i fun p => p.holds t key then s
    else
      let l := (s.party i).loc
      let o := (l.view s.db t).find? key
      match o.filter w with
      | none => s.set i (.running (k none)) (l.hold t o)
      | some r =>
        if s.Waits i fun p => p.disputes t (f.apply r) fun _ => false then s
        else if (l.view s.db).accepts t (f.apply r) then
          s.set i (.running (k (some (f.apply r)))) ((l.hold t o).write t (f.apply r))
        else s.set i (.failed .database) (l.hold t o)
  | .insert t r skip k =>
    if s.Waits i fun p => p.disputes t r skip then s
    else
      let l := (s.party i).loc
      match (l.view s.db).tryInsert t r skip with
      | none => s.set i (.failed .database) l
      | some .inserted => s.set i (.running (k .inserted)) (l.write t r)
      | some .skipped =>
        s.set i (.running (k .skipped)) (l.meet t ((l.view s.db t).rows.find? skip))
      | some .violation => s.set i (.running (k .violation)) l
  | .advisory n k =>
    if s.Waits i fun p => p.holdsAdvisory n then s
    else s.set i (.running k) ((s.party i).loc.advise n)

def step (s : State Row L ε α ι) : Event ι → State Row L ε α ι
  | .act i =>
    match (s.party i).phase with
    | .running p => s.advance i p
    | _ => s
  | .kill i => if (s.party i).isRunning then s.set i .killed (s.party i).loc else s

def run (s : State Row L ε α ι) (events : List (Event ι)) : State Row L ε α ι :=
  events.foldl step s

/-- Every commit of the run meets `ok` in the state it starts from. -/
def Along (ok : State Row L ε α ι → ι → Prop) : State Row L ε α ι → List (Event ι) → Prop
  | _, [] => True
  | s, e :: events =>
    (∀ i a, e = .act i → (s.party i).phase = .running (.ret a) → ok s i) ∧
      Along ok (s.step e) events

/-- No condition on the commits. -/
theorem along_true (s : State Row L ε α ι) (events : List (Event ι)) :
    Along (fun _ _ => True) s events := by
  induction events generalizing s with
  | nil => trivial
  | cons e events ih => exact ⟨fun _ _ _ _ => trivial, ih _⟩

end State

end Sql
