import FlowTyping.Options.Basic
import FlowTyping.Visit.Block

/-!
# The solver

All routines of a unit are solved together. A run visits one block after the other from the agenda:
the states that leave a block are joined into the states on entry to its successors, which are
queued whenever that adds something. When the agenda is empty a round ends: every routine publishes
what it returns, and the blocks that used an older result are queued again. The run ends with the
first round that queues nothing, or at the limit on visits.
-/

namespace FlowTyping

/-- One routine during a run. -/
structure RoutineRun where
  body : Body
  facts : Facts
  /-- The state on entry to each block that has been reached. -/
  entries : Array (Option State)
  /-- How often each block was visited. -/
  visits : Array Nat
  /-- Blocks that were held back and must go through on their next visit. -/
  mustComplete : List BlockId
  deriving Inhabited

namespace RoutineRun

/-- A routine that is about to start. -/
def start (b : Body) (r : RoutineDecl) (context : ContextId) (cap : Nat) :
    Except Fault RoutineRun := do
  let facts := Facts.new b (KindTable.new context cap r.cls?)
  let (entry, facts) ← facts.entryState b r
  return {
    body := b
    facts := facts
    entries := (Array.replicate b.blocks.size none).setIfInBounds b.entry (some entry)
    visits := Array.replicate b.blocks.size 0
    mustComplete := [] }

/-- The state on entry to a block, if it has been reached. -/
def entry? (run : RoutineRun) (b : BlockId) : Option State :=
  (run.entries[b]?).join

/-- Joins a state into the entry of a block, and tells whether that adds something. -/
def mergeEntry (run : RoutineRun) (b : BlockId) (s : State) : Except Fault (Bool × RoutineRun) :=
  match run.entries[b]? with
  | none => .error (.missingBlock b)
  | some none => .ok (true, { run with entries := run.entries.setIfInBounds b (some s) })
  | some (some old) => do
    let (grew, joined) ← old.absorb s
    return (grew, { run with entries := run.entries.setIfInBounds b (some joined) })

/-- Joins states into the entries of blocks; the blocks that gained something come back in order. -/
def mergeEntries (run : RoutineRun) :
    List (BlockId × State) → Except Fault (List BlockId × RoutineRun)
  | [] => .ok ([], run)
  | (b, s) :: rest => do
    let (grew, run) ← run.mergeEntry b s
    let (grown, run) ← run.mergeEntries rest
    return (if grew then b :: grown else grown, run)

/-- Counts a visit. -/
def countVisit (run : RoutineRun) (b : BlockId) : RoutineRun :=
  { run with visits := run.visits.modify b (· + 1) }

end RoutineRun

/-- A unit during a run. -/
structure Solver where
  runs : OrderedMap RoutineId RoutineRun
  /-- What each routine returned when the last round ended. -/
  published : OrderedMap RoutineId Summary
  agenda : Agenda
  /-- Visits so far. -/
  iterations : Nat
  /-- The round that is going on, counted from one. -/
  rounds : Nat
  deriving Inhabited

namespace Solver

/-- Adds a routine to a unit that is about to start. -/
def addRoutine (cap : Nat) (s : Solver) (b : Body) (r : RoutineDecl) : Except Fault Solver := do
  let run ← RoutineRun.start b r s.runs.entries.length cap
  return { s with
    runs := s.runs.insert b.routine run
    published := s.published.insert b.routine .nothing
    agenda := (s.agenda.enqueue (b.routine, b.entry)).2 }

/-- A unit whose entry blocks are queued. -/
def start (cap : Nat) (unit : List (Body × RoutineDecl)) : Except Fault Solver :=
  unit.foldlM (fun s b => s.addRoutine cap b.1 b.2) ⟨.empty, .empty, .empty, 0, 1⟩

/-! ### Visiting a block -/

/-- The states that a visit sends on: to the successors, then to the handlers. -/
def flows (block : Block) (o : Outcome) : List (BlockId × State) :=
  o.exits ++
    match o.thrown? with
    | some thrown => block.handlers.map (·, thrown)
    | none => []

/-- Sends the states of a visit on, and queues the blocks that gain something. -/
def propagate (s : Solver) (run : RoutineRun) (block : Block) (o : Outcome) :
    Except Fault Solver := do
  let (grown, run) ← run.mergeEntries (flows block o)
  return { s with
    runs := s.runs.insert run.body.routine run
    agenda := s.agenda.enqueueAll (grown.map (run.body.routine, ·)) }

/-- Visits one block. If a routine called there may still change, the block is held back, unless it
was held back the last time. -/
def visit (d : Declarations) (o : Options) (s : Solver) (ref : BlockRef) : Except Fault Solver := do
  match s.runs.find? ref.1 with
  | none => throw (.strayBlock ref)
  | some run =>
    match run.entry? ref.2, run.body.blocks[ref.2]? with
    | some entry, some block =>
      let env : Setting := ⟨run.body, d, s.published, ref.2⟩
      let (outcome, scene) ← (visitBlock env block).run ⟨entry, run.facts, s.agenda, none⟩
      let mustComplete := decide (ref.2 ∈ run.mustComplete)
      let run := { run.countVisit ref.2 with
        facts := scene.facts
        mustComplete := run.mustComplete.filter (· != ref.2) }
      let s := { s with agenda := scene.agenda, iterations := s.iterations + 1 }
      match scene.pending? with
      | some callee =>
        if o.deferOnPending && !mustComplete then
          return { s with
            runs := s.runs.insert ref.1 run
            agenda := s.agenda.defer callee ref }
        else s.propagate run block outcome
      | none => s.propagate run block outcome
    | _, _ => throw (.unreachedBlock ref)

/-! ### Ending a round -/

/-- Publishes what one routine returns; if that is new, the blocks that used it are queued. -/
def publish (s : Solver) (r : RoutineId) : Except Fault Solver := do
  match s.runs.find? r with
  | none => return s
  | some run =>
    let (m, facts) ← run.facts.result
    let summary ← facts.table.summarize m
    let s := { s with runs := s.runs.insert r { run with facts := facts } }
    if (s.published.find? r).any (· == summary) then return s
    else return { s with
      published := s.published.insert r summary
      agenda := s.agenda.enqueueAll (s.agenda.waiters r) }

/-- Marks a block as one that must go through on its next visit. -/
def requireCompletion (s : Solver) (ref : BlockRef) : Solver :=
  match s.runs.find? ref.1 with
  | none => s
  | some run =>
    let blocks := if ref.2 ∈ run.mustComplete then run.mustComplete else run.mustComplete ++ [ref.2]
    { s with runs := s.runs.insert ref.1 { run with mustComplete := blocks } }

/-- Queues the blocks that were held back for a routine. -/
def release (s : Solver) (r : RoutineId) : Solver :=
  let (refs, agenda) := s.agenda.takeDeferred r
  refs.foldl
    (fun s ref =>
      let s := s.requireCompletion ref
      { s with agenda := (s.agenda.enqueue ref).2 })
    { s with agenda := agenda }

/-- Ends a round: all routines publish, then the blocks held back are queued. -/
def endRound (s : Solver) : Except Fault Solver := do
  let s ← s.runs.keys.foldlM publish s
  return s.published.keys.foldl release s

/-! ### The run -/

/-- What a run does next. -/
inductive Next where
  | visit (ref : BlockRef) (s : Solver)
  /-- The last round queued nothing. -/
  | stop (s : Solver)

/-- The block to visit next. An empty agenda ends the round first. -/
def next (s : Solver) : Except Fault Next := do
  match s.agenda.dequeue with
  | some (ref, agenda) => return .visit ref { s with agenda := agenda }
  | none =>
    let s ← s.endRound
    match s.agenda.dequeue with
    | some (ref, agenda) => return .visit ref { s with agenda := agenda, rounds := s.rounds + 1 }
    | none => return .stop s

/-- Runs until a round queues nothing, which is convergence, or until `budget` visits were made. -/
def run (d : Declarations) (o : Options) : (budget : Nat) → Solver → Except Fault (Bool × Solver)
  | 0, s => do
    match ← s.next with
    | .stop s => return (true, s)
    | .visit _ s => return (false, s)
  | budget + 1, s => do
    match ← s.next with
    | .stop s => return (true, s)
    | .visit ref s => run d o budget (← s.visit d o ref)

end Solver

end FlowTyping
