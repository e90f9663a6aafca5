import SharedPrompt.Worker.Settle

/-!
# Watching workers

A watch is a crew with names for the units whose answers somebody waits for. A step does one thing
and lets the crew come to rest; its report is what has come about since the last.
-/

namespace SharedPrompt

inductive CrewStep where
  | run (worker id : String) (list : Work) (withOwner : Bool)
  | runBlocking (worker : String) (list : Work)
  /-- Nobody waits any longer; the unit is done all the same. -/
  | drop (worker id : String)
  | dropOwner (worker : String)
  | dropClient (worker : String)
  | openBarrier (name : String)
  | fail (worker : String) (switch : Switch) (on : Bool)
  | variable_ (worker name : String)
  | none
  deriving Inhabited

inductive CrewAnswer where
  | none
  | flag (b : Bool)
  | result (r : WorkResult)
  | value (v : Option Value)
  deriving Inhabited

structure Watch where
  crew : Crew := {}
  /-- Whose answers are waited for, by ticket. -/
  waited : List ((String × String) × Nat) := []
  seenCalls : Nat := 0
  seenNotices : Nat := 0
  deriving Inhabited

structure CrewReport where
  answer : CrewAnswer
  finished : List ((String × String) × WorkResult)
  calls : List Call
  notices : List Notice
  watch : Watch
  deriving Inhabited

namespace Watch

/-- The outside can still reach a worker, through its owner or through a client. -/
def reaches (w : Watch) (name : String) : Bool :=
  match w.crew.worker? name with
  | some v => v.owner == .outside || 0 < v.clients
  | .none => false

def act (w : Watch) : CrewStep → CrewAnswer × Watch
  | .run worker id list withOwner =>
    let (ticket, crew) := w.crew.submit worker none list
    let crew := if withOwner then crew.giveOwner worker ticket else crew
    (.none, { w with crew, waited := w.waited ++ [((worker, id), ticket)] })
  | .runBlocking worker list =>
    let (r, crew) := w.crew.call worker list
    (.result r, { w with crew })
  | .drop worker id =>
    (.flag (w.waited.any (·.1 = (worker, id))), { w with waited := w.waited.filter (·.1 ≠ (worker, id)) })
  | .dropOwner worker => (.none, { w with crew := w.crew.dropOwner worker })
  | .dropClient worker => (.none, { w with crew := w.crew.apply (.dropClient worker) })
  | .openBarrier name => (.none, { w with crew := w.crew.apply (.openBarrier name) })
  | .fail worker switch on => (.none, { w with crew := w.crew.apply (.failing worker switch on) })
  | .variable_ worker name => (.value ((w.crew.worker? worker).bind (·.engine.variable_ name)), w)
  | .none => (.none, w)

def step (w : Watch) (s : CrewStep) : CrewReport × Watch :=
  let (answer, w) := w.act s
  let crew := w.crew.settle Crew.patience
  let finished := w.waited.filterMap fun (name, ticket) => (crew.answer? ticket).map (name, ·)
  let waited := w.waited.filter fun (_, ticket) => (crew.answer? ticket).isNone
  let calls := crew.trace.calls.drop w.seenCalls
  let notices := crew.trace.notices.drop w.seenNotices
  let w := { w with
    crew, waited, seenCalls := crew.trace.calls.length, seenNotices := crew.trace.notices.length }
  ({ answer, finished, calls, notices, watch := w }, w)

end Watch

end SharedPrompt
