import SharedPrompt.Host.Idle
import SharedPrompt.Host.Leasing

/-!
# Running a command

While a reader in the engine's process holds the line, an ordinary command is parked for an idle
moment. Any other command waits for its permit and is then given to a thread, which keeps the
permit until the engine has returned, whether or not somebody still waits for the answer. A token
that fires before that ends the call without an answer of the engine.

Where a call waits for one of two things, `bias` says for each such place, outermost first,
whether the second is looked at first. Without a word the order is that of the text.
-/

namespace SharedPrompt

namespace Host

/-- Waits for a call or for a token, whichever comes first; the call is given up when the token
does. -/
def orFired {σ α : Type} (h : Host) (me token : Nat) (eager : Bool) (abandon : Host → Host) (fired : α)
    (step : Host → Host × Poll σ α) : Host × Poll σ α :=
  let giveUp (h : Host) : Host × Poll σ α := (abandon (h.forgetToken token me), .done fired)
  if eager && h.tokens.isFired token then giveUp h
  else match step h with
    | (h, .blocked) =>
      if h.tokens.isFired token then giveUp h else (h.awaitToken token me, .blocked)
    | (h, .next s) => (h, .next s)
    | (h, .done a) => (h.forgetToken token me, .done a)

/-- Gives a job and its permit to a new thread, to run on the pipeline that is current now. -/
def dispatch (h : Host) (me : Nat) (permit : Permit) (job : Job) : Nat × Host :=
  let (reply, h) := h.newReply me
  let pipeline := h.stack.currentPipeline job.options.readLine
  (reply, h.spawnThread [.errand .start ⟨permit, pipeline, job, reply⟩])

end Host

namespace Execution

/-- Whether a command has to wait for an idle moment of the reader. -/
def mustPark (h : Host) (options : Options) : Bool :=
  !options.readLine && h.lineBusy && h.engine.inProcess

def step (h : Host) (me : Nat) (bias : List Bool) : Execution → Host × Poll Execution RunResult
  | start job =>
    (h, .next (if mustPark h job.options then .idle (.start job) job.token
      else .leasing (.choose job.options.readLine) job))
  | idle call token =>
    let r := h.orFired me token (bias.headD false) call.abandon (.error .cancelled) (call.step · me)
    (r.1, r.2.map (.idle · token) id)
  | leasing lease job =>
    let r : Host × Poll Leasing (Option Permit) :=
      h.orFired me job.token (bias.headD false) lease.abandon none fun h =>
        let r := lease.step h me
        (r.1, r.2.map id some)
    match r with
    | (h, .blocked) => (h, .blocked)
    | (h, .next lease) => (h, .next (.leasing lease job))
    | (h, .done (some permit)) => (h, .next (.granted permit job))
    | (h, .done none) => (h, .done (.error .cancelled))
  | granted permit job =>
    let (reply, h) := h.dispatch me permit job
    (h, .next (.running reply))
  | running reply =>
    match h.replies[reply]? with
    | some (.sent r) => (h.closeReply reply, .done r)
    | _ => (h, .blocked)

/-- A job that a thread has begun goes on without its caller. -/
def abandon (h : Host) (me : Nat) : Execution → Host
  | start _ => h
  | idle call token => (call.abandon h).forgetToken token me
  | leasing lease job => (lease.abandon h).forgetToken job.token me
  | granted permit _ => h.releasePermit permit
  | running reply => h.closeReply reply

end Execution

end SharedPrompt
